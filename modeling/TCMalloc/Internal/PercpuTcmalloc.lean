import Mathlib

/-!
`TcmallocSlab` of `percpu_tcmalloc.h`: per cpu and size class a header whose
`current` and `end` are kept here as offsets from the class's `begin`, so that
`Length` is `length` and `Capacity` is `capacity`; the objects themselves are
not modelled.  Header offsets are naturals: the source's `uint16_t` header
arithmetic never wraps on the values it holds, while the narrowings of a
`size_t` argument to `uint16_t` (`len`, `have`, `max_cap - ...`) stay as
`% 2 ^ 16`.  A cpu is passed where the source means the current one.
-/

set_option autoImplicit false
set_option relaxedAutoImplicit false

namespace TCMalloc.Internal

/-- A slab header: `length = current - begin`, `capacity = end - begin`. -/
structure Header where
  length : Nat
  capacity : Nat
  length_le : length ≤ capacity

namespace Header

/-- A header with no capacity, as `InitCpuImpl` and the drains leave it. -/
def empty : Header := ⟨0, 0, Nat.le_refl 0⟩

theorem ext_iff' {a b : Header} : a = b ↔ a.length = b.length ∧ a.capacity = b.capacity := by
  cases a
  cases b
  simp only [mk.injEq]

instance : DecidableEq Header := fun a b =>
  decidable_of_iff (a.length = b.length ∧ a.capacity = b.capacity) ext_iff'.symm

end Header

structure TcmallocSlab where
  header : Nat → Nat → Header
  shift : Nat

/-- One per-cpu entry the drain handler is called with: `(cpu, size_class, count, cap)`. -/
structure Drained where
  cpu : Nat
  sizeClass : Nat
  count : Nat
  cap : Nat
deriving DecidableEq, Repr

namespace TcmallocSlab

variable (s : TcmallocSlab)

def setHeader (cpu sizeClass : Nat) (h : Header) : TcmallocSlab :=
  { s with header := Function.update s.header cpu (Function.update (s.header cpu) sizeClass h) }

/-- `Length`. -/
def length (cpu sizeClass : Nat) : Nat := (s.header cpu sizeClass).length

/-- `Capacity`. -/
def capacity (cpu sizeClass : Nat) : Nat := (s.header cpu sizeClass).capacity

/-- `Push` on `cpu`: `false` is an overflow, when `current` has reached `end`. -/
def push (cpu sizeClass : Nat) : TcmallocSlab × Bool :=
  let h := s.header cpu sizeClass
  if hlt : h.length < h.capacity then
    (s.setHeader cpu sizeClass ⟨h.length + 1, h.capacity, hlt⟩, true)
  else (s, false)

/-- `Pop` on `cpu`: `false` is an underflow, when `current` is at `begin`. -/
def pop (cpu sizeClass : Nat) : TcmallocSlab × Bool :=
  let h := s.header cpu sizeClass
  if 0 < h.length then
    (s.setHeader cpu sizeClass ⟨h.length - 1, h.capacity, Nat.le_trans (Nat.sub_le _ _) h.length_le⟩, true)
  else (s, false)

/-- `Grow` on `cpu` by at most `len`, up to `max_capacity(shift)`; `stored` is
whether `StoreCurrentCpu` found the thread still on `cpu`. -/
def grow (cpu sizeClass len : Nat) (maxCapacity : Nat → Nat) (stored : Bool) : TcmallocSlab × Nat :=
  let h := s.header cpu sizeClass
  let room : Int := (maxCapacity s.shift : Int) - h.capacity
  if room ≤ 0 then (s, 0)
  else
    let n := min (len % 2 ^ 16) (room.toNat % 2 ^ 16)
    if stored then
      (s.setHeader cpu sizeClass ⟨h.length, h.capacity + n, Nat.le_add_right_of_le h.length_le⟩, n)
    else (s, 0)

/-- `GrowOtherCache` on a stopped `cpu`. -/
def growOtherCache (cpu sizeClass len : Nat) (maxCapacity : Nat → Nat) : TcmallocSlab × Nat :=
  let h := s.header cpu sizeClass
  let toGrow := min (len % 2 ^ 16) ((((maxCapacity s.shift : Int) - h.capacity) % 2 ^ 16).toNat)
  (s.setHeader cpu sizeClass ⟨h.length, h.capacity + toGrow, Nat.le_add_right_of_le h.length_le⟩, toGrow)

/-- What `ShrinkOtherCache` leaves of `current`: objects are popped (and given to
the shrink handler) when fewer than `len` slots are unused. -/
def shrinkLength (h : Header) (len : Nat) : Nat :=
  let unused := (h.capacity - h.length) % 2 ^ 16
  if unused < len ∧ h.length ≠ 0 then h.length - min ((len - unused) % 2 ^ 16) (h.length % 2 ^ 16)
  else h.length

theorem shrinkLength_le (h : Header) (len : Nat) : shrinkLength h len ≤ h.length := by
  unfold shrinkLength
  dsimp only
  split <;> omega

/-- `ShrinkOtherCache` on a stopped `cpu`: the capacity shrinks by at most `len`. -/
def shrinkOtherCache (cpu sizeClass len : Nat) : TcmallocSlab × Nat :=
  let h := s.header cpu sizeClass
  let length := shrinkLength h len
  let toShrink := min (len % 2 ^ 16) ((h.capacity - length) % 2 ^ 16)
  (s.setHeader cpu sizeClass ⟨length, h.capacity - toShrink, by
    have := shrinkLength_le h len
    have := h.length_le
    have : toShrink ≤ h.capacity - length := Nat.le_trans (Nat.min_le_right _ _) (Nat.mod_le _ _)
    omega⟩, toShrink)

/-- `InitCpu`: every header of `cpu` for the classes `[1, numClasses)` empty. -/
def initCpu (numClasses cpu : Nat) : TcmallocSlab :=
  { s with header := Function.update s.header cpu fun c =>
      if 1 ≤ c ∧ c < numClasses then Header.empty else s.header cpu c }

/-- What `DrainCpu` hands the drain handler for `cpu`, class by class. -/
def drained (numClasses cpu : Nat) : List Drained :=
  (List.range' 1 (numClasses - 1)).map fun c => ⟨cpu, c, s.length cpu c, s.capacity cpu c⟩

/-- `Drain`: the handler's entries and the slab with `cpu` emptied. -/
def drain (numClasses cpu : Nat) : TcmallocSlab × List Drained :=
  (s.initCpu numClasses cpu, s.drained numClasses cpu)

/-- The entries `DrainOldSlabs` hands the drain handler, over the populated cpus in order. -/
def drainedOldSlabs (numClasses numCpus : Nat) (populated : Nat → Bool) : List Drained :=
  (List.range numCpus).flatMap fun cpu => if populated cpu then s.drained numClasses cpu else []

/-- `ResizeSlabs` and `UpdateMaxCapacities`: a new slab at `newShift` whose
headers are all empty (`InitCpuImpl` for the populated cpus, untouched zeroed
memory for the others), and the old slab's populated cpus drained. -/
def resizeSlabs (newShift numClasses numCpus : Nat) (populated : Nat → Bool) :
    TcmallocSlab × List Drained :=
  (⟨fun _ _ => Header.empty, newShift⟩, s.drainedOldSlabs numClasses numCpus populated)

section Lemmas

variable {s}

@[simp] theorem setHeader_shift (cpu c : Nat) (h : Header) : (s.setHeader cpu c h).shift = s.shift := rfl

theorem setHeader_header (cpu c : Nat) (h : Header) (cpu' c' : Nat) :
    (s.setHeader cpu c h).header cpu' c' = if cpu' = cpu ∧ c' = c then h else s.header cpu' c' := by
  unfold setHeader
  by_cases hcpu : cpu' = cpu
  · subst hcpu
    by_cases hc : c' = c
    · subst hc
      simp
    · simp [hc]
  · simp [hcpu]

@[simp] theorem initCpu_shift (numClasses cpu : Nat) : (s.initCpu numClasses cpu).shift = s.shift := rfl

theorem initCpu_header (numClasses cpu cpu' c : Nat) :
    (s.initCpu numClasses cpu).header cpu' c =
      if cpu' = cpu ∧ 1 ≤ c ∧ c < numClasses then Header.empty else s.header cpu' c := by
  unfold initCpu
  by_cases hcpu : cpu' = cpu
  · subst hcpu
    by_cases hc : 1 ≤ c ∧ c < numClasses <;> simp [hc]
  · simp [hcpu]

end Lemmas

/-- `s'` is `s` with at most the header of `(cpu, sizeClass)` changed, whose
capacity is now `capacity`. -/
structure Touched (s s' : TcmallocSlab) (cpu sizeClass capacity : Nat) : Prop where
  shift : s'.shift = s.shift
  other : ∀ cpu' c, (cpu' ≠ cpu ∨ c ≠ sizeClass) → s'.header cpu' c = s.header cpu' c
  capacity_eq : s'.capacity cpu sizeClass = capacity

section Touched

variable {s} {cpu c : Nat}

theorem touched_refl : Touched s s cpu c (s.capacity cpu c) :=
  ⟨rfl, fun _ _ _ => rfl, rfl⟩

theorem touched_setHeader (h : Header) : Touched s (s.setHeader cpu c h) cpu c h.capacity := by
  refine ⟨rfl, fun cpu' c' hne => ?_, ?_⟩
  · rw [setHeader_header, if_neg (by omega)]
  · simp [capacity, setHeader_header]

theorem Touched.header_of_ne {s' : TcmallocSlab} {n : Nat} (t : Touched s s' cpu c n) {cpu' : Nat}
    (hne : cpu' ≠ cpu) : s'.header cpu' = s.header cpu' :=
  funext fun c' => t.other cpu' c' (Or.inl hne)

theorem push_touched : Touched s (s.push cpu c).1 cpu c (s.capacity cpu c) := by
  unfold push
  dsimp only
  split
  · exact touched_setHeader _
  · exact touched_refl

theorem pop_touched : Touched s (s.pop cpu c).1 cpu c (s.capacity cpu c) := by
  unfold pop
  dsimp only
  split
  · exact touched_setHeader _
  · exact touched_refl

theorem grow_touched (len : Nat) (maxCapacity : Nat → Nat) (stored : Bool) :
    Touched s (s.grow cpu c len maxCapacity stored).1 cpu c
        (s.capacity cpu c + (s.grow cpu c len maxCapacity stored).2) ∧
      (s.grow cpu c len maxCapacity stored).2 ≤ len := by
  unfold grow
  dsimp only
  split
  · exact ⟨touched_refl, Nat.zero_le _⟩
  · cases stored
    · exact ⟨touched_refl, Nat.zero_le _⟩
    · exact ⟨touched_setHeader _, Nat.le_trans (Nat.min_le_left _ _) (Nat.mod_le _ _)⟩

theorem growOtherCache_touched (len : Nat) (maxCapacity : Nat → Nat) :
    Touched s (s.growOtherCache cpu c len maxCapacity).1 cpu c
        (s.capacity cpu c + (s.growOtherCache cpu c len maxCapacity).2) ∧
      (s.growOtherCache cpu c len maxCapacity).2 ≤ len :=
  ⟨touched_setHeader _, Nat.le_trans (Nat.min_le_left _ _) (Nat.mod_le _ _)⟩

theorem shrinkOtherCache_touched (len : Nat) :
    Touched s (s.shrinkOtherCache cpu c len).1 cpu c
        (s.capacity cpu c - (s.shrinkOtherCache cpu c len).2) ∧
      (s.shrinkOtherCache cpu c len).2 ≤ len ∧
      (s.shrinkOtherCache cpu c len).2 ≤ s.capacity cpu c := by
  refine ⟨touched_setHeader _, Nat.le_trans (Nat.min_le_left _ _) (Nat.mod_le _ _), ?_⟩
  exact Nat.le_trans (Nat.min_le_right _ _) (Nat.le_trans (Nat.mod_le _ _) (Nat.sub_le _ _))

end Touched

end TcmallocSlab

end TCMalloc.Internal
