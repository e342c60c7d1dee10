import Mathlib
import TCMalloc.Internal.Percpu.Layout
import TCMalloc.Lib.Run

/-!
The operations of `TcmallocSlab` on the region of one cpu, with the header offsets
as the `uint16_t` they are: `Push` and `Pop` of the fast path, `Grow`,
`GrowOtherCache`, `ShrinkOtherCache` and `DrainCpu`.  On a layout whose slot
arrays end below word `2 ^ 16`, every run of them keeps each class's header within
its slot array (`Inv`), and each acts on the class's cached objects as on a stack:
`Push` puts on top, `Pop` and `ShrinkOtherCache` take from the top what they return
or hand to the handler, `DrainCpu` hands every stack over whole.

The regions of the cpus are disjoint, each ending within `1 << shift` bytes of its
start, so the region of one cpu is modelled on its own.
-/

set_option autoImplicit false
set_option relaxedAutoImplicit false

namespace TCMalloc.Internal.Percpu

open TCMalloc.Lib

/-- A difference of two `uint16_t` values (an `int`) converted to an unsigned type of
`w` bits: `uint16_t` where it is stored back into a header, `size_t` where it is a count. -/
def diffMod (w a b : Nat) : Nat := (a + 2 ^ w - b) % 2 ^ w

theorem diffMod_of_le {w a b : Nat} (hba : b ≤ a) (ha : a < 2 ^ w) : diffMod w a b = a - b := by
  unfold diffMod
  rw [show a + 2 ^ w - b = (a - b) + 2 ^ w by omega, Nat.add_mod_right, Nat.mod_eq_of_lt (by omega)]

/-- One call of the drain handler, `(size_class, batch, size, cap)`, the cpu being this one. -/
structure DrainCall where
  sizeClass : Nat
  batch : List Nat
  size : Nat
  cap : Nat
deriving DecidableEq, Repr

namespace CpuMemory

/-- `Push(size_class, item)` on this cpu: `false` is an overflow, when `current` has
reached `end`. -/
def push (m : CpuMemory) (c item : Nat) : CpuMemory × Bool :=
  let hdr := m.header c
  if hdr.current ≥ hdr.end_ then (m, false)
  else ((m.setSlot hdr.current item).setHeader c ⟨(hdr.current + 1) % 2 ^ 16, hdr.end_⟩, true)

/-- `Pop(size_class)`: the word below `current`, or `nullptr` (`none`) when it carries
the begin mark. -/
def pop (m : CpuMemory) (c : Nat) : CpuMemory × Option Nat :=
  let hdr := m.header c
  let result := m.slot (hdr.current - 1)
  if hasBeginMark result then (m, none)
  else (m.setHeader c ⟨(hdr.current - 1) % 2 ^ 16, hdr.end_⟩, some result)

/-- `Grow(cpu, size_class, len, max_capacity)` with `maxCap = max_capacity(shift)`;
`stored` is whether `StoreCurrentCpu` found the thread still on this cpu.  `have`,
`max_cap - (end - begin)` as a signed value, is positive when `maxCap + begin > end`. -/
def grow (m : CpuMemory) (begins : Nat → Nat) (c len maxCap : Nat) (stored : Bool) : CpuMemory × Nat :=
  let hdr := m.header c
  let begin := begins c
  if maxCap + begin ≤ hdr.end_ then (m, 0)
  else
    let n := min (len % 2 ^ 16) ((maxCap + begin - hdr.end_) % 2 ^ 16)
    if stored then (m.setHeader c ⟨hdr.current, (hdr.end_ + n) % 2 ^ 16⟩, n) else (m, 0)

/-- `GrowOtherCache(cpu, size_class, len, max_capacity)`: `max_cap - (end - begin)` is
computed in `size_t` and narrowed to `uint16_t`. -/
def growOtherCache (m : CpuMemory) (begins : Nat → Nat) (c len maxCap : Nat) : CpuMemory × Nat :=
  let hdr := m.header c
  let begin := begins c
  let toGrow := min (len % 2 ^ 16) (diffMod 16 (maxCap + begin) hdr.end_)
  (m.setHeader c ⟨hdr.current, (hdr.end_ + toGrow) % 2 ^ 16⟩, toGrow)

/-- `ShrinkOtherCache(cpu, size_class, len, shrink_handler)`: the memory after it, the
capacity given up, and the batch passed to `shrink_handler` (empty when it is not
called). -/
def shrinkOtherCache (m : CpuMemory) (begins : Nat → Nat) (c len : Nat) : CpuMemory × Nat × List Nat :=
  let hdr := m.header c
  let begin := begins c
  let unused := diffMod 16 hdr.end_ hdr.current
  -- pop objects to the handler when fewer than `len` slots are unused
  let popped : Nat × List Nat :=
    if unused < len ∧ hdr.current ≠ begin then
      let pop := min ((len - unused) % 2 ^ 16) (diffMod 16 hdr.current begin)
      (diffMod 16 hdr.current pop, (List.range' (hdr.current - pop) pop).map m.slot)
    else (hdr.current, [])
  let toShrink := min (len % 2 ^ 16) (diffMod 16 hdr.end_ popped.1)
  (m.setHeader c ⟨popped.1, diffMod 16 hdr.end_ toShrink⟩, toShrink, popped.2)

/-- The loop of `DrainCpu` over `n` classes from `sizeClass`; a class whose `current` is
`0` has never been initialized and is skipped. -/
def drainLoop (begins : Nat → Nat) : (n sizeClass : Nat) → CpuMemory → CpuMemory × List DrainCall
  | 0, _, m => (m, [])
  | n + 1, sizeClass, m =>
      let begin := begins sizeClass
      let hdr := m.header sizeClass
      if hdr.current = 0 then drainLoop begins n (sizeClass + 1) m
      else
        let size := diffMod 64 hdr.current begin
        let cap := diffMod 64 hdr.end_ begin
        let rest := drainLoop begins n (sizeClass + 1) (m.setHeader sizeClass ⟨begin, begin⟩)
        (rest.1, ⟨sizeClass, (List.range' begin size).map m.slot, size, cap⟩ :: rest.2)

/-- `DrainCpu(slabs, shift, cpu, drain_handler)`: the memory after it and the handler's calls. -/
def drainCpu (m : CpuMemory) (begins : Nat → Nat) (numClasses : Nat) : CpuMemory × List DrainCall :=
  drainLoop begins (numClasses - 1) 1 m

end CpuMemory

/-! ### Layouts and the invariant -/

/-- A layout the operations rely on: the `begins_` of the classes `[1, numClasses)`, each
one word past a begin marker, with disjoint slot arrays of `capacity c` words that hold
no marker and end below `2 ^ 16`, where `uint16_t` offsets reach. -/
structure Layout where
  numClasses : Nat
  capacity : Nat → Nat
  begins : Nat → Nat
  one_le_begin : ∀ c, 1 ≤ c → c < numClasses → 1 ≤ begins c
  disjoint : ∀ c c', 1 ≤ c → c < c' → c' < numClasses → begins c + capacity c ≤ begins c'
  marker_not_mem : ∀ c c', 1 ≤ c → c < numClasses → 1 ≤ c' → c' < numClasses →
    ¬ (begins c ≤ begins c' - 1 ∧ begins c' - 1 < begins c + capacity c)
  end_lt : ∀ c, 1 ≤ c → c < numClasses → begins c + capacity c < 2 ^ 16

namespace Layout

variable (L : Layout)

/-- `c` is one of the layout's size classes. -/
def IsClass (c : Nat) : Prop := 1 ≤ c ∧ c < L.numClasses

theorem outside_of_ne {c c' i : Nat} (hc : L.IsClass c) (hc' : L.IsClass c') (hne : c' ≠ c)
    (hlo : L.begins c' ≤ i) (hhi : i < L.begins c' + L.capacity c') :
    i < L.begins c ∨ L.begins c + L.capacity c ≤ i := by
  rcases Nat.lt_or_gt_of_ne hne with hlt | hgt
  · have := L.disjoint c' c hc'.1 hlt hc.2
    omega
  · have := L.disjoint c c' hc.1 hgt hc'.2
    omega

theorem marker_outside {c c' : Nat} (hc : L.IsClass c) (hc' : L.IsClass c') :
    L.begins c' - 1 < L.begins c ∨ L.begins c + L.capacity c ≤ L.begins c' - 1 := by
  have := L.marker_not_mem c c' hc.1 hc.2 hc'.1 hc'.2
  omega

end Layout

/-- What every run keeps on the region of one cpu: each class's `begin ≤ current ≤ end ≤
begin + capacity`, the marker before its slots, and objects (words without the begin
mark) in its occupied slots. -/
structure Inv (L : Layout) (m : CpuMemory) : Prop where
  begin_le : ∀ c, L.IsClass c → L.begins c ≤ (m.header c).current
  current_le : ∀ c, L.IsClass c → (m.header c).current ≤ (m.header c).end_
  end_le : ∀ c, L.IsClass c → (m.header c).end_ ≤ L.begins c + L.capacity c
  marker : ∀ c, L.IsClass c → hasBeginMark (m.slot (L.begins c - 1)) = true
  objects : ∀ c, L.IsClass c → ∀ i, L.begins c ≤ i → i < (m.header c).current → hasBeginMark (m.slot i) = false

/-- The objects class `c` caches, bottom to top. -/
def stack (L : Layout) (m : CpuMemory) (c : Nat) : List Nat :=
  (List.range' (L.begins c) ((m.header c).current - L.begins c)).map m.slot

section Touch

variable {L : Layout} {m m' : CpuMemory} {c : Nat}

/-- `m'` is `m` with at most the header of `c` and the words of its slot array changed. -/
structure Touches (L : Layout) (m m' : CpuMemory) (c : Nat) : Prop where
  header : ∀ c', c' ≠ c → m'.header c' = m.header c'
  slot : ∀ i, (i < L.begins c ∨ L.begins c + L.capacity c ≤ i) → m'.slot i = m.slot i

theorem touches_refl : Touches L m m c := ⟨fun _ _ => rfl, fun _ _ => rfl⟩

theorem touches_setHeader (hdr : Header) : Touches L m (m.setHeader c hdr) c :=
  ⟨fun _ hne => Function.update_of_ne hne _ _, fun _ _ => rfl⟩

theorem Touches.setSlot {i w : Nat} (t : Touches L m m' c) (hlo : L.begins c ≤ i)
    (hhi : i < L.begins c + L.capacity c) : Touches L m (m'.setSlot i w) c := by
  refine ⟨t.header, fun j hj => ?_⟩
  rw [CpuMemory.setSlot_slot, Function.update_of_ne (by omega)]
  exact t.slot j hj

theorem Touches.setHeader (t : Touches L m m' c) (hdr : Header) : Touches L m (m'.setHeader c hdr) c :=
  ⟨fun c' hne => (Function.update_of_ne hne _ _).trans (t.header c' hne), t.slot⟩

theorem Inv.touch (inv : Inv L m) (hc : L.IsClass c) (t : Touches L m m' c)
    (hbegin : L.begins c ≤ (m'.header c).current) (hcurrent : (m'.header c).current ≤ (m'.header c).end_)
    (hend : (m'.header c).end_ ≤ L.begins c + L.capacity c)
    (hobj : ∀ i, L.begins c ≤ i → i < (m'.header c).current → hasBeginMark (m'.slot i) = false) : Inv L m' := by
  refine ⟨fun c' hc' => ?_, fun c' hc' => ?_, fun c' hc' => ?_, fun c' hc' => ?_, fun c' hc' i hlo hhi => ?_⟩
  · by_cases hne : c' = c
    · subst hne
      exact hbegin
    · rw [t.header c' hne]
      exact inv.begin_le c' hc'
  · by_cases hne : c' = c
    · subst hne
      exact hcurrent
    · rw [t.header c' hne]
      exact inv.current_le c' hc'
  · by_cases hne : c' = c
    · subst hne
      exact hend
    · rw [t.header c' hne]
      exact inv.end_le c' hc'
  · rw [t.slot _ (L.marker_outside hc hc')]
    exact inv.marker c' hc'
  · by_cases hne : c' = c
    · subst hne
      exact hobj i hlo hhi
    · rw [t.header c' hne] at hhi
      have hin : i < L.begins c' + L.capacity c' :=
        Nat.lt_of_lt_of_le hhi (Nat.le_trans (inv.current_le c' hc') (inv.end_le c' hc'))
      rw [t.slot i (L.outside_of_ne hc hc' hne hlo hin)]
      exact inv.objects c' hc' i hlo hhi

theorem Touches.stack_of_ne (inv : Inv L m) (t : Touches L m m' c) (hc : L.IsClass c) {c' : Nat}
    (hc' : L.IsClass c') (hne : c' ≠ c) : stack L m' c' = stack L m c' := by
  unfold stack
  rw [t.header c' hne]
  apply List.map_congr_left
  intro i hi
  rw [List.mem_range'_1] at hi
  have hin : i < L.begins c' + L.capacity c' := by
    have := inv.current_le c' hc'
    have := inv.end_le c' hc'
    omega
  exact t.slot i (L.outside_of_ne hc hc' hne hi.1 hin)

end Touch

/-! ### Each operation under the invariant -/

section Operations

variable {L : Layout} {m : CpuMemory} {c : Nat}

theorem Inv.current_lt (inv : Inv L m) (hc : L.IsClass c) : (m.header c).current < 2 ^ 16 :=
  Nat.lt_of_le_of_lt (Nat.le_trans (inv.current_le c hc) (inv.end_le c hc)) (L.end_lt c hc.1 hc.2)

theorem Inv.end_lt (inv : Inv L m) (hc : L.IsClass c) : (m.header c).end_ < 2 ^ 16 :=
  Nat.lt_of_le_of_lt (inv.end_le c hc) (L.end_lt c hc.1 hc.2)

theorem stack_length (m : CpuMemory) (c : Nat) : (stack L m c).length = (m.header c).current - L.begins c := by
  simp [stack]

theorem push_of_ge {item : Nat} (h : (m.header c).end_ ≤ (m.header c).current) : m.push c item = (m, false) := by
  simp only [CpuMemory.push, ge_iff_le, h, if_true]

theorem push_of_lt (inv : Inv L m) (hc : L.IsClass c) {item : Nat}
    (h : (m.header c).current < (m.header c).end_) :
    m.push c item = ((m.setSlot (m.header c).current item).setHeader c
      ⟨(m.header c).current + 1, (m.header c).end_⟩, true) := by
  have hlt : (m.header c).current + 1 < 2 ^ 16 := Nat.lt_of_le_of_lt h (inv.end_lt hc)
  simp only [CpuMemory.push, ge_iff_le, Nat.not_le.mpr h, if_false, Nat.mod_eq_of_lt hlt]

theorem push_touches (inv : Inv L m) (hc : L.IsClass c) (item : Nat) : Touches L m (m.push c item).1 c := by
  by_cases h : (m.header c).current < (m.header c).end_
  · rw [push_of_lt inv hc h]
    exact (touches_refl.setSlot (inv.begin_le c hc) (Nat.lt_of_lt_of_le h (inv.end_le c hc))).setHeader _
  · rw [push_of_ge (Nat.not_lt.mp h)]
    exact touches_refl

theorem push_inv (inv : Inv L m) (hc : L.IsClass c) {item : Nat} (hitem : hasBeginMark item = false) :
    Inv L (m.push c item).1 := by
  by_cases h : (m.header c).current < (m.header c).end_
  · have t := push_touches inv hc item
    rw [push_of_lt inv hc h] at t ⊢
    have hb := inv.begin_le c hc
    apply inv.touch hc t <;> simp only [CpuMemory.setHeader_header, Function.update_self]
    · omega
    · omega
    · exact inv.end_le c hc
    · intro i hlo hhi
      simp only [CpuMemory.setHeader_slot, CpuMemory.setSlot_slot, Function.update_apply]
      split
      · exact hitem
      · exact inv.objects c hc i hlo (by omega)
  · rw [push_of_ge (Nat.not_lt.mp h)]
    exact inv

theorem push_stack (inv : Inv L m) (hc : L.IsClass c) {item : Nat}
    (h : (m.header c).current < (m.header c).end_) : stack L (m.push c item).1 c = stack L m c ++ [item] := by
  have hb := inv.begin_le c hc
  rw [push_of_lt inv hc h]
  unfold stack
  simp only [CpuMemory.setHeader_header, Function.update_self, CpuMemory.setHeader_slot, CpuMemory.setSlot_slot]
  rw [show (m.header c).current + 1 - L.begins c = ((m.header c).current - L.begins c) + 1 by omega,
    List.range'_concat, List.map_append]
  congr 1
  · apply List.map_congr_left
    intro i hi
    rw [List.mem_range'_1] at hi
    rw [Function.update_of_ne (by omega)]
  · rw [Nat.one_mul, Nat.add_sub_cancel' hb]
    simp

theorem pop_of_eq (inv : Inv L m) (hc : L.IsClass c) (h : (m.header c).current = L.begins c) :
    m.pop c = (m, none) := by
  have hmark := inv.marker c hc
  rw [← h] at hmark
  simp only [CpuMemory.pop, hmark, if_true]

theorem pop_of_lt (inv : Inv L m) (hc : L.IsClass c) (h : L.begins c < (m.header c).current) :
    m.pop c = (m.setHeader c ⟨(m.header c).current - 1, (m.header c).end_⟩,
      some (m.slot ((m.header c).current - 1))) := by
  have hobj := inv.objects c hc ((m.header c).current - 1) (by omega) (by omega)
  have hlt : (m.header c).current - 1 < 2 ^ 16 := Nat.lt_of_le_of_lt (Nat.sub_le _ _) (inv.current_lt hc)
  simp only [CpuMemory.pop, hobj, Bool.false_eq_true, if_false, Nat.mod_eq_of_lt hlt]

theorem pop_touches (inv : Inv L m) (hc : L.IsClass c) : Touches L m (m.pop c).1 c := by
  rcases Nat.eq_or_lt_of_le (inv.begin_le c hc) with h | h
  · rw [pop_of_eq inv hc h.symm]
    exact touches_refl
  · rw [pop_of_lt inv hc h]
    exact touches_setHeader _

theorem pop_inv (inv : Inv L m) (hc : L.IsClass c) : Inv L (m.pop c).1 := by
  rcases Nat.eq_or_lt_of_le (inv.begin_le c hc) with h | h
  · rw [pop_of_eq inv hc h.symm]
    exact inv
  · have t := pop_touches inv hc
    rw [pop_of_lt inv hc h] at t ⊢
    have := inv.current_le c hc
    apply inv.touch hc t <;> simp only [CpuMemory.setHeader_header, Function.update_self]
    · omega
    · omega
    · exact inv.end_le c hc
    · intro i hlo hhi
      exact inv.objects c hc i hlo (by omega)

theorem pop_stack (inv : Inv L m) (hc : L.IsClass c) :
    stack L m c = stack L (m.pop c).1 c ++ (m.pop c).2.toList := by
  rcases Nat.eq_or_lt_of_le (inv.begin_le c hc) with h | h
  · rw [pop_of_eq inv hc h.symm]
    simp
  · rw [pop_of_lt inv hc h]
    unfold stack
    simp only [CpuMemory.setHeader_header, Function.update_self, CpuMemory.setHeader_slot, Option.toList_some]
    rw [show (m.header c).current - L.begins c = ((m.header c).current - 1 - L.begins c) + 1 by omega,
      List.range'_concat, List.map_append, Nat.one_mul,
      show L.begins c + ((m.header c).current - 1 - L.begins c) = (m.header c).current - 1 by omega]
    simp

theorem grow_eq (inv : Inv L m) (hc : L.IsClass c) (len : Nat) (stored : Bool) :
    m.grow L.begins c len (L.capacity c) stored =
      if stored = true ∧ (m.header c).end_ < L.begins c + L.capacity c then
        (m.setHeader c ⟨(m.header c).current,
            (m.header c).end_ + min (len % 2 ^ 16) (L.begins c + L.capacity c - (m.header c).end_)⟩,
          min (len % 2 ^ 16) (L.begins c + L.capacity c - (m.header c).end_))
      else (m, 0) := by
  have hend := L.end_lt c hc.1 hc.2
  have hle := inv.end_le c hc
  unfold CpuMemory.grow
  by_cases hfull : L.capacity c + L.begins c ≤ (m.header c).end_
  · rw [if_pos hfull, if_neg (by omega)]
  · rw [if_neg hfull]
    have hhave : L.capacity c + L.begins c - (m.header c).end_ = L.begins c + L.capacity c - (m.header c).end_ := by
      omega
    have hmod : (L.begins c + L.capacity c - (m.header c).end_) % 2 ^ 16 =
        L.begins c + L.capacity c - (m.header c).end_ := Nat.mod_eq_of_lt (by omega)
    have hsum : ((m.header c).end_ + min (len % 2 ^ 16) (L.begins c + L.capacity c - (m.header c).end_)) % 2 ^ 16 =
        (m.header c).end_ + min (len % 2 ^ 16) (L.begins c + L.capacity c - (m.header c).end_) :=
      Nat.mod_eq_of_lt (by omega)
    cases stored
    · simp
    · simp only [hhave, hmod, hsum, if_true, true_and]
      rw [if_pos (by omega)]

theorem growOtherCache_eq (inv : Inv L m) (hc : L.IsClass c) (len : Nat) :
    m.growOtherCache L.begins c len (L.capacity c) =
      (m.setHeader c ⟨(m.header c).current,
          (m.header c).end_ + min (len % 2 ^ 16) (L.begins c + L.capacity c - (m.header c).end_)⟩,
        min (len % 2 ^ 16) (L.begins c + L.capacity c - (m.header c).end_)) := by
  have hend := L.end_lt c hc.1 hc.2
  have hle := inv.end_le c hc
  have hdiff : diffMod 16 (L.capacity c + L.begins c) (m.header c).end_ =
      L.begins c + L.capacity c - (m.header c).end_ := by
    rw [diffMod_of_le (by omega) (by omega)]
    omega
  have hsum : ((m.header c).end_ + min (len % 2 ^ 16) (L.begins c + L.capacity c - (m.header c).end_)) % 2 ^ 16 =
      (m.header c).end_ + min (len % 2 ^ 16) (L.begins c + L.capacity c - (m.header c).end_) :=
    Nat.mod_eq_of_lt (by omega)
  simp only [CpuMemory.growOtherCache, hdiff, hsum]

theorem Inv.setEnd (inv : Inv L m) (hc : L.IsClass c) {e : Nat} (hlo : (m.header c).end_ ≤ e)
    (hhi : e ≤ L.begins c + L.capacity c) : Inv L (m.setHeader c ⟨(m.header c).current, e⟩) := by
  apply inv.touch hc (touches_setHeader _) <;> simp only [CpuMemory.setHeader_header, Function.update_self]
  · exact inv.begin_le c hc
  · exact Nat.le_trans (inv.current_le c hc) hlo
  · exact hhi
  · exact inv.objects c hc

theorem grow_inv (inv : Inv L m) (hc : L.IsClass c) (len : Nat) (stored : Bool) :
    Inv L (m.grow L.begins c len (L.capacity c) stored).1 := by
  rw [grow_eq inv hc]
  split
  · rename_i h
    exact inv.setEnd hc (Nat.le_add_right _ _) (by omega)
  · exact inv

theorem growOtherCache_inv (inv : Inv L m) (hc : L.IsClass c) (len : Nat) :
    Inv L (m.growOtherCache L.begins c len (L.capacity c)).1 := by
  rw [growOtherCache_eq inv hc]
  have := inv.end_le c hc
  exact inv.setEnd hc (Nat.le_add_right _ _) (by omega)

/-- How many objects `ShrinkOtherCache` pops to the handler when `begin ≤ current ≤ end`:
enough to free `len` slots, at most all of them, and none when `len` slots are unused. -/
def shrinkPop (hdr : Header) (begin len : Nat) : Nat :=
  if hdr.end_ - hdr.current < len ∧ hdr.current ≠ begin then
    min ((len - (hdr.end_ - hdr.current)) % 2 ^ 16) (hdr.current - begin)
  else 0

theorem shrinkOtherCache_spec (inv : Inv L m) (hc : L.IsClass c) (len : Nat) :
    ∃ pop, pop = shrinkPop (m.header c) (L.begins c) len ∧ pop ≤ (m.header c).current - L.begins c ∧
      (m.shrinkOtherCache L.begins c len).2.2 = (List.range' ((m.header c).current - pop) pop).map m.slot ∧
      (m.shrinkOtherCache L.begins c len).2.1 =
        min (len % 2 ^ 16) ((m.header c).end_ - ((m.header c).current - pop)) ∧
      (m.shrinkOtherCache L.begins c len).1 = m.setHeader c ⟨(m.header c).current - pop,
        (m.header c).end_ - min (len % 2 ^ 16) ((m.header c).end_ - ((m.header c).current - pop))⟩ := by
  have hb := inv.begin_le c hc
  have hce := inv.current_le c hc
  have he := inv.end_lt hc
  have hunused : diffMod 16 (m.header c).end_ (m.header c).current = (m.header c).end_ - (m.header c).current :=
    diffMod_of_le hce he
  have hhave : diffMod 16 (m.header c).current (L.begins c) = (m.header c).current - L.begins c :=
    diffMod_of_le hb (by omega)
  -- once `current` is down to `current - pop`, `end` gives up what `len` asks of the unused slots
  have hrest : ∀ pop, pop ≤ (m.header c).current - L.begins c →
      diffMod 16 (m.header c).end_ ((m.header c).current - pop) = (m.header c).end_ - ((m.header c).current - pop) ∧
      diffMod 16 (m.header c).end_ (min (len % 2 ^ 16) ((m.header c).end_ - ((m.header c).current - pop))) =
        (m.header c).end_ - min (len % 2 ^ 16) ((m.header c).end_ - ((m.header c).current - pop)) :=
    fun pop _ => ⟨diffMod_of_le (by omega) he, diffMod_of_le (by omega) he⟩
  unfold CpuMemory.shrinkOtherCache
  simp only [hunused, hhave]
  by_cases hcond : (m.header c).end_ - (m.header c).current < len ∧ (m.header c).current ≠ L.begins c
  · rw [if_pos hcond]
    generalize hp : min ((len - ((m.header c).end_ - (m.header c).current)) % 2 ^ 16)
      ((m.header c).current - L.begins c) = pop
    have hle : pop ≤ (m.header c).current - L.begins c := hp ▸ Nat.min_le_right _ _
    have hcur : diffMod 16 (m.header c).current pop = (m.header c).current - pop := diffMod_of_le (by omega) (by omega)
    obtain ⟨h₁, h₂⟩ := hrest pop hle
    refine ⟨pop, by rw [shrinkPop, if_pos hcond, hp], hle, ?_⟩
    simp only [hcur, h₁, h₂, and_self]
  · rw [if_neg hcond]
    obtain ⟨h₁, h₂⟩ := hrest 0 (Nat.zero_le _)
    simp only [Nat.sub_zero] at h₁ h₂
    refine ⟨0, by rw [shrinkPop, if_neg hcond], Nat.zero_le _, ?_⟩
    simp only [Nat.sub_zero, h₁, h₂, List.range'_zero, List.map_nil, and_self]

theorem shrinkOtherCache_inv (inv : Inv L m) (hc : L.IsClass c) (len : Nat) :
    Inv L (m.shrinkOtherCache L.begins c len).1 := by
  obtain ⟨pop, -, hpop, -, -, hmem⟩ := shrinkOtherCache_spec inv hc len
  rw [hmem]
  have hb := inv.begin_le c hc
  have hce := inv.current_le c hc
  apply inv.touch hc (touches_setHeader _) <;> simp only [CpuMemory.setHeader_header, Function.update_self]
  · omega
  · omega
  · have := inv.end_le c hc
    omega
  · intro i hlo hhi
    exact inv.objects c hc i hlo (by omega)

theorem shrinkOtherCache_stack (inv : Inv L m) (hc : L.IsClass c) (len : Nat) :
    stack L m c = stack L (m.shrinkOtherCache L.begins c len).1 c ++ (m.shrinkOtherCache L.begins c len).2.2 := by
  obtain ⟨pop, -, hpop, hbatch, -, hmem⟩ := shrinkOtherCache_spec inv hc len
  rw [hbatch, hmem]
  have hb := inv.begin_le c hc
  unfold stack
  simp only [CpuMemory.setHeader_header, Function.update_self, CpuMemory.setHeader_slot]
  have hsplit := @List.range'_append_1 (L.begins c) ((m.header c).current - pop - L.begins c) pop
  rw [show L.begins c + ((m.header c).current - pop - L.begins c) = (m.header c).current - pop by omega,
    show (m.header c).current - pop - L.begins c + pop = (m.header c).current - L.begins c by omega] at hsplit
  rw [← List.map_append, hsplit]

theorem drainLoop_spec (inv : Inv L m) (n k : Nat) (hcls : ∀ c', k < c' → c' ≤ k + n → L.IsClass c') (m' : CpuMemory)
    (hheader : ∀ c', k < c' → c' ≤ k + n → m'.header c' = m.header c') (hslot : m'.slot = m.slot) :
    CpuMemory.drainLoop L.begins n (k + 1) m' =
      (⟨fun c' => if k < c' ∧ c' ≤ k + n then ⟨L.begins c', L.begins c'⟩ else m'.header c', m'.slot⟩,
        (List.range' (k + 1) n).map fun c' =>
          ⟨c', stack L m c', (m.header c').current - L.begins c', (m.header c').end_ - L.begins c'⟩) := by
  induction n generalizing k m' with
  | zero =>
      have hfun : (fun c' => if k < c' ∧ c' ≤ k + 0 then (⟨L.begins c', L.begins c'⟩ : Header) else m'.header c') =
          m'.header := funext fun c' => if_neg (by omega)
      rw [hfun]
      rfl
  | succ n ih =>
      have hc := hcls (k + 1) (by omega) (by omega)
      have hk := hheader (k + 1) (by omega) (by omega)
      have hb := inv.begin_le (k + 1) hc
      have hbegin := L.one_le_begin (k + 1) hc.1 hc.2
      have hce := inv.current_le (k + 1) hc
      have hend := inv.end_lt hc
      have hsize : diffMod 64 (m'.header (k + 1)).current (L.begins (k + 1)) =
          (m.header (k + 1)).current - L.begins (k + 1) := by
        rw [hk]
        exact diffMod_of_le hb (by omega)
      have hcap : diffMod 64 (m'.header (k + 1)).end_ (L.begins (k + 1)) =
          (m.header (k + 1)).end_ - L.begins (k + 1) := by
        rw [hk]
        exact diffMod_of_le (by omega) (by omega)
      have hrest := ih (k + 1) (fun c' h₁ h₂ => hcls c' (by omega) (by omega))
        (m'.setHeader (k + 1) ⟨L.begins (k + 1), L.begins (k + 1)⟩)
        (fun c' h₁ h₂ => by
          rw [CpuMemory.setHeader_header, Function.update_of_ne (by omega)]
          exact hheader c' (by omega) (by omega))
        hslot
      have hnz : (m'.header (k + 1)).current ≠ 0 := by
        rw [hk]
        omega
      simp only [CpuMemory.drainLoop, hnz, if_false, hsize, hcap, hrest]
      refine Prod.ext ?_ ?_
      · simp only [CpuMemory.setHeader_slot, CpuMemory.mk.injEq, and_true]
        funext c'
        simp only [CpuMemory.setHeader_header, Function.update_apply]
        by_cases hc' : c' = k + 1
        · subst hc'
          simp
        · by_cases hin : k + 1 < c' ∧ c' ≤ k + 1 + n
          · rw [if_pos hin, if_pos (by omega)]
          · rw [if_neg hin, if_neg hc', if_neg (by omega)]
      · simp only [List.range'_succ, List.map_cons, stack, hslot]

theorem drainCpu_spec (inv : Inv L m) :
    m.drainCpu L.begins L.numClasses =
      (⟨fun c' => if 0 < c' ∧ c' ≤ L.numClasses - 1 then ⟨L.begins c', L.begins c'⟩ else m.header c', m.slot⟩,
        (List.range' 1 (L.numClasses - 1)).map fun c' =>
          ⟨c', stack L m c', (m.header c').current - L.begins c', (m.header c').end_ - L.begins c'⟩) := by
  have h := drainLoop_spec inv (L.numClasses - 1) 0 (fun _ h₁ h₂ => ⟨by omega, by omega⟩) m (fun _ _ _ => rfl) rfl
  simp only [Nat.zero_add] at h
  exact h

theorem drainCpu_inv (inv : Inv L m) : Inv L (m.drainCpu L.begins L.numClasses).1 := by
  rw [drainCpu_spec inv]
  refine ⟨fun c' hc' => ?_, fun c' hc' => ?_, fun c' hc' => ?_, fun c' hc' => inv.marker c' hc', fun c' hc' i hlo hhi => ?_⟩
    <;> simp only [if_pos (show 0 < c' ∧ c' ≤ L.numClasses - 1 by have := hc'.1; have := hc'.2; omega)] at *
  · exact Nat.le_refl _
  · exact Nat.le_refl _
  · exact Nat.le_add_right _ _
  · omega

end Operations

/-! ### Runs of operations -/

/-- The operations on the region of one cpu. -/
inductive Call
  | push (c item : Nat)
  | pop (c : Nat)
  | grow (c len maxCap : Nat) (stored : Bool)
  | growOtherCache (c len maxCap : Nat)
  | shrinkOtherCache (c len : Nat)
  | drainCpu
deriving DecidableEq, Repr

/-- One operation, on the `begins_` of the layout. -/
def step (L : Layout) (m : CpuMemory) : Call → Option CpuMemory
  | .push c item => some (m.push c item).1
  | .pop c => some (m.pop c).1
  | .grow c len maxCap stored => some (m.grow L.begins c len maxCap stored).1
  | .growOtherCache c len maxCap => some (m.growOtherCache L.begins c len maxCap).1
  | .shrinkOtherCache c len => some (m.shrinkOtherCache L.begins c len).1
  | .drainCpu => some (m.drainCpu L.begins L.numClasses).1

/-- The calls the code makes: on a size class of the layout (`TC_ASSERT_NE(size_class, 0)`),
pushing a non-null object without the begin mark (`Push`'s `TC_ASSERT`s), and growing
up to the capacity the layout was made with. -/
def Allowed (L : Layout) (_ : CpuMemory) : Call → Prop
  | .push c item => L.IsClass c ∧ item ≠ 0 ∧ hasBeginMark item = false
  | .pop c => L.IsClass c
  | .grow c _ maxCap _ => L.IsClass c ∧ maxCap = L.capacity c
  | .growOtherCache c _ maxCap => L.IsClass c ∧ maxCap = L.capacity c
  | .shrinkOtherCache c _ => L.IsClass c
  | .drainCpu => True

theorem step_inv {L : Layout} {m m' : CpuMemory} {call : Call} (inv : Inv L m) (hok : Allowed L m call)
    (hstep : step L m call = some m') : Inv L m' := by
  cases call with
  | push c item =>
      cases hstep
      exact push_inv inv hok.1 hok.2.2
  | pop c =>
      cases hstep
      exact pop_inv inv hok
  | grow c len maxCap stored =>
      cases hstep
      obtain ⟨hc, rfl⟩ := hok
      exact grow_inv inv hc len stored
  | growOtherCache c len maxCap =>
      cases hstep
      obtain ⟨hc, rfl⟩ := hok
      exact growOtherCache_inv inv hc len
  | shrinkOtherCache c len =>
      cases hstep
      exact shrinkOtherCache_inv inv hok len
  | drainCpu =>
      cases hstep
      exact drainCpu_inv inv

theorem run_inv {L : Layout} {m m' : CpuMemory} {calls : List Call} (inv : Inv L m)
    (run : Run (step L) (Allowed L) m calls m') : Inv L m' :=
  Run.invariant (Inv L) (fun _ _ _ hinv hok hstep => step_inv hinv hok hstep) run inv

/-! ### The layout `InitSlabs` computes -/

/-- The layout of the walk, for a capacity function whose classes end below word `2 ^ 16`. -/
def Layout.ofWalk (numClasses : Nat) (capacity : Nat → Nat)
    (hfit : ∀ c, 1 ≤ c → c < numClasses → slotBegin capacity (headerWords numClasses) c + capacity c < 2 ^ 16) :
    Layout where
  numClasses := numClasses
  capacity := capacity
  begins := slotBegin capacity (headerWords numClasses)
  one_le_begin := fun c _ _ => Nat.lt_of_le_of_lt (Nat.zero_le _) (lt_slotBegin capacity _ c)
  disjoint := fun _ _ hc hcc' _ => slotBegin_add_le capacity _ hc hcc'
  marker_not_mem := fun _ _ hc _ hc' _ => Percpu.marker_not_mem capacity _ hc hc'
  end_lt := hfit

theorem inv_of_initCpuImpl {numClasses shift cpuStart : Nat} {capacity : Nat → Nat} {m m' : CpuMemory}
    (hfit : ∀ c, 1 ≤ c → c < numClasses → slotBegin capacity (headerWords numClasses) c + capacity c < 2 ^ 16)
    (hok : initCpuImpl numClasses shift cpuStart capacity m = .ok m') : Inv (Layout.ofWalk numClasses capacity hfit) m' := by
  obtain ⟨-, hheader, hmarks⟩ := initCpuImpl_ok hok
  have hhdr : ∀ c, (Layout.ofWalk numClasses capacity hfit).IsClass c →
      m'.header c = ⟨slotBegin capacity (headerWords numClasses) c, slotBegin capacity (headerWords numClasses) c⟩ := by
    intro c hc
    have hlt : slotBegin capacity (headerWords numClasses) c < 2 ^ 16 := by
      have := hfit c hc.1 hc.2
      omega
    rw [hheader c hc.1 hc.2, Nat.mod_eq_of_lt hlt]
  refine ⟨fun c hc => ?_, fun c hc => ?_, fun c hc => ?_, fun c hc => hmarks c hc.1 hc.2, fun c hc i hlo hhi => ?_⟩
  · exact Nat.le_of_eq (congrArg Header.current (hhdr c hc)).symm
  · exact Nat.le_of_eq ((congrArg Header.current (hhdr c hc)).trans (congrArg Header.end_ (hhdr c hc)).symm)
  · rw [hhdr c hc]
    exact Nat.le_add_right _ _
  · rw [hhdr c hc] at hhi
    exact absurd hhi (Nat.not_lt.mpr hlo)

theorem shrinkOtherCache_touches {L : Layout} {m : CpuMemory} {c : Nat} (inv : Inv L m) (hc : L.IsClass c)
    (len : Nat) : Touches L m (m.shrinkOtherCache L.begins c len).1 c := by
  obtain ⟨pop, -, -, -, -, hmem⟩ := shrinkOtherCache_spec inv hc len
  rw [hmem]
  exact touches_setHeader _

/-! ### Both layout loops, and every run after them -/

theorem percpu_layout_agrees_and_bounds :
    ∀ (numClasses shift cpuStart : Nat) (capacity : Nat → Nat) (m : CpuMemory),
      (∀ c, 1 ≤ c → c < numClasses → capacity c < 2 ^ 16) → 2 ^ shift ≤ 2 ^ 16 * 8 →
      (initSlabs numClasses shift capacity = .error .bug ↔
        initCpuImpl numClasses shift cpuStart capacity m = .error .bug) ∧
      ((∃ begins, initSlabs numClasses shift capacity = .ok begins) ↔
        ∃ m', initCpuImpl numClasses shift cpuStart capacity m = .ok m') ∧
      (initSlabs numClasses shift capacity ≠ .error .bug →
        (∃ begins, initSlabs numClasses shift capacity = .ok begins) ∧
          ∃ m', initCpuImpl numClasses shift cpuStart capacity m = .ok m') ∧
      ∀ begins m', initSlabs numClasses shift capacity = .ok begins →
        initCpuImpl numClasses shift cpuStart capacity m = .ok m' →
        (∀ c, 1 ≤ c → c < numClasses →
          (m'.header c).current = begins c ∧ (m'.header c).end_ = begins c ∧
          begins c = slotBegin capacity (headerWords numClasses) c % 2 ^ 16 ∧
          headerWords numClasses < slotBegin capacity (headerWords numClasses) c ∧
          (slotBegin capacity (headerWords numClasses) c + capacity c) * 8 ≤ 2 ^ shift) ∧
        (∀ c c', 1 ≤ c → c < c' → c' < numClasses →
          slotBegin capacity (headerWords numClasses) c + capacity c ≤ slotBegin capacity (headerWords numClasses) c') ∧
        (∀ c c', 1 ≤ c → 1 ≤ c' →
          ¬ (slotBegin capacity (headerWords numClasses) c ≤ slotBegin capacity (headerWords numClasses) c' - 1 ∧
            slotBegin capacity (headerWords numClasses) c' - 1 <
              slotBegin capacity (headerWords numClasses) c + capacity c)) ∧
        ∀ (hfit : ∀ c, 1 ≤ c → c < numClasses → slotBegin capacity (headerWords numClasses) c + capacity c < 2 ^ 16)
          (calls : List Call) (m'' : CpuMemory),
          Run (step (Layout.ofWalk numClasses capacity hfit)) (Allowed (Layout.ofWalk numClasses capacity hfit))
            m' calls m'' →
          Inv (Layout.ofWalk numClasses capacity hfit) m'' ∧
          ∀ c len, 1 ≤ c → c < numClasses →
            stack (Layout.ofWalk numClasses capacity hfit) m'' c =
              stack (Layout.ofWalk numClasses capacity hfit)
                (m''.shrinkOtherCache (slotBegin capacity (headerWords numClasses)) c len).1 c ++
              (m''.shrinkOtherCache (slotBegin capacity (headerWords numClasses)) c len).2.2 ∧
            ∀ c', 1 ≤ c' → c' < numClasses → c' ≠ c →
              stack (Layout.ofWalk numClasses capacity hfit)
                (m''.shrinkOtherCache (slotBegin capacity (headerWords numClasses)) c len).1 c' =
              stack (Layout.ofWalk numClasses capacity hfit) m'' c' := by
  intro numClasses shift cpuStart capacity m hcap hshift
  have hstatus := initCpuImpl_status numClasses shift cpuStart capacity m
  rw [if_neg (Nat.not_lt.mpr hshift)] at hstatus
  have hslabs := initSlabs_eq numClasses shift capacity
  have hbugIff : initSlabs numClasses shift capacity = .error .bug ↔
      initCpuImpl numClasses shift cpuStart capacity m = .error .bug := by
    constructor
    · intro hbug
      rw [hbug] at hstatus
      cases hcpu : initCpuImpl numClasses shift cpuStart capacity m with
      | ok m' => rw [hcpu] at hstatus; cases hstatus
      | error e => rw [hcpu] at hstatus; cases hstatus; rfl
    · intro hbug
      rw [hbug] at hstatus
      cases hs : initSlabs numClasses shift capacity with
      | ok b => rw [hs] at hstatus; cases hstatus
      | error e => rw [hs] at hstatus; cases hstatus; rfl
  have hokIff : (∃ begins, initSlabs numClasses shift capacity = .ok begins) ↔
      ∃ m', initCpuImpl numClasses shift cpuStart capacity m = .ok m' := by
    constructor
    · rintro ⟨b, hb⟩
      rw [hb] at hstatus
      cases hcpu : initCpuImpl numClasses shift cpuStart capacity m with
      | ok m' => exact ⟨m', rfl⟩
      | error e => rw [hcpu] at hstatus; cases hstatus
    · rintro ⟨m', hm'⟩
      rw [hm'] at hstatus
      cases hs : initSlabs numClasses shift capacity with
      | ok b => exact ⟨b, rfl⟩
      | error e => rw [hs] at hstatus; cases hstatus
  refine ⟨hbugIff, hokIff, fun hnbug => ?_, fun begins m' hslab hcpu => ?_⟩
  · -- with every capacity in range, the walk can only fail with a `TC_BUG`
    have hok : ∃ begins, initSlabs numClasses shift capacity = .ok begins := by
      rcases @layoutStatus_ok_or_bug capacity (headerWords numClasses) shift (numClasses - 1) 0
          (fun c hlo hhi => hcap c hlo (by omega)) with hwalk | hwalk
      · rw [hslabs, hwalk]
        exact ⟨_, rfl⟩
      · rw [hslabs, hwalk] at hnbug
        exact absurd rfl hnbug
    exact ⟨hok, hokIff.mp hok⟩
  · obtain ⟨hwalk, hheader, -⟩ := initCpuImpl_ok hcpu
    rw [hwalk] at hslabs
    have hbegins : ∀ c, 1 ≤ c → c < numClasses →
        begins c = slotBegin capacity (headerWords numClasses) c % 2 ^ 16 := by
      intro c hc hcn
      rw [hslab] at hslabs
      cases hslabs
      exact if_pos ⟨hc, by omega⟩
    have hfits := fits_of_layoutStatus capacity (headerWords numClasses) hwalk
    refine ⟨fun c hc hcn => ?_, fun c c' hc hcc' _ => slotBegin_add_le capacity _ hc hcc',
      fun c c' hc hc' => Percpu.marker_not_mem capacity _ hc hc', fun hfit calls m'' run => ?_⟩
    · rw [hheader c hc hcn, hbegins c hc hcn]
      exact ⟨rfl, rfl, rfl, lt_slotBegin capacity _ c, (hfits c (by omega) (by omega)).2⟩
    · have inv := run_inv (inv_of_initCpuImpl hfit hcpu) run
      refine ⟨inv, fun c len hc hcn => ⟨shrinkOtherCache_stack inv ⟨hc, hcn⟩ len, fun c' hc' hcn' hne => ?_⟩⟩
      exact (shrinkOtherCache_touches inv ⟨hc, hcn⟩ len).stack_of_ne inv ⟨hc, hcn⟩ ⟨hc', hcn'⟩ hne

theorem percpu_layout_agrees_for_one_class :
    (∀ c, 1 ≤ c → c < 3 → (fun c => if c = 1 then 4 else 0) c < 2 ^ 16) ∧ 2 ^ 12 ≤ 2 ^ 16 * 8 ∧
    ((∃ begins, initSlabs 3 12 (fun c => if c = 1 then 4 else 0) = .ok begins) ↔
      ∃ m', initCpuImpl 3 12 0 (fun c => if c = 1 then 4 else 0) ⟨fun _ => ⟨0, 0⟩, fun _ => 0⟩ = .ok m') := by
  have hcap : ∀ c, 1 ≤ c → c < 3 → (fun c => if c = 1 then 4 else 0) c < 2 ^ 16 := by
    intro c _ _
    dsimp only
    split <;> omega
  exact ⟨hcap, by decide, (percpu_layout_agrees_and_bounds 3 12 0 _ ⟨fun _ => ⟨0, 0⟩, fun _ => 0⟩ hcap
    (by decide)).2.1⟩

/-- At `shift = 19` one class can end exactly at word `2 ^ 16`: `InitSlabs` and
`InitCpuImpl` accept it, and growing it to its capacity wraps `end` to `0`, below
`current = begin = 2`.  At `shift = 20`, `InitSlabs` raises a `TC_BUG` where
`InitCpuImpl` fails its `TC_CHECK` instead. -/
theorem percpu_grow_wraps_end_of_full_slab :
    (initSlabs 2 19 fun _ => 2 ^ 16 - 2).map (fun begins => begins 1) = .ok 2 ∧
    (initCpuImpl 2 19 0 (fun _ => 2 ^ 16 - 2) ⟨fun _ => ⟨0, 0⟩, fun _ => 0⟩).map
      (fun m => (m.grow (fun _ => 2) 1 (2 ^ 16 - 2) (2 ^ 16 - 2) true).1.header 1) = .ok ⟨2, 0⟩ ∧
    (initSlabs 3 20 fun _ => 2 ^ 16 - 1).map (fun _ => ()) = .error .bug ∧
    initCpuImpl 3 20 0 (fun _ => 2 ^ 16 - 1) ⟨fun _ => ⟨0, 0⟩, fun _ => 0⟩ = .error .checkFailed :=
  ⟨rfl, rfl, rfl, rfl⟩

end TCMalloc.Internal.Percpu
