import Mathlib

/-!
The layout of one cpu's region of the per-cpu slabs of `percpu_tcmalloc.h`.
`InitSlabs` computes, once for all cpus, the offset `begins_[c]` of each size
class's slot array; `InitCpuImpl` writes, in the region of one cpu, the header
`{current, end}` of each class and the begin markers.  Both walk the classes
with the same cursor: past the header array, rounded up to a word, each class
gets a begin-marker word unless the class before it was empty, then its
`capacity(c)` slots.  `cursorAt` is that walk; the facts the slab operations
rely on (the slot arrays are disjoint, lie past the header array, follow a
marker and hold none) are lemmas about it, and both loops are shown to follow it.

Offsets are in words of `sizeof(void*) = 8` bytes from `CpuMemoryStart`, whose
address is a multiple of 8.
-/

set_option autoImplicit false
set_option relaxedAutoImplicit false

namespace TCMalloc.Internal.Percpu

/-- `kBeginMark`: the low bit set in the word before a class's slots. -/
def kBeginMark : Nat := 1

/-- Whether a word carries the begin mark, as `Pop` tests it. -/
def hasBeginMark (w : Nat) : Bool := w &&& kBeginMark != 0

theorem hasBeginMark_iff {w : Nat} : hasBeginMark w = true ↔ w % 2 = 1 := by
  simp only [hasBeginMark, kBeginMark, Nat.and_one_is_mod, bne_iff_ne, ne_eq]
  omega

@[simp] theorem hasBeginMark_or (a : Nat) : hasBeginMark (a ||| kBeginMark) = true := by
  rw [hasBeginMark_iff, kBeginMark, Nat.or_mod_two_eq_one]
  exact Or.inr rfl

/-- The failures of the layout loops: a failed `TC_CHECK` and a `TC_BUG`. -/
inductive InitError
  | checkFailed
  | bug
deriving DecidableEq, Repr

/-- The words the header array takes: `NumClasses * sizeof(Header)` bytes, with
`sizeof(Header) = 4`, rounded up to a word. -/
def headerWords (numClasses : Nat) : Nat := (numClasses * 4 + 8 - 1) / 8

/-! ### The walk both loops make -/

/-- Where the layout loops stand: the next free word and `prev_empty`. -/
structure Cursor where
  next : Nat
  prevEmpty : Bool

namespace Cursor

/-- The first slot of the class placed next: one word on, for its begin marker,
unless the class before was empty. -/
def begin (cur : Cursor) : Nat := if cur.prevEmpty then cur.next else cur.next + 1

/-- The cursor after placing a class of `cap` slots. -/
def place (cur : Cursor) (cap : Nat) : Cursor := ⟨cur.begin + cap, cap == 0⟩

theorem next_le_begin (cur : Cursor) : cur.next ≤ cur.begin := by
  unfold begin
  split <;> omega

@[simp] theorem place_next (cur : Cursor) (cap : Nat) : (cur.place cap).next = cur.begin + cap := rfl

@[simp] theorem place_prevEmpty (cur : Cursor) (cap : Nat) : (cur.place cap).prevEmpty = (cap == 0) := rfl

end Cursor

section Walk

variable (capacity : Nat → Nat) (h : Nat)

/-- The cursor when the loops reach class `k + 1`, from the end `h` of the header array. -/
def cursorAt : Nat → Cursor
  | 0 => ⟨h, false⟩
  | k + 1 => (cursorAt k).place (capacity (k + 1))

/-- The first slot of class `c ≥ 1`: `begins_[c]` before its narrowing to `uint16_t`. -/
def slotBegin (c : Nat) : Nat := (cursorAt capacity h (c - 1)).begin

/-- What both loops decide for the classes `k + 1, ..., k + n`: the first class whose
capacity does not fit a `uint16_t` fails the `TC_CHECK_EQ`, the first whose slots end
past `1 << shift` bytes is a `TC_BUG`. -/
def layoutStatus (shift : Nat) : (n k : Nat) → Except InitError Unit
  | 0, _ => .ok ()
  | n + 1, k =>
      if capacity (k + 1) % 2 ^ 16 ≠ capacity (k + 1) then .error .checkFailed
      else if (cursorAt capacity h (k + 1)).next * 8 > 2 ^ shift then .error .bug
      else layoutStatus shift n (k + 1)

@[simp] theorem cursorAt_zero : cursorAt capacity h 0 = ⟨h, false⟩ := rfl

@[simp] theorem cursorAt_succ (k : Nat) :
    cursorAt capacity h (k + 1) = (cursorAt capacity h k).place (capacity (k + 1)) := rfl

theorem slotBegin_succ (k : Nat) : slotBegin capacity h (k + 1) = (cursorAt capacity h k).begin := rfl

theorem next_cursorAt (k : Nat) :
    (cursorAt capacity h (k + 1)).next = slotBegin capacity h (k + 1) + capacity (k + 1) := rfl

theorem cursorAt_mono {k k' : Nat} (hk : k ≤ k') : (cursorAt capacity h k).next ≤ (cursorAt capacity h k').next := by
  obtain ⟨d, rfl⟩ : ∃ d, k' = k + d := ⟨k' - k, by omega⟩
  induction d with
  | zero => exact Nat.le_refl _
  | succ d ih =>
      have := (cursorAt capacity h (k + d)).next_le_begin
      simp only [← Nat.add_assoc, cursorAt_succ, Cursor.place_next]
      omega

theorem lt_slotBegin (c : Nat) : h < slotBegin capacity h c := by
  suffices hk : ∀ k, h + 1 ≤ (cursorAt capacity h k).begin from hk (c - 1)
  intro k
  induction k with
  | zero => simp [Cursor.begin]
  | succ k ih =>
      have := ((cursorAt capacity h k).place (capacity (k + 1))).next_le_begin
      simp only [cursorAt_succ] at this ⊢
      simp only [Cursor.place_next] at this
      omega

theorem slotBegin_add_le {c c' : Nat} (hc : 1 ≤ c) (hcc' : c < c') :
    slotBegin capacity h c + capacity c ≤ slotBegin capacity h c' := by
  obtain ⟨k, rfl⟩ : ∃ k, c = k + 1 := ⟨c - 1, by omega⟩
  calc slotBegin capacity h (k + 1) + capacity (k + 1)
      = (cursorAt capacity h (k + 1)).next := (next_cursorAt capacity h k).symm
    _ ≤ (cursorAt capacity h (c' - 1)).next := cursorAt_mono capacity h (by omega)
    _ ≤ slotBegin capacity h c' := (cursorAt capacity h (c' - 1)).next_le_begin

theorem slotBegin_mono {c c' : Nat} (hc : 1 ≤ c) (hcc' : c ≤ c') :
    slotBegin capacity h c ≤ slotBegin capacity h c' := by
  rcases Nat.lt_or_eq_of_le hcc' with hlt | rfl
  · have := slotBegin_add_le capacity h hc hlt
    omega
  · exact Nat.le_refl _

theorem slotBegin_succ_of_ne {k : Nat} (hcap : capacity (k + 1) ≠ 0) :
    slotBegin capacity h (k + 2) = slotBegin capacity h (k + 1) + capacity (k + 1) + 1 := by
  have hne : (capacity (k + 1) == 0) = false := by simpa using hcap
  rw [slotBegin_succ, slotBegin_succ, cursorAt_succ]
  simp only [Cursor.begin, Cursor.place_prevEmpty, hne, Cursor.place_next, Bool.false_eq_true, if_false]

theorem marker_not_mem {c c' : Nat} (hc : 1 ≤ c) (hc' : 1 ≤ c') :
    ¬ (slotBegin capacity h c ≤ slotBegin capacity h c' - 1 ∧
      slotBegin capacity h c' - 1 < slotBegin capacity h c + capacity c) := by
  rintro ⟨hlo, hhi⟩
  have hpos := lt_slotBegin capacity h c'
  rcases Nat.lt_or_ge c c' with hlt | hle
  · -- a later class's marker lies past the slots of a non-empty class
    obtain ⟨k, rfl⟩ : ∃ k, c = k + 1 := ⟨c - 1, by omega⟩
    by_cases hcap : capacity (k + 1) = 0
    · omega
    · have hnext := slotBegin_succ_of_ne capacity h hcap
      have hmono : slotBegin capacity h (k + 2) ≤ slotBegin capacity h c' :=
        slotBegin_mono capacity h (by omega) (by omega)
      omega
  · have := slotBegin_mono capacity h hc' hle
    omega

theorem fits_of_layoutStatus {shift : Nat} :
    ∀ {n k : Nat}, layoutStatus capacity h shift n k = .ok () →
      ∀ c, k < c → c ≤ k + n → capacity c < 2 ^ 16 ∧ (slotBegin capacity h c + capacity c) * 8 ≤ 2 ^ shift := by
  intro n
  induction n with
  | zero => intro k _ c hlo hhi; omega
  | succ n ih =>
      intro k hok c hlo hhi
      simp only [layoutStatus] at hok
      split at hok
      · cases hok
      · rename_i hcap
        split at hok
        · cases hok
        · rename_i hbug
          rcases Nat.lt_or_ge (k + 1) c with hlt | hle
          · exact ih hok c hlt (by omega)
          · obtain rfl : c = k + 1 := by omega
            rw [← next_cursorAt]
            exact ⟨by omega, by omega⟩

theorem layoutStatus_ok_or_bug {shift : Nat} :
    ∀ {n k : Nat}, (∀ c, k < c → c ≤ k + n → capacity c < 2 ^ 16) →
      layoutStatus capacity h shift n k = .ok () ∨ layoutStatus capacity h shift n k = .error .bug := by
  intro n
  induction n with
  | zero => intro k _; exact .inl rfl
  | succ n ih =>
      intro k hcap
      have hfit : capacity (k + 1) % 2 ^ 16 = capacity (k + 1) :=
        Nat.mod_eq_of_lt (hcap (k + 1) (by omega) (by omega))
      simp only [layoutStatus, hfit, ne_eq, not_true_eq_false, if_false]
      split
      · exact .inr rfl
      · exact ih fun c hlo hhi => hcap c (by omega) (by omega)

end Walk

/-! ### `InitSlabs` -/

/-- The loop of `InitSlabs` over `n` classes from `sizeClass`, with `consumed_bytes`,
`prev_empty` and the `begins_` stored so far; `1 << shift` is `2 ^ shift`. -/
def initSlabsLoop (shift : Nat) (capacity : Nat → Nat) :
    (n sizeClass consumedBytes : Nat) → (prevEmpty : Bool) → (begins : Nat → Nat) → Except InitError (Nat → Nat)
  | 0, _, _, _, begins => .ok begins
  | n + 1, sizeClass, consumedBytes, prevEmpty, begins =>
      let cap := capacity sizeClass
      if cap % 2 ^ 16 ≠ cap then .error .checkFailed
      else
        let consumedBytes := if prevEmpty then consumedBytes else consumedBytes + 8
        let begins := Function.update begins sizeClass (consumedBytes / 8 % 2 ^ 16)
        let consumedBytes := consumedBytes + cap * 8
        if consumedBytes > 2 ^ shift then .error .bug
        else initSlabsLoop shift capacity n (sizeClass + 1) consumedBytes (cap == 0) begins

/-- `InitSlabs(slabs, shift, capacity)`: the `begins_` it stores. -/
def initSlabs (numClasses shift : Nat) (capacity : Nat → Nat) : Except InitError (Nat → Nat) :=
  initSlabsLoop shift capacity (numClasses - 1) 1 (headerWords numClasses * 8) false fun _ => 0

section Loops

variable (capacity : Nat → Nat) (h shift : Nat)

theorem begin_mul_eight (cur : Cursor) :
    (if cur.prevEmpty then cur.next * 8 else cur.next * 8 + 8) = cur.begin * 8 := by
  unfold Cursor.begin
  split <;> omega

theorem initSlabsLoop_eq (n k : Nat) (begins : Nat → Nat) :
    initSlabsLoop shift capacity n (k + 1) ((cursorAt capacity h k).next * 8) (cursorAt capacity h k).prevEmpty
        begins =
      (layoutStatus capacity h shift n k).map fun _ c =>
        if k < c ∧ c ≤ k + n then slotBegin capacity h c % 2 ^ 16 else begins c := by
  induction n generalizing k begins with
  | zero =>
      have hfun : (fun c => if k < c ∧ c ≤ k + 0 then slotBegin capacity h c % 2 ^ 16 else begins c) = begins :=
        funext fun c => if_neg (by omega)
      simp only [initSlabsLoop, layoutStatus, Except.map, hfun]
  | succ n ih =>
      simp only [initSlabsLoop, layoutStatus, begin_mul_eight]
      split
      · rfl
      · have hnext : (cursorAt capacity h k).begin * 8 + capacity (k + 1) * 8 = (cursorAt capacity h (k + 1)).next * 8 := by
          simp only [cursorAt_succ, Cursor.place_next]
          omega
        rw [hnext]
        split
        · rfl
        · rw [show (capacity (k + 1) == 0) = (cursorAt capacity h (k + 1)).prevEmpty from rfl, ih]
          congr 1
          funext _ c
          rw [Function.update_apply]
          by_cases hc : c = k + 1
          · subst hc
            simp [slotBegin_succ]
          · by_cases hin : k + 1 < c ∧ c ≤ k + 1 + n
            · rw [if_pos hin, if_pos (by omega)]
            · rw [if_neg hin, if_neg hc, if_neg (by omega)]

end Loops

/-! ### `InitCpuImpl` -/

/-- A slab header: the offsets `current` and `end` of a class's occupied slots and of its
slot array, as `uint16_t`. -/
structure Header where
  current : Nat
  end_ : Nat
deriving DecidableEq, Repr

/-- The region of one cpu: its headers, by size class, and its words, by offset from
`CpuMemoryStart`. -/
structure CpuMemory where
  header : Nat → Header
  slot : Nat → Nat

namespace CpuMemory

def setHeader (m : CpuMemory) (c : Nat) (hdr : Header) : CpuMemory :=
  { m with header := Function.update m.header c hdr }

def setSlot (m : CpuMemory) (i w : Nat) : CpuMemory := { m with slot := Function.update m.slot i w }

@[simp] theorem setHeader_header (m : CpuMemory) (c : Nat) (hdr : Header) :
    (m.setHeader c hdr).header = Function.update m.header c hdr := rfl
@[simp] theorem setHeader_slot (m : CpuMemory) (c : Nat) (hdr : Header) : (m.setHeader c hdr).slot = m.slot := rfl
@[simp] theorem setSlot_header (m : CpuMemory) (i w : Nat) : (m.setSlot i w).header = m.header := rfl
@[simp] theorem setSlot_slot (m : CpuMemory) (i w : Nat) : (m.setSlot i w).slot = Function.update m.slot i w := rfl

end CpuMemory

/-- The loop of `InitCpuImpl` over `n` classes from `sizeClass`, with `elems` the offset
of the next free word from `CpuMemoryStart`, whose address is `cpuStart`. -/
def initCpuLoop (shift cpuStart : Nat) (capacity : Nat → Nat) :
    (n sizeClass elems : Nat) → (prevEmpty : Bool) → CpuMemory → Except InitError CpuMemory
  | 0, _, _, _, m => .ok m
  | n + 1, sizeClass, elems, prevEmpty, m =>
      let cap := capacity sizeClass
      if cap % 2 ^ 16 ≠ cap then .error .checkFailed
      else
        -- the begin marker is the word's own address with `kBeginMark` set
        let m := if prevEmpty then m else m.setSlot elems ((cpuStart + elems * 8) ||| kBeginMark)
        let elems := if prevEmpty then elems else elems + 1
        let m := m.setHeader sizeClass ⟨elems % 2 ^ 16, elems % 2 ^ 16⟩
        let elems := elems + cap
        if elems * 8 > 2 ^ shift then .error .bug
        else initCpuLoop shift cpuStart capacity n (sizeClass + 1) elems (cap == 0) m

/-- `InitCpuImpl(slabs, shift, cpu, capacity)` on the region of `cpu`, at address
`cpuStart`; the `TC_CHECK` that `cpu` is stopped is its caller's. -/
def initCpuImpl (numClasses shift cpuStart : Nat) (capacity : Nat → Nat) (m : CpuMemory) :
    Except InitError CpuMemory :=
  if 2 ^ shift > 2 ^ 16 * 8 then .error .checkFailed
  else initCpuLoop shift cpuStart capacity (numClasses - 1) 1 (headerWords numClasses) false m

/-- The marker the class at `cur` shares when the class before it was empty. -/
def MarkBefore (cur : Cursor) (m : CpuMemory) : Prop :=
  cur.prevEmpty = true → hasBeginMark (m.slot (cur.next - 1)) = true

/-- The region once the loop has written the begin marker the class at `cur` needs. -/
def withMarker (cpuStart : Nat) (cur : Cursor) (m : CpuMemory) : CpuMemory :=
  if cur.prevEmpty then m else m.setSlot cur.next ((cpuStart + cur.next * 8) ||| kBeginMark)

theorem withMarker_slot (cpuStart : Nat) (cur : Cursor) (m : CpuMemory) (i : Nat) :
    (withMarker cpuStart cur m).slot i = m.slot i ∨ hasBeginMark ((withMarker cpuStart cur m).slot i) = true := by
  unfold withMarker
  split
  · exact .inl rfl
  · simp only [CpuMemory.setSlot_slot, Function.update_apply]
    split
    · exact .inr (hasBeginMark_or _)
    · exact .inl rfl

@[simp] theorem withMarker_header (cpuStart : Nat) (cur : Cursor) (m : CpuMemory) :
    (withMarker cpuStart cur m).header = m.header := by
  unfold withMarker
  split <;> rfl

theorem withMarker_begin (cpuStart : Nat) {cur : Cursor} {m : CpuMemory} (hmark : MarkBefore cur m) :
    hasBeginMark ((withMarker cpuStart cur m).slot (cur.begin - 1)) = true := by
  unfold withMarker Cursor.begin
  split
  · rename_i hprev
    exact hmark hprev
  · simp

section CpuLoop

variable (capacity : Nat → Nat) (h shift cpuStart : Nat)

theorem initCpuLoop_succ (n k : Nat) (m : CpuMemory) :
    initCpuLoop shift cpuStart capacity (n + 1) (k + 1) (cursorAt capacity h k).next (cursorAt capacity h k).prevEmpty m =
      if capacity (k + 1) % 2 ^ 16 ≠ capacity (k + 1) then .error .checkFailed
      else if (cursorAt capacity h (k + 1)).next * 8 > 2 ^ shift then .error .bug
      else initCpuLoop shift cpuStart capacity n (k + 2) (cursorAt capacity h (k + 1)).next
        (cursorAt capacity h (k + 1)).prevEmpty ((withMarker cpuStart (cursorAt capacity h k) m).setHeader (k + 1)
          ⟨slotBegin capacity h (k + 1) % 2 ^ 16, slotBegin capacity h (k + 1) % 2 ^ 16⟩) := by
  cases hprev : (cursorAt capacity h k).prevEmpty <;>
    simp [initCpuLoop, withMarker, slotBegin_succ, Cursor.begin, hprev]

theorem initCpuLoop_status (n k : Nat) (m : CpuMemory) :
    (initCpuLoop shift cpuStart capacity n (k + 1) (cursorAt capacity h k).next (cursorAt capacity h k).prevEmpty
        m).map (fun _ => ()) = layoutStatus capacity h shift n k := by
  induction n generalizing k m with
  | zero => rfl
  | succ n ih =>
      rw [initCpuLoop_succ, layoutStatus]
      split
      · rfl
      · split
        · rfl
        · exact ih (k + 1) _

theorem initCpuLoop_ok (n k : Nat) (m m' : CpuMemory) (hmark : MarkBefore (cursorAt capacity h k) m)
    (hok : initCpuLoop shift cpuStart capacity n (k + 1) (cursorAt capacity h k).next
      (cursorAt capacity h k).prevEmpty m = .ok m') :
    (∀ c, m'.header c = if k < c ∧ c ≤ k + n then ⟨slotBegin capacity h c % 2 ^ 16, slotBegin capacity h c % 2 ^ 16⟩
      else m.header c) ∧
    (∀ i, m'.slot i = m.slot i ∨ hasBeginMark (m'.slot i) = true) ∧
    (∀ c, k < c → c ≤ k + n → hasBeginMark (m'.slot (slotBegin capacity h c - 1)) = true) := by
  induction n generalizing k m with
  | zero =>
      cases hok
      exact ⟨fun c => (if_neg (by omega)).symm, fun _ => .inl rfl, fun c hlo hhi => absurd hhi (by omega)⟩
  | succ n ih =>
      rw [initCpuLoop_succ] at hok
      split at hok
      · cases hok
      · split at hok
        · cases hok
        · -- the region once class `k + 1` has its marker and its header
          let m₁ := (withMarker cpuStart (cursorAt capacity h k) m).setHeader (k + 1)
            ⟨slotBegin capacity h (k + 1) % 2 ^ 16, slotBegin capacity h (k + 1) % 2 ^ 16⟩
          have hmark₁ : hasBeginMark (m₁.slot (slotBegin capacity h (k + 1) - 1)) = true :=
            withMarker_begin cpuStart hmark
          have hmark₂ : MarkBefore (cursorAt capacity h (k + 1)) m₁ := by
            intro hprev
            have hcap : capacity (k + 1) = 0 := by simpa using hprev
            rw [next_cursorAt, hcap, Nat.add_zero]
            exact hmark₁
          obtain ⟨hheader, hslot, hmarks⟩ := ih (k + 1) m₁ hmark₂ hok
          refine ⟨fun c => ?_, fun i => ?_, fun c hlo hhi => ?_⟩
          · rw [hheader c]
            simp only [m₁, CpuMemory.setHeader_header, withMarker_header, Function.update_apply]
            by_cases hc : c = k + 1
            · subst hc
              simp
            · by_cases hin : k + 1 < c ∧ c ≤ k + 1 + n
              · rw [if_pos hin, if_pos (by omega)]
              · rw [if_neg hin, if_neg hc, if_neg (by omega)]
          · rcases hslot i with heq | hm
            · rw [heq]
              exact withMarker_slot cpuStart _ m i
            · exact .inr hm
          · rcases Nat.lt_or_ge (k + 1) c with hlt | hle
            · exact hmarks c hlt (by omega)
            · obtain rfl : c = k + 1 := by omega
              rcases hslot (slotBegin capacity h (k + 1) - 1) with heq | hm
              · rw [heq]
                exact hmark₁
              · exact hm

end CpuLoop

theorem initSlabs_eq (numClasses shift : Nat) (capacity : Nat → Nat) :
    initSlabs numClasses shift capacity =
      (layoutStatus capacity (headerWords numClasses) shift (numClasses - 1) 0).map fun _ c =>
        if 0 < c ∧ c ≤ numClasses - 1 then slotBegin capacity (headerWords numClasses) c % 2 ^ 16 else 0 := by
  have h0 := initSlabsLoop_eq capacity (headerWords numClasses) shift (numClasses - 1) 0 fun _ => 0
  simp only [cursorAt_zero, Nat.zero_add] at h0
  exact h0

theorem initCpuImpl_status (numClasses shift cpuStart : Nat) (capacity : Nat → Nat) (m : CpuMemory) :
    (initCpuImpl numClasses shift cpuStart capacity m).map (fun _ => ()) =
      if 2 ^ shift > 2 ^ 16 * 8 then .error .checkFailed
      else (initSlabs numClasses shift capacity).map (fun _ => ()) := by
  unfold initCpuImpl
  split
  · rfl
  · have hloop := initCpuLoop_status capacity (headerWords numClasses) shift cpuStart (numClasses - 1) 0 m
    simp only [cursorAt_zero, Nat.zero_add] at hloop
    rw [hloop, initSlabs_eq]
    cases layoutStatus capacity (headerWords numClasses) shift (numClasses - 1) 0 <;> rfl

theorem initCpuImpl_ok {numClasses shift cpuStart : Nat} {capacity : Nat → Nat} {m m' : CpuMemory}
    (hok : initCpuImpl numClasses shift cpuStart capacity m = .ok m') :
    layoutStatus capacity (headerWords numClasses) shift (numClasses - 1) 0 = .ok () ∧
    (∀ c, 1 ≤ c → c < numClasses →
      m'.header c = ⟨slotBegin capacity (headerWords numClasses) c % 2 ^ 16,
        slotBegin capacity (headerWords numClasses) c % 2 ^ 16⟩) ∧
    (∀ c, 1 ≤ c → c < numClasses →
      hasBeginMark (m'.slot (slotBegin capacity (headerWords numClasses) c - 1)) = true) := by
  have hstatus := initCpuImpl_status numClasses shift cpuStart capacity m
  unfold initCpuImpl at hok hstatus
  split at hok
  · cases hok
  · rename_i hshift
    have hloop := initCpuLoop_status capacity (headerWords numClasses) shift cpuStart (numClasses - 1) 0 m
    have hspec := initCpuLoop_ok capacity (headerWords numClasses) shift cpuStart (numClasses - 1) 0 m m'
      (fun hprev => absurd hprev (by simp)) (by simpa using hok)
    simp only [cursorAt_zero, Nat.zero_add] at hloop
    rw [hok] at hloop
    obtain ⟨hheader, -, hmarks⟩ := hspec
    refine ⟨hloop.symm, fun c hc hcn => ?_, fun c hc hcn => hmarks c (by omega) (by omega)⟩
    rw [hheader c, if_pos (by omega)]

end TCMalloc.Internal.Percpu
