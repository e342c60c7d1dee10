import Mathlib.Order.Bounds.Defs
import TCMalloc.Lib.Scan

/-!
`Bitmap<N>` of `internal/range_tracker.h`, as the sequence of its bits.  The
searches read only the first `N` bits, so the word layout (and its dead bits)
does not appear here; the loops over free ranges that `RangeTracker` runs are
the list `freeRanges`, whose runs are the maximal clear runs of the bitmap.
-/

set_option autoImplicit false
set_option relaxedAutoImplicit false

namespace TCMalloc.Internal

open TCMalloc.Lib.Scan

/-- A `Bitmap<N>`: bit `k` of the map is `bits k`. -/
@[ext] structure Bitmap (N : Nat) where
  bits : Nat → Bool

namespace Bitmap

variable {N : Nat}

/-- `constexpr Bitmap() : bits_{}`. -/
def empty : Bitmap N := ⟨fun _ => false⟩

def getBit (b : Bitmap N) (i : Nat) : Bool := b.bits i

/-- `SetRangeValue<Value>(index, n)`: bits `[index, index + n)` become `value`. -/
def setRangeValue (b : Bitmap N) (value : Bool) (index n : Nat) : Bitmap N :=
  ⟨fun k => if index ≤ k ∧ k < index + n then value else b.bits k⟩

def setRange (b : Bitmap N) (index n : Nat) : Bitmap N := b.setRangeValue true index n

def clearRange (b : Bitmap N) (index n : Nat) : Bitmap N := b.setRangeValue false index n

/-- `SetBit(i)`. -/
def setBit (b : Bitmap N) (i : Nat) : Bitmap N := ⟨fun k => if k = i then true else b.bits k⟩

/-- `ClearBit(i)`; the old bit it returns is `getBit i` of the map before. -/
def clearBit (b : Bitmap N) (i : Nat) : Bitmap N := ⟨fun k => if k = i then false else b.bits k⟩

/-- `operator~`: the dead bits past `N` stay clear. -/
def complement (b : Bitmap N) : Bitmap N := ⟨fun k => decide (k < N) && !b.bits k⟩

/-- `operator&`. -/
def and (b c : Bitmap N) : Bitmap N := ⟨fun k => b.bits k && c.bits k⟩

/-- `operator|`. -/
def or (b c : Bitmap N) : Bitmap N := ⟨fun k => b.bits k || c.bits k⟩

/-- `operator^`. -/
def xor (b c : Bitmap N) : Bitmap N := ⟨fun k => b.bits k ^^ c.bits k⟩

/-- `PopBatch(visitor, limit)`: the lowest `limit` set bits, word by word and so
in increasing order, are visited and cleared. -/
def popBatch (b : Bitmap N) (limit : Nat) : List Nat × Bitmap N :=
  let offs := ((List.range N).filter fun k => b.bits k).take limit
  (offs, ⟨fun k => if k ∈ offs then false else b.bits k⟩)

/-- `FindValue<Goal>(index)`: the first bit at or after `index` equal to `goal`,
or `N` if there is none. -/
def findValue (b : Bitmap N) (goal : Bool) (index : Nat) : Nat :=
  firstFrom (fun k => b.bits k == goal) (N - index) index

def findSet (b : Bitmap N) (index : Nat) : Nat := b.findValue true index

def findClear (b : Bitmap N) (index : Nat) : Nat := b.findValue false index

/-- `FindValueBackwards<Goal>(index)`: the last bit at or before `index` equal
to `goal`, or `-1` if there is none. -/
def findValueBackwards (b : Bitmap N) (goal : Bool) (index : Nat) : Int :=
  lastAtOrBelow (fun k => b.bits k == goal) index

def findSetBackwards (b : Bitmap N) (index : Nat) : Int := b.findValueBackwards true index

/-- `NextFreeRange(start, &index, &length)`: the first run of clear bits at or
after `start`, as `(index, length)`. -/
def nextFreeRange (b : Bitmap N) (start : Nat) : Option (Nat × Nat) :=
  if N ≤ start then none
  else
    let i := b.findClear start
    if i = N then none
    else some (i, b.findSet i - i)

/-- `CountBits()`: the number of set bits. -/
def countBits (b : Bitmap N) : Nat := Nat.count (fun k => b.bits k = true) N

/-- `CountBits(index, n)`: the number of set bits in `[index, index + n)`. -/
def countBitsIn (b : Bitmap N) (index n : Nat) : Nat := Nat.count (fun k => b.bits (index + k) = true) n

/-- The ranges visited by the loop
`while (bits_.NextFreeRange(index, &index, &len)) { ...; index += len; }`
from `start`; `fuel` bounds the iterations and `N` of them always suffice. -/
def freeRangesFrom (b : Bitmap N) : Nat → Nat → List (Nat × Nat)
  | 0, _ => []
  | fuel + 1, start =>
      match b.nextFreeRange start with
      | none => []
      | some (i, len) => (i, len) :: b.freeRangesFrom fuel (i + len)

def freeRanges (b : Bitmap N) : List (Nat × Nat) := b.freeRangesFrom N 0

/-- Every bit of `[i, j)` is clear. -/
def ClearOn (b : Bitmap N) (i j : Nat) : Prop := ∀ k, i ≤ k → k < j → b.bits k = false

/-- Every bit of `[i, j)` is set. -/
def SetOn (b : Bitmap N) (i j : Nat) : Prop := ∀ k, i ≤ k → k < j → b.bits k = true

/-- `[i, i + len)` is a maximal run of clear bits inside `[0, N)`: a set bit
or the end of the map lies on each side of it. -/
def IsFreeRun (b : Bitmap N) (i len : Nat) : Prop :=
  0 < len ∧ i + len ≤ N ∧ b.ClearOn i (i + len) ∧ (0 < i → b.bits (i - 1) = true) ∧
    (i + len < N → b.bits (i + len) = true)

/-- The lengths of the clear runs inside `[0, N)`. -/
def clearLengths (b : Bitmap N) : Set Nat := {L | ∃ i, i + L ≤ N ∧ b.ClearOn i (i + L)}

/-- `m` is the length of the longest run of clear bits. -/
def IsLongestFree (b : Bitmap N) (m : Nat) : Prop := IsGreatest b.clearLengths m

@[simp] theorem empty_bits (k : Nat) : (empty : Bitmap N).bits k = false := rfl

@[simp] theorem setRangeValue_bits (b : Bitmap N) (value : Bool) (index n k : Nat) :
    (b.setRangeValue value index n).bits k =
      if index ≤ k ∧ k < index + n then value else b.bits k := rfl

@[simp] theorem setRange_bits (b : Bitmap N) (index n k : Nat) :
    (b.setRange index n).bits k = if index ≤ k ∧ k < index + n then true else b.bits k := rfl

@[simp] theorem clearRange_bits (b : Bitmap N) (index n k : Nat) :
    (b.clearRange index n).bits k =
      if index ≤ k ∧ k < index + n then false else b.bits k := rfl

@[simp] theorem setBit_bits (b : Bitmap N) (i k : Nat) : (b.setBit i).bits k = if k = i then true else b.bits k :=
  rfl

@[simp] theorem clearBit_bits (b : Bitmap N) (i k : Nat) :
    (b.clearBit i).bits k = if k = i then false else b.bits k := rfl

@[simp] theorem complement_bits (b : Bitmap N) (k : Nat) : b.complement.bits k = (decide (k < N) && !b.bits k) :=
  rfl

@[simp] theorem and_bits (b c : Bitmap N) (k : Nat) : (b.and c).bits k = (b.bits k && c.bits k) := rfl

@[simp] theorem or_bits (b c : Bitmap N) (k : Nat) : (b.or c).bits k = (b.bits k || c.bits k) := rfl

@[simp] theorem xor_bits (b c : Bitmap N) (k : Nat) : (b.xor c).bits k = (b.bits k ^^ c.bits k) := rfl

theorem countBits_clearRange_add {b : Bitmap N} {index n : Nat} (hN : index + n ≤ N) :
    (b.clearRange index n).countBits + b.countBitsIn index n = b.countBits :=
  count_clear_range_add b.bits hN

theorem countBits_or {b c : Bitmap N} (h : ∀ k, b.bits k = true → c.bits k = false) :
    (b.or c).countBits = b.countBits + c.countBits :=
  count_or_of_disjoint b.bits c.bits h N

theorem countBitsIn_le (b : Bitmap N) (index n : Nat) : b.countBitsIn index n ≤ n := Nat.count_le _

theorem popBatch_length (b : Bitmap N) (limit : Nat) :
    (b.popBatch limit).1.length = min limit b.countBits := by
  have hcount : ((List.range N).filter fun k => b.bits k).length = b.countBits := by
    rw [← List.countP_eq_length_filter, countBits, Nat.count]
    simp only [Bool.decide_eq_true]
  rw [popBatch]
  dsimp only
  rw [List.length_take, hcount]

theorem countBitsIn_pos_iff (b : Bitmap N) (index n : Nat) :
    0 < b.countBitsIn index n ↔ ∃ i < n, b.bits (index + i) = true := by
  rw [Nat.pos_iff_ne_zero, Ne, countBitsIn, Nat.count_iff_forall_not]
  simp only [not_forall, not_not, exists_prop]

theorem countBitsIn_eq_iff (b : Bitmap N) (index n : Nat) :
    b.countBitsIn index n = n ↔ ∀ i < n, b.bits (index + i) = true :=
  Nat.count_iff_forall

theorem clearOn_mono {b : Bitmap N} {i j i' j' : Nat} (h : b.ClearOn i j) (hi : i ≤ i')
    (hj : j' ≤ j) : b.ClearOn i' j' := fun k hk hk' => h k (by omega) (by omega)

theorem clearOn_of_setRange {b : Bitmap N} {index n i j : Nat} (h : (b.setRange index n).ClearOn i j) :
    b.ClearOn i j := fun k hk hk' => by
  have hclear := h k hk hk'
  simp only [setRange_bits] at hclear
  split at hclear
  · exact Bool.noConfusion hclear
  · exact hclear

@[simp] theorem setRangeValue_zero (b : Bitmap N) (value : Bool) (index : Nat) :
    b.setRangeValue value index 0 = b := by
  ext k
  simp only [setRangeValue_bits]
  rw [if_neg (by omega)]

theorem setRangeValue_append (b : Bitmap N) (value : Bool) (index m n : Nat) :
    (b.setRangeValue value index m).setRangeValue value (index + m) n =
      b.setRangeValue value index (m + n) := by
  ext k
  simp only [setRangeValue_bits]
  split_ifs <;> first | rfl | omega

theorem clearRange_setRange {b : Bitmap N} {index n : Nat} (h : b.ClearOn index (index + n)) :
    (b.setRange index n).clearRange index n = b := by
  ext k
  simp only [clearRange_bits, setRange_bits]
  split_ifs with hk
  · exact (h k hk.1 hk.2).symm
  · rfl

theorem IsLongestFree.le_N {b : Bitmap N} {m : Nat} (h : b.IsLongestFree m) : m ≤ N := by
  obtain ⟨i, hi, -⟩ := h.1
  omega

theorem IsLongestFree.mem_clearLengths_iff {b : Bitmap N} {m : Nat} (h : b.IsLongestFree m) {n : Nat} :
    n ∈ b.clearLengths ↔ n ≤ m := by
  constructor
  · intro hn
    exact h.2 hn
  · intro hn
    obtain ⟨i, hi, hclear⟩ := h.1
    exact ⟨i, by omega, fun k hk hk' => hclear k hk (by omega)⟩

section Search

variable (b : Bitmap N)

theorem findSet_eq {index j : Nat} (lower : index ≤ j) (upper : j ≤ N)
    (before : b.ClearOn index j) (hit : j < N → b.bits j = true) : b.findSet index = j := by
  unfold findSet findValue
  apply firstFrom_eq _ _ _ _ lower (by omega)
  · intro k hk hk'
    simp [before k hk hk']
  · intro hj
    simp [hit (by omega)]

theorem findSet_spec (index : Nat) (h : index ≤ N) :
    index ≤ b.findSet index ∧ b.findSet index ≤ N ∧ b.ClearOn index (b.findSet index) ∧
      (b.findSet index < N → b.bits (b.findSet index) = true) := by
  unfold findSet findValue
  refine ⟨le_firstFrom _ _ _, by have := firstFrom_le (fun k => b.bits k == true) (N - index) index; omega,
    ?_, ?_⟩
  · intro k hk hk'
    simpa using noneIn_firstFrom (fun k => b.bits k == true) (N - index) index k hk hk'
  · intro hlt
    simpa using firstFrom_spec (fun k => b.bits k == true) (N - index) index (by omega)

theorem findClear_spec (index : Nat) (h : index ≤ N) :
    index ≤ b.findClear index ∧ b.findClear index ≤ N ∧ b.SetOn index (b.findClear index) ∧
      (b.findClear index < N → b.bits (b.findClear index) = false) := by
  unfold findClear findValue
  refine ⟨le_firstFrom _ _ _, by have := firstFrom_le (fun k => b.bits k == false) (N - index) index; omega,
    ?_, ?_⟩
  · intro k hk hk'
    simpa using noneIn_firstFrom (fun k => b.bits k == false) (N - index) index k hk hk'
  · intro hlt
    simpa using firstFrom_spec (fun k => b.bits k == false) (N - index) index (by omega)

theorem findSetBackwards_spec (index : Nat) :
    -1 ≤ b.findSetBackwards index ∧ b.findSetBackwards index ≤ index ∧
      (∀ k : Nat, b.findSetBackwards index < k → k ≤ index → b.bits k = false) ∧
      (0 ≤ b.findSetBackwards index → b.bits (b.findSetBackwards index).toNat = true) := by
  unfold findSetBackwards findValueBackwards
  refine ⟨neg_one_le_lastAtOrBelow _ _, lastAtOrBelow_le _ _, ?_, ?_⟩
  · intro k hk hk'
    simpa using noneAbove_lastAtOrBelow (fun k => b.bits k == true) index k hk hk'
  · intro hr
    simpa using lastAtOrBelow_spec (fun k => b.bits k == true) index hr

theorem le_findSet_iff {index n : Nat} (hN : index + n ≤ N) :
    index + n ≤ b.findSet index ↔ b.ClearOn index (index + n) := by
  obtain ⟨hge, -, hclear, hhit⟩ := b.findSet_spec index (by omega)
  constructor
  · intro hle
    exact clearOn_mono hclear le_rfl hle
  · intro hrun
    by_contra hlt
    have hset := hhit (by omega)
    rw [hrun _ hge (by omega)] at hset
    exact absurd hset (by simp)

theorem le_findClear_iff {index n : Nat} (hN : index + n ≤ N) :
    index + n ≤ b.findClear index ↔ b.SetOn index (index + n) := by
  obtain ⟨hge, -, hset, hhit⟩ := b.findClear_spec index (by omega)
  constructor
  · intro hle k hk hk'
    exact hset k hk (by omega)
  · intro hrun
    by_contra hlt
    have hclear := hhit (by omega)
    rw [hrun _ hge (by omega)] at hclear
    exact absurd hclear (by simp)

end Search

section NextFreeRange

variable (b : Bitmap N)

theorem nextFreeRange_eq_none {start : Nat} (h : b.nextFreeRange start = none) :
    b.SetOn start N := by
  unfold nextFreeRange at h
  split at h
  · intro k hk hk'
    omega
  · rename_i hstart
    obtain ⟨_, _, hset, _⟩ := b.findClear_spec start (by omega)
    dsimp only at h
    split at h
    · rename_i hN
      rw [hN] at hset
      exact hset
    · simp at h

theorem nextFreeRange_eq_some {start i len : Nat} (h : b.nextFreeRange start = some (i, len)) :
    start ≤ i ∧ b.SetOn start i ∧ 0 < len ∧ i + len ≤ N ∧ b.ClearOn i (i + len) ∧
      (i + len < N → b.bits (i + len) = true) := by
  unfold nextFreeRange at h
  split at h
  · simp at h
  · rename_i hstart
    obtain ⟨hge, hle, hset, hclear⟩ := b.findClear_spec start (by omega)
    dsimp only at h
    split at h
    · simp at h
    · rename_i hne
      simp only [Option.some.injEq, Prod.mk.injEq] at h
      obtain ⟨rfl, rfl⟩ := h
      have hlt : b.findClear start < N := by omega
      obtain ⟨sge, sle, sclear, sset⟩ := b.findSet_spec (b.findClear start) hle
      have hpos : b.findClear start < b.findSet (b.findClear start) := by
        rcases Nat.lt_or_ge (b.findClear start) (b.findSet (b.findClear start)) with hl | hg
        · exact hl
        · have heq : b.findSet (b.findClear start) = b.findClear start := by omega
          have := sset (by omega)
          rw [heq, hclear hlt] at this
          exact absurd this (by simp)
      have hsum : b.findClear start + (b.findSet (b.findClear start) - b.findClear start) =
          b.findSet (b.findClear start) := by omega
      rw [hsum]
      exact ⟨hge, hset, by omega, sle, sclear, sset⟩

end NextFreeRange

section FreeRanges

variable (b : Bitmap N)

theorem mem_freeRangesFrom {fuel start i len : Nat} (h : (i, len) ∈ b.freeRangesFrom fuel start) :
    start ≤ i ∧ 0 < len ∧ i + len ≤ N ∧ b.ClearOn i (i + len) ∧
      (i + len < N → b.bits (i + len) = true) := by
  induction fuel generalizing start with
  | zero => simp [freeRangesFrom] at h
  | succ fuel ih =>
      simp only [freeRangesFrom] at h
      split at h
      · simp at h
      · rename_i i' len' hnext
        obtain ⟨hge, -, hpos, hle, hclear, hend⟩ := b.nextFreeRange_eq_some hnext
        rcases List.mem_cons.mp h with heq | htail
        · simp only [Prod.mk.injEq] at heq
          obtain ⟨rfl, rfl⟩ := heq
          exact ⟨hge, hpos, hle, hclear, hend⟩
        · obtain ⟨hge', rest⟩ := ih htail
          exact ⟨by omega, rest⟩

theorem freeRangesFrom_sorted (fuel start : Nat) :
    (b.freeRangesFrom fuel start).Pairwise (fun r s => r.1 + r.2 < s.1) := by
  induction fuel generalizing start with
  | zero => simp [freeRangesFrom]
  | succ fuel ih =>
      simp only [freeRangesFrom]
      split
      · exact List.Pairwise.nil
      · rename_i i len hnext
        obtain ⟨-, -, -, hle, -, hend⟩ := b.nextFreeRange_eq_some hnext
        refine List.Pairwise.cons ?_ (ih (i + len))
        intro r hr
        obtain ⟨hge, hpos, hrle, hrclear, -⟩ := b.mem_freeRangesFrom hr
        rcases Nat.lt_or_ge (i + len) r.1 with hlt | hge'
        · exact hlt
        · -- the run `r` starts at `i + len`, which is a set bit
          have hstart : r.1 = i + len := by omega
          have hset := hend (by omega)
          have hclr := hrclear r.1 le_rfl (by omega)
          rw [hstart, hset] at hclr
          exact absurd hclr (by simp)

theorem freeRangesFrom_complete {fuel start a m : Nat} (hfuel : N - start ≤ fuel) (ha : start ≤ a)
    (hm : 0 < m) (hN : a + m ≤ N) (hclear : b.ClearOn a (a + m)) :
    ∃ r ∈ b.freeRangesFrom fuel start, r.1 ≤ a ∧ a + m ≤ r.1 + r.2 := by
  induction fuel generalizing start with
  | zero => omega
  | succ fuel ih =>
      simp only [freeRangesFrom]
      split
      · rename_i hnone
        have := b.nextFreeRange_eq_none hnone a ha (by omega)
        rw [hclear a le_rfl (by omega)] at this
        exact absurd this (by simp)
      · rename_i i len hnext
        obtain ⟨hge, hset, hpos, hle, hrun, hend⟩ := b.nextFreeRange_eq_some hnext
        have hia : i ≤ a := by
          rcases Nat.lt_or_ge a i with hlt | hge'
          · have := hset a ha hlt
            rw [hclear a le_rfl (by omega)] at this
            exact absurd this (by simp)
          · exact hge'
        rcases Nat.lt_or_ge a (i + len) with hin | hafter
        · -- `[a, a + m)` meets the run, so it cannot pass the set bit that ends it
          refine ⟨(i, len), List.mem_cons_self, hia, ?_⟩
          rcases Nat.lt_or_ge (i + len) (a + m) with hlt | hge'
          · have := hend (by omega)
            rw [hclear (i + len) (by omega) hlt] at this
            exact absurd this (by simp)
          · exact hge'
        · obtain ⟨r, hr, hr1, hr2⟩ := ih (show N - (i + len) ≤ fuel by omega) hafter
          exact ⟨r, List.mem_cons_of_mem _ hr, hr1, hr2⟩

private theorem pairwise_rel_or_rel {α : Type} {R : α → α → Prop} {l : List α}
    (h : l.Pairwise R) {a c : α} (ha : a ∈ l) (hc : c ∈ l) (hne : a ≠ c) : R a c ∨ R c a := by
  induction l with
  | nil => simp at ha
  | cons x l ih =>
      obtain ⟨hx, hl⟩ := List.pairwise_cons.mp h
      rcases List.mem_cons.mp ha with rfl | ha'
      · rcases List.mem_cons.mp hc with rfl | hc'
        · exact absurd rfl hne
        · exact Or.inl (hx c hc')
      · rcases List.mem_cons.mp hc with rfl | hc'
        · exact Or.inr (hx a ha')
        · exact ih hl ha' hc'

theorem freeRangesFrom_left {fuel start i len : Nat} (hstart : start = 0 ∨ N ≤ start ∨ b.bits start = true)
    (h : (i, len) ∈ b.freeRangesFrom fuel start) (hi : 0 < i) : b.bits (i - 1) = true := by
  induction fuel generalizing start with
  | zero => simp [freeRangesFrom] at h
  | succ fuel ih =>
      simp only [freeRangesFrom] at h
      split at h
      · simp at h
      · rename_i i' len' hnext
        obtain ⟨hge, hset, hpos, hle, hclear, hend⟩ := b.nextFreeRange_eq_some hnext
        rcases List.mem_cons.mp h with heq | htail
        · simp only [Prod.mk.injEq] at heq
          obtain ⟨rfl, rfl⟩ := heq
          rcases Nat.lt_or_ge start i with hlt | hge'
          · exact hset (i - 1) (by omega) (by omega)
          · -- the run starts where the loop does, which is neither `0`, nor past the map, nor set
            have hclr := hclear i le_rfl (by omega)
            rcases hstart with h0 | hN | hbit
            · omega
            · omega
            · rw [show i = start by omega, hbit] at hclr
              exact absurd hclr (by simp)
        · refine ih ?_ htail
          rcases Nat.lt_or_ge (i' + len') N with hlt | hge'
          · exact Or.inr (Or.inr (hend hlt))
          · exact Or.inr (Or.inl hge')

theorem mem_freeRanges {i len : Nat} (h : (i, len) ∈ b.freeRanges) :
    0 < len ∧ i + len ≤ N ∧ b.ClearOn i (i + len) ∧ (i + len < N → b.bits (i + len) = true) :=
  (b.mem_freeRangesFrom h).2

theorem freeRanges_sorted : b.freeRanges.Pairwise (fun r s => r.1 + r.2 < s.1) :=
  b.freeRangesFrom_sorted N 0

theorem freeRanges_nodup : b.freeRanges.Nodup :=
  b.freeRanges_sorted.imp (fun {r s} h heq => by subst heq; omega)

theorem freeRanges_disjoint {r s : Nat × Nat} (hr : r ∈ b.freeRanges) (hs : s ∈ b.freeRanges)
    (hne : r ≠ s) : r.1 + r.2 < s.1 ∨ s.1 + s.2 < r.1 :=
  pairwise_rel_or_rel b.freeRanges_sorted hr hs hne

theorem freeRanges_complete {a m : Nat} (hm : 0 < m) (hN : a + m ≤ N)
    (hclear : b.ClearOn a (a + m)) : ∃ r ∈ b.freeRanges, r.1 ≤ a ∧ a + m ≤ r.1 + r.2 :=
  b.freeRangesFrom_complete (by omega) (Nat.zero_le a) hm hN hclear

theorem mem_freeRanges_iff {i len : Nat} : (i, len) ∈ b.freeRanges ↔ b.IsFreeRun i len := by
  constructor
  · intro h
    obtain ⟨hpos, hle, hclear, hend⟩ := b.mem_freeRanges h
    exact ⟨hpos, hle, hclear, b.freeRangesFrom_left (Or.inl rfl) h, hend⟩
  · rintro ⟨hpos, hle, hclear, hleft, hright⟩
    obtain ⟨r, hr, hr1, hr2⟩ := b.freeRanges_complete hpos hle hclear
    obtain ⟨-, hrle, hrclear, -⟩ := b.mem_freeRanges hr
    have hstart : r.1 = i := by
      rcases Nat.lt_or_ge r.1 i with hlt | hge
      · have := hleft (by omega)
        rw [hrclear (i - 1) (by omega) (by omega)] at this
        exact absurd this (by simp)
      · omega
    have hend : r.1 + r.2 = i + len := by
      rcases Nat.lt_or_ge (i + len) (r.1 + r.2) with hlt | hge
      · have := hright (by omega)
        rw [hrclear (i + len) (by omega) hlt] at this
        exact absurd this (by simp)
      · omega
    have hr' : r = (i, len) := Prod.ext hstart (by omega)
    exact hr' ▸ hr

end FreeRanges

end Bitmap

end TCMalloc.Internal
