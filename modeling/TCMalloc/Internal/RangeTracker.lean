import Mathlib
import TCMalloc.Internal.Bitmap
import TCMalloc.Lib.Run

/-!
`RangeTracker<N>` of `internal/range_tracker.h`: a bitmap with three cached
statistics, `longest_free_`, `nused_` and `nallocs_`, stored in the narrow
unsigned type `Count`.  `FindAndMark` updates the longest free range from the
two longest runs of its scan, `Unmark` from the run it reopens, and only `Mark`
recomputes it.  The main result is that the cached values stay exact along
every run of allowed calls, with `nallocs_` exact modulo the width of `Count`.
-/

set_option autoImplicit false
set_option relaxedAutoImplicit false

namespace TCMalloc.Internal

open TCMalloc.Lib TCMalloc.Lib.Scan

/-- The width of `RangeTracker<N>::Count`, the first of `uint8_t`, `uint16_t`,
`uint32_t`, `uint64_t` that holds `N` (`UnsignedTypeFittingSize`). -/
def countWidth (N : Nat) : Nat :=
  if N < 2 ^ 8 then 8 else if N < 2 ^ 16 then 16 else if N < 2 ^ 32 then 32 else 64

/-- Storing an integer into a `Count` keeps it modulo `2 ^ countWidth N`. -/
def toCount (N : Nat) (x : Int) : Nat := (x % 2 ^ countWidth N).toNat

@[ext] structure RangeTracker (N : Nat) where
  bits : Bitmap N
  longestFree : Nat
  nused : Nat
  nallocs : Nat

namespace RangeTracker

variable {N : Nat}

/-- `constexpr RangeTracker() : bits_{}, longest_free_(N), nused_(0), nallocs_(0)`. -/
def init : RangeTracker N := ⟨Bitmap.empty, N, 0, 0⟩

def clear (t : RangeTracker N) : RangeTracker N :=
  { t with bits := Bitmap.empty, nallocs := 0, nused := 0, longestFree := N }

/-- The locals of the scan in `FindAndMark`. -/
structure Scan where
  longestLen : Nat
  secondLen : Nat
  bestIndex : Nat
  bestLen : Nat

/-- `size_t longest_len = 0; second_len = 0; best_index = N; best_len = 2 * N;` -/
def scanInit (N : Nat) : Scan := ⟨0, 0, N, 2 * N⟩

/-- One iteration of the scan in `FindAndMark`, over the free range `r = (index, len)`. -/
def scanStep (n : Nat) (s : Scan) (r : Nat × Nat) : Scan :=
  let s :=
    if r.2 > s.longestLen then { s with secondLen := s.longestLen, longestLen := r.2 }
    else if r.2 > s.secondLen then { s with secondLen := r.2 }
    else s
  if r.2 ≥ n ∧ r.2 < s.bestLen then { s with bestIndex := r.1, bestLen := r.2 } else s

/-- `FindAndMark(n)`: the index it returns and the new tracker, or `none` when
`TC_CHECK_LT(best_index, N)` fails. -/
def findAndMark (t : RangeTracker N) (n : Nat) : Option (Nat × RangeTracker N) :=
  let s := t.bits.freeRanges.foldl (scanStep n) (scanInit N)
  if s.bestIndex < N then
    let longestLen :=
      if s.bestLen = s.longestLen then
        if s.longestLen - n < s.secondLen then s.secondLen else s.longestLen - n
      else s.longestLen
    some (s.bestIndex,
      { bits := t.bits.setRange s.bestIndex n
        longestFree := toCount N longestLen
        nused := toCount N (t.nused + n)
        nallocs := toCount N (t.nallocs + 1) })
  else none

/-- One iteration of the recomputation loop in `Mark`. -/
def longestStep (longestLen : Nat) (r : Nat × Nat) : Nat :=
  if r.2 > longestLen then r.2 else longestLen

def mark (t : RangeTracker N) (index n : Nat) : RangeTracker N :=
  let bits := t.bits.setRange index n
  { bits
    nused := toCount N (t.nused + n)
    nallocs := toCount N (t.nallocs + 1)
    longestFree := toCount N ((bits.freeRanges.foldl longestStep 0 : Nat) : Int) }

/-- `Unmark(index, n)`: the run reopened around `[index, index + n)` is
`[FindSetBackwards(index) + 1, FindSet(index + n - 1))`. -/
def unmark (t : RangeTracker N) (index n : Nat) : RangeTracker N :=
  let bits := t.bits.clearRange index n
  let lim := bits.findSet (index + n - 1)
  let start := (bits.findSetBackwards index + 1).toNat
  let len := lim - start
  { bits
    nused := toCount N (t.nused - n)
    nallocs := toCount N (t.nallocs - 1)
    longestFree := if len > t.longestFree then toCount N len else t.longestFree }

/-- The calls of `RangeTracker<N>`'s callers: `FindAndMark`, `Mark` and `Unmark`. -/
inductive Op
  | findAndMark (n : Nat)
  | mark (index n : Nat)
  | unmark (index n : Nat)
  deriving DecidableEq, Repr

def step (t : RangeTracker N) : Op → Option (RangeTracker N)
  | .findAndMark n => (t.findAndMark n).map Prod.snd
  | .mark index n => some (t.mark index n)
  | .unmark index n => some (t.unmark index n)

/-- The REQUIRES of each call, with the `n > 0` that `SetWordBits` asserts on
the way from `Mark` and `Unmark`. -/
def Allowed (t : RangeTracker N) : Op → Prop
  | .findAndMark n => 0 < n ∧ n ≤ t.longestFree
  | .mark index n => 0 < n ∧ index + n ≤ N ∧ t.bits.ClearOn index (index + n)
  | .unmark index n => 0 < n ∧ index + n ≤ N ∧ t.bits.SetOn index (index + n)

/-- How a call moves the number of live allocations. -/
def allocDelta : Op → Int
  | .findAndMark _ => 1
  | .mark _ _ => 1
  | .unmark _ _ => -1

/-- The cached `longest_free_` and `nused_` agree with the bitmap. -/
structure Exact (t : RangeTracker N) : Prop where
  longest : t.bits.IsLongestFree t.longestFree
  used : t.nused = t.bits.countBits

@[simp] theorem clear_eq_init (t : RangeTracker N) : t.clear = init := rfl

section Count

theorem lt_two_pow_countWidth (hN : N < 2 ^ 64) : N < 2 ^ countWidth N := by
  unfold countWidth
  split
  · assumption
  · split
    · assumption
    · split
      · assumption
      · exact hN

theorem toCount_of_le {x : Nat} (hN : N < 2 ^ 64) (hx : x ≤ N) : toCount N x = x := by
  have h := lt_two_pow_countWidth hN
  have hcast : ((2 : Int) ^ countWidth N) = ((2 ^ countWidth N : Nat) : Int) := by
    push_cast
    rfl
  unfold toCount
  rw [hcast, ← Int.natCast_emod, Nat.mod_eq_of_lt (by omega)]
  simp

theorem two_pow_countWidth_pos : (0 : Int) < 2 ^ countWidth N := Int.pow_pos (by decide)

theorem toCount_cast (x : Int) : (toCount N x : Int) = x % 2 ^ countWidth N := by
  unfold toCount
  exact Int.toNat_of_nonneg (Int.emod_nonneg x (ne_of_gt two_pow_countWidth_pos))

theorem toCount_lt (x : Int) : (toCount N x : Int) < 2 ^ countWidth N := by
  rw [toCount_cast]
  exact Int.emod_lt_of_pos x two_pow_countWidth_pos

theorem toCount_lt_two_pow (x : Int) : toCount N x < 2 ^ countWidth N := by
  have h := @toCount_lt N x
  exact_mod_cast h

end Count

section Longest

open Bitmap

variable {b : Bitmap N}

theorem foldl_longestStep (l : List (Nat × Nat)) (a : Nat) :
    a ≤ l.foldl longestStep a ∧ (∀ r ∈ l, r.2 ≤ l.foldl longestStep a) ∧
      (l.foldl longestStep a = a ∨ ∃ r ∈ l, r.2 = l.foldl longestStep a) := by
  induction l generalizing a with
  | nil => simp
  | cons r l ih =>
      obtain ⟨hge, hall, hmem⟩ := ih (longestStep a r)
      have hstep : a ≤ longestStep a r ∧ r.2 ≤ longestStep a r ∧
          (longestStep a r = a ∨ longestStep a r = r.2) := by
        unfold longestStep
        split <;> omega
      simp only [List.foldl_cons, List.mem_cons, forall_eq_or_imp, exists_eq_or_imp]
      refine ⟨by omega, ⟨by omega, hall⟩, ?_⟩
      rcases hmem with heq | hex
      · rcases hstep.2.2 with h | h
        · exact Or.inl (by omega)
        · exact Or.inr (Or.inl (by omega))
      · exact Or.inr (Or.inr hex)

theorem isLongestFree_of_bound (b : Bitmap N) {v : Nat} (hall : ∀ r ∈ b.freeRanges, r.2 ≤ v)
    (hmem : v = 0 ∨ ∃ r ∈ b.freeRanges, r.2 = v) : b.IsLongestFree v := by
  constructor
  · rcases hmem with h0 | ⟨r, hr, hlen⟩
    · refine ⟨0, by omega, ?_⟩
      intro k hk hk'
      omega
    · obtain ⟨-, hle, hclear, -⟩ := b.mem_freeRanges hr
      exact ⟨r.1, by omega, by rw [← hlen]; exact hclear⟩
  · rintro m ⟨a, ha, hclear⟩
    rcases Nat.eq_zero_or_pos m with rfl | hm
    · exact Nat.zero_le _
    · obtain ⟨r, hr, hr1, hr2⟩ := b.freeRanges_complete hm ha hclear
      have := hall r hr
      omega

theorem isLongestFree_freeRanges (b : Bitmap N) :
    b.IsLongestFree (b.freeRanges.foldl longestStep 0) := by
  obtain ⟨-, hall, hmem⟩ := foldl_longestStep b.freeRanges 0
  apply isLongestFree_of_bound b hall
  rcases hmem with h0 | hex
  · exact Or.inl h0
  · exact Or.inr hex

end Longest

section Used

open Bitmap

theorem countBits_le (b : Bitmap N) : b.countBits ≤ N := Nat.count_le _

theorem countBits_setRange {b : Bitmap N} {index n : Nat} (hN : index + n ≤ N)
    (hclear : b.ClearOn index (index + n)) : (b.setRange index n).countBits = b.countBits + n := by
  unfold countBits
  rw [count_of_set_range b.bits (b.setRange index n).bits index n ?_ ?_ N]
  · omega
  · intro k hk
    simp only [setRange_bits]
    rw [if_neg (by omega)]
  · intro k hk hk'
    simp only [setRange_bits]
    exact ⟨hclear k hk hk', by rw [if_pos ⟨hk, hk'⟩]⟩

theorem countBits_clearRange {b : Bitmap N} {index n : Nat} (hN : index + n ≤ N)
    (hset : b.SetOn index (index + n)) : (b.clearRange index n).countBits + n = b.countBits := by
  unfold countBits
  rw [count_of_set_range (b.clearRange index n).bits b.bits index n ?_ ?_ N]
  · omega
  · intro k hk
    simp only [clearRange_bits]
    rw [if_neg (by omega)]
  · intro k hk hk'
    simp only [clearRange_bits]
    exact ⟨by rw [if_pos ⟨hk, hk'⟩], hset k hk hk'⟩

end Used

section Mark

variable {t : RangeTracker N} {index n : Nat}

theorem mark_exact (hN : N < 2 ^ 64) (exact : t.Exact)
    (allowed : t.Allowed (.mark index n)) : (t.mark index n).Exact := by
  obtain ⟨-, hfit, hclear⟩ := allowed
  have hcount := countBits_setRange hfit hclear
  have longest := isLongestFree_freeRanges (t.bits.setRange index n)
  constructor
  · simp only [mark]
    rw [toCount_of_le hN longest.le_N]
    exact longest
  · simp only [mark]
    have hle := countBits_le (t.bits.setRange index n)
    have hsum : ((t.bits.countBits : Int) + n) = ((t.bits.countBits + n : Nat) : Int) := by omega
    rw [exact.used, hsum, ← hcount]
    exact toCount_of_le hN hle

end Mark

section Unmark

open Bitmap

theorem isLongestFree_clearRange {b : Bitmap N} {index n lo hi L : Nat}
    (hL : b.IsLongestFree L) (hlo : lo ≤ index) (hhi : index + n ≤ hi) (hiN : hi ≤ N)
    (hrun : (b.clearRange index n).ClearOn lo hi)
    (left : lo = 0 ∨ (b.clearRange index n).bits (lo - 1) = true)
    (right : hi = N ∨ (b.clearRange index n).bits hi = true) :
    (b.clearRange index n).IsLongestFree (max L (hi - lo)) := by
  constructor
  · rcases Nat.le_total L (hi - lo) with hle | hle
    · rw [max_eq_right hle]
      refine ⟨lo, by omega, ?_⟩
      have hend : lo + (hi - lo) = hi := by omega
      rw [hend]
      exact hrun
    · rw [max_eq_left hle]
      obtain ⟨a, ha, hclear⟩ := hL.1
      refine ⟨a, ha, ?_⟩
      intro k hk hk'
      simp only [clearRange_bits]
      split
      · rfl
      · exact hclear k hk hk'
  · rintro m ⟨a, ha, hclear⟩
    by_cases overlap : a < index + n ∧ index < a + m
    · -- a clear run meeting the reopened range stays between its two set bits
      have hlo' : lo ≤ a := by
        by_contra hlt
        rcases left with h0 | hset
        · omega
        · have := hclear (lo - 1) (by omega) (by omega)
          rw [hset] at this
          exact absurd this (by simp)
      have hhi' : a + m ≤ hi := by
        by_contra hlt
        rcases right with hN | hset
        · omega
        · have := hclear hi (by omega) (by omega)
          rw [hset] at this
          exact absurd this (by simp)
      have : m ≤ hi - lo := by omega
      exact le_max_of_le_right this
    · have hold : b.ClearOn a (a + m) := by
        intro k hk hk'
        have := hclear k hk hk'
        simp only [clearRange_bits] at this
        rwa [if_neg (by omega)] at this
      exact le_max_of_le_left (hL.2 ⟨a, ha, hold⟩)

variable {t : RangeTracker N} {index n : Nat}

theorem unmark_exact (hN : N < 2 ^ 64) (exact : t.Exact)
    (allowed : t.Allowed (.unmark index n)) : (t.unmark index n).Exact := by
  obtain ⟨hpos, hfit, hset⟩ := allowed
  -- the new map and the two ends of the run that `Unmark` reopens
  set b := t.bits.clearRange index n with hb
  set lim := b.findSet (index + n - 1) with hlim
  set r := b.findSetBackwards index with hr
  have hcleared : ∀ k, index ≤ k → k < index + n → b.bits k = false := by
    intro k hk hk'
    simp only [hb, clearRange_bits]
    rw [if_pos ⟨hk, hk'⟩]
  obtain ⟨lim_ge, lim_le, lim_clear, lim_hit⟩ : index + n - 1 ≤ lim ∧ lim ≤ N ∧
      b.ClearOn (index + n - 1) lim ∧ (lim < N → b.bits lim = true) :=
    b.findSet_spec (index + n - 1) (by omega)
  obtain ⟨r_ge, r_le, r_clear, r_hit⟩ : -1 ≤ r ∧ r ≤ index ∧
      (∀ k : Nat, r < k → k ≤ index → b.bits k = false) ∧ (0 ≤ r → b.bits r.toNat = true) :=
    b.findSetBackwards_spec index
  have lim_ge' : index + n ≤ lim := by
    by_contra hlt
    have hat : lim = index + n - 1 := by omega
    have := lim_hit (by omega)
    rw [hat, hcleared _ (by omega) (by omega)] at this
    exact absurd this (by simp)
  have r_lt : r < index := by
    by_contra hge
    have hat : r = index := by omega
    have := r_hit (by omega)
    rw [hat, Int.toNat_natCast, hcleared index le_rfl (by omega)] at this
    exact absurd this (by simp)
  have hlo : (((r + 1).toNat : Nat) : Int) = r + 1 := Int.toNat_of_nonneg (by omega)
  have hrun : b.ClearOn (r + 1).toNat lim := by
    intro k hk hk'
    by_cases hki : k ≤ index
    · exact r_clear k (by omega) hki
    · by_cases hkn : k < index + n
      · exact hcleared k (by omega) hkn
      · exact lim_clear k (by omega) hk'
  have left : (r + 1).toNat = 0 ∨ b.bits ((r + 1).toNat - 1) = true := by
    rcases Int.lt_or_le r 0 with hneg | hnn
    · exact Or.inl (by omega)
    · right
      have hsub : (r + 1).toNat - 1 = r.toNat := by omega
      rw [hsub]
      exact r_hit hnn
  have right : lim = N ∨ b.bits lim = true := by
    rcases Nat.lt_or_ge lim N with hlt | hge
    · exact Or.inr (lim_hit hlt)
    · exact Or.inl (by omega)
  have longest := isLongestFree_clearRange exact.longest (by omega) lim_ge' lim_le hrun left right
  have hcount : b.countBits + n = t.bits.countBits := countBits_clearRange hfit hset
  constructor
  · simp only [unmark]
    rw [← hb, ← hlim, ← hr]
    split
    · rename_i hgt
      rw [toCount_of_le hN (by omega), max_eq_right (by omega)] at *
      exact longest
    · rename_i hle
      rw [max_eq_left (by omega)] at longest
      exact longest
  · simp only [unmark]
    rw [← hb]
    have hdiff : ((t.nused : Int) - n) = ((b.countBits : Nat) : Int) := by
      rw [exact.used]
      omega
    rw [hdiff]
    exact toCount_of_le hN (countBits_le b)

end Unmark

section Scan

/-- What the scan knows about the longest and second longest ranges of `l`: the
second longest is the largest length once one longest range is set aside. -/
structure LongestInv (l : List (Nat × Nat)) (longest second : Nat) : Prop where
  ge : ∀ r ∈ l, r.2 ≤ longest
  mem : longest = 0 ∨ ∃ r ∈ l, r.2 = longest
  second_le : second ≤ longest
  above_second : l.countP (fun r => second < r.2) ≤ 1
  second_twice : second = 0 ∨ 2 ≤ l.countP (fun r => second ≤ r.2)

/-- What the scan knows about its best fit for `n` among `l`. -/
structure BestInv (N n : Nat) (l : List (Nat × Nat)) (index len : Nat) : Prop where
  le : ∀ r ∈ l, n ≤ r.2 → len ≤ r.2
  mem : (index = N ∧ len = 2 * N) ∨ ((index, len) ∈ l ∧ n ≤ len)

structure ScanInv (N n : Nat) (l : List (Nat × Nat)) (s : Scan) : Prop where
  longest : LongestInv l s.longestLen s.secondLen
  best : BestInv N n l s.bestIndex s.bestLen

theorem scanStep_longestLen (n : Nat) (s : Scan) (r : Nat × Nat) :
    (scanStep n s r).longestLen = if r.2 > s.longestLen then r.2 else s.longestLen := by
  unfold scanStep
  dsimp only
  split_ifs <;> rfl

theorem scanStep_secondLen (n : Nat) (s : Scan) (r : Nat × Nat) :
    (scanStep n s r).secondLen =
      if r.2 > s.longestLen then s.longestLen else if r.2 > s.secondLen then r.2 else s.secondLen := by
  unfold scanStep
  dsimp only
  split_ifs <;> rfl

theorem scanStep_best (n : Nat) (s : Scan) (r : Nat × Nat) :
    ((scanStep n s r).bestIndex, (scanStep n s r).bestLen) =
      if r.2 ≥ n ∧ r.2 < s.bestLen then r else (s.bestIndex, s.bestLen) := by
  unfold scanStep
  dsimp only
  split_ifs <;> rfl

theorem longestInv_nil : LongestInv [] 0 0 :=
  ⟨by simp, Or.inl rfl, le_rfl, by simp, Or.inl rfl⟩

theorem longestInv_step {l : List (Nat × Nat)} {longest second : Nat} (r : Nat × Nat)
    (h : LongestInv l longest second) :
    LongestInv (l ++ [r]) (if r.2 > longest then r.2 else longest)
      (if r.2 > longest then longest else if r.2 > second then r.2 else second) := by
  obtain ⟨hge, hmem, hle, habove, htwice⟩ := h
  by_cases h1 : r.2 > longest
  · -- a new longest range: the old longest becomes the second
    rw [if_pos h1, if_pos h1]
    refine ⟨?_, Or.inr ⟨r, by simp, rfl⟩, by omega, ?_, ?_⟩
    · intro x hx
      rcases List.mem_append.mp hx with hx | hx
      · have := hge x hx
        omega
      · simp only [List.mem_singleton] at hx
        rw [hx]
    · have hzero : l.countP (fun x => longest < x.2) = 0 := by
        apply List.countP_eq_zero.mpr
        intro x hx
        have := hge x hx
        simp only [decide_eq_true_eq]
        omega
      simp only [List.countP_append, hzero, List.countP_singleton, decide_eq_true_eq]
      split <;> omega
    · rcases hmem with h0 | ⟨x, hx, hxl⟩
      · exact Or.inl h0
      · right
        have hpos : 0 < l.countP (fun y => longest ≤ y.2) :=
          List.countP_pos_iff.mpr ⟨x, hx, by simp [hxl]⟩
        simp only [List.countP_append, List.countP_singleton, decide_eq_true_eq]
        split <;> omega
  · rw [if_neg h1, if_neg h1]
    by_cases h2 : r.2 > second
    · -- a new second longest range
      rw [if_pos h2]
      refine ⟨?_, ?_, by omega, ?_, Or.inr ?_⟩
      · intro x hx
        rcases List.mem_append.mp hx with hx | hx
        · exact hge x hx
        · simp only [List.mem_singleton] at hx
          rw [hx]
          omega
      · rcases hmem with h0 | ⟨x, hx, hxl⟩
        · exact Or.inl h0
        · exact Or.inr ⟨x, List.mem_append_left _ hx, hxl⟩
      · have hmono : l.countP (fun x => r.2 < x.2) ≤ l.countP (fun x => second < x.2) := by
          apply List.countP_mono_left
          intro x _ hx
          simp only [decide_eq_true_eq] at hx ⊢
          omega
        simp only [List.countP_append, List.countP_singleton, decide_eq_true_eq]
        split <;> omega
      · rcases hmem with h0 | ⟨x, hx, hxl⟩
        · omega
        · have hpos : 0 < l.countP (fun y => r.2 ≤ y.2) :=
            List.countP_pos_iff.mpr ⟨x, hx, by simp only [decide_eq_true_eq]; omega⟩
          simp only [List.countP_append, List.countP_singleton, decide_eq_true_eq]
          split <;> omega
    · rw [if_neg h2]
      refine ⟨?_, ?_, hle, ?_, ?_⟩
      · intro x hx
        rcases List.mem_append.mp hx with hx | hx
        · exact hge x hx
        · simp only [List.mem_singleton] at hx
          rw [hx]
          omega
      · rcases hmem with h0 | ⟨x, hx, hxl⟩
        · exact Or.inl h0
        · exact Or.inr ⟨x, List.mem_append_left _ hx, hxl⟩
      · simp only [List.countP_append, List.countP_singleton, decide_eq_true_eq]
        split <;> omega
      · rcases htwice with h0 | h2'
        · exact Or.inl h0
        · right
          simp only [List.countP_append]
          omega

theorem bestInv_step {N n : Nat} {l : List (Nat × Nat)} {index len : Nat} (r : Nat × Nat)
    (h : BestInv N n l index len) :
    BestInv N n (l ++ [r]) (if r.2 ≥ n ∧ r.2 < len then r else (index, len)).1
      (if r.2 ≥ n ∧ r.2 < len then r else (index, len)).2 := by
  obtain ⟨hle, hmem⟩ := h
  split
  · rename_i hbetter
    refine ⟨?_, Or.inr ⟨by simp, hbetter.1⟩⟩
    intro x hx hn
    rcases List.mem_append.mp hx with hx | hx
    · have := hle x hx hn
      omega
    · simp only [List.mem_singleton] at hx
      rw [hx]
  · rename_i hworse
    refine ⟨?_, ?_⟩
    · intro x hx hn
      rcases List.mem_append.mp hx with hx | hx
      · exact hle x hx hn
      · simp only [List.mem_singleton] at hx
        subst hx
        omega
    · rcases hmem with hinit | ⟨hx, hn⟩
      · exact Or.inl hinit
      · exact Or.inr ⟨List.mem_append_left _ hx, hn⟩

theorem scanInv_step {N n : Nat} {l : List (Nat × Nat)} {s : Scan} (r : Nat × Nat)
    (h : ScanInv N n l s) : ScanInv N n (l ++ [r]) (scanStep n s r) := by
  constructor
  · rw [scanStep_longestLen, scanStep_secondLen]
    exact longestInv_step r h.longest
  · have hbest := bestInv_step r h.best
    rw [← scanStep_best] at hbest
    exact hbest

theorem scanInv_foldl {N n : Nat} (l : List (Nat × Nat)) :
    ScanInv N n l (l.foldl (scanStep n) (scanInit N)) := by
  have general : ∀ (l₀ : List (Nat × Nat)) (s : Scan), ScanInv N n l₀ s →
      ScanInv N n (l₀ ++ l) (l.foldl (scanStep n) s) := by
    induction l with
    | nil => simp
    | cons r l ih =>
        intro l₀ s h
        have := ih (l₀ ++ [r]) (scanStep n s r) (scanInv_step r h)
        simpa using this
  simpa using general [] (scanInit N) ⟨longestInv_nil, ⟨by simp, Or.inl ⟨rfl, rfl⟩⟩⟩

end Scan

section FindAndMark

open Bitmap

private theorem two_le_countP {l : List (Nat × Nat)} (hnd : l.Nodup) {p : Nat × Nat → Bool}
    {x y : Nat × Nat} (hx : x ∈ l) (hy : y ∈ l) (hne : y ≠ x) (px : p x) (py : p y) :
    2 ≤ l.countP p := by
  have hrest : 0 < (l.erase x).countP p :=
    List.countP_pos_iff.mpr ⟨y, (hnd.mem_erase_iff).mpr ⟨hne, hy⟩, py⟩
  have herase := List.countP_erase p l x
  rw [if_pos ⟨hx, px⟩] at herase
  have hpos : 0 < l.countP p := List.countP_pos_iff.mpr ⟨x, hx, px⟩
  omega

private theorem exists_ne_of_two_le_countP {l : List (Nat × Nat)} (hnd : l.Nodup)
    {p : Nat × Nat → Bool} (x : Nat × Nat) (h : 2 ≤ l.countP p) : ∃ y ∈ l, y ≠ x ∧ p y := by
  have herase := List.countP_erase p l x
  have hrest : 0 < (l.erase x).countP p := by
    split at herase <;> omega
  obtain ⟨y, hy, py⟩ := List.countP_pos_iff.mp hrest
  obtain ⟨hne, hy'⟩ := (hnd.mem_erase_iff).mp hy
  exact ⟨y, hy', hne, py⟩

theorem isLongestFree_setRange_best {b : Bitmap N} {n longest second bi bl : Nat}
    (hlong : LongestInv b.freeRanges longest second) (hB : (bi, bl) ∈ b.freeRanges)
    (hn : n ≤ bl) (hpos : 0 < n) :
    (b.setRange bi n).IsLongestFree
      (if bl = longest then (if longest - n < second then second else longest - n)
        else longest) := by
  obtain ⟨hge, hmem, hsle, habove, htwice⟩ := hlong
  obtain ⟨hBpos, hBle, hBclear, -⟩ := b.mem_freeRanges hB
  -- the other ranges keep all their bits clear
  have others : ∀ R ∈ b.freeRanges, R ≠ (bi, bl) → (b.setRange bi n).ClearOn R.1 (R.1 + R.2) := by
    intro R hR hne k hk hk'
    obtain ⟨-, -, hRclear, -⟩ := b.mem_freeRanges hR
    have hdisj := b.freeRanges_disjoint hR hB hne
    simp only [setRange_bits]
    rw [if_neg (by omega)]
    exact hRclear k hk hk'
  -- a clear run of the new map lies past the marked bits of the best range, or in another range
  have inside : ∀ a m, 0 < m → a + m ≤ N → (b.setRange bi n).ClearOn a (a + m) →
      (bi + n ≤ a ∧ a + m ≤ bi + bl) ∨ ∃ R ∈ b.freeRanges, R ≠ (bi, bl) ∧ m ≤ R.2 := by
    intro a m hm ha hclear
    have hold : b.ClearOn a (a + m) := by
      intro k hk hk'
      have := hclear k hk hk'
      simp only [setRange_bits] at this
      split at this
      · exact absurd this (by simp)
      · exact this
    obtain ⟨R, hR, hR1, hR2⟩ := b.freeRanges_complete hm ha hold
    by_cases hRB : R = (bi, bl)
    · subst hRB
      left
      refine ⟨?_, hR2⟩
      by_contra hlt
      have := hclear a le_rfl (by omega)
      simp only [setRange_bits] at this
      rw [if_pos (by omega)] at this
      exact absurd this (by simp)
    · exact Or.inr ⟨R, hR, hRB, by omega⟩
  have hnd := b.freeRanges_nodup
  have hbl := hge (bi, bl) hB
  split
  · rename_i hbest
    -- the best range was a longest one: every other range fits under `second`
    have hsecond : ∀ R ∈ b.freeRanges, R ≠ (bi, bl) → R.2 ≤ second := by
      intro R hR hne
      by_contra hgt
      have hR' := hge R hR
      have := two_le_countP hnd hB hR hne (p := fun r => decide (second < r.2))
        (by simp only [decide_eq_true_eq]; omega) (by simp only [decide_eq_true_eq]; omega)
      omega
    split
    · rename_i hlt
      have hspos : 0 < second := by omega
      rcases htwice with h0 | h2
      · omega
      · obtain ⟨R, hR, hne, hRs⟩ := exists_ne_of_two_le_countP hnd (bi, bl) h2
        simp only [decide_eq_true_eq] at hRs
        obtain ⟨-, hRle, -, -⟩ := b.mem_freeRanges hR
        constructor
        · exact ⟨R.1, by omega, clearOn_mono (others R hR hne) le_rfl (by omega)⟩
        · rintro m ⟨a, ha, hclear⟩
          rcases Nat.eq_zero_or_pos m with rfl | hm
          · exact Nat.zero_le _
          · rcases inside a m hm ha hclear with ⟨h1, h2⟩ | ⟨R', hR', hne', hm'⟩
            · omega
            · exact le_trans hm' (hsecond R' hR' hne')
    · rename_i hge'
      constructor
      · refine ⟨bi + n, by omega, ?_⟩
        intro k hk hk'
        simp only [setRange_bits]
        rw [if_neg (by omega)]
        exact hBclear k (by omega) (by omega)
      · rintro m ⟨a, ha, hclear⟩
        rcases Nat.eq_zero_or_pos m with rfl | hm
        · exact Nat.zero_le _
        · rcases inside a m hm ha hclear with ⟨h1, h2⟩ | ⟨R', hR', hne', hm'⟩
          · omega
          · have := hsecond R' hR' hne'
            omega
  · rename_i hbest
    -- the best range was shorter than a longest one, which survives intact
    rcases hmem with h0 | ⟨R, hR, hRl⟩
    · omega
    · have hne : R ≠ (bi, bl) := by
        intro heq
        rw [heq] at hRl
        exact hbest hRl
      obtain ⟨-, hRle, -, -⟩ := b.mem_freeRanges hR
      constructor
      · exact ⟨R.1, by omega, by rw [← hRl]; exact others R hR hne⟩
      · rintro m ⟨a, ha, hclear⟩
        rcases Nat.eq_zero_or_pos m with rfl | hm
        · exact Nat.zero_le _
        · rcases inside a m hm ha hclear with ⟨h1, h2⟩ | ⟨R', hR', hne', hm'⟩
          · omega
          · exact le_trans hm' (hge R' hR')

variable {t : RangeTracker N} {n : Nat}

theorem scan_best_mem {b : Bitmap N} {L : Nat} (hlong : b.IsLongestFree L) (hpos : 0 < n) (hle : n ≤ L) :
    ((b.freeRanges.foldl (scanStep n) (scanInit N)).bestIndex,
        (b.freeRanges.foldl (scanStep n) (scanInit N)).bestLen) ∈ b.freeRanges ∧
      n ≤ (b.freeRanges.foldl (scanStep n) (scanInit N)).bestLen := by
  have inv : ScanInv N n b.freeRanges (b.freeRanges.foldl (scanStep n) (scanInit N)) :=
    scanInv_foldl b.freeRanges
  obtain ⟨a, ha, hclear⟩ := hlong.1
  obtain ⟨R, hR, hR1, hR2⟩ := b.freeRanges_complete (by omega) ha hclear
  rcases inv.best.mem with ⟨hi, hl⟩ | hmem
  · -- the initial `best_len = 2 * N` is longer than the free range `R`, which fits
    obtain ⟨-, hRle, -, -⟩ := b.mem_freeRanges hR
    have := inv.best.le R hR (by omega)
    omega
  · exact hmem

theorem findAndMark_spec (hN : N < 2 ^ 64) (exact : t.Exact) (hpos : 0 < n)
    (hle : n ≤ t.longestFree) :
    ∃ i t', t.findAndMark n = some (i, t') ∧ i + n ≤ N ∧ t.bits.ClearOn i (i + n) ∧
      t'.bits = t.bits.setRange i n ∧ t'.nallocs = toCount N (t.nallocs + 1) ∧ t'.Exact := by
  set s := t.bits.freeRanges.foldl (scanStep n) (scanInit N) with hs
  have inv : ScanInv N n t.bits.freeRanges s := scanInv_foldl t.bits.freeRanges
  have hbest : (s.bestIndex, s.bestLen) ∈ t.bits.freeRanges ∧ n ≤ s.bestLen :=
    scan_best_mem exact.longest hpos hle
  obtain ⟨hBpos, hBle, hBclear, -⟩ := t.bits.mem_freeRanges hbest.1
  have hidx : s.bestIndex < N := by omega
  have longest := isLongestFree_setRange_best inv.longest hbest.1 hbest.2 hpos
  have hcount := countBits_setRange (b := t.bits) (by omega : s.bestIndex + n ≤ N)
    (clearOn_mono hBclear le_rfl (by omega))
  refine ⟨s.bestIndex,
    { bits := t.bits.setRange s.bestIndex n
      longestFree := toCount N ((if s.bestLen = s.longestLen then
          (if s.longestLen - n < s.secondLen then s.secondLen else s.longestLen - n)
        else s.longestLen : Nat) : Int)
      nused := toCount N (t.nused + n)
      nallocs := toCount N (t.nallocs + 1) },
    ?_, by omega, clearOn_mono hBclear le_rfl (by omega), rfl, rfl, ?_⟩
  · simp only [findAndMark]
    rw [← hs, if_pos hidx]
  · constructor
    · rw [toCount_of_le hN longest.le_N]
      exact longest
    · have hsum : ((t.nused : Int) + n) = ((t.bits.countBits + n : Nat) : Int) := by
        rw [exact.used]
        omega
      show toCount N ((t.nused : Int) + n) = (t.bits.setRange s.bestIndex n).countBits
      rw [hsum, ← hcount]
      exact toCount_of_le hN (countBits_le _)

end FindAndMark

section Run

open Bitmap

theorem init_exact : (init : RangeTracker N).Exact := by
  constructor
  · constructor
    · refine ⟨0, by simp [init], ?_⟩
      intro k hk hk'
      rfl
    · rintro m ⟨a, ha, -⟩
      show m ≤ N
      omega
  · show 0 = Nat.count (fun k => (Bitmap.empty : Bitmap N).bits k = true) N
    rw [eq_comm, Nat.count_iff_forall_not]
    simp

private theorem emod_add_delta (x y d : Int) (h : x = y % 2 ^ countWidth N) :
    (x + d) % 2 ^ countWidth N = (y + d) % 2 ^ countWidth N := by
  rw [h, Int.add_emod, Int.emod_emod, ← Int.add_emod]

variable {t t' : RangeTracker N} {op : Op}

theorem step_exact (hN : N < 2 ^ 64) (exact : t.Exact) (allowed : t.Allowed op)
    (hstep : t.step op = some t') :
    t'.Exact ∧ (t'.nallocs : Int) = ((t.nallocs : Int) + allocDelta op) % 2 ^ countWidth N := by
  cases op with
  | findAndMark n =>
      obtain ⟨hpos, hle⟩ := allowed
      obtain ⟨i, t'', hfind, -, -, -, hallocs, hexact⟩ := findAndMark_spec hN exact hpos hle
      simp only [step, hfind, Option.map_some, Option.some.injEq] at hstep
      subst hstep
      exact ⟨hexact, by rw [hallocs, toCount_cast]; rfl⟩
  | mark index n =>
      simp only [step, Option.some.injEq] at hstep
      subst hstep
      exact ⟨mark_exact hN exact allowed, by simp only [mark, toCount_cast]; rfl⟩
  | unmark index n =>
      simp only [step, Option.some.injEq] at hstep
      subst hstep
      refine ⟨unmark_exact hN exact allowed, ?_⟩
      simp only [unmark, toCount_cast]
      rfl

private theorem foldl_add_delta (ops : List Op) (x : Int) :
    ops.foldl (fun y op => y + allocDelta op) x = x + (ops.map allocDelta).sum := by
  induction ops generalizing x with
  | nil => simp
  | cons op ops ih =>
      simp only [List.foldl_cons, List.map_cons, List.sum_cons, ih]
      omega

/-- From construction or `Clear()`, along every run of allowed calls the cached
longest free range and used count are exact, and `nallocs_` is the number of
`FindAndMark`/`Mark` calls minus `Unmark` calls modulo the width of `Count`. -/
theorem rangeTracker_cached_stats_exact (hN : N < 2 ^ 64) {start t : RangeTracker N}
    {ops : List Op} (hstart : start = init ∨ ∃ t₀ : RangeTracker N, start = t₀.clear)
    (run : Run step Allowed start ops t) :
    t.bits.IsLongestFree t.longestFree ∧ t.nused = t.bits.countBits ∧
      (t.nallocs : Int) = (ops.map allocDelta).sum % 2 ^ countWidth N := by
  have hinit : start = init := by
    rcases hstart with h | ⟨t₀, h⟩
    · exact h
    · rw [h, clear_eq_init]
  subst hinit
  have inv := run.invariant_fold
    (fun s x => s.Exact ∧ (s.nallocs : Int) = x % 2 ^ countWidth N)
    (fun x op => x + allocDelta op)
    (fun s op s' x hinv hok hstep => by
      obtain ⟨hexact, hallocs⟩ := step_exact hN hinv.1 hok hstep
      exact ⟨hexact, by rw [hallocs]; exact emod_add_delta _ _ _ hinv.2⟩)
    (x := 0) ⟨init_exact, by simp [init]⟩
  rw [foldl_add_delta, Int.zero_add] at inv
  exact ⟨inv.1.longest, inv.1.used, inv.2⟩

theorem run_split_unmark :
    ∃ t : RangeTracker 2,
      Run step Allowed init [.findAndMark 2, .unmark 0 1, .unmark 1 1] t ∧ t.nallocs = 255 := by
  refine ⟨_, Run.cons ?_ rfl (Run.cons ?_ rfl (Run.cons ?_ rfl (Run.nil _))), rfl⟩
  · exact ⟨by decide, by decide⟩
  · refine ⟨by decide, by decide, ?_⟩
    intro k hk hk'
    obtain rfl : k = 0 := by omega
    rfl
  · refine ⟨by decide, by decide, ?_⟩
    intro k hk hk'
    obtain rfl : k = 1 := by omega
    rfl

/-- The call count is not what `allocs()` holds: after the run above it is `-1`,
while the 8-bit `Count` holds `255`. -/
theorem rangeTracker_allocs_not_call_difference :
    ∃ t : RangeTracker 2,
      Run step Allowed init [.findAndMark 2, .unmark 0 1, .unmark 1 1] t ∧
        (t.nallocs : Int) ≠
          (([.findAndMark 2, .unmark 0 1, .unmark 1 1] : List Op).map allocDelta).sum := by
  obtain ⟨t, run, hallocs⟩ := run_split_unmark
  refine ⟨t, run, ?_⟩
  rw [hallocs]
  decide

theorem rangeTracker_cached_stats_exact_at_split_unmark :
    ∃ t : RangeTracker 2,
      Run step Allowed init [.findAndMark 2, .unmark 0 1, .unmark 1 1] t ∧
        (t.bits.IsLongestFree t.longestFree ∧ t.nused = t.bits.countBits ∧
          (t.nallocs : Int) =
            (([.findAndMark 2, .unmark 0 1, .unmark 1 1] : List Op).map allocDelta).sum %
              2 ^ countWidth 2) := by
  obtain ⟨t, run, -⟩ := run_split_unmark
  exact ⟨t, run, rangeTracker_cached_stats_exact (by decide) (Or.inl rfl) run⟩

theorem unmark_mark (hN : N < 2 ^ 64) (exact : t.Exact) (hallocs : t.nallocs < 2 ^ countWidth N)
    {index n : Nat} (allowed : t.Allowed (.mark index n)) : (t.mark index n).unmark index n = t := by
  obtain ⟨hpos, hfit, hclear⟩ := allowed
  have hset : (t.mark index n).bits.SetOn index (index + n) := by
    intro k hk hk'
    simp [mark, hk, hk']
  have hexact := unmark_exact hN (mark_exact hN exact ⟨hpos, hfit, hclear⟩) ⟨hpos, hfit, hset⟩
  have hbits : ((t.mark index n).unmark index n).bits = t.bits := clearRange_setRange hclear
  have hlongest := hexact.longest
  have hused := hexact.used
  rw [hbits] at hlongest hused
  ext1
  · exact hbits
  · exact Nat.le_antisymm (exact.longest.2 hlongest.1) (hlongest.2 exact.longest.1)
  · rw [hused, exact.used]
  · have hmod : ((toCount N ((t.nallocs : Int) + 1) : Int) - 1) % 2 ^ countWidth N = t.nallocs := by
      rw [toCount_cast, Int.sub_eq_add_neg, emod_add_delta _ ((t.nallocs : Int) + 1) (-1) rfl,
        Int.add_neg_cancel_right]
      exact Int.emod_eq_of_lt (by omega) (by exact_mod_cast hallocs)
    show ((((toCount N ((t.nallocs : Int) + 1) : Int) - 1) % 2 ^ countWidth N).toNat) = t.nallocs
    rw [hmod, Int.toNat_natCast]

end Run

end RangeTracker

end TCMalloc.Internal
