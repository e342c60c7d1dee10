import Mathlib
import TCMalloc.Lib.Run
import TCMalloc.Internal.RangeTracker
import TCMalloc.Internal.BitmapWords

/-!
`RangeTracker<N>` of `internal/range_tracker.h` over the word array of `Bitmap<N>`.
The tracker's code is the same template as in `Internal.RangeTracker`; here its map
is `BitmapWords.Words N`, and each call goes through the word-level `NextFreeRange`,
`FindSet`, `FindSetBackwards`, `SetRange` and `ClearRange`, with their checks, and
with the `TC_ASSERT`s that `Mark` and `Unmark` make on their ranges.  The main
result is that this tracker refines the bit-level one along every run of allowed
calls: every call passes its checks and the word array stands for the bit-level map.
-/

set_option autoImplicit false
set_option relaxedAutoImplicit false

namespace TCMalloc.Internal.RangeTrackerWords

open TCMalloc.Lib (Run)
open TCMalloc.Internal.BitmapWords

variable {N : Nat}

/-- `Bitmap<N>::NextFreeRange(start, &index, &length)`: the first run of clear bits at
or after `start`; `some none` is `return false`, `none` a failed check. -/
def nextFreeRange (b : Words N) (start : Nat) : Option (Option (Nat × Nat)) :=
  if N ≤ start then some none
  else (findClear b start).bind fun i =>
    if i = N then some none
    else (findSet b i).map fun j => some (i, j - i)

/-- The ranges visited by `while (bits_.NextFreeRange(index, &index, &len)) { ...;
index += len; }`, with the fuel of `Bitmap.freeRangesFrom`. -/
def freeRangesFrom (b : Words N) : Nat → Nat → Option (List (Nat × Nat))
  | 0, _ => some []
  | fuel + 1, start =>
    match nextFreeRange b start with
    | none => none
    | some none => some []
    | some (some (i, len)) => (freeRangesFrom b fuel (i + len)).map ((i, len) :: ·)

def freeRanges (b : Words N) : Option (List (Nat × Nat)) := freeRangesFrom b N 0

@[ext] structure RangeTracker (N : Nat) where
  bits : Words N
  longestFree : Nat
  nused : Nat
  nallocs : Nat

namespace RangeTracker

/-- `constexpr RangeTracker() : bits_{}, longest_free_(N), nused_(0), nallocs_(0)`. -/
def init : RangeTracker N := ⟨empty, N, 0, 0⟩

/-- `Clear()`. -/
def clear (t : RangeTracker N) : RangeTracker N :=
  { t with bits := BitmapWords.clear t.bits, nallocs := 0, nused := 0, longestFree := N }

/-- The `longest_free_` that `FindAndMark(n)` stores after its scan `s`. -/
def longestAfter (n : Nat) (s : Internal.RangeTracker.Scan) : Nat :=
  if s.bestLen = s.longestLen then
    if s.longestLen - n < s.secondLen then s.secondLen else s.longestLen - n
  else s.longestLen

/-- `FindAndMark(n)` after its scan `s` of the free ranges. -/
def markBest (t : RangeTracker N) (n : Nat) (s : Internal.RangeTracker.Scan) :
    Option (Nat × RangeTracker N) :=
  -- `TC_CHECK_LT(best_index, N)`
  check (s.bestIndex < N) <|
    (setRange t.bits s.bestIndex n).map fun bits =>
      (s.bestIndex,
        { bits
          longestFree := toCount N (longestAfter n s)
          nused := toCount N (t.nused + n)
          nallocs := toCount N (t.nallocs + 1) })

/-- `FindAndMark(n)`: the index it returns and the new tracker. -/
def findAndMark (t : RangeTracker N) (n : Nat) : Option (Nat × RangeTracker N) :=
  -- `TC_ASSERT_GT(n, 0)`
  check (0 < n) <|
    (freeRanges t.bits).bind fun ranges =>
      markBest t n (ranges.foldl (Internal.RangeTracker.scanStep n) (Internal.RangeTracker.scanInit N))

/-- `Mark(index, n)` once `bits_.SetRange(index, n)` returned `bits`: the counters and
the recomputation loop. -/
def markWith (t : RangeTracker N) (n : Nat) (bits : Words N) : Option (RangeTracker N) :=
  (freeRanges bits).map fun ranges =>
    { bits
      nused := toCount N (t.nused + n)
      nallocs := toCount N (t.nallocs + 1)
      longestFree := toCount N ((ranges.foldl Internal.RangeTracker.longestStep 0 : Nat) : Int) }

def mark (t : RangeTracker N) (index n : Nat) : Option (RangeTracker N) :=
  (findSet t.bits index).bind fun j =>
    -- `TC_ASSERT_GE(bits_.FindSet(index), index + n)`
    check (index + n ≤ j) <| (setRange t.bits index n).bind (markWith t n)

/-- `Unmark(index, n)` once `bits_.ClearRange(index, n)` returned `bits`: the run it
reopened is `[FindSetBackwards(index) + 1, FindSet(index + n - 1))`. -/
def unmarkWith (t : RangeTracker N) (index n : Nat) (bits : Words N) : Option (RangeTracker N) :=
  (findSet bits (index + n - 1)).bind fun lim =>
    (findSetBackwards bits index).map fun back =>
      { bits
        nused := toCount N (t.nused - n)
        nallocs := toCount N (t.nallocs - 1)
        longestFree :=
          if lim - (back + 1).toNat > t.longestFree then
            toCount N ((lim - (back + 1).toNat : Nat) : Int)
          else t.longestFree }

def unmark (t : RangeTracker N) (index n : Nat) : Option (RangeTracker N) :=
  (findClear t.bits index).bind fun j =>
    -- `TC_ASSERT(bits_.FindClear(index) >= index + n)`
    check (index + n ≤ j) <| (clearRange t.bits index n).bind (unmarkWith t index n)

/-- The calls of `Internal.RangeTracker.Op` on the word-level tracker. -/
def step (t : RangeTracker N) : Internal.RangeTracker.Op → Option (RangeTracker N)
  | .findAndMark n => (t.findAndMark n).map Prod.snd
  | .mark index n => t.mark index n
  | .unmark index n => t.unmark index n

/-- The word-level tracker stands for the bit-level one: its words refine the map and
the three counters agree. -/
structure Refines (t : RangeTracker N) (a : Internal.RangeTracker N) : Prop where
  bits : BitmapWords.Refines t.bits a.bits
  longestFree : t.longestFree = a.longestFree
  nused : t.nused = a.nused
  nallocs : t.nallocs = a.nallocs

end RangeTracker

/-! ### The scan over the free ranges -/

section FreeRanges

variable {b : Words N} {m : Bitmap N}

theorem nextFreeRange_eq (hb : BitmapWords.Refines b m) (start : Nat) :
    nextFreeRange b start = some (m.nextFreeRange start) := by
  unfold nextFreeRange Bitmap.nextFreeRange
  by_cases hs : N ≤ start
  · rw [if_pos hs, if_pos hs]
  · rw [if_neg hs, if_neg hs, findClear_eq hb (by omega), Option.bind_some]
    dsimp only
    by_cases hi : m.findClear start = N
    · rw [if_pos hi, if_pos hi]
    · -- a clear bit below `N` was found; the search for the set bit after it starts inside the map
      have hlt : m.findClear start < N :=
        lt_of_le_of_ne (m.findClear_spec start (by omega)).2.1 hi
      rw [if_neg hi, if_neg hi, findSet_eq hb hlt, Option.map_some]

theorem freeRangesFrom_eq (hb : BitmapWords.Refines b m) (fuel start : Nat) :
    freeRangesFrom b fuel start = some (m.freeRangesFrom fuel start) := by
  induction fuel generalizing start with
  | zero => rfl
  | succ fuel ih =>
    rw [freeRangesFrom, Bitmap.freeRangesFrom, nextFreeRange_eq hb]
    cases m.nextFreeRange start with
    | none => rfl
    | some r =>
      obtain ⟨i, len⟩ := r
      dsimp only
      rw [ih, Option.map_some]

theorem freeRanges_eq (hb : BitmapWords.Refines b m) : freeRanges b = some m.freeRanges :=
  freeRangesFrom_eq hb N 0

end FreeRanges

/-! ### One call -/

namespace RangeTracker

section Step

open Internal.RangeTracker (Scan scanStep scanInit)

variable {t : RangeTracker N} {a : Internal.RangeTracker N} {index n : Nat}

theorem refines_init : (init : RangeTracker N).Refines Internal.RangeTracker.init :=
  ⟨refines_empty, rfl, rfl, rfl⟩

theorem findAndMark_bits_eq (a : Internal.RangeTracker N) (n : Nat)
    (hidx : (a.bits.freeRanges.foldl (scanStep n) (scanInit N)).bestIndex < N) :
    a.findAndMark n = some ((a.bits.freeRanges.foldl (scanStep n) (scanInit N)).bestIndex,
      { bits := a.bits.setRange (a.bits.freeRanges.foldl (scanStep n) (scanInit N)).bestIndex n
        longestFree := toCount N (longestAfter n (a.bits.freeRanges.foldl (scanStep n) (scanInit N)))
        nused := toCount N (a.nused + n)
        nallocs := toCount N (a.nallocs + 1) }) := by
  simp only [Internal.RangeTracker.findAndMark]
  rw [if_pos hidx]
  rfl

theorem findAndMark_refines (hR : t.Refines a) (exact : a.Exact) (hpos : 0 < n)
    (hle : n ≤ a.longestFree) :
    ∃ i t' a', t.findAndMark n = some (i, t') ∧ a.findAndMark n = some (i, a') ∧ t'.Refines a' := by
  have hbest := Internal.RangeTracker.scan_best_mem exact.longest hpos hle
  obtain ⟨-, hBle, -, -⟩ := a.bits.mem_freeRanges hbest.1
  set s := a.bits.freeRanges.foldl (scanStep n) (scanInit N) with hs
  have hidx : s.bestIndex < N := by omega
  obtain ⟨bits, hset, hbits⟩ := setRange_refines hR.bits hpos (by omega : s.bestIndex + n ≤ N)
  refine ⟨s.bestIndex,
    { bits
      longestFree := toCount N (longestAfter n s)
      nused := toCount N (t.nused + n)
      nallocs := toCount N (t.nallocs + 1) }, _, ?_, findAndMark_bits_eq a n hidx, ?_⟩
  · simp only [findAndMark, check, if_pos hpos, freeRanges_eq hR.bits, Option.bind_some]
    rw [← hs, markBest, check, if_pos hidx, hset, Option.map_some]
  · exact ⟨hbits, rfl, by rw [hR.nused], by rw [hR.nallocs]⟩

theorem mark_refines (hR : t.Refines a) (allowed : a.Allowed (.mark index n)) :
    ∃ t', t.mark index n = some t' ∧ t'.Refines (a.mark index n) := by
  obtain ⟨hpos, hfit, hclear⟩ := allowed
  have hfind : index + n ≤ a.bits.findSet index := (a.bits.le_findSet_iff hfit).mpr hclear
  obtain ⟨bits, hset, hbits⟩ := setRange_refines hR.bits hpos hfit
  rw [mark, findSet_eq hR.bits (by omega), Option.bind_some, check, if_pos hfind, hset,
    Option.bind_some, markWith, freeRanges_eq hbits, Option.map_some]
  exact ⟨_, rfl, hbits, rfl, by rw [hR.nused]; rfl, by rw [hR.nallocs]; rfl⟩

theorem unmark_refines (hR : t.Refines a) (allowed : a.Allowed (.unmark index n)) :
    ∃ t', t.unmark index n = some t' ∧ t'.Refines (a.unmark index n) := by
  obtain ⟨hpos, hfit, hsetOn⟩ := allowed
  have hfind : index + n ≤ a.bits.findClear index := (a.bits.le_findClear_iff hfit).mpr hsetOn
  obtain ⟨bits, hclear, hbits⟩ := clearRange_refines hR.bits hpos hfit
  rw [unmark, findClear_eq hR.bits (by omega), Option.bind_some, check, if_pos hfind, hclear,
    Option.bind_some, unmarkWith, findSet_eq hbits (by omega), Option.bind_some,
    findSetBackwards_eq hbits (by omega), Option.map_some]
  exact ⟨_, rfl, hbits, by rw [hR.longestFree]; rfl, by rw [hR.nused]; rfl, by rw [hR.nallocs]; rfl⟩

theorem step_refines (hR : t.Refines a) (exact : a.Exact) {op : Internal.RangeTracker.Op}
    (allowed : a.Allowed op) {a' : Internal.RangeTracker N} (hstep : a.step op = some a') :
    ∃ t', t.step op = some t' ∧ t'.Refines a' := by
  cases op with
  | findAndMark n =>
    obtain ⟨i, t', a'', hw, ha, hR'⟩ := findAndMark_refines hR exact allowed.1 allowed.2
    simp only [Internal.RangeTracker.step, ha, Option.map_some, Option.some.injEq] at hstep
    subst hstep
    exact ⟨t', by rw [step, hw, Option.map_some], hR'⟩
  | mark index n =>
    simp only [Internal.RangeTracker.step, Option.some.injEq] at hstep
    subst hstep
    exact mark_refines hR allowed
  | unmark index n =>
    simp only [Internal.RangeTracker.step, Option.some.injEq] at hstep
    subst hstep
    exact unmark_refines hR allowed

theorem lt_of_findValue_eq_some {goal : Bool} {b : Words N} {j : Nat}
    (h : findValue goal b index = some j) : index < N := by
  unfold findValue check at h
  split at h
  · assumption
  · cases h

theorem findAndMark_isSome_iff (hR : t.Refines a) (exact : a.Exact) :
    (t.findAndMark n).isSome ↔ 0 < n ∧ n ≤ a.longestFree := by
  constructor
  · intro hsome
    rcases Nat.eq_zero_or_pos n with rfl | hpos
    · simp [findAndMark, check] at hsome
    refine ⟨hpos, ?_⟩
    have inv := Internal.RangeTracker.scanInv_foldl (N := N) (n := n) a.bits.freeRanges
    have hidx : (a.bits.freeRanges.foldl (scanStep n) (scanInit N)).bestIndex < N := by
      by_contra hge
      simp only [findAndMark, check, if_pos hpos, freeRanges_eq hR.bits, Option.bind_some,
        markBest, if_neg hge] at hsome
      exact absurd hsome (by simp)
    rcases inv.best.mem with ⟨hinit, -⟩ | ⟨hmem, hn⟩
    · omega
    · -- the best range is a clear run, so no longer than the longest one
      obtain ⟨-, hfit, hclear, -⟩ := a.bits.mem_freeRanges hmem
      exact le_trans hn (exact.longest.2 ⟨_, hfit, hclear⟩)
  · rintro ⟨hpos, hle⟩
    obtain ⟨i, t', a', hw, -, -⟩ := findAndMark_refines hR exact hpos hle
    rw [hw]
    rfl

theorem mark_isSome_iff (hR : t.Refines a) :
    (t.mark index n).isSome ↔ a.Allowed (.mark index n) := by
  constructor
  · intro hsome
    cases hfind : findSet t.bits index with
    | none => simp [mark, hfind] at hsome
    | some j =>
      have hidx : index < N := lt_of_findValue_eq_some hfind
      rw [findSet_eq hR.bits hidx, Option.some.injEq] at hfind
      subst hfind
      have hle := (a.bits.findSet_spec index hidx.le).2.1
      by_cases hj : index + n ≤ a.bits.findSet index
      · have hfit : index + n ≤ N := by omega
        refine ⟨?_, hfit, (a.bits.le_findSet_iff hfit).mp hj⟩
        rcases Nat.eq_zero_or_pos n with rfl | hpos
        · simp [mark, findSet_eq hR.bits hidx, check, setRange, setRangeValue_zero] at hsome
        · exact hpos
      · simp [mark, findSet_eq hR.bits hidx, check, hj] at hsome
  · intro allowed
    obtain ⟨t', hmark, -⟩ := mark_refines hR allowed
    rw [hmark]
    rfl

theorem unmark_isSome_iff (hR : t.Refines a) :
    (t.unmark index n).isSome ↔ a.Allowed (.unmark index n) := by
  constructor
  · intro hsome
    cases hfind : findClear t.bits index with
    | none => simp [unmark, hfind] at hsome
    | some j =>
      have hidx : index < N := lt_of_findValue_eq_some hfind
      rw [findClear_eq hR.bits hidx, Option.some.injEq] at hfind
      subst hfind
      have hle := (a.bits.findClear_spec index hidx.le).2.1
      by_cases hj : index + n ≤ a.bits.findClear index
      · have hfit : index + n ≤ N := by omega
        refine ⟨?_, hfit, (a.bits.le_findClear_iff hfit).mp hj⟩
        rcases Nat.eq_zero_or_pos n with rfl | hpos
        · simp [unmark, findClear_eq hR.bits hidx, check, clearRange, setRangeValue_zero] at hsome
        · exact hpos
      · simp [unmark, findClear_eq hR.bits hidx, check, hj] at hsome
  · intro allowed
    obtain ⟨t', hunmark, -⟩ := unmark_refines hR allowed
    rw [hunmark]
    rfl

theorem step_isSome_iff (hR : t.Refines a) (exact : a.Exact) {op : Internal.RangeTracker.Op} :
    (t.step op).isSome ↔ a.Allowed op := by
  cases op with
  | findAndMark n =>
    rw [step, Option.isSome_map]
    exact findAndMark_isSome_iff hR exact
  | mark index n => exact mark_isSome_iff hR
  | unmark index n => exact unmark_isSome_iff hR

end Step

/-! ### Runs -/

section Run

open Internal.RangeTracker (Exact init_exact step_exact)

variable {t : RangeTracker N} {a a' : Internal.RangeTracker N}

theorem abstract_step_isSome (hN : N < 2 ^ 64) (exact : a.Exact) {op : Internal.RangeTracker.Op}
    (allowed : a.Allowed op) : ∃ a', a.step op = some a' := by
  cases op with
  | findAndMark n =>
    obtain ⟨i, a', hfind, -⟩ := Internal.RangeTracker.findAndMark_spec hN exact allowed.1 allowed.2
    exact ⟨a', by rw [Internal.RangeTracker.step, hfind, Option.map_some]⟩
  | mark index n => exact ⟨_, rfl⟩
  | unmark index n => exact ⟨_, rfl⟩

theorem run_refines (hN : N < 2 ^ 64) {ops : List Internal.RangeTracker.Op}
    (run : Run Internal.RangeTracker.step Internal.RangeTracker.Allowed a ops a')
    (hR : t.Refines a) (exact : a.Exact) :
    ∃ t', ops.foldlM step t = some t' ∧ t'.Refines a' ∧ a'.Exact := by
  have exact' : a'.Exact :=
    run.invariant _ (fun _ _ _ hex hok hst => (step_exact hN hex hok hst).1) exact
  obtain ⟨t', hrun, hR'⟩ := run.simulate step Refines Exact
    (fun _ _ _ hex hok hst => (step_exact hN hex hok hst).1)
    (fun _ _ _ _ hR hex hok hst => step_refines hR hex hok hst) hR exact
  exact ⟨t', hrun, hR', exact'⟩

theorem run_of_foldlM_isSome (hN : N < 2 ^ 64) :
    ∀ {ops : List Internal.RangeTracker.Op} {t : RangeTracker N} {a : Internal.RangeTracker N},
      t.Refines a → a.Exact → (ops.foldlM step t).isSome →
        ∃ a', Run Internal.RangeTracker.step Internal.RangeTracker.Allowed a ops a'
  | [], _, a, _, _, _ => ⟨a, Run.nil a⟩
  | op :: ops, t, a, hR, exact, hsome => by
    rw [List.foldlM_cons] at hsome
    cases hst : t.step op with
    | none =>
      rw [hst] at hsome
      exact absurd hsome (by simp)
    | some t₁ =>
      -- the first call passed its checks, so it was allowed
      have allowed : a.Allowed op := (step_isSome_iff hR exact).mp (by rw [hst]; rfl)
      obtain ⟨a₁, ha₁⟩ := abstract_step_isSome hN exact allowed
      obtain ⟨t₁', ht₁', hR₁⟩ := step_refines hR exact allowed ha₁
      rw [hst, Option.some.injEq] at ht₁'
      subst ht₁'
      rw [hst, Option.bind_eq_bind, Option.bind_some] at hsome
      obtain ⟨a', run⟩ := run_of_foldlM_isSome hN hR₁ (step_exact hN exact allowed ha₁).1 hsome
      exact ⟨a', Run.cons allowed ha₁ run⟩

/-- Along every run of allowed calls from construction, the word-level tracker passes
every check of every call, stands for the bit-level tracker, and its cached
`longest_free_` and `nused_` are exact for the map its words hold. -/
theorem rangeTrackerWords_refines (hN : N < 2 ^ 64) {ops : List Internal.RangeTracker.Op}
    (run : Run Internal.RangeTracker.step Internal.RangeTracker.Allowed Internal.RangeTracker.init ops a) :
    ∃ t, ops.foldlM step (init : RangeTracker N) = some t ∧ t.Refines a ∧
      (toBitmap t.bits).IsLongestFree t.longestFree ∧ t.nused = (toBitmap t.bits).countBits := by
  obtain ⟨t, hrun, hR, exact⟩ := run_refines hN run refines_init init_exact
  refine ⟨t, hrun, hR, ?_, ?_⟩
  · rw [hR.bits.2, hR.longestFree]
    exact exact.longest
  · rw [hR.bits.2, hR.nused]
    exact exact.used

set_option maxRecDepth 4000 in
theorem rangeTrackerWords_refines_hundred :
    ∃ a : Internal.RangeTracker 100,
      Run Internal.RangeTracker.step Internal.RangeTracker.Allowed Internal.RangeTracker.init
        [.findAndMark 70, .mark 80 10, .unmark 0 70] a ∧
      ∃ t, [.findAndMark 70, .mark 80 10, .unmark 0 70].foldlM step (init : RangeTracker 100) = some t ∧
        t.Refines a ∧ (toBitmap t.bits).IsLongestFree t.longestFree ∧
          t.nused = (toBitmap t.bits).countBits := by
  obtain ⟨a, run⟩ : ∃ a : Internal.RangeTracker 100,
      Run Internal.RangeTracker.step Internal.RangeTracker.Allowed Internal.RangeTracker.init
        [.findAndMark 70, .mark 80 10, .unmark 0 70] a := by
    refine ⟨_, Run.cons ⟨by decide, by decide⟩ rfl
      (Run.cons ⟨by decide, by decide, ?_⟩ rfl (Run.cons ⟨by decide, by decide, ?_⟩ rfl (Run.nil _)))⟩
    · intro k hk hk'
      interval_cases k <;> rfl
    · intro k hk hk'
      interval_cases k <;> rfl
  exact ⟨a, run, rangeTrackerWords_refines (by decide) run⟩

/-- The checks of the word-level tracker catch exactly the misuses: from construction, a
sequence of calls passes every `TC_ASSERT` and `TC_CHECK` iff each call is allowed in the
state it meets. -/
theorem rangeTrackerWords_checks_iff_allowed (hN : N < 2 ^ 64) (ops : List Internal.RangeTracker.Op) :
    (ops.foldlM step (init : RangeTracker N)).isSome ↔
      ∃ a : Internal.RangeTracker N,
        Run Internal.RangeTracker.step Internal.RangeTracker.Allowed Internal.RangeTracker.init ops a := by
  constructor
  · exact run_of_foldlM_isSome hN refines_init init_exact
  · rintro ⟨a, run⟩
    obtain ⟨t, hrun, -⟩ := run_refines hN run refines_init init_exact
    rw [hrun]
    rfl

theorem rangeTrackerWords_checks_iff_allowed_overlap :
    (100 : Nat) < 2 ^ 64 ∧
      ((([.mark 0 10, .mark 5 10] : List Internal.RangeTracker.Op).foldlM step
          (init : RangeTracker 100)).isSome ↔
        ∃ a : Internal.RangeTracker 100, Run Internal.RangeTracker.step Internal.RangeTracker.Allowed
          Internal.RangeTracker.init [.mark 0 10, .mark 5 10] a) :=
  ⟨by decide, rangeTrackerWords_checks_iff_allowed (by decide) _⟩

end Run

end RangeTracker

end TCMalloc.Internal.RangeTrackerWords
