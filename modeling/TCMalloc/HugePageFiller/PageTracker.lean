import Mathlib
import TCMalloc.Internal.RangeTracker
import TCMalloc.Lib.Positions
import TCMalloc.Lib.Run

/-!
`PageTracker` of `huge_page_filler.h`: the pages of one hugepage, with the
`RangeTracker` of used pages `free_`, the bitmap `released_by_page_` of the
pages released to the OS, and its count `released_count_`, a `uint16_t`.
`Get` takes a range from `free_` and clears what of it was released; `Put`
gives a range back; `ReleaseFree` walks the runs of backed pages and hands each
run of free ones in them to `unback`, marking those whose unback succeeded; and
`MarkSubreleased` marks the free pages a residency bitmap reports unbacked.

Ranges are offsets in the hugepage.  The rest of the tracker (`num_objects_`,
the donation, collapse and residency state, `unbroken_`) is not read by this
bookkeeping and is left out.
-/

set_option autoImplicit false
set_option relaxedAutoImplicit false

namespace TCMalloc.HugePageFiller

open TCMalloc.Lib TCMalloc.Internal

/-- Storing an integer into a `uint16_t`. -/
def toU16 (x : Int) : Nat := (x % 2 ^ 16).toNat

structure PageTracker (N : Nat) where
  free : RangeTracker N
  releasedByPage : Bitmap N
  releasedCount : Nat

namespace PageTracker

variable {N : Nat}

/-- The constructor: no page used or released. -/
def init : PageTracker N := ⟨RangeTracker.init, Bitmap.empty, 0⟩

/-- `Get(n, span_alloc_info)`: the offset of the range and `previously_unbacked`,
the number of its pages that were released; `none` when the `TC_CHECK` of
`FindAndMark` fails. -/
def get (t : PageTracker N) (n : Nat) : Option (Nat × Nat × PageTracker N) :=
  match t.free.findAndMark n with
  | none => none
  | some (index, free) =>
      if t.releasedCount > 0 then
        let unbacked := t.releasedByPage.countBitsIn index n
        some (index, unbacked, ⟨free, t.releasedByPage.clearRange index n, toU16 (t.releasedCount - unbacked)⟩)
      else some (index, 0, { t with free })

/-- `Put(r, span_alloc_info)`, of the range at offset `index`. -/
def put (t : PageTracker N) (index n : Nat) : PageTracker N := { t with free := t.free.unmark index n }

/-- The loop of `ReleaseFree(unback)` from `index`, with the pages counted and
released so far: the count and the bitmap it ends with, and the runs
`(offset, length)` it passes to `unback`, whose outcome on a run is `unback`.
`fuel` bounds the iterations; `N + 1` of them suffice. -/
def releaseFreeLoop (used : Bitmap N) (unback : Nat → Nat → Bool) :
    Nat → Nat → Nat → Bitmap N → Option (Nat × Bitmap N × List (Nat × Nat))
  | 0, _, _, _ => none
  | fuel + 1, index, count, released =>
      match released.nextFreeRange index with
      | none => some (count, released, [])
      | some (index, n) =>
          match used.nextFreeRange index with
          | some (freeIndex, freeN) =>
              if freeIndex < index + n then
                -- the free range, clipped to the backed run
                let stop := min (freeIndex + freeN) (index + n)
                let length := stop - freeIndex
                let ok := unback freeIndex length
                (releaseFreeLoop used unback fuel stop (if ok then count + length else count)
                    (if ok then released.setRange freeIndex length else released)).map
                  fun r => (r.1, r.2.1, (freeIndex, length) :: r.2.2)
              else releaseFreeLoop used unback fuel (index + n) count released
          | none => releaseFreeLoop used unback fuel (index + n) count released

/-- `ReleaseFree(unback)`: the number of pages released, the tracker, and the
runs passed to `unback`. -/
def releaseFree (t : PageTracker N) (unback : Nat → Nat → Bool) :
    Option (Nat × PageTracker N × List (Nat × Nat)) :=
  (releaseFreeLoop t.free.bits unback (N + 1) 0 0 t.releasedByPage).map fun r =>
    (r.1, { t with releasedByPage := r.2.1, releasedCount := toU16 (t.releasedCount + r.1) }, r.2.2)

/-- `MarkSubreleased(unbacked)`: the free pages not yet released that `unbacked`
reports are marked; the number of them, and the tracker. -/
def markSubreleased (t : PageTracker N) (unbacked : Bitmap N) : Nat × PageTracker N :=
  let toRelease := (t.free.bits.complement.and t.releasedByPage.complement).and unbacked
  (toRelease.countBits,
    { t with releasedByPage := t.releasedByPage.or toRelease
             releasedCount := toU16 (t.releasedCount + toRelease.countBits) })

section Release

variable (used : Bitmap N) (unback : Nat → Nat → Bool)

/-- What the loop of `ReleaseFree` does from `index`, with `count` pages
counted and `released` marked: it passes to `unback` runs in order, each of
free pages from `index` on that are not released; it marks exactly the runs
whose unback succeeded and counts their pages; and every free page from
`index` on ends released or in a run whose unback failed. -/
structure LoopOutcome (index count : Nat) (released : Bitmap N) (count' : Nat) (released' : Bitmap N)
    (runs : List (Nat × Nat)) : Prop where
  sorted : runs.Pairwise fun r s => r.1 + r.2 ≤ s.1
  run : ∀ r ∈ runs, index ≤ r.1 ∧ 0 < r.2 ∧ r.1 + r.2 ≤ N ∧ used.ClearOn r.1 (r.1 + r.2) ∧
    released.ClearOn r.1 (r.1 + r.2)
  marks : ∀ k, released'.bits k = true ↔
    released.bits k = true ∨ ∃ r ∈ runs, unback r.1 r.2 = true ∧ r.1 ≤ k ∧ k < r.1 + r.2
  total : count' = count + ((runs.filter fun r => unback r.1 r.2).map Prod.snd).sum
  counted : released'.countBits + count = released.countBits + count'
  covers : ∀ k, index ≤ k → k < N → used.bits k = false →
    released'.bits k = true ∨ ∃ r ∈ runs, unback r.1 r.2 = false ∧ r.1 ≤ k ∧ k < r.1 + r.2

variable {used unback}

theorem LoopOutcome.done {index count : Nat} {released : Bitmap N} (h : released.SetOn index N) :
    LoopOutcome used unback index count released count released [] where
  sorted := List.Pairwise.nil
  run _ hr := absurd hr List.not_mem_nil
  marks k := by simp
  total := by simp
  counted := rfl
  covers k hk hk' _ := Or.inl (h k hk hk')

theorem LoopOutcome.skip {index i n count count' : Nat} {released released' : Bitmap N} {runs : List (Nat × Nat)}
    (hi : index ≤ i) (hreleased : released.SetOn index i) (hused : used.SetOn i (i + n))
    (h : LoopOutcome used unback (i + n) count released count' released' runs) :
    LoopOutcome used unback index count released count' released' runs where
  sorted := h.sorted
  run r hr := by
    obtain ⟨hr1, hrest⟩ := h.run r hr
    exact ⟨by omega, hrest⟩
  marks := h.marks
  total := h.total
  counted := h.counted
  covers k hk hkN hfree := by
    by_cases hki : k < i
    · exact Or.inl ((h.marks k).mpr (Or.inl (hreleased k hk hki)))
    · by_cases hkn : k < i + n
      · rw [hused k (by omega) hkn] at hfree
        exact Bool.noConfusion hfree
      · exact h.covers k (by omega) hkN hfree

theorem LoopOutcome.cons_runs {index i n fi stop : Nat} {released released₁ : Bitmap N} {runs : List (Nat × Nat)}
    (hi : index ≤ i) (hclear : released.ClearOn i (i + n)) (hN : i + n ≤ N) (hfi : i ≤ fi)
    (hfree : used.ClearOn fi stop) (hlt : fi < stop) (hstop : stop ≤ i + n)
    (hsub : ∀ {x y}, released₁.ClearOn x y → released.ClearOn x y)
    (hsorted : runs.Pairwise fun r s => r.1 + r.2 ≤ s.1)
    (hrun : ∀ r ∈ runs, stop ≤ r.1 ∧ 0 < r.2 ∧ r.1 + r.2 ≤ N ∧ used.ClearOn r.1 (r.1 + r.2) ∧
      released₁.ClearOn r.1 (r.1 + r.2)) :
    ((fi, stop - fi) :: runs).Pairwise (fun r s => r.1 + r.2 ≤ s.1) ∧
      ∀ r ∈ (fi, stop - fi) :: runs, index ≤ r.1 ∧ 0 < r.2 ∧ r.1 + r.2 ≤ N ∧
        used.ClearOn r.1 (r.1 + r.2) ∧ released.ClearOn r.1 (r.1 + r.2) := by
  refine ⟨List.Pairwise.cons (fun r hr => ?_) hsorted, fun r hr => ?_⟩
  · have := (hrun r hr).1
    dsimp only
    omega
  · rcases List.mem_cons.mp hr with rfl | hr
    · have hend : fi + (stop - fi) = stop := by omega
      dsimp only
      rw [hend]
      exact ⟨by omega, by omega, by omega, hfree, Bitmap.clearOn_mono hclear (by omega) hstop⟩
    · obtain ⟨h1, h2, h3, h4, h5⟩ := hrun r hr
      exact ⟨by omega, h2, h3, h4, hsub h5⟩

theorem LoopOutcome.released_run {index i n fi stop count count' : Nat} {released released' : Bitmap N}
    {runs : List (Nat × Nat)} (hi : index ≤ i) (hreleased : released.SetOn index i)
    (hclear : released.ClearOn i (i + n)) (hN : i + n ≤ N) (hfi : i ≤ fi) (hused : used.SetOn i fi)
    (hfree : used.ClearOn fi stop) (hlt : fi < stop) (hstop : stop ≤ i + n) (hok : unback fi (stop - fi) = true)
    (h : LoopOutcome used unback stop (count + (stop - fi)) (released.setRange fi (stop - fi)) count' released' runs) :
    LoopOutcome used unback index count released count' released' ((fi, stop - fi) :: runs) := by
  have hend : fi + (stop - fi) = stop := by omega
  obtain ⟨hsorted, hrun⟩ := LoopOutcome.cons_runs hi hclear hN hfi hfree hlt hstop
    (fun hc => Bitmap.clearOn_of_setRange hc) h.sorted h.run
  have hmarked : ∀ k, released.bits k = true ∨ (fi ≤ k ∧ k < stop) → released'.bits k = true := fun k hk =>
    (h.marks k).mpr (Or.inl (by
      rw [Bitmap.setRange_bits, hend]
      split
      · rfl
      · exact hk.resolve_right ‹_›))
  refine ⟨hsorted, hrun, fun k => ?_, ?_, ?_, fun k hk hkN hfreek => ?_⟩
  · rw [h.marks k, Bitmap.setRange_bits, hend]
    by_cases hk : fi ≤ k ∧ k < stop
    · simp [hk, hok, hend]
    · simp [hk, hend]
  · rw [h.total, List.filter_cons_of_pos (p := fun r : Nat × Nat => unback r.1 r.2) hok, List.map_cons, List.sum_cons]
    omega
  · have hcount := RangeTracker.countBits_setRange (b := released) (by omega : fi + (stop - fi) ≤ N)
      (Bitmap.clearOn_mono hclear (by omega) (by omega))
    have := h.counted
    omega
  · by_cases hki : k < i
    · exact Or.inl (hmarked k (Or.inl (hreleased k hk hki)))
    · by_cases hkf : k < fi
      · rw [hused k (by omega) hkf] at hfreek
        exact Bool.noConfusion hfreek
      · by_cases hks : k < stop
        · exact Or.inl (hmarked k (Or.inr ⟨by omega, hks⟩))
        · exact (h.covers k (by omega) hkN hfreek).imp_right fun ⟨r, hr, hrest⟩ =>
            ⟨r, List.mem_cons_of_mem _ hr, hrest⟩

theorem LoopOutcome.kept_run {index i n fi stop count count' : Nat} {released released' : Bitmap N}
    {runs : List (Nat × Nat)} (hi : index ≤ i) (hreleased : released.SetOn index i)
    (hclear : released.ClearOn i (i + n)) (hN : i + n ≤ N) (hfi : i ≤ fi) (hused : used.SetOn i fi)
    (hfree : used.ClearOn fi stop) (hlt : fi < stop) (hstop : stop ≤ i + n) (hok : unback fi (stop - fi) = false)
    (h : LoopOutcome used unback stop count released count' released' runs) :
    LoopOutcome used unback index count released count' released' ((fi, stop - fi) :: runs) := by
  obtain ⟨hsorted, hrun⟩ := LoopOutcome.cons_runs hi hclear hN hfi hfree hlt hstop id h.sorted h.run
  refine ⟨hsorted, hrun, fun k => ?_, ?_, h.counted, fun k hk hkN hfreek => ?_⟩
  · rw [h.marks k]
    simp [hok]
  · rw [h.total, List.filter_cons_of_neg (p := fun r : Nat × Nat => unback r.1 r.2) (by simp [hok])]
  · by_cases hki : k < i
    · exact Or.inl ((h.marks k).mpr (Or.inl (hreleased k hk hki)))
    · by_cases hkf : k < fi
      · rw [hused k (by omega) hkf] at hfreek
        exact Bool.noConfusion hfreek
      · by_cases hks : k < stop
        · exact Or.inr ⟨(fi, stop - fi), List.mem_cons_self, hok, by dsimp only; omega, by dsimp only; omega⟩
        · exact (h.covers k (by omega) hkN hfreek).imp_right fun ⟨r, hr, hrest⟩ =>
            ⟨r, List.mem_cons_of_mem _ hr, hrest⟩

variable (used unback)

theorem releaseFreeLoop_spec : ∀ (fuel index count : Nat) (released : Bitmap N), N - index < fuel →
    ∃ count' released' runs, releaseFreeLoop used unback fuel index count released = some (count', released', runs) ∧
      LoopOutcome used unback index count released count' released' runs
  | 0, _, _, _, h => absurd h (Nat.not_lt_zero _)
  | fuel + 1, index, count, released, hfuel => by
      rw [releaseFreeLoop]
      cases hnext : released.nextFreeRange index with
      | none => exact ⟨count, released, [], rfl, LoopOutcome.done (released.nextFreeRange_eq_none hnext)⟩
      | some run =>
          obtain ⟨i, n⟩ := run
          obtain ⟨hi, hset, hn, hiN, hclear, -⟩ := released.nextFreeRange_eq_some hnext
          dsimp only
          cases hfree : used.nextFreeRange i with
          | none =>
              -- no free page from `i` on: the backed run is skipped
              obtain ⟨c', r', runs, hrun, hout⟩ := releaseFreeLoop_spec fuel (i + n) count released (by omega)
              exact ⟨c', r', runs, hrun,
                hout.skip hi hset fun k hk _ => used.nextFreeRange_eq_none hfree k hk (by omega)⟩
          | some found =>
              obtain ⟨fi, fn⟩ := found
              obtain ⟨hfi, hfset, hfn, -, hfclear, -⟩ := used.nextFreeRange_eq_some hfree
              dsimp only
              by_cases hlt : fi < i + n
              · have hsub : used.ClearOn fi (min (fi + fn) (i + n)) :=
                  Bitmap.clearOn_mono hfclear le_rfl (Nat.min_le_left _ _)
                rw [if_pos hlt]
                cases hok : unback fi (min (fi + fn) (i + n) - fi)
                · simp only [Bool.false_eq_true, if_false]
                  obtain ⟨c', r', runs, hrun, hout⟩ :=
                    releaseFreeLoop_spec fuel (min (fi + fn) (i + n)) count released (by omega)
                  rw [hrun]
                  exact ⟨c', r', _, rfl, hout.kept_run hi hset hclear hiN hfi hfset hsub (by omega) (by omega) hok⟩
                · simp only [if_true]
                  obtain ⟨c', r', runs, hrun, hout⟩ := releaseFreeLoop_spec fuel (min (fi + fn) (i + n))
                    (count + (min (fi + fn) (i + n) - fi)) (released.setRange fi (min (fi + fn) (i + n) - fi))
                    (by omega)
                  rw [hrun]
                  exact ⟨c', r', _, rfl,
                    hout.released_run hi hset hclear hiN hfi hfset hsub (by omega) (by omega) hok⟩
              · -- the next free range starts past this backed run
                rw [if_neg hlt]
                obtain ⟨c', r', runs, hrun, hout⟩ := releaseFreeLoop_spec fuel (i + n) count released (by omega)
                exact ⟨c', r', runs, hrun, hout.skip hi hset fun k hk hk' => hfset k hk (by omega)⟩

end Release

theorem toU16_eq {x : Int} {m : Nat} (h : x = m) (hm : m < 2 ^ 16) : toU16 x = m := by
  subst h
  unfold toU16
  omega

/-- The cached state agrees with the bitmaps: `free_` is exact, `released_count_`
counts `released_by_page_`, whose bits lie inside the hugepage and off every
used page. -/
structure Valid (t : PageTracker N) : Prop where
  exact : t.free.Exact
  counted : t.releasedCount = t.releasedByPage.countBits
  inside : ∀ k, t.releasedByPage.bits k = true → k < N
  apart : ∀ k, t.free.bits.bits k = true → t.releasedByPage.bits k = false

theorem init_valid : (init : PageTracker N).Valid :=
  ⟨RangeTracker.init_exact, by simp [init, Bitmap.countBits], fun _ h => absurd h (by simp [init]),
    fun _ _ => rfl⟩

theorem Valid.released_eq_false {t : PageTracker N} (v : t.Valid) (h : t.releasedCount = 0) (k : Nat) :
    t.releasedByPage.bits k = false := by
  by_contra hk
  have hin := v.inside k (by simpa using hk)
  have hnone := Nat.count_iff_forall_not.mp (v.counted ▸ h : t.releasedByPage.countBits = 0)
  exact hnone k hin (by simpa using hk)

section Calls

variable (hN : N < 2 ^ 16)
include hN

theorem get_spec {t : PageTracker N} (v : t.Valid) {n : Nat} (hpos : 0 < n) (hle : n ≤ t.free.longestFree) :
    ∃ index unbacked t', t.get n = some (index, unbacked, t') ∧ index + n ≤ N ∧
      t.free.bits.ClearOn index (index + n) ∧ t'.free.bits = t.free.bits.setRange index n ∧
      unbacked = t.releasedByPage.countBitsIn index n ∧
      t'.releasedByPage = t.releasedByPage.clearRange index n ∧ t'.Valid := by
  obtain ⟨i, f', hfm, hiN, hclear, hbits, -, hexact⟩ :=
    RangeTracker.findAndMark_spec (by omega) v.exact hpos hle
  unfold get
  rw [hfm]
  dsimp only
  by_cases hrc : t.releasedCount > 0
  · rw [if_pos hrc]
    have hcount := Bitmap.countBits_clearRange_add (b := t.releasedByPage) hiN
    have hle := RangeTracker.countBits_le (t.releasedByPage.clearRange i n)
    refine ⟨i, _, _, rfl, hiN, hclear, hbits, rfl, rfl, hexact,
      toU16_eq (m := (t.releasedByPage.clearRange i n).countBits) (by rw [v.counted]; omega) (by omega),
      fun k hk => v.inside k ?_, fun k hk => ?_⟩
    · simp only [Bitmap.clearRange_bits] at hk
      split at hk
      · exact Bool.noConfusion hk
      · exact hk
    · dsimp only
      rw [hbits, Bitmap.setRange_bits] at hk
      rw [Bitmap.clearRange_bits]
      split
      · rfl
      · rw [if_neg ‹_›] at hk
        exact v.apart k hk
  · rw [if_neg hrc]
    have hzero : t.releasedCount = 0 := by omega
    have hnone := v.released_eq_false hzero
    refine ⟨i, 0, _, rfl, hiN, hclear, hbits, ?_, ?_, hexact, v.counted, v.inside, fun k _ => hnone k⟩
    · exact (Nat.count_iff_forall_not.mpr fun k _ hk => by rw [hnone] at hk; exact Bool.noConfusion hk).symm
    · ext k
      rw [Bitmap.clearRange_bits, hnone]
      split <;> rfl

theorem put_valid {t : PageTracker N} (v : t.Valid) {index n : Nat} (hpos : 0 < n) (hfit : index + n ≤ N)
    (hset : t.free.bits.SetOn index (index + n)) : (t.put index n).Valid where
  exact := RangeTracker.unmark_exact (by omega) v.exact ⟨hpos, hfit, hset⟩
  counted := v.counted
  inside := v.inside
  apart k hk := by
    have hk' : (t.free.bits.clearRange index n).bits k = true := hk
    rw [Bitmap.clearRange_bits] at hk'
    split at hk'
    · exact Bool.noConfusion hk'
    · exact v.apart k hk'

/-- What `ReleaseFree(unback)` does: it leaves `free_` alone, passes to `unback`
runs in order, each of free pages that were not released, marks exactly those
whose unback succeeded, returns their total length, and when every unback
succeeds leaves every free page released. -/
structure ReleaseOutcome (t : PageTracker N) (unback : Nat → Nat → Bool) (count : Nat) (t' : PageTracker N)
    (runs : List (Nat × Nat)) : Prop where
  free : t'.free = t.free
  sorted : runs.Pairwise fun r s => r.1 + r.2 ≤ s.1
  run : ∀ r ∈ runs, 0 < r.2 ∧ r.1 + r.2 ≤ N ∧ t.free.bits.ClearOn r.1 (r.1 + r.2) ∧
    t.releasedByPage.ClearOn r.1 (r.1 + r.2)
  marks : ∀ k, t'.releasedByPage.bits k = true ↔
    t.releasedByPage.bits k = true ∨ ∃ r ∈ runs, unback r.1 r.2 = true ∧ r.1 ≤ k ∧ k < r.1 + r.2
  total : count = ((runs.filter fun r => unback r.1 r.2).map Prod.snd).sum
  all_released : (∀ r ∈ runs, unback r.1 r.2 = true) → ∀ k < N, t.free.bits.bits k = false →
    t'.releasedByPage.bits k = true

theorem releaseFree_spec {t : PageTracker N} (v : t.Valid) (unback : Nat → Nat → Bool) :
    ∃ count t' runs, t.releaseFree unback = some (count, t', runs) ∧ t'.Valid ∧
      ReleaseOutcome t unback count t' runs := by
  obtain ⟨c', r', runs, hloop, hout⟩ :=
    releaseFreeLoop_spec t.free.bits unback (N + 1) 0 0 t.releasedByPage (by omega)
  unfold releaseFree
  rw [hloop]
  have hle := RangeTracker.countBits_le r'
  have hcounted := hout.counted
  refine ⟨c', _, runs, rfl, ⟨v.exact, toU16_eq (x := t.releasedCount + c') (m := r'.countBits) (by rw [v.counted]; omega) (by omega),
    fun k hk => ?_,
    fun k hk => ?_⟩, ⟨rfl, hout.sorted, fun r hr => (hout.run r hr).2, hout.marks, by simpa using hout.total,
    fun hall k hk hfree => ?_⟩⟩
  · rcases (hout.marks k).mp hk with hold | ⟨r, hr, -, hlo, hhi⟩
    · exact v.inside k hold
    · have := (hout.run r hr).2.2.1
      omega
  · by_contra hrel
    rcases (hout.marks k).mp (by simpa using hrel) with hold | ⟨r, hr, -, hlo, hhi⟩
    · rw [v.apart k hk] at hold
      exact Bool.noConfusion hold
    · rw [(hout.run r hr).2.2.2.1 k hlo hhi] at hk
      exact Bool.noConfusion hk
  · rcases hout.covers k (Nat.zero_le k) hk hfree with hrel | ⟨r, hr, hfail, -⟩
    · exact hrel
    · rw [hall r hr] at hfail
      exact Bool.noConfusion hfail

theorem markSubreleased_valid {t : PageTracker N} (v : t.Valid) (unbacked : Bitmap N) :
    (t.markSubreleased unbacked).2.Valid := by
  set toRelease := (t.free.bits.complement.and t.releasedByPage.complement).and unbacked with htoRelease
  have hdisj : ∀ k, t.releasedByPage.bits k = true → toRelease.bits k = false := fun k hk => by
    simp [htoRelease, hk]
  have hcount := Bitmap.countBits_or hdisj
  have hle := RangeTracker.countBits_le (t.releasedByPage.or toRelease)
  refine ⟨v.exact, toU16_eq (x := t.releasedCount + toRelease.countBits) (m := (t.releasedByPage.or toRelease).countBits)
    (by rw [v.counted]; omega) (by omega), fun k hk => ?_, fun k hk => ?_⟩
  · change (t.releasedByPage.or toRelease).bits k = true at hk
    simp only [htoRelease, Bitmap.or_bits, Bitmap.and_bits, Bitmap.complement_bits, Bool.or_eq_true,
      Bool.and_eq_true, decide_eq_true_eq] at hk
    rcases hk with hold | ⟨⟨⟨hk, -⟩, -⟩, -⟩
    · exact v.inside k hold
    · exact hk
  · change t.free.bits.bits k = true at hk
    change (t.releasedByPage.or toRelease).bits k = false
    simp [htoRelease, hk, v.apart k hk]

end Calls

theorem rangesApart_of_clear_set {b : Bitmap N} {r r' : Nat × Nat} (hpos : 0 < r.2) (hpos' : 0 < r'.2)
    (hclear : b.ClearOn r.1 (r.1 + r.2)) (hset : b.SetOn r'.1 (r'.1 + r'.2)) : RangesApart r r' := by
  unfold RangesApart
  by_contra hover
  have hoff := hclear (max r.1 r'.1) (le_max_left _ _) (by omega)
  rw [hset (max r.1 r'.1) (le_max_right _ _) (by omega)] at hoff
  exact Bool.noConfusion hoff

/-- The calls of the filler on one tracker; `unback` gives the outcome of the
unback function on a run by its offset and length. -/
inductive Call (N : Nat)
  | get (n : Nat)
  | put (index n : Nat)
  | releaseFree (unback : Nat → Nat → Bool)
  | markSubreleased (unbacked : Bitmap N)

/-- The tracker and the ranges `(offset, length)` its callers hold. -/
structure State (N : Nat) where
  tracker : PageTracker N
  live : List (Nat × Nat)

def step (st : State N) : Call N → Option (State N)
  | .get n => (st.tracker.get n).map fun r => ⟨r.2.2, (r.1, n) :: st.live⟩
  | .put index n => some ⟨st.tracker.put index n, st.live.erase (index, n)⟩
  | .releaseFree unback => (st.tracker.releaseFree unback).map fun r => ⟨r.2.1, st.live⟩
  | .markSubreleased unbacked => some ⟨(st.tracker.markSubreleased unbacked).2, st.live⟩

/-- `Get` asks for at least one page, as `FindAndMark` asserts, and no more than
the longest free range; `Put` gives back a range that is held. -/
def Allowed (st : State N) : Call N → Prop
  | .get n => 0 < n ∧ n ≤ st.tracker.free.longestFree
  | .put index n => (index, n) ∈ st.live
  | .releaseFree _ => True
  | .markSubreleased _ => True

/-- The tracker is valid and the held ranges are used pages of it, apart from
each other. -/
structure Inv (st : State N) : Prop where
  valid : st.tracker.Valid
  live : ∀ r ∈ st.live, 0 < r.2 ∧ r.1 + r.2 ≤ N ∧ st.tracker.free.bits.SetOn r.1 (r.1 + r.2)
  apart : st.live.Pairwise RangesApart

theorem init_inv : Inv (⟨init, []⟩ : State N) :=
  ⟨init_valid, fun _ h => absurd h List.not_mem_nil, List.Pairwise.nil⟩

section Step

variable (hN : N < 2 ^ 16)
include hN

theorem step_inv {st st' : State N} {c : Call N} (inv : Inv st) (allowed : Allowed st c)
    (hstep : step st c = some st') : Inv st' := by
  cases c with
  | get n =>
      obtain ⟨i, u, t', hget, hiN, hclear, hbits, -, -, v'⟩ := get_spec hN inv.valid allowed.1 allowed.2
      simp only [step, hget, Option.map_some, Option.some.injEq] at hstep
      subst hstep
      have hkeep : ∀ r ∈ st.live, t'.free.bits.SetOn r.1 (r.1 + r.2) := fun r hr k hk hk' => by
        rw [hbits, Bitmap.setRange_bits]
        split
        · rfl
        · exact (inv.live r hr).2.2 k hk hk'
      refine ⟨v', fun r hr => ?_, List.Pairwise.cons (fun r hr => ?_) inv.apart⟩
      · rcases List.mem_cons.mp hr with rfl | hr
        · refine ⟨allowed.1, hiN, fun k hk hk' => ?_⟩
          rw [hbits, Bitmap.setRange_bits, if_pos ⟨hk, hk'⟩]
        · exact ⟨(inv.live r hr).1, (inv.live r hr).2.1, hkeep r hr⟩
      · exact rangesApart_of_clear_set allowed.1 (inv.live r hr).1 hclear (inv.live r hr).2.2
  | put index n =>
      simp only [step, Option.some.injEq] at hstep
      subst hstep
      obtain ⟨hpos, hfit, hset⟩ := inv.live _ allowed
      have hnodup : st.live.Nodup := inv.apart.imp_of_mem fun {r r'} hr _ h heq => by
        subst heq
        have := (inv.live r hr).1
        unfold RangesApart at h
        omega
      refine ⟨put_valid hN inv.valid hpos hfit hset, fun r hr => ?_, inv.apart.sublist List.erase_sublist⟩
      obtain ⟨hne, hr⟩ := (List.Nodup.mem_erase_iff hnodup).mp hr
      obtain ⟨hrpos, hrfit, hrset⟩ := inv.live r hr
      have hap : RangesApart r (index, n) := inv.apart.forall hr allowed hne
      refine ⟨hrpos, hrfit, fun k hk hk' => ?_⟩
      change (st.tracker.free.bits.clearRange index n).bits k = true
      rw [Bitmap.clearRange_bits, if_neg (by unfold RangesApart at hap; dsimp only at hap; omega)]
      exact hrset k hk hk'
  | releaseFree unback =>
      obtain ⟨count, t', runs, hrel, v', hout⟩ := releaseFree_spec hN inv.valid unback
      simp only [step, hrel, Option.map_some, Option.some.injEq] at hstep
      subst hstep
      exact ⟨v', fun r hr => hout.free ▸ inv.live r hr, inv.apart⟩
  | markSubreleased unbacked =>
      simp only [step, Option.some.injEq] at hstep
      subst hstep
      exact ⟨markSubreleased_valid hN inv.valid unbacked, inv.live, inv.apart⟩

theorem run_inv {calls : List (Call N)} {st : State N} (run : Run step Allowed ⟨init, []⟩ calls st) : Inv st :=
  Run.invariant Inv (fun _ _ _ inv allowed hstep => step_inv hN inv allowed hstep) run init_inv

end Step

/-- On every tracker its callers reach: `released_count_` counts
`released_by_page_`, no used page is released, `Get` reports as
`previously_unbacked` the released pages of the range it returns and clears
them, and `ReleaseFree` returns and does what `ReleaseOutcome` says. -/
theorem pageTracker_release_bookkeeping (hN : N < 2 ^ 16) {calls : List (Call N)} {st : State N}
    (run : Run step Allowed ⟨init, []⟩ calls st) :
    st.tracker.releasedCount = st.tracker.releasedByPage.countBits ∧
      (∀ k, st.tracker.free.bits.bits k = true → st.tracker.releasedByPage.bits k = false) ∧
      (∀ n, 0 < n → n ≤ st.tracker.free.longestFree → ∃ index unbacked t',
        st.tracker.get n = some (index, unbacked, t') ∧
          unbacked = st.tracker.releasedByPage.countBitsIn index n ∧
          t'.releasedByPage = st.tracker.releasedByPage.clearRange index n) ∧
      ∀ unback, ∃ count t' runs, st.tracker.releaseFree unback = some (count, t', runs) ∧
        ReleaseOutcome st.tracker unback count t' runs := by
  have v := (run_inv hN run).valid
  refine ⟨v.counted, v.apart, fun n hpos hle => ?_, fun unback => ?_⟩
  · obtain ⟨index, unbacked, t', hget, -, -, -, hunbacked, hcleared, -⟩ := get_spec hN v hpos hle
    exact ⟨index, unbacked, t', hget, hunbacked, hcleared⟩
  · obtain ⟨count, t', runs, hrel, -, hout⟩ := releaseFree_spec hN v unback
    exact ⟨count, t', runs, hrel, hout⟩

theorem pageTracker_release_bookkeeping_after_get_release :
    (8 : Nat) < 2 ^ 16 ∧ ∃ (calls : List (Call 8)) (st : State 8), Run step Allowed ⟨init, []⟩ calls st ∧
      st.tracker.releasedCount = st.tracker.releasedByPage.countBits ∧
      (∀ k, st.tracker.free.bits.bits k = true → st.tracker.releasedByPage.bits k = false) ∧
      (∀ n, 0 < n → n ≤ st.tracker.free.longestFree → ∃ index unbacked t',
        st.tracker.get n = some (index, unbacked, t') ∧
          unbacked = st.tracker.releasedByPage.countBitsIn index n ∧
          t'.releasedByPage = st.tracker.releasedByPage.clearRange index n) ∧
      ∀ unback, ∃ count t' runs, st.tracker.releaseFree unback = some (count, t', runs) ∧
        ReleaseOutcome st.tracker unback count t' runs := by
  have hN : (8 : Nat) < 2 ^ 16 := by decide
  obtain ⟨i, _, t₁, hget, -, -, -, -, -, v₁⟩ :=
    get_spec hN (init_valid (N := 8)) (n := 3) (by decide) (by decide)
  obtain ⟨_, t₂, _, hrel, -, -⟩ := releaseFree_spec hN v₁ fun _ _ => true
  have hget₁ : step ⟨init, []⟩ (.get 3) = some ⟨t₁, [(i, 3)]⟩ := by simp [step, hget]
  have hrel₂ : step ⟨t₁, [(i, 3)]⟩ (.releaseFree fun _ _ => true) = some ⟨t₂, [(i, 3)]⟩ := by
    simp [step, hrel]
  have run : Run step Allowed ⟨init, []⟩ [.get 3, .releaseFree fun _ _ => true] ⟨t₂, [(i, 3)]⟩ :=
    Run.cons ⟨by decide, by decide⟩ hget₁ (Run.cons trivial hrel₂ (Run.nil _))
  exact ⟨hN, _, _, run, pageTracker_release_bookkeeping hN run⟩

end PageTracker

end TCMalloc.HugePageFiller
