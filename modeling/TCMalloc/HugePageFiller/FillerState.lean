import Mathlib
import TCMalloc.HugePageFiller.FillerLists

/-!
What the filler keeps true of the trackers it holds, and what its counters count.  A
tracker is `Tracked` with the ranges its callers hold of it: its `PageTracker` is valid,
the ranges are used pages of it, apart from each other, `used_pages()` is their total
length, `nallocs()` their number, and a dense tracker holds single pages only.  `Get`,
`Put`, `ReleaseFree` and `MarkSubreleased` keep this.  `Counted` says that `size_`,
`pages_allocated_`, `unmapped_` and `n_was_released_` are sums over the trackers the
filler holds.
-/

set_option autoImplicit false
set_option relaxedAutoImplicit false

namespace TCMalloc.Internal.Bitmap

variable {N : Nat} {b : Bitmap N} {m : Nat}

theorem IsLongestFree.lt_of_set (h : b.IsLongestFree m) {k : Nat} (hk : k < N) (hset : b.bits k = true) :
    m < N := by
  have hle := h.le_N
  by_contra hge
  obtain ⟨i, hi, hclear⟩ := h.1
  have hoff := hclear k (by omega) (by omega)
  rw [hset] at hoff
  exact Bool.noConfusion hoff

theorem IsLongestFree.eq_of_clear (h : b.IsLongestFree m) (hall : ∀ k < N, b.bits k = false) : m = N := by
  have hmem : N ∈ b.clearLengths := ⟨0, by omega, fun k _ hk => hall k (by omega)⟩
  have hge := h.2 hmem
  have hle := h.le_N
  omega

theorem IsLongestFree.pos_of_clear (h : b.IsLongestFree m) {k : Nat} (hk : k < N) (hclear : b.bits k = false) :
    0 < m := by
  have hmem : 1 ∈ b.clearLengths := ⟨k, by omega, fun j hj hj' => by rwa [show j = k by omega]⟩
  have hge := h.2 hmem
  omega

theorem exists_set_of_countBits_pos (h : 0 < b.countBits) : ∃ k < N, b.bits k = true := by
  by_contra hnone
  push Not at hnone
  have hzero : b.countBits = 0 := Nat.count_iff_forall_not.mpr hnone
  omega

theorem exists_clear_of_countBits_lt (h : b.countBits < N) : ∃ k < N, b.bits k = false := by
  by_contra hnone
  push Not at hnone
  have hall : b.countBits = N := Nat.count_iff_forall.mpr fun k hk => by simpa using hnone k hk
  omega

theorem clear_of_countBits_eq_zero (h : b.countBits = 0) : ∀ k < N, b.bits k = false := fun k hk => by
  simpa using Nat.count_iff_forall_not.mp h k hk

end TCMalloc.Internal.Bitmap

namespace TCMalloc.HugePageFiller

open TCMalloc.Lib TCMalloc.Internal

variable {N : Nat}

namespace PageTracker

variable {t t' : PageTracker N} {n index unbacked : Nat}

theorem get_nallocs (h : t.get n = some (index, unbacked, t')) :
    t'.free.nallocs = toCount N (t.free.nallocs + 1) := by
  unfold get at h
  split at h
  · cases h
  · rename_i i free hfm
    have hallocs : free.nallocs = toCount N (t.free.nallocs + 1) := by
      unfold RangeTracker.findAndMark at hfm
      dsimp only at hfm
      split at hfm
      · cases hfm
        rfl
      · cases hfm
    split at h <;>
    · cases h
      exact hallocs

theorem get_released (hN : N < 2 ^ 16) (v : t.Valid) (hpos : 0 < n) (hle : n ≤ t.free.longestFree)
    (h : t.get n = some (index, unbacked, t')) : t'.releasedCount + unbacked = t.releasedCount := by
  obtain ⟨i, u, t'', hget, hiN, -, -, hu, hrel, v'⟩ := get_spec hN v hpos hle
  rw [h] at hget
  obtain ⟨rfl, rfl, rfl⟩ : index = i ∧ unbacked = u ∧ t' = t'' := by simpa using hget
  rw [v'.counted, v.counted, hu, hrel]
  exact Bitmap.countBits_clearRange_add hiN

theorem releaseFree_released (hN : N < 2 ^ 16) (v : t.Valid) {unback : Nat → Nat → Bool} {count : Nat}
    {runs : List (Nat × Nat)} (h : t.releaseFree unback = some (count, t', runs)) :
    t'.releasedCount = t.releasedCount + count ∧ t'.free = t.free ∧ t'.Valid := by
  obtain ⟨c', r', runs', hloop, hout⟩ :=
    releaseFreeLoop_spec t.free.bits unback (N + 1) 0 0 t.releasedByPage (by omega)
  obtain ⟨count', t'', runs'', hrel, v', -⟩ := releaseFree_spec hN v unback
  unfold releaseFree at h
  rw [hloop] at h
  simp only [Option.map_some, Option.some.injEq, Prod.mk.injEq] at h
  obtain ⟨rfl, rfl, -⟩ := h
  have hcounted := hout.counted
  have hle := RangeTracker.countBits_le r'
  refine ⟨toU16_eq (m := t.releasedCount + c') (by push_cast; rfl) (by rw [v.counted]; omega), rfl, ?_⟩
  unfold releaseFree at hrel
  rw [hloop] at hrel
  simp only [Option.map_some, Option.some.injEq, Prod.mk.injEq] at hrel
  rw [hrel.2.1]
  exact v'

theorem markSubreleased_released (hN : N < 2 ^ 16) (v : t.Valid) (unbacked : Bitmap N) :
    (t.markSubreleased unbacked).2.releasedCount = t.releasedCount + (t.markSubreleased unbacked).1 := by
  have v' := markSubreleased_valid hN v unbacked
  have hcount := Bitmap.countBits_or (b := t.releasedByPage)
    (c := (t.free.bits.complement.and t.releasedByPage.complement).and unbacked) fun k hk => by simp [hk]
  rw [v'.counted, v.counted]
  exact hcount

theorem get_init_index (hpos : 0 < n) (hle : n ≤ N) (h : (init : PageTracker N).get n = some (index, unbacked, t')) :
    index = 0 := by
  unfold get at h
  split at h
  · cases h
  · rename_i i free hfm
    have hi : i = index := by
      split at h <;>
      · cases h
        rfl
    subst hi
    unfold RangeTracker.findAndMark at hfm
    dsimp only at hfm
    split at hfm
    · cases hfm
      have hmem := (RangeTracker.scan_best_mem (RangeTracker.init_exact (N := N)).longest hpos hle).1
      have hrun := (Bitmap.mem_freeRanges_iff _).mp hmem
      by_contra hne
      have hset := hrun.2.2.2.1 (Nat.pos_of_ne_zero hne)
      simp [RangeTracker.init, Bitmap.empty] at hset
    · cases hfm

end PageTracker

/-- A tracker and the ranges `(offset, length)` its callers hold of it: the
`PageTracker` is valid with them, `used_pages()` is their total length and
`nallocs()` their number, and a tracker with dense spans holds single pages only. -/
structure Tracked (t : Tracker N) (live : List (Nat × Nat)) : Prop where
  inv : PageTracker.Inv ⟨t.toPageTracker, live⟩
  used : t.usedPages = (live.map Prod.snd).sum
  nallocs : t.nallocs = live.length
  dense : t.hasDenseSpans = true → ∀ r ∈ live, r.2 = 1

namespace Tracked

variable {t : Tracker N} {live : List (Nat × Nat)}

theorem new (p : Nat) (donated : Bool) : Tracked (Tracker.new p donated : Tracker N) [] where
  inv := PageTracker.init_inv
  used := rfl
  nallocs := rfl
  dense h := absurd h (by simp [Tracker.new])

theorem congr (h : Tracked t live) {t' : Tracker N} (hpages : t'.toPageTracker = t.toPageTracker)
    (hdense : t'.hasDenseSpans = t.hasDenseSpans) : Tracked t' live where
  inv := hpages ▸ h.inv
  used := by
    rw [← h.used]
    simp [Tracker.usedPages, hpages]
  nallocs := by
    rw [← h.nallocs]
    simp [Tracker.nallocs, hpages]
  dense hd := h.dense (hdense ▸ hd)

theorem length_le_used (h : Tracked t live) : live.length ≤ t.usedPages := by
  rw [h.used]
  have hpos : ∀ r ∈ live, 0 < r.2 := fun r hr => (h.inv.live r hr).1
  clear h
  induction live with
  | nil => simp
  | cons r rest ih =>
    simp only [List.length_cons, List.map_cons, List.sum_cons]
    have := hpos r List.mem_cons_self
    have := ih fun r' hr' => hpos r' (List.mem_cons_of_mem r hr')
    omega

theorem used_le (h : Tracked t live) : t.usedPages ≤ N := by
  rw [Tracker.usedPages, h.inv.valid.exact.used]
  exact RangeTracker.countBits_le _

theorem released_le (h : Tracked t live) : t.releasedCount ≤ N := by
  rw [h.inv.valid.counted]
  exact RangeTracker.countBits_le _

theorem used_pos (h : Tracked t live) (hne : live ≠ []) : 0 < t.usedPages := by
  have := h.length_le_used
  have := List.length_pos_of_ne_nil hne
  omega

theorem listable (h : Tracked t live) (hne : live ≠ []) : Listable t where
  longest := by
    obtain ⟨k, hk, hset⟩ := Bitmap.exists_set_of_countBits_pos
      (h.inv.valid.exact.used ▸ h.used_pos hne : 0 < t.free.bits.countBits)
    exact h.inv.valid.exact.longest.lt_of_set hk hset
  nonempty := by
    have := h.used_pos hne
    simp [Tracker.empty]
    omega
  nallocs_pos := by
    rw [h.nallocs]
    exact List.length_pos_of_ne_nil hne
  nallocs_le hd := by
    have := h.length_le_used
    have := h.used_le
    rw [h.nallocs]
    omega

theorem longest_pos_of_dense (h : Tracked t live) (hd : t.hasDenseSpans = true) (hlt : t.nallocs < N) :
    0 < t.longestFreeRange := by
  have hsum : (live.map Prod.snd).sum = live.length := by
    have hone := h.dense hd
    clear h hlt
    induction live with
    | nil => rfl
    | cons r rest ih =>
      simp only [List.map_cons, List.sum_cons, List.length_cons]
      rw [hone r List.mem_cons_self, ih fun r' hr' => hone r' (List.mem_cons_of_mem r hr')]
      omega
  have hused : t.free.bits.countBits < N := by
    rw [← h.inv.valid.exact.used]
    change t.usedPages < N
    rw [h.used, hsum, ← h.nallocs]
    exact hlt
  obtain ⟨k, hk, hclear⟩ := Bitmap.exists_clear_of_countBits_lt hused
  exact h.inv.valid.exact.longest.pos_of_clear hk hclear

theorem longest_eq_iff (h : Tracked t live) : t.longestFreeRange = N ↔ live = [] := by
  constructor
  · intro hN
    by_contra hne
    have := (h.listable hne).longest
    omega
  · intro hnil
    have hzero : t.free.bits.countBits = 0 := by
      rw [← h.inv.valid.exact.used]
      change t.usedPages = 0
      rw [h.used, hnil]
      rfl
    exact h.inv.valid.exact.longest.eq_of_clear (Bitmap.clear_of_countBits_eq_zero hzero)

section Calls

variable (hN : N < 2 ^ 16)
include hN

theorem get (h : Tracked t live) {n : Nat} (hpos : 0 < n) (hle : n ≤ t.longestFreeRange)
    (hdense : t.hasDenseSpans = true → n = 1) :
    ∃ index unbacked pages, t.toPageTracker.get n = some (index, unbacked, pages) ∧
      Tracked { t with toPageTracker := pages } ((index, n) :: live) ∧
      pages.releasedCount + unbacked = t.releasedCount ∧ index + n ≤ N := by
  obtain ⟨index, unbacked, pages, hget, hiN, hclear, hbits, -, -, v'⟩ := PageTracker.get_spec hN h.inv.valid hpos hle
  have hstep : PageTracker.step ⟨t.toPageTracker, live⟩ (.get n) = some ⟨pages, (index, n) :: live⟩ := by
    simp [PageTracker.step, hget]
  have hallowed : PageTracker.Allowed ⟨t.toPageTracker, live⟩ (.get n) := ⟨hpos, hle⟩
  have hused : pages.free.nused = t.usedPages + n := by
    rw [v'.exact.used, hbits, RangeTracker.countBits_setRange hiN hclear, ← h.inv.valid.exact.used]
    rfl
  have hfull : pages.free.nused ≤ N := by
    rw [v'.exact.used]
    exact RangeTracker.countBits_le _
  have hlen := h.length_le_used
  refine ⟨index, unbacked, pages, hget, ⟨PageTracker.step_inv hN h.inv hallowed hstep, ?_, ?_, ?_⟩,
    PageTracker.get_released hN h.inv.valid hpos hle hget, hiN⟩
  · show pages.free.nused = _
    rw [hused, h.used]
    simp [add_comm]
  · show pages.free.nallocs = live.length + 1
    rw [PageTracker.get_nallocs hget]
    have hx : ((t.free.nallocs : Int) + 1) = ((live.length + 1 : Nat) : Int) := by
      have hn : t.free.nallocs = live.length := h.nallocs
      rw [hn]
      push_cast
      rfl
    rw [hx, RangeTracker.toCount_of_le (by omega) (by omega)]
  · intro hd r hr
    rcases List.mem_cons.mp hr with rfl | hr
    · exact hdense hd
    · exact h.dense hd r hr

theorem put (h : Tracked t live) {index n : Nat} (hmem : (index, n) ∈ live) :
    Tracked { t with toPageTracker := t.toPageTracker.put index n } (live.erase (index, n)) ∧
      ({ t with toPageTracker := t.toPageTracker.put index n } : Tracker N).usedPages + n = t.usedPages := by
  have hstep : PageTracker.step ⟨t.toPageTracker, live⟩ (.put index n) =
      some ⟨t.toPageTracker.put index n, live.erase (index, n)⟩ := rfl
  have hallowed : PageTracker.Allowed ⟨t.toPageTracker, live⟩ (.put index n) := hmem
  have hinv := PageTracker.step_inv hN h.inv hallowed hstep
  obtain ⟨hpos, hfit, hset⟩ := h.inv.live _ hmem
  have hused : (t.toPageTracker.put index n).free.nused + n = t.usedPages := by
    rw [hinv.valid.exact.used]
    change (t.free.bits.clearRange index n).countBits + n = t.free.nused
    rw [h.inv.valid.exact.used]
    exact RangeTracker.countBits_clearRange hfit hset
  have hsum : ((live.erase (index, n)).map Prod.snd).sum + n = (live.map Prod.snd).sum := by
    have hperm := ((List.perm_cons_erase hmem).map Prod.snd).sum_eq
    simp only [List.map_cons, List.sum_cons] at hperm
    omega
  have hlen := h.length_le_used
  have hfull := h.used_le
  refine ⟨⟨hinv, ?_, ?_, fun hd r hr => h.dense hd r (List.mem_of_mem_erase hr)⟩, hused⟩
  · change (t.toPageTracker.put index n).free.nused = _
    have := h.used
    omega
  · change toCount N ((t.free.nallocs : Int) - 1) = (live.erase (index, n)).length
    rw [List.length_erase_of_mem hmem]
    have hone : 1 ≤ live.length := List.length_pos_of_mem hmem
    have hx : ((t.free.nallocs : Int) - 1) = ((live.length - 1 : Nat) : Int) := by
      have hn : t.free.nallocs = live.length := h.nallocs
      rw [hn]
      omega
    rw [hx, RangeTracker.toCount_of_le (by omega) (by omega)]

theorem releaseFree (h : Tracked t live) (unback : Nat → Nat → Bool) :
    ∃ count pages runs, t.toPageTracker.releaseFree unback = some (count, pages, runs) ∧
      Tracked { t with toPageTracker := pages } live ∧ pages.releasedCount = t.releasedCount + count ∧
      pages.free = t.free := by
  obtain ⟨count, pages, runs, hrel, -, -⟩ := PageTracker.releaseFree_spec hN h.inv.valid unback
  obtain ⟨hcount, hfree, v'⟩ := PageTracker.releaseFree_released hN h.inv.valid hrel
  refine ⟨count, pages, runs, hrel, ⟨⟨v', ?_, h.inv.apart⟩, ?_, ?_, h.dense⟩, hcount, hfree⟩
  · change ∀ r ∈ live, 0 < r.2 ∧ r.1 + r.2 ≤ N ∧ pages.free.bits.SetOn r.1 (r.1 + r.2)
    rw [hfree]
    exact h.inv.live
  · change pages.free.nused = _
    rw [hfree]
    exact h.used
  · change pages.free.nallocs = _
    rw [hfree]
    exact h.nallocs

theorem markSubreleased (h : Tracked t live) (unbacked : Bitmap N) :
    Tracked { t with toPageTracker := (t.toPageTracker.markSubreleased unbacked).2 } live ∧
      (t.toPageTracker.markSubreleased unbacked).2.releasedCount =
        t.releasedCount + (t.toPageTracker.markSubreleased unbacked).1 :=
  ⟨⟨⟨PageTracker.markSubreleased_valid hN h.inv.valid unbacked, h.inv.live, h.inv.apart⟩, h.used, h.nallocs,
    h.dense⟩, PageTracker.markSubreleased_released hN h.inv.valid unbacked⟩

end Calls

end Tracked

section Counters

variable {ι : Type} [DecidableEq ι]

/-- `∑ q ∈ S, g (tracker q)`: what a counter of the filler counts over the trackers `S`
it holds. -/
def tally (tracker : ι → Tracker N) (S : Finset ι) (g : Tracker N → Nat) : Nat := ∑ q ∈ S, g (tracker q)

/-- The pages in use on a tracker of density `d`. -/
def pagesOf (d : AccessDensityPrediction) (t : Tracker N) : Nat := if t.density = d then t.usedPages else 0

/-- One for a tracker of density `d` that was taken from a released list and is backed
again. -/
def wasReleasedOf (d : AccessDensityPrediction) (t : Tracker N) : Nat :=
  if t.density = d ∧ t.wasReleased = true then 1 else 0

@[simp] theorem pagesOf_density (t : Tracker N) : pagesOf t.density t = t.usedPages := if_pos rfl

theorem pagesOf_of_eq {d : AccessDensityPrediction} {t : Tracker N} (h : t.density = d) : pagesOf d t = t.usedPages :=
  if_pos h

theorem pagesOf_of_ne {d : AccessDensityPrediction} {t : Tracker N} (h : t.density ≠ d) : pagesOf d t = 0 := if_neg h

theorem pagesOf_of_used {d : AccessDensityPrediction} {t : Tracker N} (h : t.usedPages = 0) : pagesOf d t = 0 := by
  unfold pagesOf
  split <;> simp [h]

theorem pagesOf_congr {d : AccessDensityPrediction} {t t' : Tracker N} (hd : t'.hasDenseSpans = t.hasDenseSpans)
    (hu : t'.usedPages = t.usedPages) : pagesOf d t' = pagesOf d t := by
  unfold pagesOf Tracker.density
  rw [hd, hu]

/-- `size_` counts the trackers the filler holds, and `pages_allocated_`, `unmapped_` and
`n_was_released_` sum their used, released and backed-again pages by density. -/
structure Counted (f : Filler ι N) (S : Finset ι) : Prop where
  size : f.size = S.card
  pagesAllocated : ∀ d, f.pagesAllocated d = tally f.tracker S (pagesOf d)
  unmapped : f.unmapped = tally f.tracker S Tracker.releasedPages
  nWasReleased : ∀ d, f.nWasReleased d = tally f.tracker S (wasReleasedOf d)

variable {tracker : ι → Tracker N} {S : Finset ι} {pt : ι} {g : Tracker N → Nat}

omit [DecidableEq ι] in
theorem tally_empty : tally tracker ∅ g = 0 := Finset.sum_empty

theorem tally_insert (hpt : pt ∉ S) : tally tracker (insert pt S) g = tally tracker S g + g (tracker pt) := by
  unfold tally
  rw [Finset.sum_insert hpt, add_comm]

theorem tally_erase (hpt : pt ∈ S) : tally tracker (S.erase pt) g + g (tracker pt) = tally tracker S g := by
  unfold tally
  rw [add_comm]
  exact Finset.add_sum_erase S (fun q => g (tracker q)) hpt

omit [DecidableEq ι] in
theorem tally_le (hpt : pt ∈ S) : g (tracker pt) ≤ tally tracker S g :=
  Finset.single_le_sum (f := fun q => g (tracker q)) (fun _ _ => Nat.zero_le _) hpt

theorem tally_update_of_not_mem (hpt : pt ∉ S) (t : Tracker N) :
    tally (Function.update tracker pt t) S g = tally tracker S g :=
  Finset.sum_congr rfl fun q hq => by rw [Function.update_of_ne (ne_of_mem_of_not_mem hq hpt)]

theorem tally_update (hpt : pt ∈ S) (t : Tracker N) :
    tally (Function.update tracker pt t) S g + g (tracker pt) = tally tracker S g + g t := by
  have hnew : tally (Function.update tracker pt t) (S.erase pt) g + g (Function.update tracker pt t pt) =
      tally (Function.update tracker pt t) S g := tally_erase hpt
  have hold : tally tracker (S.erase pt) g + g (tracker pt) = tally tracker S g := tally_erase hpt
  rw [tally_update_of_not_mem (Finset.notMem_erase pt S), Function.update_self] at hnew
  omega

variable {f f' : Filler ι N} {t : Tracker N}

theorem Counted.setTracker (hc : Counted f S) (hpt : pt ∉ S) (t : Tracker N) : Counted (f.setTracker pt t) S where
  size := hc.size
  pagesAllocated d := (hc.pagesAllocated d).trans (tally_update_of_not_mem hpt t).symm
  unmapped := hc.unmapped.trans (tally_update_of_not_mem hpt t).symm
  nWasReleased d := (hc.nWasReleased d).trans (tally_update_of_not_mem hpt t).symm

omit [DecidableEq ι] in
theorem Counted.pagesOf_le (hc : Counted f S) (hpt : pt ∈ S) (d : AccessDensityPrediction) :
    pagesOf d (f.tracker pt) ≤ f.pagesAllocated d := by
  rw [hc.pagesAllocated]
  exact tally_le hpt

omit [DecidableEq ι] in
theorem Counted.releasedPages_le (hc : Counted f S) (hpt : pt ∈ S) : (f.tracker pt).releasedPages ≤ f.unmapped := by
  rw [hc.unmapped]
  exact tally_le hpt

omit [DecidableEq ι] in
theorem Counted.wasReleasedOf_le (hc : Counted f S) (hpt : pt ∈ S) (d : AccessDensityPrediction) :
    wasReleasedOf d (f.tracker pt) ≤ f.nWasReleased d := by
  rw [hc.nWasReleased]
  exact tally_le hpt

theorem Counted.update_tracker (hc : Counted f S) (hpt : pt ∈ S) (htracker : f'.tracker = Function.update f.tracker pt t)
    (hsize : f'.size = f.size)
    (hpages : ∀ d, f'.pagesAllocated d + pagesOf d (f.tracker pt) = f.pagesAllocated d + pagesOf d t)
    (hunmapped : f'.unmapped + (f.tracker pt).releasedPages = f.unmapped + t.releasedPages)
    (hwas : ∀ d, f'.nWasReleased d + wasReleasedOf d (f.tracker pt) = f.nWasReleased d + wasReleasedOf d t) :
    Counted f' S := by
  have hsum : ∀ g : Tracker N → Nat, tally f'.tracker S g + g (f.tracker pt) = tally f.tracker S g + g t :=
    fun g => by rw [htracker, tally_update hpt t]
  refine ⟨hsize.trans hc.size, fun d => ?_, ?_, fun d => ?_⟩
  · have := hsum (pagesOf d)
    have := hpages d
    rw [hc.pagesAllocated] at this
    omega
  · have := hsum Tracker.releasedPages
    rw [hc.unmapped] at hunmapped
    omega
  · have := hsum (wasReleasedOf d)
    have := hwas d
    rw [hc.nWasReleased] at this
    omega

theorem Counted.insert_tracker (hc : Counted f S) (hpt : pt ∉ S) (htracker : f'.tracker = Function.update f.tracker pt t)
    (hsize : f'.size = f.size + 1) (hpages : ∀ d, f'.pagesAllocated d = f.pagesAllocated d + pagesOf d t)
    (hunmapped : f'.unmapped = f.unmapped + t.releasedPages)
    (hwas : ∀ d, f'.nWasReleased d = f.nWasReleased d + wasReleasedOf d t) : Counted f' (insert pt S) := by
  have hsum : ∀ g : Tracker N → Nat, tally f'.tracker (insert pt S) g = tally f.tracker S g + g t := fun g => by
    rw [htracker, tally_insert hpt, tally_update_of_not_mem hpt, Function.update_self]
  refine ⟨?_, fun d => ?_, ?_, fun d => ?_⟩
  · rw [hsize, hc.size, Finset.card_insert_of_notMem hpt]
  · rw [hsum, hpages, hc.pagesAllocated]
  · rw [hsum, hunmapped, hc.unmapped]
  · rw [hsum, hwas, hc.nWasReleased]

theorem Counted.erase_tracker (hc : Counted f S) (hpt : pt ∈ S) (htracker : f'.tracker = Function.update f.tracker pt t)
    (hsize : f'.size + 1 = f.size)
    (hpages : ∀ d, f'.pagesAllocated d + pagesOf d (f.tracker pt) = f.pagesAllocated d)
    (hunmapped : f'.unmapped + (f.tracker pt).releasedPages = f.unmapped)
    (hwas : ∀ d, f'.nWasReleased d + wasReleasedOf d (f.tracker pt) = f.nWasReleased d) :
    Counted f' (S.erase pt) := by
  have hsum : ∀ g : Tracker N → Nat, tally f'.tracker (S.erase pt) g + g (f.tracker pt) = tally f.tracker S g :=
    fun g => by rw [htracker, tally_update_of_not_mem (Finset.notMem_erase pt S), tally_erase hpt]
  refine ⟨?_, fun d => ?_, ?_, fun d => ?_⟩
  · have := Finset.card_erase_add_one hpt
    rw [hc.size] at hsize
    omega
  · have := hsum (pagesOf d)
    have := hpages d
    rw [hc.pagesAllocated] at this
    omega
  · have := hsum Tracker.releasedPages
    rw [hc.unmapped] at hunmapped
    omega
  · have := hsum (wasReleasedOf d)
    have := hwas d
    rw [hc.nWasReleased] at this
    omega

omit [DecidableEq ι] in
theorem counted_init (mode : SubreleaseUnbackedMode) : Counted (Filler.init mode : Filler ι N) ∅ :=
  ⟨rfl, fun _ => tally_empty.symm, tally_empty.symm, fun _ => tally_empty.symm⟩

end Counters

end TCMalloc.HugePageFiller
