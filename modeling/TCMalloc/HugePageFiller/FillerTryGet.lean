import Mathlib
import TCMalloc.HugePageFiller.FillerRun

/-!
`TryGet` as its callers drive it.  The search takes the first tracker of the first list at
or after the list of the request, in the regular lists of the request's density, then the
donated lists, then the partially released and the released lists; the tracker found can
always hold the request, `Get` hands out its range, and the tracker goes back on the list
of its new state.  The invariant of `FillerRun` holds after every call.
-/

set_option autoImplicit false
set_option relaxedAutoImplicit false

namespace TCMalloc.HugePageFiller

open TCMalloc.Lib TCMalloc.Lib.Buckets TCMalloc.Internal

variable {ι : Type} {N : Nat}

theorem Tracked.fits {t : Tracker N} {live : List (Nat × Nat)} (htr : Tracked t live) (hne : live ≠ [])
    {mode : SubreleaseUnbackedMode} {fam : Family} {d : AccessDensityPrediction} {i k n : Nat}
    (hplace : placeOf mode t = some (.listed fam d, i)) (hk : listFor N n 0 d (N - 1) = some k) (hki : k ≤ i)
    (hn : n < N) (hreq : d = .sparse ∨ n = 1) :
    t.donated = false ∧ family mode t = fam ∧ t.density = d ∧ n ≤ t.longestFreeRange := by
  have ht := htr.listable hne
  rw [placeOf_eq mode ht] at hplace
  cases hdon : t.donated
  case true =>
    rw [slotOf_donated mode hdon] at hplace
    exact absurd (Prod.mk.inj (Option.some.inj hplace)).1 (by simp)
  case false =>
    rw [slotOf_listed mode hdon] at hplace
    obtain ⟨hP, hi⟩ := Prod.mk.inj (Option.some.inj hplace)
    obtain ⟨hfam, hd⟩ := Place.listed.inj hP
    refine ⟨rfl, hfam, hd, ?_⟩
    subst hd hi
    have hchunk := chunkOf_lt t.nallocs
    unfold listIndex at hki
    unfold Tracker.density at hk hreq
    cases hdense : t.hasDenseSpans
    case false =>
      -- a sparse list holds trackers whose longest free range is its index over `kChunks`
      simp only [hdense, Bool.false_eq_true, if_false] at hk hki
      rw [listFor_sparse hn (by simp [kChunks]), Nat.add_zero] at hk
      obtain rfl := Option.some.inj hk
      unfold kChunks at hchunk hki
      omega
    case true =>
      -- a dense list after the first holds trackers with fewer than `kPagesPerHugePage` allocations
      simp only [hdense, if_true] at hk hki hreq
      have hn1 : n = 1 := hreq.resolve_left (by simp)
      subst hn1
      rw [listFor_dense (by omega) (by simp [kChunks]), Nat.add_zero] at hk
      obtain rfl := Option.some.inj hk
      have hlt : t.nallocs < N := by
        unfold kChunks at hki
        omega
      exact htr.longest_pos_of_dense hdense hlt

theorem Tracked.fits_donated {t : Tracker N} {live : List (Nat × Nat)} (htr : Tracked t live) (hne : live ≠ [])
    {mode : SubreleaseUnbackedMode} {i n : Nat} (hplace : placeOf mode t = some (.donated, i)) (hni : n ≤ i) :
    t.donated = true ∧ n ≤ t.longestFreeRange := by
  rw [placeOf_eq mode (htr.listable hne)] at hplace
  cases hdon : t.donated
  case false =>
    rw [slotOf_listed mode hdon] at hplace
    exact absurd (Prod.mk.inj (Option.some.inj hplace)).1 (by simp)
  case true =>
    rw [slotOf_donated mode hdon] at hplace
    exact ⟨rfl, (Prod.mk.inj (Option.some.inj hplace)).2 ▸ hni⟩

theorem releasedCount_of_family_regular {mode : SubreleaseUnbackedMode} {t : Tracker N}
    (h : family mode t = .regular) : t.releasedCount = 0 := by
  unfold family at h
  by_cases hr : t.released = false
  · simpa [Tracker.released] using hr
  · simp only [Bool.not_eq_false] at hr
    simp [hr] at h
    split at h <;> exact absurd h (by simp)

variable [DecidableEq ι]

namespace State

variable {s : State ι N} {pt : ι}

theorem Inv.handOut (inv : Inv s) (hpt : pt ∈ s.held) {f : Filler ι N} {t : Tracker N} {index n : Nat}
    {density : AccessDensityPrediction} (htracker : f.tracker = Function.update s.filler.tracker pt t)
    (hl : ∃ L, Listed f s.held L) (htr : Tracked t ((index, n) :: s.live pt)) (hdon : t.donated = false)
    (hdense : t.hasDenseSpans = (s.filler.tracker pt).hasDenseSpans) (hdensity : t.density = density)
    (hsize : f.size = s.filler.size)
    (hpages : f.pagesAllocated = Function.update s.filler.pagesAllocated density (s.filler.pagesAllocated density + n))
    (hunmapped : f.unmapped + (s.filler.tracker pt).releasedPages = s.filler.unmapped + t.releasedPages)
    (hwas : ∀ d,
      f.nWasReleased d + wasReleasedOf d (s.filler.tracker pt) = s.filler.nWasReleased d + wasReleasedOf d t)
    (hff : f.fullyFreedTrackers = s.filler.fullyFreedTrackers) :
    Inv ⟨f, s.held, Function.update s.live pt ((index, n) :: s.live pt)⟩ := by
  obtain ⟨htr₀, -⟩ := inv.tracked pt hpt
  have hused : t.usedPages = (s.filler.tracker pt).usedPages + n := by
    rw [htr.used, htr₀.used]
    simp [add_comm]
  have hd₀ : (s.filler.tracker pt).density = density := by
    rw [← hdensity]
    unfold Tracker.density
    rw [hdense]
  have hc : Counted f s.held := by
    refine inv.counted.update_tracker hpt htracker hsize (fun d => ?_) hunmapped hwas
    rw [hpages]
    by_cases hd : density = d
    · subst hd
      rw [Function.update_self, pagesOf_of_eq hd₀, pagesOf_of_eq hdensity, hused]
      omega
    · rw [Function.update_of_ne (Ne.symm hd), pagesOf_of_ne (hd₀ ▸ hd), pagesOf_of_ne (hdensity ▸ hd)]
  exact inv.update hpt htracker hl hc htr (List.cons_ne_nil _ _) (fun h => absurd (hdon ▸ h) Bool.false_ne_true) hff

theorem step_tryGet_some {n : Nat} {density : AccessDensityPrediction} {page index : Nat} {wr : Bool}
    {f' : Filler ι N} (h : s.filler.tryGet n density = some (some (pt, page, wr), f'))
    (hpage : page = (s.filler.tracker pt).location * N + index)
    (hloc : (f'.tracker pt).location = (s.filler.tracker pt).location) :
    s.step (.tryGet n density) = some ⟨f', s.held, Function.update s.live pt ((index, n) :: s.live pt)⟩ := by
  simp only [step, h, Option.map_some, hloc, hpage, Nat.add_sub_cancel_left]

section Calls

variable (hN : N < 2 ^ 16)
include hN

theorem Inv.tryGetFrom (inv : Inv s) (hpt : pt ∈ s.held) {f : Filler ι N} {L : Place × Nat → List ι}
    (hfr : Frame f s.filler) (hl : Listed f (s.held.erase pt) L) {n : Nat} {density : AccessDensityPrediction}
    {wasReleased : Bool} (hpos : 0 < n) (hfit : n ≤ (s.filler.tracker pt).longestFreeRange)
    (hdensity : (s.filler.tracker pt).density = density) (hone : (s.filler.tracker pt).hasDenseSpans = true → n = 1)
    (hrel : wasReleased = false → (s.filler.tracker pt).releasedCount = 0) :
    ∃ index page f', f.tryGetFrom n density pt wasReleased = some (some (pt, page, wasReleased), f') ∧
      page = (s.filler.tracker pt).location * N + index ∧ (f'.tracker pt).location = (s.filler.tracker pt).location ∧
      Inv ⟨f', s.held, Function.update s.live pt ((index, n) :: s.live pt)⟩ := by
  have ht : f.tracker pt = s.filler.tracker pt := by rw [hfr.tracker]
  obtain ⟨htr, hne⟩ := inv.tracked pt hpt
  rw [← ht] at htr hfit hdensity hone hrel ⊢
  obtain ⟨index, unbacked, pages, hget, htr', hcount, -⟩ := htr.get hN hpos hfit hone
  have hout : pt ∉ s.held.erase pt := Finset.notMem_erase pt _
  obtain ⟨f₂, hadd, hfr₂, hl₂⟩ := (hl.setTracker hout { f.tracker pt with toPageTracker := pages }).addToFillerList
    hout (by simpa [Filler.setTracker] using htr'.listable (List.cons_ne_nil _ _))
  rw [Finset.insert_erase hpt] at hl₂
  have hsd : density = .sparse ∨ (f.tracker pt).hasDenseSpans = true := by
    cases density
    · exact Or.inl rfl
    · right
      unfold Tracker.density at hdensity
      split at hdensity
      · assumption
      · exact absurd hdensity (by simp)
  have ht₂ : f₂.tracker = Function.update s.filler.tracker pt { f.tracker pt with toPageTracker := pages, donated := false } := by
    rw [hfr₂.tracker]
    simp [Filler.setTracker, hfr.tracker]
  unfold Filler.tryGetFrom
  rw [check_pos hfit, check_pos hsd]
  simp only [Option.bind_eq_bind, hget, Option.bind_some, hadd]
  set b := wasReleased && !(f₂.tracker pt).released && !(f₂.tracker pt).wasReleased with hb
  -- what `Get` took off `released_count_` was released before
  have hub : unbacked ≤ (s.filler.tracker pt).releasedPages := by
    rw [← ht]
    exact Nat.le.intro (by rw [add_comm]; exact hcount)
  have hum : unbacked ≤ f₂.unmapped := by
    rw [hfr₂.unmapped]
    change unbacked ≤ f.unmapped
    rw [hfr.unmapped]
    exact hub.trans (inv.counted.releasedPages_le hpt)
  have hwr : wasReleased = true ∨ unbacked = 0 := by
    cases wasReleased
    · have := hrel rfl
      omega
    · exact Or.inl rfl
  have ht₂pt : f₂.tracker pt = { f.tracker pt with toPageTracker := pages, donated := false } := by
    rw [ht₂, Function.update_self]
  -- the counters of `f₂` are those of the state
  have hpA : f₂.pagesAllocated = s.filler.pagesAllocated := hfr₂.pagesAllocated.trans hfr.pagesAllocated
  have hU : f₂.unmapped = s.filler.unmapped := hfr₂.unmapped.trans hfr.unmapped
  have hW : f₂.nWasReleased = s.filler.nWasReleased := hfr₂.nWasReleased.trans hfr.nWasReleased
  have hunmapped : f₂.unmapped - unbacked + (s.filler.tracker pt).releasedPages = s.filler.unmapped + pages.releasedCount := by
    rw [hU, ← ht]
    change _ + (f.tracker pt).releasedCount = _
    rw [hU] at hum
    omega
  cases hbv : b
  case false =>
    rw [if_neg Bool.false_ne_true]
    refine ⟨index, _, _, check_eq_some.mpr ⟨hwr, check_eq_some.mpr ⟨hum, check_eq_some.mpr ⟨?_, rfl⟩⟩⟩,
      by simp [ht₂pt], by simp [ht₂pt], ?_⟩
    · simp [ht₂pt]
    · refine inv.handOut hpt (t := { f.tracker pt with toPageTracker := pages, donated := false }) ht₂
        ⟨_, hl₂.update_counters _ _ _ _ _ _⟩ (htr'.congr rfl rfl) rfl (by rw [← ht]) hdensity (hfr₂.size.trans hfr.size)
        (by rw [← hpA]) hunmapped (fun d => ?_) (hfr₂.fullyFreedTrackers.trans hfr.fullyFreedTrackers)
      show f₂.nWasReleased d + _ = _
      rw [hW, ← ht]
      rfl
  case true =>
    -- a hugepage from a released list that is now backed is counted in `n_was_released_`
    rw [if_pos rfl]
    have hold : (f.tracker pt).wasReleased = false := by
      have : (!(f₂.tracker pt).wasReleased) = true := by
        rw [hb] at hbv
        simp only [Bool.and_eq_true] at hbv
        exact hbv.2
      rw [ht₂pt] at this
      simpa using this
    have hl₃ : Listed (f₂.setTracker pt { f₂.tracker pt with wasReleased := true }) s.held _ :=
      hl₂.setTracker_same rfl rfl
    refine ⟨index, _, _, check_eq_some.mpr ⟨hwr, check_eq_some.mpr ⟨hum, check_eq_some.mpr ⟨?_, rfl⟩⟩⟩,
      by simp [Filler.setTracker, ht₂pt], by simp [Filler.setTracker, ht₂pt], ?_⟩
    · simp [Filler.setTracker, ht₂pt]
    · refine inv.handOut hpt (t := { f.tracker pt with toPageTracker := pages, donated := false, wasReleased := true })
        ?_ ⟨_, hl₃.update_counters _ _ _ _ _ _⟩ (htr'.congr rfl rfl) rfl (by rw [← ht]) hdensity
        (hfr₂.size.trans hfr.size) (by rw [← hpA]; rfl) hunmapped (fun d => ?_)
        (hfr₂.fullyFreedTrackers.trans hfr.fullyFreedTrackers)
      · show Function.update f₂.tracker pt { f₂.tracker pt with wasReleased := true } = _
        rw [ht₂pt, ht₂, Function.update_idem]
      · show Function.update f₂.nWasReleased density (f₂.nWasReleased density + 1) d + _ = _
        have hd₃ : ({ f.tracker pt with toPageTracker := pages, donated := false, wasReleased := true } :
            Tracker N).density = density := hdensity
        rw [hW, ← ht]
        unfold wasReleasedOf
        by_cases hd : density = d
        · subst hd
          simp [Function.update_self, hold, hd₃]
        · simp [Function.update_of_ne (Ne.symm hd), hold, hd₃, hd]

theorem Inv.tryGet (inv : Inv s) {n : Nat} {density : AccessDensityPrediction}
    (hallowed : s.Allowed (.tryGet n density)) : ∃ s', s.step (.tryGet n density) = some s' ∧ Inv s' := by
  obtain ⟨hpos, hlt, hreq⟩ := hallowed
  obtain ⟨L, hl⟩ := inv.listed
  -- the list the search starts from
  obtain ⟨k, hk, hkM⟩ : ∃ k, listFor N n 0 density (N - 1) = some k ∧ k < kNumLists N := by
    cases density
    · exact ⟨_, listFor_sparse hlt (by simp [kChunks]), by unfold kNumLists kChunks; omega⟩
    · exact ⟨_, listFor_dense (by omega) (by simp [kChunks]), by unfold kNumLists kChunks; omega⟩
  have hone : ∀ t : Tracker N, t.density = density → t.hasDenseSpans = true → n = 1 := by
    intro t hd hdense
    refine hreq.resolve_left fun hsp => ?_
    rw [hsp] at hd
    simp [Tracker.density, hdense] at hd
  rcases getLeast_place (hl.regular density) hl.holds hkM with ⟨hget₁, -⟩ | ⟨pt, i, l, hget₁, hki, -, hpt, hplace, -, hrep⟩
  case inr =>
    -- the regular lists of the density hold a tracker that fits
    obtain ⟨htr, hne⟩ := inv.tracked pt hpt
    obtain ⟨hdon, hfam, hd, hfit⟩ := htr.fits hne hplace hk hki hlt hreq
    obtain ⟨hfr, hl'⟩ := hl.takeFrom hpt hplace hrep
    obtain ⟨index, page, f', hcall, hpage, hloc, hinv⟩ := inv.tryGetFrom hN hpt hfr hl' hpos hfit hd (hone _ hd)
      fun _ => releasedCount_of_family_regular hfam
    have htg : s.filler.tryGet n density = some (some (pt, page, false), f') := by
      unfold Filler.tryGet
      rw [check_pos hpos, check_pos hreq, check_pos hlt]
      simp only [Option.bind_eq_bind, hk, Option.bind_some, hget₁]
      rw [check_pos hdon]
      exact hcall
    exact ⟨_, step_tryGet_some htg hpage hloc, hinv⟩
  case inl =>
  -- nothing fits on the regular lists; after the donated lists come the partially released
  -- and the released ones
  have tail : (if density = .sparse then
        Option.map (fun r => Option.map (fun pt => (pt, r.2)) r.1) (s.filler.donatedAlloc.getLeast n)
      else some none) = some none → ∃ s', s.step (.tryGet n density) = some s' ∧ Inv s' := by
    intro hget₂
    rcases getLeast_place (hl.partialReleased density) hl.holds hkM with
      ⟨hget₃, -⟩ | ⟨pt, i, l, hget₃, hki, -, hpt, hplace, -, hrep⟩
    case inr =>
      obtain ⟨htr, hne⟩ := inv.tracked pt hpt
      obtain ⟨hdon, -, hd, hfit⟩ := htr.fits hne hplace hk hki hlt hreq
      have hused : (s.filler.tracker pt).usedPages ≤ s.filler.nUsedPartialReleased density := by
        rw [hl.nUsedPartialReleased density, ← usedOn_erase_self hpt hplace]
        omega
      obtain ⟨hfr, hl'⟩ := hl.takeFrom hpt hplace hrep
      obtain ⟨index, page, f', hcall, hpage, hloc, hinv⟩ := inv.tryGetFrom hN hpt hfr hl' hpos hfit hd (hone _ hd)
        fun h : true = false => Bool.noConfusion h
      have htg : s.filler.tryGet n density = some (some (pt, page, true), f') := by
        unfold Filler.tryGet
        rw [check_pos hpos, check_pos hreq, check_pos hlt]
        simp only [Option.bind_eq_bind, hk, Option.bind_some, hget₁, hget₂, hget₃]
        rw [check_pos hdon, check_pos hused]
        exact hcall
      exact ⟨_, step_tryGet_some htg hpage hloc, hinv⟩
    case inl =>
    rcases getLeast_place (hl.released density) hl.holds hkM with
      ⟨hget₄, -⟩ | ⟨pt, i, l, hget₄, hki, -, hpt, hplace, -, hrep⟩
    case inr =>
      obtain ⟨htr, hne⟩ := inv.tracked pt hpt
      obtain ⟨hdon, -, hd, hfit⟩ := htr.fits hne hplace hk hki hlt hreq
      have hused : (s.filler.tracker pt).usedPages ≤ s.filler.nUsedReleased density := by
        rw [hl.nUsedReleased density, ← usedOn_erase_self hpt hplace]
        omega
      obtain ⟨hfr, hl'⟩ := hl.takeFrom hpt hplace hrep
      obtain ⟨index, page, f', hcall, hpage, hloc, hinv⟩ := inv.tryGetFrom hN hpt hfr hl' hpos hfit hd (hone _ hd)
        fun h : true = false => Bool.noConfusion h
      have htg : s.filler.tryGet n density = some (some (pt, page, true), f') := by
        unfold Filler.tryGet
        rw [check_pos hpos, check_pos hreq, check_pos hlt]
        simp only [Option.bind_eq_bind, hk, Option.bind_some, hget₁, hget₂, hget₃, hget₄]
        rw [check_pos hdon, check_pos hused]
        exact hcall
      exact ⟨_, step_tryGet_some htg hpage hloc, hinv⟩
    case inl =>
    -- no list holds a tracker that fits: `TryGet` returns `nullptr`
    have htg : s.filler.tryGet n density = some (none, s.filler) := by
      unfold Filler.tryGet
      rw [check_pos hpos, check_pos hreq, check_pos hlt]
      simp only [Option.bind_eq_bind, hk, Option.bind_some, hget₁, hget₂, hget₃, hget₄]
    exact ⟨_, by simp only [step, htg, Option.map_some], inv⟩
  by_cases hsp : density = .sparse
  case neg => exact tail (if_neg hsp)
  case pos =>
  rcases getLeast_place hl.donated hl.holds hlt with ⟨hget₂, -⟩ | ⟨pt, i, l, hget₂, hni, -, hpt, hplace, -, hrep⟩
  case inl => exact tail (by rw [if_pos hsp, hget₂]; rfl)
  case inr =>
  -- the tail of a large allocation on the donated lists holds the sparse request
  obtain ⟨htr, hne⟩ := inv.tracked pt hpt
  obtain ⟨hdon, hfit⟩ := htr.fits_donated hne hplace hni
  obtain ⟨hdense, hrel⟩ := inv.donated pt hpt hdon
  have hd : (s.filler.tracker pt).density = density := by simp [Tracker.density, hdense, hsp]
  obtain ⟨hfr, hl'⟩ := hl.takeFrom hpt hplace hrep
  obtain ⟨index, page, f', hcall, hpage, hloc, hinv⟩ := inv.tryGetFrom hN hpt hfr hl' hpos hfit hd (hone _ hd)
    fun _ => hrel
  have htg : s.filler.tryGet n density = some (some (pt, page, false), f') := by
    unfold Filler.tryGet
    rw [check_pos hpos, check_pos hreq, check_pos hlt]
    simp only [Option.bind_eq_bind, hk, Option.bind_some, hget₁, if_pos hsp, hget₂, Option.map_some]
    exact hcall
  exact ⟨_, step_tryGet_some htg hpage hloc, hinv⟩

end Calls

end State

end TCMalloc.HugePageFiller
