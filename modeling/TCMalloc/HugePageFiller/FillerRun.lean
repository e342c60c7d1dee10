import Mathlib
import TCMalloc.HugePageFiller.FillerState

/-!
The filler as its callers drive it.  A `State` is the filler with what its callers hold:
the trackers on its lists, and the ranges `(offset, length)` handed out of each.  The
calls are those of the hugepage-aware allocator (`TryGet`, `AllocAndContribute`, `Put`,
`FetchFullyFreedTracker`) and of the treatment of hugepages (`HandleReleaseFree`,
`HandleUnbackedHugePage`, `OnCollapseSuccess`, the `DontFreeTracker` mask), each under
the contract its callers keep.  `Inv` is what holds between calls: the lists hold
exactly the held trackers, each on the list its state selects, every counter is the sum
over the held trackers it stands for, and the fully freed trackers are empty.
-/

set_option autoImplicit false
set_option relaxedAutoImplicit false

namespace TCMalloc.HugePageFiller

open TCMalloc.Lib TCMalloc.Lib.Buckets TCMalloc.Internal

/-- The filler, the trackers on its lists, and the ranges `(offset, length)` its callers
hold of each tracker. -/
structure State (ι : Type) (N : Nat) where
  filler : Filler ι N
  held : Finset ι
  live : ι → List (Nat × Nat)

/-- The calls of the hugepage-aware allocator and of the treatment of hugepages;
`unbackOk` and `unback` are the outcomes of `unback_without_lock_` and of the unback
function, `unbacked` the residency bitmap, and `dontFree` the value `DontFreeTracker()`
has after the mask was set or cleared. -/
inductive Call (ι : Type) (N : Nat)
  | tryGet (n : Nat) (density : AccessDensityPrediction)
  | allocAndContribute (pt : ι) (p n : Nat) (donated : Bool) (density : AccessDensityPrediction)
  | put (pt : ι) (p n : Nat) (unbackOk : Bool)
  | handleReleaseFree (pt : ι) (unback : Nat → Nat → Bool)
  | handleUnbackedHugePage (pt : ι) (unbacked : Bitmap N)
  | onCollapseSuccess (pt : ι)
  | setDontFreeTracker (pt : ι) (dontFree : Bool)
  | fetchFullyFreedTracker

variable {ι : Type} [DecidableEq ι] {N : Nat}

namespace State

/-- One call; the ranges a call hands out or takes back change hands. -/
def step (s : State ι N) : Call ι N → Option (State ι N)
  | .tryGet n density => (s.filler.tryGet n density).map fun r =>
      match r.1 with
      | none => { s with filler := r.2 }
      | some (pt, page, _) =>
        { s with
          filler := r.2
          live := Function.update s.live pt ((page - (r.2.tracker pt).location * N, n) :: s.live pt) }
  | .allocAndContribute pt p n donated density =>
      (s.filler.allocAndContribute pt p n donated density).map fun r =>
        { filler := r.2, held := insert pt s.held, live := Function.update s.live pt [(r.1 - p * N, n)] }
  | .put pt p n unbackOk => (s.filler.put pt p n unbackOk).map fun r =>
      let rest := (s.live pt).erase (p - (s.filler.tracker pt).location * N, n)
      { filler := r.2, held := if rest = [] then s.held.erase pt else s.held, live := Function.update s.live pt rest }
  | .handleReleaseFree pt unback => (s.filler.handleReleaseFree pt unback).map fun r => { s with filler := r.2 }
  | .handleUnbackedHugePage pt unbacked =>
      (s.filler.handleUnbackedHugePage pt unbacked).map fun r => { s with filler := r.2 }
  | .onCollapseSuccess pt => (s.filler.onCollapseSuccess pt).map fun f => { s with filler := f }
  | .setDontFreeTracker pt dontFree =>
      some { s with filler := s.filler.setTracker pt { s.filler.tracker pt with dontFreeTracker := dontFree } }
  | .fetchFullyFreedTracker => some { s with filler := s.filler.fetchFullyFreedTracker.2 }

/-- The callers' contract.  `TryGet` asks for fewer pages than a hugepage, and for one
page when dense; `AllocAndContribute` gets a fresh tracker for a hugepage other than the
null one, for a request `TryGet` could not serve or for the tail of a large sparse
allocation; `Put` returns a range handed out of the tracker; the treatment acts on
trackers on the lists. -/
def Allowed (s : State ι N) : Call ι N → Prop
  | .tryGet n density => 0 < n ∧ n < N ∧ (density = .sparse ∨ n = 1)
  | .allocAndContribute pt p n donated density =>
      pt ∉ s.held ∧ pt ∉ s.filler.fullyFreedTrackers ∧ p ≠ 0 ∧ 0 < n ∧ n < N ∧ (density = .sparse ∨ n = 1) ∧
        (donated = true → density = .sparse)
  | .put pt p n _ =>
      (s.filler.tracker pt).location * N ≤ p ∧ (p - (s.filler.tracker pt).location * N, n) ∈ s.live pt
  | .handleReleaseFree pt _ => pt ∈ s.held
  | .handleUnbackedHugePage pt _ => pt ∈ s.held
  | .onCollapseSuccess pt => pt ∈ s.held
  | .setDontFreeTracker _ _ => True
  | .fetchFullyFreedTracker => True

instance (s : State ι N) (c : Call ι N) : Decidable (s.Allowed c) :=
  match c with
  | .tryGet n density => inferInstanceAs (Decidable (0 < n ∧ n < N ∧ (density = .sparse ∨ n = 1)))
  | .allocAndContribute pt p n donated density => inferInstanceAs (Decidable
      (pt ∉ s.held ∧ pt ∉ s.filler.fullyFreedTrackers ∧ p ≠ 0 ∧ 0 < n ∧ n < N ∧ (density = .sparse ∨ n = 1) ∧
        (donated = true → density = .sparse)))
  | .put pt p n _ => inferInstanceAs (Decidable
      ((s.filler.tracker pt).location * N ≤ p ∧ (p - (s.filler.tracker pt).location * N, n) ∈ s.live pt))
  | .handleReleaseFree pt _ => inferInstanceAs (Decidable (pt ∈ s.held))
  | .handleUnbackedHugePage pt _ => inferInstanceAs (Decidable (pt ∈ s.held))
  | .onCollapseSuccess pt => inferInstanceAs (Decidable (pt ∈ s.held))
  | .setDontFreeTracker _ _ => inferInstanceAs (Decidable True)
  | .fetchFullyFreedTracker => inferInstanceAs (Decidable True)

/-- What holds between calls. -/
structure Inv (s : State ι N) : Prop where
  listed : ∃ L, Listed s.filler s.held L
  counted : Counted s.filler s.held
  tracked : ∀ q ∈ s.held, Tracked (s.filler.tracker q) (s.live q) ∧ s.live q ≠ []
  donated : ∀ q ∈ s.held, (s.filler.tracker q).donated = true →
    (s.filler.tracker q).hasDenseSpans = false ∧ (s.filler.tracker q).releasedCount = 0
  idle : ∀ q ∉ s.held, s.live q = []
  fullyFreed_nodup : s.filler.fullyFreedTrackers.Nodup
  fullyFreed : ∀ q ∈ s.filler.fullyFreedTrackers, q ∉ s.held ∧ (s.filler.tracker q).usedPages = 0

/-- The filler as constructed, with nothing handed out. -/
def init (mode : SubreleaseUnbackedMode) : State ι N := ⟨Filler.init mode, ∅, fun _ => []⟩

omit [DecidableEq ι] in
theorem inv_init (mode : SubreleaseUnbackedMode) : Inv (init mode : State ι N) where
  listed := ⟨_, listed_init mode⟩
  counted := counted_init mode
  tracked _ h := absurd h (Finset.notMem_empty _)
  donated _ h := absurd h (Finset.notMem_empty _)
  idle _ _ := rfl
  fullyFreed_nodup := List.nodup_nil
  fullyFreed _ h := absurd h List.not_mem_nil

variable {s : State ι N} {pt : ι}

theorem Inv.update (inv : Inv s) (hpt : pt ∈ s.held) {f : Filler ι N} {t : Tracker N}
    {live : List (Nat × Nat)} (htracker : f.tracker = Function.update s.filler.tracker pt t)
    (hl : ∃ L, Listed f s.held L) (hc : Counted f s.held) (htr : Tracked t live) (hne : live ≠ [])
    (hdon : t.donated = true → t.hasDenseSpans = false ∧ t.releasedCount = 0)
    (hff : f.fullyFreedTrackers = s.filler.fullyFreedTrackers) :
    Inv ⟨f, s.held, Function.update s.live pt live⟩ where
  listed := hl
  counted := hc
  tracked q hq := by
    by_cases hqp : q = pt
    · subst hqp
      simp only [htracker, Function.update_self]
      exact ⟨htr, hne⟩
    · simp only [htracker, Function.update_of_ne hqp]
      exact inv.tracked q hq
  donated q hq := by
    by_cases hqp : q = pt
    · subst hqp
      simp only [htracker, Function.update_self]
      exact hdon
    · simp only [htracker, Function.update_of_ne hqp]
      exact inv.donated q hq
  idle q hq := by
    simp only [Function.update_of_ne (ne_of_mem_of_not_mem hpt hq).symm]
    exact inv.idle q hq
  fullyFreed_nodup := hff ▸ inv.fullyFreed_nodup
  fullyFreed q hq := by
    rw [hff] at hq
    obtain ⟨hqS, hused⟩ := inv.fullyFreed q hq
    refine ⟨hqS, ?_⟩
    rw [htracker, Function.update_of_ne (ne_of_mem_of_not_mem hpt hqS).symm]
    exact hused

theorem Inv.leave (inv : Inv s) (hpt : pt ∈ s.held) {f : Filler ι N} {t : Tracker N}
    (htracker : f.tracker = Function.update s.filler.tracker pt t) (hl : ∃ L, Listed f (s.held.erase pt) L)
    (hc : Counted f (s.held.erase pt)) (hused : t.usedPages = 0)
    (hff : f.fullyFreedTrackers = s.filler.fullyFreedTrackers ∨
      f.fullyFreedTrackers = pt :: s.filler.fullyFreedTrackers) :
    Inv ⟨f, s.held.erase pt, Function.update s.live pt []⟩ where
  listed := hl
  counted := hc
  tracked q hq := by
    simp only [htracker, Function.update_of_ne (Finset.ne_of_mem_erase hq)]
    exact inv.tracked q (Finset.mem_of_mem_erase hq)
  donated q hq := by
    simp only [htracker, Function.update_of_ne (Finset.ne_of_mem_erase hq)]
    exact inv.donated q (Finset.mem_of_mem_erase hq)
  idle q hq := by
    by_cases hqp : q = pt
    · subst hqp
      exact Function.update_self ..
    · simp only [Function.update_of_ne hqp]
      exact inv.idle q fun h => hq (Finset.mem_erase.mpr ⟨hqp, h⟩)
  fullyFreed_nodup := by
    rcases hff with hff | hff <;> rw [hff]
    · exact inv.fullyFreed_nodup
    · exact List.nodup_cons.mpr ⟨fun h => (inv.fullyFreed pt h).1 hpt, inv.fullyFreed_nodup⟩
  fullyFreed q hq := by
    -- the trackers that were fully freed before stay off the lists and untouched
    have hold : q ∈ s.filler.fullyFreedTrackers → q ∉ s.held.erase pt ∧ (f.tracker q).usedPages = 0 := fun h => by
      obtain ⟨hqS, hu⟩ := inv.fullyFreed q h
      refine ⟨fun h' => hqS (Finset.mem_of_mem_erase h'), ?_⟩
      rw [htracker, Function.update_of_ne (ne_of_mem_of_not_mem hpt hqS).symm]
      exact hu
    rcases hff with hff | hff <;> rw [hff] at hq
    · exact hold hq
    · rcases List.mem_cons.mp hq with rfl | hq
      · refine ⟨Finset.notMem_erase q _, ?_⟩
        rw [htracker, Function.update_self]
        exact hused
      · exact hold hq

theorem Inv.join (inv : Inv s) (hpt : pt ∉ s.held) (hff : pt ∉ s.filler.fullyFreedTrackers) {f : Filler ι N}
    {t : Tracker N} {live : List (Nat × Nat)} (htracker : f.tracker = Function.update s.filler.tracker pt t)
    (hl : ∃ L, Listed f (insert pt s.held) L) (hc : Counted f (insert pt s.held)) (htr : Tracked t live)
    (hne : live ≠ []) (hdon : t.donated = true → t.hasDenseSpans = false ∧ t.releasedCount = 0)
    (hff' : f.fullyFreedTrackers = s.filler.fullyFreedTrackers) :
    Inv ⟨f, insert pt s.held, Function.update s.live pt live⟩ where
  listed := hl
  counted := hc
  tracked q hq := by
    by_cases hqp : q = pt
    · subst hqp
      simp only [htracker, Function.update_self]
      exact ⟨htr, hne⟩
    · simp only [htracker, Function.update_of_ne hqp]
      exact inv.tracked q ((Finset.mem_insert.mp hq).resolve_left hqp)
  donated q hq := by
    by_cases hqp : q = pt
    · subst hqp
      simp only [htracker, Function.update_self]
      exact hdon
    · simp only [htracker, Function.update_of_ne hqp]
      exact inv.donated q ((Finset.mem_insert.mp hq).resolve_left hqp)
  idle q hq := by
    have hqp : q ≠ pt := fun h => hq (h ▸ Finset.mem_insert_self q _)
    simp only [Function.update_of_ne hqp]
    exact inv.idle q fun h => hq (Finset.mem_insert_of_mem h)
  fullyFreed_nodup := hff' ▸ inv.fullyFreed_nodup
  fullyFreed q hq := by
    rw [hff'] at hq
    obtain ⟨hqS, hused⟩ := inv.fullyFreed q hq
    have hqp : q ≠ pt := fun h => hff (h ▸ hq)
    refine ⟨fun h => hqS ((Finset.mem_insert.mp h).resolve_left hqp), ?_⟩
    rw [htracker, Function.update_of_ne hqp]
    exact hused

theorem Inv.setTracker_of_not_mem (inv : Inv s) (hpt : pt ∉ s.held) {t : Tracker N}
    (hused : t.usedPages = (s.filler.tracker pt).usedPages) : Inv ⟨s.filler.setTracker pt t, s.held, s.live⟩ where
  listed := by
    obtain ⟨L, hl⟩ := inv.listed
    exact ⟨L, hl.setTracker hpt t⟩
  counted := inv.counted.setTracker hpt t
  tracked q hq := by
    simp only [Filler.setTracker, Function.update_of_ne (ne_of_mem_of_not_mem hq hpt)]
    exact inv.tracked q hq
  donated q hq := by
    simp only [Filler.setTracker, Function.update_of_ne (ne_of_mem_of_not_mem hq hpt)]
    exact inv.donated q hq
  idle := inv.idle
  fullyFreed_nodup := inv.fullyFreed_nodup
  fullyFreed q hq := by
    obtain ⟨hqS, hu⟩ := inv.fullyFreed q hq
    refine ⟨hqS, ?_⟩
    by_cases hqp : q = pt
    · subst hqp
      simp only [Filler.setTracker, Function.update_self]
      rw [hused]
      exact hu
    · simp only [Filler.setTracker, Function.update_of_ne hqp]
      exact hu

theorem Inv.contributed (inv : Inv s) (hpt : pt ∉ s.held) (hff : pt ∉ s.filler.fullyFreedTrackers)
    {f : Filler ι N} {t : Tracker N} {n : Nat} (htracker : f.tracker = Function.update s.filler.tracker pt t)
    (hl : ∃ L, Listed f (insert pt s.held) L) (htr : Tracked t [(0, n)])
    (hdon : t.donated = true → t.hasDenseSpans = false) (hrel : t.releasedCount = 0) (hwas : t.wasReleased = false)
    (hsize : f.size = s.filler.size)
    (hpages : f.pagesAllocated = Function.update s.filler.pagesAllocated t.density (s.filler.pagesAllocated t.density + n))
    (hunmapped : f.unmapped = s.filler.unmapped) (hnwas : f.nWasReleased = s.filler.nWasReleased)
    (hff' : f.fullyFreedTrackers = s.filler.fullyFreedTrackers) :
    Inv ⟨{ f with size := f.size + 1 }, insert pt s.held, Function.update s.live pt [(0, n)]⟩ := by
  have hused : t.usedPages = n := by
    rw [htr.used]
    simp
  have hc : Counted { f with size := f.size + 1 } (insert pt s.held) := by
    refine inv.counted.insert_tracker hpt htracker (by rw [← hsize]) (fun d => ?_) ?_ (fun d => ?_)
    · show f.pagesAllocated d = _
      rw [hpages]
      by_cases hd : t.density = d
      · subst hd
        rw [Function.update_self, pagesOf_density, hused]
      · rw [Function.update_of_ne (Ne.symm hd), pagesOf_of_ne hd, Nat.add_zero]
    · show f.unmapped = _ + t.releasedCount
      rw [hunmapped, hrel, Nat.add_zero]
    · show f.nWasReleased d = _
      rw [hnwas, wasReleasedOf, if_neg (by simp [hwas]), Nat.add_zero]
  exact inv.join hpt hff htracker (hl.imp fun _ h => h.update_counters _ _ _ _ _ _) hc htr (List.cons_ne_nil _ _)
    (fun h => ⟨hdon h, hrel⟩) hff'

theorem Inv.relist (inv : Inv s) (hpt : pt ∈ s.held) {f : Filler ι N} {L : Place × Nat → List ι}
    (hl : Listed f (s.held.erase pt) L) {t : Tracker N} {live : List (Nat × Nat)}
    (htracker : f.tracker = Function.update s.filler.tracker pt t) (htr : Tracked t live) (hne : live ≠ [])
    (hsize : f.size = s.filler.size)
    (hpages : ∀ d, f.pagesAllocated d + pagesOf d (s.filler.tracker pt) = s.filler.pagesAllocated d + pagesOf d t)
    (hunmapped : f.unmapped + (s.filler.tracker pt).releasedPages = s.filler.unmapped + t.releasedPages)
    (hwas : ∀ d,
      f.nWasReleased d + wasReleasedOf d (s.filler.tracker pt) = s.filler.nWasReleased d + wasReleasedOf d t)
    (hff : f.fullyFreedTrackers = s.filler.fullyFreedTrackers) :
    ∃ f', f.addToFillerList pt = some f' ∧ Inv ⟨f', s.held, Function.update s.live pt live⟩ := by
  have ht : f.tracker pt = t := by rw [htracker, Function.update_self]
  obtain ⟨f', hadd, hfr, hl'⟩ := hl.addToFillerList (Finset.notMem_erase pt _) (ht ▸ htr.listable hne)
  rw [Finset.insert_erase hpt] at hl'
  have htracker' : f'.tracker = Function.update s.filler.tracker pt { t with donated := false } := by
    rw [hfr.tracker]
    simp [Filler.setTracker, htracker, ht]
  have hc : Counted f' s.held := by
    refine inv.counted.update_tracker hpt htracker' (hfr.size.trans hsize) (fun d => ?_) ?_ (fun d => ?_)
    · rw [hfr.pagesAllocated]
      exact hpages d
    · rw [hfr.unmapped]
      exact hunmapped
    · rw [hfr.nWasReleased]
      exact hwas d
  exact ⟨f', hadd, inv.update hpt htracker' ⟨_, hl'⟩ hc (htr.congr rfl rfl) hne (by simp)
    (hfr.fullyFreedTrackers.trans hff)⟩

theorem putEmptied_wasReleased (f : Filler ι N) (pt : ι) :
    (if (f.tracker pt).wasReleased then
      { (f.setTracker pt { f.tracker pt with wasReleased := false }) with
        nWasReleased := Function.update f.nWasReleased (f.tracker pt).density
          (f.nWasReleased (f.tracker pt).density - 1) }
      else f) =
      { f.setTracker pt { f.tracker pt with wasReleased := false } with
        nWasReleased := fun d => f.nWasReleased d - wasReleasedOf d (f.tracker pt) } := by
  cases hw : (f.tracker pt).wasReleased
  · have ht : ({ f.tracker pt with wasReleased := false } : Tracker N) = f.tracker pt := by
      rw [← hw]
    have hnw : (fun d => f.nWasReleased d - wasReleasedOf d (f.tracker pt)) = f.nWasReleased := by
      funext d
      simp [wasReleasedOf, hw]
    simp only [if_neg Bool.false_ne_true, Filler.setTracker, ht, Function.update_eq_self, hnw]
  · have hnw : Function.update f.nWasReleased (f.tracker pt).density (f.nWasReleased (f.tracker pt).density - 1) =
        fun d => f.nWasReleased d - wasReleasedOf d (f.tracker pt) := by
      funext d
      by_cases hd : (f.tracker pt).density = d
      · subst hd
        simp [wasReleasedOf, hw]
      · simp [Function.update_of_ne (Ne.symm hd), wasReleasedOf, hd]
    rw [if_pos rfl, hnw]

theorem putEmptied_eq {f : Filler ι N} {pt : ι} (unbackOk : Bool) (hna : (f.tracker pt).nallocs = 0)
    (hfree : (f.tracker pt).releasedPages ≤ (f.tracker pt).freePages)
    (hunmapped : (f.tracker pt).releasedPages ≤ f.unmapped) :
    ∃ f', f.putEmptied pt unbackOk = some f' ∧ ∃ u, f' = { f.setTracker pt { f.tracker pt with wasReleased := false } with
      size := f.size - 1
      unmapped := f.unmapped - (f.tracker pt).releasedPages
      unmappingUnaccounted := u
      nWasReleased := fun d => f.nWasReleased d - wasReleasedOf d (f.tracker pt) } := by
  unfold Filler.putEmptied
  rw [check_pos hna]
  cases hr : (f.tracker pt).released
  · have h0 : (f.tracker pt).releasedPages = 0 := by simpa [Tracker.released, Tracker.releasedPages] using hr
    refine ⟨_, ?_, f.unmappingUnaccounted, rfl⟩
    simp only [hr, Bool.false_eq_true, if_false, Option.bind_eq_bind, Option.bind_some]
    refine congrArg some ((putEmptied_wasReleased { f with size := f.size - 1 } pt).trans ?_)
    rw [h0, Nat.sub_zero]
    rfl
  · -- the rest of a partially released hugepage is unbacked and counted in `unmapping_unaccounted_`
    set u := if (f.tracker pt).releasedPages < (f.tracker pt).freePages && unbackOk then
      f.unmappingUnaccounted + ((f.tracker pt).freePages - (f.tracker pt).releasedPages)
      else f.unmappingUnaccounted
    refine ⟨_, ?_, u, rfl⟩
    simp only [hr, if_true, check_pos hfree, check_pos hunmapped, Option.bind_eq_bind, Option.bind_some]
    exact congrArg some (putEmptied_wasReleased
      { f with size := f.size - 1, unmapped := f.unmapped - (f.tracker pt).releasedPages, unmappingUnaccounted := u } pt)

theorem Inv.setDontFreeTracker (inv : Inv s) (dontFree : Bool) :
    ∃ s', s.step (.setDontFreeTracker pt dontFree) = some s' ∧ Inv s' := by
  refine ⟨_, rfl, ?_⟩
  by_cases hpt : pt ∈ s.held
  · obtain ⟨L, hl⟩ := inv.listed
    obtain ⟨htr, hne⟩ := inv.tracked pt hpt
    set t : Tracker N := { s.filler.tracker pt with dontFreeTracker := dontFree }
    have hc : Counted (s.filler.setTracker pt t) s.held :=
      inv.counted.update_tracker hpt rfl rfl (fun _ => rfl) rfl (fun _ => rfl)
    have hl' : Listed (s.filler.setTracker pt t) s.held L := hl.setTracker_same rfl rfl
    have hinv := inv.update hpt (t := t) rfl ⟨L, hl'⟩ hc (htr.congr rfl rfl) hne (inv.donated pt hpt) rfl
    rwa [Function.update_eq_self] at hinv
  · exact inv.setTracker_of_not_mem hpt rfl

theorem Inv.fetchFullyFreedTracker (inv : Inv s) : ∃ s', s.step .fetchFullyFreedTracker = some s' ∧ Inv s' := by
  refine ⟨_, rfl, ?_⟩
  unfold Filler.fetchFullyFreedTracker
  split
  · exact inv
  · rename_i q rest hff
    obtain ⟨L, hl⟩ := inv.listed
    have hnodup : (q :: rest).Nodup := hff ▸ inv.fullyFreed_nodup
    exact {
      listed := ⟨L, hl.update_counters _ _ _ _ _ rest⟩
      counted := ⟨inv.counted.size, inv.counted.pagesAllocated, inv.counted.unmapped, inv.counted.nWasReleased⟩
      tracked := inv.tracked
      donated := inv.donated
      idle := inv.idle
      fullyFreed_nodup := (List.nodup_cons.mp hnodup).2
      fullyFreed := fun r hr => inv.fullyFreed r (hff ▸ List.mem_cons_of_mem q hr) }

section Calls

variable (hN : N < 2 ^ 16)
include hN

theorem Inv.handleReleaseFree (inv : Inv s) (hpt : pt ∈ s.held) (unback : Nat → Nat → Bool) :
    ∃ s', s.step (.handleReleaseFree pt unback) = some s' ∧ Inv s' := by
  obtain ⟨L, hl⟩ := inv.listed
  obtain ⟨htr, hne⟩ := inv.tracked pt hpt
  obtain ⟨f₁, hrem, hfr₁, hl₁⟩ := hl.removeFromFillerList hpt (htr.listable hne)
  have ht₁ : f₁.tracker pt = s.filler.tracker pt := by rw [hfr₁.tracker]
  rw [← ht₁] at htr
  obtain ⟨count, pages, runs, hrel, htr', hcount, -⟩ := htr.releaseFree hN unback
  have hl₂ := (hl₁.setTracker (Finset.notMem_erase pt _) { f₁.tracker pt with toPageTracker := pages }).update_counters
    f₁.pagesAllocated f₁.size (f₁.unmapped + count) (f₁.unmappingUnaccounted + count) f₁.nWasReleased
    f₁.fullyFreedTrackers
  have hrelist := inv.relist hpt hl₂ (congrArg (Function.update · pt _) hfr₁.tracker) htr' hne
    hfr₁.size (fun d => ?_) ?_ (fun d => ?_) hfr₁.fullyFreedTrackers
  · obtain ⟨f₃, hadd, hinv⟩ := hrelist
    have hcall : s.filler.handleReleaseFree pt unback = some (count, f₃) := by
      unfold Filler.handleReleaseFree
      rw [hrem]
      simp only [Option.bind_eq_bind, Option.bind_some]
      rw [hrel]
      simp only [Option.bind_some]
      exact congrArg (Option.map fun f => (count, f)) hadd
    rw [Function.update_eq_self] at hinv
    exact ⟨_, by simp [step, hcall], hinv⟩
  · show f₁.pagesAllocated d + _ = _
    rw [hfr₁.pagesAllocated, ← ht₁, pagesOf_congr (by rfl) (htr'.used.trans htr.used.symm)]
  · show f₁.unmapped + count + (s.filler.tracker pt).releasedCount = s.filler.unmapped + pages.releasedCount
    rw [hfr₁.unmapped, hcount, ht₁]
    omega
  · show f₁.nWasReleased d + _ = _
    rw [hfr₁.nWasReleased, ← ht₁]
    rfl

theorem Inv.handleUnbackedHugePage (inv : Inv s) (hpt : pt ∈ s.held) (unbacked : Bitmap N) :
    ∃ s', s.step (.handleUnbackedHugePage pt unbacked) = some s' ∧ Inv s' := by
  obtain ⟨L, hl⟩ := inv.listed
  obtain ⟨htr, hne⟩ := inv.tracked pt hpt
  obtain ⟨f₁, hrem, hfr₁, hl₁⟩ := hl.removeFromFillerList hpt (htr.listable hne)
  have ht₁ : f₁.tracker pt = s.filler.tracker pt := by rw [hfr₁.tracker]
  rw [← ht₁] at htr
  obtain ⟨htr', hcount⟩ := htr.markSubreleased hN unbacked
  generalize hm : (f₁.tracker pt).toPageTracker.markSubreleased unbacked = m at htr' hcount
  obtain ⟨count, pages⟩ := m
  dsimp only at htr' hcount
  have hl₂ := (hl₁.setTracker (Finset.notMem_erase pt _)
    { f₁.tracker pt with toPageTracker := pages, unbroken := false }).update_counters
    f₁.pagesAllocated f₁.size (f₁.unmapped + count) (f₁.unmappingUnaccounted + count) f₁.nWasReleased
    f₁.fullyFreedTrackers
  have htr₂ : Tracked { f₁.tracker pt with toPageTracker := pages, unbroken := false } (s.live pt) :=
    htr'.congr rfl rfl
  have hrelist := inv.relist hpt hl₂ (congrArg (Function.update · pt _) hfr₁.tracker) htr₂ hne hfr₁.size (fun d => ?_) ?_ (fun d => ?_) hfr₁.fullyFreedTrackers
  · obtain ⟨f₃, hadd, hinv⟩ := hrelist
    have hcall : s.filler.handleUnbackedHugePage pt unbacked = some (count, f₃) := by
      unfold Filler.handleUnbackedHugePage
      rw [hrem]
      simp only [Option.bind_eq_bind, Option.bind_some]
      rw [hm]
      exact congrArg (Option.map fun f => (count, f)) hadd
    rw [Function.update_eq_self] at hinv
    exact ⟨_, by simp [step, hcall], hinv⟩
  · show f₁.pagesAllocated d + _ = _
    rw [hfr₁.pagesAllocated, ← ht₁, pagesOf_congr (by rfl) (htr₂.used.trans htr.used.symm)]
  · show f₁.unmapped + count + (s.filler.tracker pt).releasedCount = s.filler.unmapped + pages.releasedCount
    rw [hfr₁.unmapped, hcount, ht₁]
    omega
  · show f₁.nWasReleased d + _ = _
    rw [hfr₁.nWasReleased, ← ht₁]
    rfl

theorem Inv.put (inv : Inv s) {p n : Nat} (unbackOk : Bool)
    (hmem : (p - (s.filler.tracker pt).location * N, n) ∈ s.live pt) :
    ∃ s', s.step (.put pt p n unbackOk) = some s' ∧ Inv s' := by
  have hpt : pt ∈ s.held := by
    by_contra hout
    rw [inv.idle pt hout] at hmem
    exact List.not_mem_nil hmem
  obtain ⟨L, hl⟩ := inv.listed
  obtain ⟨htr, hne⟩ := inv.tracked pt hpt
  obtain ⟨f₁, hrem, hfr₁, hl₁⟩ := hl.removeFromFillerList hpt (htr.listable hne)
  have ht₁ : f₁.tracker pt = s.filler.tracker pt := by rw [hfr₁.tracker]
  rw [← ht₁] at htr hmem
  obtain ⟨htr', hused⟩ := htr.put hN hmem
  set t : Tracker N := { f₁.tracker pt with
    toPageTracker := (f₁.tracker pt).toPageTracker.put (p - (f₁.tracker pt).location * N) n } with ht
  have hterm : pagesOf t.density (f₁.tracker pt) = (f₁.tracker pt).usedPages := if_pos rfl
  have hn : n ≤ f₁.pagesAllocated t.density := by
    have := inv.counted.pagesOf_le hpt t.density
    rw [← ht₁, hterm, ← hfr₁.pagesAllocated] at this
    omega
  set f₂ : Filler ι N := { f₁.setTracker pt t with
    pagesAllocated := Function.update f₁.pagesAllocated t.density (f₁.pagesAllocated t.density - n) } with hf₂
  have hprefix : s.filler.put pt p n unbackOk =
      if t.longestFreeRange = N then
        (f₂.putEmptied pt unbackOk).bind fun f =>
          if (f.tracker pt).dontFreeTracker then (f.addToFillerList pt).map fun f => (none, f) else some (some pt, f)
      else (f₂.addToFillerList pt).map fun f => (none, f) := by
    unfold Filler.put
    rw [hrem]
    simp only [Option.bind_eq_bind, Option.bind_some, Filler.setTracker, Function.update_self, ← ht]
    rw [check_pos hn]
    rfl
  have hfr₂ : f₂.tracker = Function.update s.filler.tracker pt t := by
    rw [← hfr₁.tracker]
    rfl
  have ht₂ : f₂.tracker pt = t := by rw [hfr₂, Function.update_self]
  have hl₂ : Listed f₂ (s.held.erase pt) _ := (hl₁.setTracker (Finset.notMem_erase pt _) t).update_counters
    (Function.update f₁.pagesAllocated t.density (f₁.pagesAllocated t.density - n)) f₁.size f₁.unmapped
    f₁.unmappingUnaccounted f₁.nWasReleased f₁.fullyFreedTrackers
  -- `pages_allocated_` of the tracker's density loses the `n` pages, and no other changes
  have hpages : ∀ d, f₂.pagesAllocated d + pagesOf d (s.filler.tracker pt) =
      s.filler.pagesAllocated d + pagesOf d t := by
    intro d
    show Function.update f₁.pagesAllocated t.density _ d + _ = _
    rw [← hfr₁.pagesAllocated, ← ht₁]
    by_cases hd : t.density = d
    · subst hd
      rw [Function.update_self, hterm, pagesOf_density]
      omega
    · rw [Function.update_of_ne (Ne.symm hd), pagesOf_of_ne (t := f₁.tracker pt) hd, pagesOf_of_ne hd]
  have hunmapped : f₂.unmapped = s.filler.unmapped := hfr₁.unmapped
  have hwas : f₂.nWasReleased = s.filler.nWasReleased := hfr₁.nWasReleased
  by_cases hlong : t.longestFreeRange = N
  case neg =>
    -- a range is still held: the tracker goes back on the lists
    have hrest : (s.live pt).erase (p - (f₁.tracker pt).location * N, n) ≠ [] :=
      fun h => hlong (htr'.longest_eq_iff.mpr h)
    have hrelist := inv.relist hpt hl₂ hfr₂ htr' hrest hfr₁.size hpages ?_ ?_ hfr₁.fullyFreedTrackers
    · obtain ⟨f₃, hadd, hinv⟩ := hrelist
      refine ⟨_, ?_, hinv⟩
      simp only [step, hprefix, if_neg hlong, hadd, Option.map_some, ← ht₁, hrest, if_false]
    · rw [hunmapped, ← ht₁]
      rfl
    · intro d
      rw [hwas, ← ht₁]
      rfl
  case pos =>
    -- the hugepage became empty: the tracker leaves the filler
    have hnil : (s.live pt).erase (p - (f₁.tracker pt).location * N, n) = [] := htr'.longest_eq_iff.mp hlong
    have hused₀ : t.usedPages = 0 := by
      rw [htr'.used, hnil]
      rfl
    have hna : (f₂.tracker pt).nallocs = 0 := by
      rw [ht₂, htr'.nallocs, hnil]
      rfl
    have hrel : t.releasedPages = (s.filler.tracker pt).releasedPages := by
      rw [← ht₁]
      rfl
    have hfree : (f₂.tracker pt).releasedPages ≤ (f₂.tracker pt).freePages := by
      have := htr'.released_le
      rw [ht₂]
      unfold Tracker.freePages Tracker.releasedPages
      omega
    have hunm : (s.filler.tracker pt).releasedPages ≤ s.filler.unmapped := inv.counted.releasedPages_le hpt
    obtain ⟨f₄, hpe, u, hf₄⟩ := putEmptied_eq unbackOk hna hfree (by rw [ht₂, hunmapped, hrel]; exact hunm)
    have htracker₄ : f₄.tracker = Function.update s.filler.tracker pt { t with wasReleased := false } := by
      rw [hf₄]
      simp only [Filler.setTracker, hfr₂, Function.update_self, Function.update_idem]
    have hl₄ : Listed f₄ (s.held.erase pt) (eraseAt L (slotOf s.filler.subreleaseUnbackedMode (s.filler.tracker pt)) pt) := by
      rw [hf₄]
      exact (hl₂.setTracker (Finset.notMem_erase pt _) _).update_counters _ _ _ _ _ _
    have hc₄ : Counted f₄ (s.held.erase pt) := by
      refine inv.counted.erase_tracker hpt htracker₄ ?_ (fun d => ?_) ?_ (fun d => ?_) <;> rw [hf₄]
      · have := Finset.card_pos.mpr ⟨pt, hpt⟩
        show f₁.size - 1 + 1 = _
        rw [hfr₁.size, inv.counted.size]
        omega
      · show f₂.pagesAllocated d + _ = _
        rw [hpages d, pagesOf_of_used hused₀, Nat.add_zero]
      · show f₂.unmapped - (f₂.tracker pt).releasedPages + _ = _
        rw [ht₂, hunmapped, hrel]
        omega
      · have hle := inv.counted.wasReleasedOf_le hpt d
        show f₂.nWasReleased d - wasReleasedOf d (f₂.tracker pt) + _ = _
        rw [ht₂, hwas, ← ht₁]
        rw [← ht₁] at hle
        exact Nat.sub_add_cancel hle
    have hfree₄ : (f₄.tracker pt).dontFreeTracker = t.dontFreeTracker := by
      rw [htracker₄, Function.update_self]
    cases hdf : t.dontFreeTracker
    case false =>
      -- the caller frees the hugepage
      refine ⟨_, ?_, inv.leave hpt htracker₄ ⟨_, hl₄⟩ hc₄ hused₀ (Or.inl ?_)⟩
      · simp only [step, hprefix, if_pos hlong, hpe, Option.bind_some, hfree₄, hdf, Bool.false_eq_true, if_false,
          Option.map_some, ← ht₁, hnil, if_true]
      · rw [hf₄]
        exact hfr₁.fullyFreedTrackers
    case true =>
      -- the treatment holds the tracker: it waits on the fully freed trackers
      have hadd : f₄.addToFillerList pt = some { f₄ with fullyFreedTrackers := pt :: f₄.fullyFreedTrackers } := by
        have hlong₄ : (f₄.tracker pt).longestFreeRange = N := by
          rw [htracker₄, Function.update_self]
          exact hlong
        have hempty : (f₄.tracker pt).empty = true := by
          rw [htracker₄, Function.update_self]
          change (t.usedPages == 0) = true
          simp [hused₀]
        unfold Filler.addToFillerList
        rw [check_pos hlong₄.le, if_pos hlong₄, check_pos hempty, check_pos (hfree₄.trans hdf)]
      have hff₄ : f₄.fullyFreedTrackers = s.filler.fullyFreedTrackers := by
        rw [hf₄]
        exact hfr₁.fullyFreedTrackers
      refine ⟨_, ?_, inv.leave hpt (f := { f₄ with fullyFreedTrackers := pt :: f₄.fullyFreedTrackers }) htracker₄
        ⟨_, hl₄.update_counters _ _ _ _ _ _⟩ ⟨hc₄.size, hc₄.pagesAllocated, hc₄.unmapped, hc₄.nWasReleased⟩ hused₀
        (Or.inr (by rw [← hff₄]))⟩
      simp only [step, hprefix, if_pos hlong, hpe, Option.bind_some, hfree₄, hdf, if_true, hadd,
        Option.map_some, ← ht₁, hnil]

theorem Inv.allocAndContribute (inv : Inv s) {p n : Nat} {donated : Bool} {density : AccessDensityPrediction}
    (hallowed : s.Allowed (.allocAndContribute pt p n donated density)) :
    ∃ s', s.step (.allocAndContribute pt p n donated density) = some s' ∧ Inv s' := by
  obtain ⟨hpt, hff, hp, hpos, hlt, hdens, hdon⟩ := hallowed
  have htr₀ := Tracked.new (N := N) p donated
  have hlong₀ : (Tracker.new p donated : Tracker N).longestFreeRange = N := htr₀.longest_eq_iff.mpr rfl
  obtain ⟨index, unbacked, pages, hget, htr₁, hrel, -⟩ :=
    htr₀.get hN hpos (hlong₀ ▸ hlt.le) fun h => absurd h (by simp [Tracker.new])
  have hindex : index = 0 := PageTracker.get_init_index hpos hlt.le hget
  subst hindex
  set t₀ : Tracker N := { (Tracker.new p donated : Tracker N) with toPageTracker := pages } with ht₀
  have hrel₀ : t₀.releasedCount = 0 := by
    change pages.releasedCount = 0
    have : (Tracker.new p donated : Tracker N).releasedCount = 0 := rfl
    omega
  have hcall : s.filler.allocAndContribute pt p n donated density =
      ((s.filler.setTracker pt t₀).contribute pt donated density).map fun f => (p * N + 0, f) := by
    unfold Filler.allocAndContribute
    rw [check_pos hp, check_pos (hlong₀ ▸ hlt.le)]
    simp only [Option.bind_eq_bind, hget, Option.bind_some]
    rw [check_pos (Nat.add_zero _)]
  have hnd : ¬(density = .dense ∧ donated = true) := by
    rintro ⟨hd, hdn⟩
    rw [hdon hdn] at hd
    exact AccessDensityPrediction.noConfusion hd
  obtain ⟨L, hl⟩ := inv.listed
  have hused₀ : t₀.usedPages = n := by
    rw [htr₁.used]
    simp
  -- `Contribute` counts the pages first, then puts the tracker on its list
  set f₂ : Filler ι N := { s.filler.setTracker pt t₀ with
    pagesAllocated := Function.update s.filler.pagesAllocated density (s.filler.pagesAllocated density + t₀.usedPages) }
    with hf₂
  have hl₂ : Listed f₂ s.held L := (hl.setTracker hpt t₀).update_counters _ _ _ _ _ _
  have ht₂ : f₂.tracker pt = t₀ := by simp [hf₂, Filler.setTracker]
  have hpages₂ : ∀ t : Tracker N, t.density = density →
      f₂.pagesAllocated = Function.update s.filler.pagesAllocated t.density (s.filler.pagesAllocated t.density + n) := by
    intro t hd
    rw [hd, ← hused₀]
  have hstep : ∀ f₃ : Filler ι N, (s.filler.setTracker pt t₀).contribute pt donated density =
      some { f₃ with size := f₃.size + 1 } →
      s.step (.allocAndContribute pt p n donated density) =
        some ⟨{ f₃ with size := f₃.size + 1 }, insert pt s.held, Function.update s.live pt [(0, n)]⟩ := by
    intro f₃ hcontr
    simp only [step, hcall, hcontr, Option.map_some, Nat.add_zero, Nat.sub_self]
  have hlist := htr₁.listable (List.cons_ne_nil _ _)
  have hrelP : t₀.releasedPages = 0 := hrel₀
  cases donated
  case true =>
    -- the tail of a large allocation goes on the donated lists
    have hsp : density = .sparse := hdon rfl
    obtain ⟨f₃, hdonate, hfr₃, hl₃⟩ := hl₂.donateToFillerList hpt (ht₂ ▸ hlist.longest)
      (by rw [ht₂]; simp [Tracker.released, hrel₀])
    have hcontr : (s.filler.setTracker pt t₀).contribute pt true density = some { f₃ with size := f₃.size + 1 } := by
      unfold Filler.contribute
      simp only [Filler.setTracker, Function.update_self, Option.bind_eq_bind]
      have hwd : t₀.wasDonated = true := rfl
      rw [check_pos hrelP, check_pos (by simp [hsp]), if_pos trivial, check_pos hwd]
      exact congrArg (Option.bind · fun f => some { f with size := f.size + 1 }) hdonate
    refine ⟨_, hstep f₃ hcontr, inv.contributed hpt hff (t := { t₀ with donated := true }) ?_ ⟨_, hl₃⟩
      (htr₁.congr rfl rfl) (fun _ => rfl) hrel₀ rfl hfr₃.size ?_ hfr₃.unmapped hfr₃.nWasReleased hfr₃.fullyFreedTrackers⟩
    · rw [hfr₃.tracker]
      simp [hf₂, Filler.setTracker]
    · rw [hfr₃.pagesAllocated]
      exact hpages₂ _ hsp.symm
  case false =>
    cases hd : density
    case dense =>
      -- a dense tracker holds single pages
      subst hd
      have hn : n = 1 := hdens.resolve_left AccessDensityPrediction.noConfusion
      have htrD : Tracked { t₀ with hasDenseSpans := true } [(0, n)] :=
        ⟨htr₁.inv, htr₁.used, htr₁.nallocs, fun _ r hr => by
          rw [List.mem_singleton.mp hr]
          exact hn⟩
      have hl₂' := hl₂.setTracker hpt { t₀ with hasDenseSpans := true }
      obtain ⟨f₃, hadd, hfr₃, hl₃⟩ := hl₂'.addToFillerList hpt (by
        simpa [Filler.setTracker] using htrD.listable (List.cons_ne_nil _ _))
      have hcontr : (s.filler.setTracker pt t₀).contribute pt false .dense = some { f₃ with size := f₃.size + 1 } := by
        unfold Filler.contribute
        simp only [Filler.setTracker, Function.update_self, Option.bind_eq_bind]
        rw [check_pos hrelP, check_pos (by simp), if_neg Bool.false_ne_true, if_pos trivial]
        exact congrArg (Option.bind · fun f => some { f with size := f.size + 1 }) hadd
      refine ⟨_, hstep f₃ hcontr, inv.contributed hpt hff (t := { t₀ with hasDenseSpans := true, donated := false }) ?_
        ⟨_, hl₃⟩ (htrD.congr rfl rfl) (fun h => Bool.noConfusion h) hrel₀ rfl hfr₃.size ?_ hfr₃.unmapped
        hfr₃.nWasReleased hfr₃.fullyFreedTrackers⟩
      · rw [hfr₃.tracker]
        simp [hf₂, Filler.setTracker]
      · rw [hfr₃.pagesAllocated]
        exact hpages₂ _ rfl
    case sparse =>
      subst hd
      obtain ⟨f₃, hadd, hfr₃, hl₃⟩ := hl₂.addToFillerList hpt (ht₂ ▸ hlist)
      have hcontr : (s.filler.setTracker pt t₀).contribute pt false .sparse = some { f₃ with size := f₃.size + 1 } := by
        unfold Filler.contribute
        simp only [Filler.setTracker, Function.update_self, Option.bind_eq_bind]
        rw [check_pos hrelP, check_pos (by simp), if_neg Bool.false_ne_true, if_neg (by simp)]
        exact congrArg (Option.bind · fun f => some { f with size := f.size + 1 }) hadd
      refine ⟨_, hstep f₃ hcontr, inv.contributed hpt hff (t := { t₀ with donated := false }) ?_ ⟨_, hl₃⟩
        (htr₁.congr rfl rfl) (fun h => Bool.noConfusion h) hrel₀ rfl hfr₃.size ?_ hfr₃.unmapped hfr₃.nWasReleased
        hfr₃.fullyFreedTrackers⟩
      · rw [hfr₃.tracker]
        simp [hf₂, Filler.setTracker]
      · rw [hfr₃.pagesAllocated]
        exact hpages₂ _ rfl

end Calls

theorem Inv.onCollapseSuccess (inv : Inv s) (hpt : pt ∈ s.held) :
    ∃ s', s.step (.onCollapseSuccess pt) = some s' ∧ Inv s' := by
  cases hu : (s.filler.tracker pt).unbroken
  case true => exact ⟨s, by simp [step, Filler.onCollapseSuccess, hu], inv⟩
  case false =>
    obtain ⟨L, hl⟩ := inv.listed
    obtain ⟨htr, hne⟩ := inv.tracked pt hpt
    obtain ⟨f₁, hrem, hfr₁, hl₁⟩ := hl.removeFromFillerList hpt (htr.listable hne)
    have ht₁ : f₁.tracker pt = s.filler.tracker pt := by rw [hfr₁.tracker]
    have hl₂ := hl₁.setTracker (Finset.notMem_erase pt _) { f₁.tracker pt with unbroken := true }
    have hrelist := inv.relist hpt hl₂ (congrArg (Function.update · pt _) hfr₁.tracker)
      ((ht₁ ▸ htr).congr rfl rfl) hne hfr₁.size (fun d => ?_) ?_ (fun d => ?_) hfr₁.fullyFreedTrackers
    · obtain ⟨f₃, hadd, hinv⟩ := hrelist
      have hcall : s.filler.onCollapseSuccess pt = some f₃ := by
        unfold Filler.onCollapseSuccess
        rw [hu, hrem]
        exact hadd
      rw [Function.update_eq_self] at hinv
      exact ⟨_, by simp [step, hcall], hinv⟩
    · show f₁.pagesAllocated d + _ = _
      rw [hfr₁.pagesAllocated, ← ht₁]
      rfl
    · show f₁.unmapped + _ = _
      rw [hfr₁.unmapped, ← ht₁]
      rfl
    · show f₁.nWasReleased d + _ = _
      rw [hfr₁.nWasReleased, ← ht₁]
      rfl


end State

end TCMalloc.HugePageFiller
