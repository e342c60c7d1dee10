import Mathlib
import TCMalloc.HugePageFiller.FillerTryGet
import TCMalloc.Lib.Run

/-!
The filler over whole runs.  From the filler its constructor builds, every sequence of
calls its callers may make keeps `Inv`: the lists hold exactly the trackers handed to the
filler and not yet given back, each on the list its state selects, the counters are the
sums they stand for, every `TC_ASSERT` of the filler and of `AllocAndContribute` passes,
and every tracker meets what the `TC_ASSERT`s of the `PageTracker` calls test.
-/

set_option autoImplicit false
set_option relaxedAutoImplicit false

namespace TCMalloc.HugePageFiller

open TCMalloc.Lib

variable {ι : Type} [DecidableEq ι] {N : Nat}

namespace State

variable (hN : N < 2 ^ 16)
include hN

theorem Inv.step {s : State ι N} (inv : Inv s) {c : Call ι N} (hallowed : s.Allowed c) :
    ∃ s', s.step c = some s' ∧ Inv s' := by
  cases c with
  | tryGet n density => exact inv.tryGet hN hallowed
  | allocAndContribute pt p n donated density => exact inv.allocAndContribute hN hallowed
  | put pt p n unbackOk => exact inv.put hN unbackOk hallowed.2
  | handleReleaseFree pt unback => exact inv.handleReleaseFree hN hallowed unback
  | handleUnbackedHugePage pt unbacked => exact inv.handleUnbackedHugePage hN hallowed unbacked
  | onCollapseSuccess pt => exact inv.onCollapseSuccess hallowed
  | setDontFreeTracker pt dontFree => exact inv.setDontFreeTracker dontFree
  | fetchFullyFreedTracker => exact inv.fetchFullyFreedTracker

theorem run_inv {mode : SubreleaseUnbackedMode} {calls : List (Call ι N)} {s : State ι N}
    (run : Run step Allowed (init mode) calls s) : Inv s :=
  Run.invariant Inv (fun _ _ _ inv hallowed hstep => by
      obtain ⟨s', h, inv'⟩ := inv.step hN hallowed
      rw [hstep] at h
      exact Option.some.inj h ▸ inv')
    run (inv_init mode)

end State

/-- Whatever its callers did, the filler holds its invariant, and whatever they may do next
passes every check of the filler.  Every tracker it holds meets what the `TC_ASSERT`s of
the `PageTracker` calls test: `released_count_` counts `released_by_page_`, whose bits lie
in the hugepage, and the ranges handed out are marked used. -/
theorem hugePageFiller_run_consistent (hN : N < 2 ^ 16) (mode : SubreleaseUnbackedMode)
    {calls : List (Call ι N)} {s : State ι N} (run : Run State.step State.Allowed (State.init mode) calls s) :
    s.Inv ∧ (∀ q ∈ s.held, PageTracker.Inv ⟨(s.filler.tracker q).toPageTracker, s.live q⟩) ∧
      ∀ c, s.Allowed c → ∃ s', s.step c = some s' ∧ s'.Inv :=
  ⟨State.run_inv hN run, fun q hq => ((State.run_inv hN run).tracked q hq).1.inv,
    fun _ hallowed => (State.run_inv hN run).step hN hallowed⟩

theorem hugePageFiller_run_consistent_alloc_get_put :
    ∃ calls s, Run State.step State.Allowed (State.init .enabled : State Nat 4) calls s ∧
      s.Inv ∧ (∀ q ∈ s.held, PageTracker.Inv ⟨(s.filler.tracker q).toPageTracker, s.live q⟩) ∧
        ∀ c, s.Allowed c → ∃ s', s.step c = some s' ∧ s'.Inv := by
  have hchecked : (runChecked State.step (fun s c => decide (s.Allowed c)) (State.init .enabled : State Nat 4)
      [.allocAndContribute 7 1 1 false .sparse, .tryGet 2 .sparse, .put 7 4 1 true]).isSome = true := by
    decide +kernel
  obtain ⟨s, hs⟩ := Option.isSome_iff_exists.mp hchecked
  have run := Run.of_runChecked (fun _ _ h => of_decide_eq_true h) hs
  exact ⟨_, s, run, hugePageFiller_run_consistent (by decide) .enabled run⟩

end TCMalloc.HugePageFiller
