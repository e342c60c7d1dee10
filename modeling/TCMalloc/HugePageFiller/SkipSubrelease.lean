import Mathlib
import TCMalloc.HugePageSubrelease

/-!
Skip-subrelease in `HugePageFiller::GetDesiredSubreleasePages`: before a
release, the filler reports its current stats to its `SubreleaseStatsTracker`
and lowers the pages it wants to release so that the pages it keeps mapped stay
at the demand requirement read from the tracker's recent history, either the
peak demand over `peak_interval` or, without one, the short-term fluctuation
plus the long-term trend capped by the peak over `demand_cap_interval_`.  Every
interval the tracker reads is clamped to its window, the short and long ones
included.
-/

set_option autoImplicit false
set_option relaxedAutoImplicit false

namespace TCMalloc.HugePageFiller

open TCMalloc.Internal TCMalloc.Internal.TimeSeriesTracker TCMalloc.HugePageSubrelease

/-- `SkipSubreleaseIntervals`, in the ticks of `absl::Duration`. -/
structure SkipSubreleaseIntervals where
  peakInterval : Nat
  shortInterval : Nat
  longInterval : Nat
  deriving DecidableEq, Repr

namespace SkipSubreleaseIntervals

/-- `IsPeakIntervalSet()`. -/
def isPeakIntervalSet (i : SkipSubreleaseIntervals) : Bool := i.peakInterval != 0

/-- `SkipSubreleaseEnabled()`. -/
def skipSubreleaseEnabled (i : SkipSubreleaseIntervals) : Bool :=
  i.peakInterval != 0 || i.shortInterval != 0 || i.longInterval != 0

end SkipSubreleaseIntervals

/-- What `GetDesiredSubreleasePages` reads and changes of a `HugePageFiller`:
`used_pages()`, `free_pages()`, `unmapped_pages()`, the pages subreleased since the
last report (`subrelease_stats_.num_pages_subreleased`) and `fillerstats_tracker_`. -/
structure FillerState where
  usedPages : Nat
  freePages : Nat
  unmappedPages : Nat
  numPagesSubreleased : Nat
  fillerstatsTracker : SubreleaseStatsTracker

variable (cfg : StatsConfig)

/-- `UpdateFillerStatsTracker()` at the clock reading `now`. -/
def updateFillerStatsTracker (now : Nat) (f : FillerState) : FillerState :=
  { f with
    fillerstatsTracker := f.fillerstatsTracker.report cfg now
      ⟨f.usedPages, f.freePages, f.unmappedPages, f.numPagesSubreleased⟩
    numPagesSubreleased := 0 }

/-- `GetDesiredSubreleasePages(desired, total_released, intervals)` at the clock reading
`now`: the pages to release, and the filler after it. -/
def getDesiredSubreleasePages (now desired totalReleased : Nat) (intervals : SkipSubreleaseIntervals)
    (f : FillerState) : Nat × FillerState :=
  if !intervals.skipSubreleaseEnabled then (desired, f)
  else
    let f := updateFillerStatsTracker cfg now f
    let requiredPages :=
      if intervals.isPeakIntervalSet then f.fillerstatsTracker.getRecentPeak cfg intervals.peakInterval
      else f.fillerstatsTracker.getRecentDemand cfg intervals.shortInterval intervals.longInterval
    let currentPages := f.usedPages + f.freePages
    if requiredPages ≠ 0 then
      let newDesired :=
        if currentPages ≤ requiredPages then totalReleased else totalReleased + (currentPages - requiredPages)
      if desired ≤ newDesired then (desired, f)
      else
        let releasablePages := min f.freePages (newDesired - totalReleased)
        let skippedPages := min (f.freePages - releasablePages) (desired - newDesired)
        (newDesired,
          { f with
            fillerstatsTracker :=
              f.fillerstatsTracker.reportSkippedSubreleasePages cfg now skippedPages (min currentPages requiredPages) })
    else (desired, f)

/-! ### The demand requirement -/

/-- The largest `g` over the non-empty entries in the epochs `IterBackwards` covers for
an interval of `ticks`. -/
def windowMax (t : SubreleaseStatsTracker) (g : SubreleaseStatsEntry → Nat) (ticks : Nat) : Nat :=
  (((iterBackwards cfg.P t.tracker (.finite ticks)).filter fun v => !v.2.2.empty).map fun v => g v.2.2).foldl max 0

/-- The demand requirement: the peak demand over the peak interval clamped to the window
if one is set; otherwise the smaller of the peak over `demand_cap_interval_` and the sum
of the largest fluctuation over the short interval (first capped at the long one) and
the largest minimum demand over the long interval, both clamped to the window. -/
def demandRequirement (t : SubreleaseStatsTracker) (i : SkipSubreleaseIntervals) : Nat :=
  if i.peakInterval ≠ 0 then windowMax cfg t (fun e => e.atMaxDemand.numPages) (min i.peakInterval cfg.window)
  else
    let shortInterval := if i.shortInterval ≠ 0 ∧ i.longInterval ≠ 0 then min i.shortInterval i.longInterval else i.shortInterval
    min (windowMax cfg t (fun e => e.atMaxDemand.numPages) cfg.demandCapInterval)
      (windowMax cfg t (fun e => e.atMaxDemand.numPages - e.atMinDemand.numPages) (min shortInterval cfg.window) +
        windowMax cfg t (fun e => e.atMinDemand.numPages) (min i.longInterval cfg.window))

theorem calculateDemandPeak_eq (t : SubreleaseStatsTracker) (ticks : Nat) :
    t.calculateDemandPeak cfg ticks = windowMax cfg t (fun e => e.atMaxDemand.numPages) ticks :=
  maxOverNonEmpty_eq _ _

theorem requiredPages_eq (t : SubreleaseStatsTracker) (i : SkipSubreleaseIntervals) :
    (if i.isPeakIntervalSet then t.getRecentPeak cfg i.peakInterval
      else t.getRecentDemand cfg i.shortInterval i.longInterval) = demandRequirement cfg t i := by
  simp only [SkipSubreleaseIntervals.isPeakIntervalSet, bne_iff_ne, ne_eq, demandRequirement,
    SubreleaseStatsTracker.getRecentPeak, SubreleaseStatsTracker.getRecentDemand,
    SubreleaseStatsTracker.calculateCombinedDemandTrend, calculateDemandPeak_eq, windowMax,
    maxOverNonEmpty_eq]

/-! ### What `GetDesiredSubreleasePages` decides -/

section Desired

variable {cfg} (now desired totalReleased : Nat) (intervals : SkipSubreleaseIntervals) (f : FillerState)

@[simp] theorem updateFillerStatsTracker_usedPages : (updateFillerStatsTracker cfg now f).usedPages = f.usedPages := rfl

@[simp] theorem updateFillerStatsTracker_freePages : (updateFillerStatsTracker cfg now f).freePages = f.freePages := rfl

theorem getDesiredSubreleasePages_of_disabled (h : intervals.skipSubreleaseEnabled = false) :
    getDesiredSubreleasePages cfg now desired totalReleased intervals f = (desired, f) := by
  simp [getDesiredSubreleasePages, h]

theorem getDesiredSubreleasePages_fst_of_enabled (h : intervals.skipSubreleaseEnabled = true) :
    (getDesiredSubreleasePages cfg now desired totalReleased intervals f).1 =
      let R := demandRequirement cfg (updateFillerStatsTracker cfg now f).fillerstatsTracker intervals
      if R = 0 then desired else min desired (totalReleased + (f.usedPages + f.freePages - R)) := by
  simp only [getDesiredSubreleasePages, h, Bool.not_true, Bool.false_eq_true, if_false, requiredPages_eq,
    updateFillerStatsTracker_usedPages, updateFillerStatsTracker_freePages]
  generalize demandRequirement cfg (updateFillerStatsTracker cfg now f).fillerstatsTracker intervals = R
  by_cases hR : R = 0
  · simp [hR]
  · simp only [hR, ne_eq, not_false_eq_true, if_true, if_false]
    split <;> split <;> omega

theorem totalSkipped_getDesiredSubreleasePages_le (h : intervals.skipSubreleaseEnabled = true) :
    (getDesiredSubreleasePages cfg now desired totalReleased intervals f).2.fillerstatsTracker.skippedSubreleaseCorrectness.totalSkipped.pages ≤
      (updateFillerStatsTracker cfg now f).fillerstatsTracker.skippedSubreleaseCorrectness.totalSkipped.pages +
        min f.freePages (desired - (getDesiredSubreleasePages cfg now desired totalReleased intervals f).1) := by
  simp only [getDesiredSubreleasePages, h, Bool.not_true, Bool.false_eq_true, if_false, requiredPages_eq,
    updateFillerStatsTracker_usedPages, updateFillerStatsTracker_freePages]
  generalize demandRequirement cfg (updateFillerStatsTracker cfg now f).fillerstatsTracker intervals = R
  by_cases hR : R = 0
  · simp [hR]
  · simp only [hR, ne_eq, not_false_eq_true, if_true]
    generalize (if f.usedPages + f.freePages ≤ R then totalReleased
      else totalReleased + (f.usedPages + f.freePages - R)) = newDesired
    by_cases hle : desired ≤ newDesired
    · simp [hle]
    · simp only [hle, if_false, SubreleaseStatsTracker.reportSkippedSubreleasePages_totalSkipped_pages]
      omega

end Desired

/-- `GetDesiredSubreleasePages` for every filler whose tracker keeps each epoch's minimum
demand at most its maximum (as every tracker built by reports does) and every
`total_released < desired`: it returns `desired` when skip-subrelease is disabled or the
demand requirement `R` is 0, and `min(desired, total_released + max(0, C - R))`
otherwise, with `C` the used plus free pages; the result lies in
`[total_released, desired]`; the entries it reads after reporting the current stats keep
their order, so no demand difference wraps; and it reports as skipped at most the pages
the target was lowered by, and at most the free pages. -/
theorem getDesiredSubreleasePages_within_demand (cfg : StatsConfig) (now desired totalReleased : Nat)
    (intervals : SkipSubreleaseIntervals) (f : FillerState) (hlt : totalReleased < desired)
    (hord : f.fillerstatsTracker.Ordered) :
    let t := (updateFillerStatsTracker cfg now f).fillerstatsTracker
    let R := demandRequirement cfg t intervals
    let r := getDesiredSubreleasePages cfg now desired totalReleased intervals f
    r.1 = (if intervals.skipSubreleaseEnabled = false ∨ R = 0 then desired
      else min desired (totalReleased + (f.usedPages + f.freePages - R))) ∧
    totalReleased ≤ r.1 ∧ r.1 ≤ desired ∧ t.Ordered ∧
    r.2.fillerstatsTracker.skippedSubreleaseCorrectness.totalSkipped.pages ≤
      (if intervals.skipSubreleaseEnabled then t else f.fillerstatsTracker).skippedSubreleaseCorrectness.totalSkipped.pages +
        min f.freePages (desired - r.1) := by
  intro t R r
  have hordered : t.Ordered := hord.report cfg now _
  cases hen : intervals.skipSubreleaseEnabled
  · have hr : r = (desired, f) := getDesiredSubreleasePages_of_disabled now desired totalReleased intervals f hen
    rw [hr]
    exact ⟨by simp, Nat.le_of_lt hlt, le_rfl, hordered, by simp⟩
  · have hfst := @getDesiredSubreleasePages_fst_of_enabled cfg now desired totalReleased intervals f hen
    have hskip := @totalSkipped_getDesiredSubreleasePages_le cfg now desired totalReleased intervals f hen
    have hval : r.1 = if R = 0 then desired else min desired (totalReleased + (f.usedPages + f.freePages - R)) := hfst
    refine ⟨by simpa using hval, ?_, ?_, hordered, by simpa using hskip⟩
    · rw [hval]
      split <;> omega
    · rw [hval]
      split <;> omega

/-! ### The filler's tracker, with a gap in its history -/

theorem fillerStats_kSlots_pos : 0 < 3600 := by decide

theorem fillerStats_epochLength_eq : 1 = 3600 / 3600 := by decide

/-- The filler's `SubreleaseStatsTracker<3600>`: an hour's window of one-second epochs,
a five-minute summary interval and a ten-minute demand cap, with a clock of three
ticks a second. -/
def fillerStatsConfig : StatsConfig :=
  ⟨⟨3600, 1, 3, Internal.fdivCeil 1, fillerStats_kSlots_pos, Nat.one_pos, Internal.TimeSeriesTracker.three_ticks_pos,
    Internal.TimeSeriesTracker.three_ticks_lt, Internal.fdivCeil_one_pos⟩, 3600, 300, 600,
    fillerStats_epochLength_eq⟩

/-- A filler with 10 pages used and 100 free whose tracker saw a demand of 50 at time 0
and, 3700 seconds later, a demand of 60 then of 10. -/
def gapFiller : FillerState :=
  ⟨10, 100, 0, 0,
    ((((SubreleaseStatsTracker.init fillerStatsConfig 0).report fillerStatsConfig 0 ⟨50, 0, 0, 0⟩).report
      fillerStatsConfig 11100 ⟨60, 0, 0, 0⟩).report fillerStatsConfig 11100 ⟨10, 100, 0, 0⟩)⟩

theorem getDesiredSubreleasePages_within_demand_for_gap_filler :
    (0 : Nat) < 100 ∧ gapFiller.fillerstatsTracker.Ordered ∧
      let t := (updateFillerStatsTracker fillerStatsConfig 11100 gapFiller).fillerstatsTracker
      let R := demandRequirement fillerStatsConfig t ⟨0, 0, 7200⟩
      let r := getDesiredSubreleasePages fillerStatsConfig 11100 100 0 ⟨0, 0, 7200⟩ gapFiller
      r.1 = (if (SkipSubreleaseIntervals.skipSubreleaseEnabled ⟨0, 0, 7200⟩) = false ∨ R = 0 then 100
        else min 100 (0 + (gapFiller.usedPages + gapFiller.freePages - R))) ∧
      0 ≤ r.1 ∧ r.1 ≤ 100 ∧ t.Ordered ∧
      r.2.fillerstatsTracker.skippedSubreleaseCorrectness.totalSkipped.pages ≤
        (if SkipSubreleaseIntervals.skipSubreleaseEnabled ⟨0, 0, 7200⟩ then t
          else gapFiller.fillerstatsTracker).skippedSubreleaseCorrectness.totalSkipped.pages +
          min gapFiller.freePages (100 - r.1) := by
  have hord : gapFiller.fillerstatsTracker.Ordered :=
    (((SubreleaseStatsTracker.ordered_init fillerStatsConfig 0).report fillerStatsConfig 0 _).report
      fillerStatsConfig 11100 _).report fillerStatsConfig 11100 _
  exact ⟨by decide, hord,
    getDesiredSubreleasePages_within_demand fillerStatsConfig 11100 100 0 ⟨0, 0, 7200⟩ gapFiller (by decide) hord⟩

/-- With only a two-hour long interval set, the filler clamps it to its one-hour window:
the newest epoch alone covers the hour, its minimum demand of 10 is the trend, and the
whole 100 pages asked for are released.  Read over the two hours the interval names,
the trend would be the older epoch's 50, the requirement 50, and the result 60. -/
theorem getDesiredSubreleasePages_clamps_long_interval_to_window :
    let t := (updateFillerStatsTracker fillerStatsConfig 11100 gapFiller).fillerstatsTracker
    (getDesiredSubreleasePages fillerStatsConfig 11100 100 0 ⟨0, 0, 7200⟩ gapFiller).1 = 100 ∧
      min 100 (0 + (gapFiller.usedPages + gapFiller.freePages -
        min (windowMax fillerStatsConfig t (fun e => e.atMaxDemand.numPages) fillerStatsConfig.demandCapInterval)
          (windowMax fillerStatsConfig t (fun e => e.atMaxDemand.numPages - e.atMinDemand.numPages) 0 +
            windowMax fillerStatsConfig t (fun e => e.atMinDemand.numPages) 7200))) = 60 := by
  decide +kernel

end TCMalloc.HugePageFiller
