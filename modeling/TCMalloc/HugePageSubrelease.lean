import Mathlib
import TCMalloc.Internal.TimeSeriesTracker

/-!
The trackers of `huge_page_subrelease.h` that drive and judge skip-subrelease,
over `TimeSeriesTracker`.  `SkippedSubreleaseCorrectnessTracker` aggregates the
skipped subrelease decisions of each epoch (pages and counts summed, the peak
they need the maximum of their peaks) and, on every confirmed demand peak, walks
back over `correctness_interval_` plus one epoch to count as correct the earlier
epochs whose needed peak the new one reaches.  What it has already counted it
remembers through `last_confirmed_peak_` and the confirmed peaks stored per
epoch; since `last_confirmed_peak_` is reset only when the confirming report is
the one that enters a new epoch, an epoch entered by a skipped decision keeps
the previous epoch's peak, and that epoch's later decisions are never counted.
-/

set_option autoImplicit false
set_option relaxedAutoImplicit false

namespace TCMalloc.HugePageSubrelease

open TCMalloc.Internal TCMalloc.Internal.TimeSeriesTracker

/-! ### Skipped subrelease decisions -/

/-- `SkippedSubreleaseDecision`: the pages a subrelease skipped and how many times. -/
structure SkippedSubreleaseDecision where
  pages : Nat
  count : Nat
  deriving DecidableEq, Repr

namespace SkippedSubreleaseDecision

/-- `SkippedSubreleaseDecision::Zero()`. -/
def zero : SkippedSubreleaseDecision := ⟨0, 0⟩

/-- `operator+=`. -/
instance : Add SkippedSubreleaseDecision := ⟨fun a b => ⟨a.pages + b.pages, a.count + b.count⟩⟩

@[simp] theorem add_pages (a b : SkippedSubreleaseDecision) : (a + b).pages = a.pages + b.pages := rfl

@[simp] theorem add_count (a b : SkippedSubreleaseDecision) : (a + b).count = a.count + b.count := rfl

@[simp] theorem zero_pages : zero.pages = 0 := rfl

@[simp] theorem zero_count : zero.count = 0 := rfl

end SkippedSubreleaseDecision

/-- `SkippedSubreleaseUpdate`: a decision made now and the peak it needs, or a peak
confirmed now. -/
structure SkippedSubreleaseUpdate where
  decision : SkippedSubreleaseDecision
  numPagesAtDecision : Nat
  confirmedPeak : Nat

/-- `SkippedSubreleaseEntry`: one epoch's decisions, the largest peak they need, and the
largest peak confirmed in the epoch. -/
structure SkippedSubreleaseEntry where
  decisions : SkippedSubreleaseDecision
  maxNumPagesAtDecision : Nat
  maxConfirmedPeak : Nat
  deriving DecidableEq, Repr

namespace SkippedSubreleaseEntry

/-- `SkippedSubreleaseEntry::Nil()`. -/
def nil : SkippedSubreleaseEntry := ⟨.zero, 0, 0⟩

/-- `SkippedSubreleaseEntry::Report`. -/
def report (e : SkippedSubreleaseEntry) (u : SkippedSubreleaseUpdate) : SkippedSubreleaseEntry where
  decisions := e.decisions + u.decision
  maxNumPagesAtDecision := max e.maxNumPagesAtDecision u.numPagesAtDecision
  maxConfirmedPeak := max e.maxConfirmedPeak u.confirmedPeak

/-- The entry type's operations for the tracker. -/
def ops : EntryOps SkippedSubreleaseEntry SkippedSubreleaseUpdate := ⟨nil, report⟩

end SkippedSubreleaseEntry

/-- The state of a `SkippedSubreleaseCorrectnessTracker`. -/
structure SkippedSubreleaseCorrectnessTracker where
  lastConfirmedPeak : Nat
  totalSkipped : SkippedSubreleaseDecision
  correctlySkipped : SkippedSubreleaseDecision
  pendingSkipped : SkippedSubreleaseDecision
  tracker : TimeSeriesTracker SkippedSubreleaseEntry

/-- What `ReportUpdatedPeak`'s backwards walk carries: the two sums it updates and
`largest_peak_already_confirmed`. -/
structure PeakScan where
  correctlySkipped : SkippedSubreleaseDecision
  pendingSkipped : SkippedSubreleaseDecision
  largestPeakAlreadyConfirmed : Nat

namespace SkippedSubreleaseCorrectnessTracker

variable (P : TimeSeriesParams)

/-- The constructor at the clock reading `now`. -/
def init (now : Nat) : SkippedSubreleaseCorrectnessTracker :=
  ⟨0, .zero, .zero, .zero, TimeSeriesTracker.init P SkippedSubreleaseEntry.nil now⟩

/-- `ReportSkippedSubreleasePages(skipped_pages, peak_pages)` at the clock reading `now`. -/
def reportSkippedSubreleasePages (now skippedPages peakPages : Nat) (c : SkippedSubreleaseCorrectnessTracker) :
    SkippedSubreleaseCorrectnessTracker :=
  { c with
    totalSkipped := c.totalSkipped + ⟨skippedPages, 1⟩
    pendingSkipped := c.pendingSkipped + ⟨skippedPages, 1⟩
    tracker := (report P SkippedSubreleaseEntry.ops now ⟨⟨skippedPages, 1⟩, peakPages, 0⟩ c.tracker).2 }

/-- The callback of `ReportUpdatedPeak`'s `IterBackwards`, for one visited entry. -/
def confirmPeak (currentPeak : Nat) (acc : PeakScan) (v : Nat × Nat × SkippedSubreleaseEntry) : PeakScan :=
  -- the entry of the current epoch is never cleared
  if v.1 = 0 then acc
  else
    let e := v.2.2
    let acc :=
      if 0 < e.decisions.count ∧ acc.largestPeakAlreadyConfirmed < e.maxNumPagesAtDecision then
        if e.maxNumPagesAtDecision ≤ currentPeak then
          { acc with correctlySkipped := acc.correctlySkipped + e.decisions }
        else { acc with pendingSkipped := acc.pendingSkipped + e.decisions }
      else acc
    { acc with largestPeakAlreadyConfirmed := max acc.largestPeakAlreadyConfirmed e.maxConfirmedPeak }

/-- `ReportUpdatedPeak(current_peak)` at the clock reading `now`, for a tracker built with
`correctness_interval_` (in the ticks of `epoch_length_`). -/
def reportUpdatedPeak (correctnessInterval now currentPeak : Nat) (c : SkippedSubreleaseCorrectnessTracker) :
    SkippedSubreleaseCorrectnessTracker :=
  let r := report P SkippedSubreleaseEntry.ops now ⟨.zero, 0, currentPeak⟩ c.tracker
  -- `last_confirmed_peak_` restarts only when this report entered a new epoch
  let last := if r.1 then 0 else c.lastConfirmedPeak
  let scan := (iterBackwards P r.2 (.finite (correctnessInterval + P.epochLength))).foldl
    (confirmPeak currentPeak) ⟨c.correctlySkipped, .zero, last⟩
  { lastConfirmedPeak := max last currentPeak
    totalSkipped := c.totalSkipped
    correctlySkipped := scan.correctlySkipped
    pendingSkipped := scan.pendingSkipped
    tracker := r.2 }

theorem params16_kSlots_pos : 0 < 16 := by decide

/-- Sixteen slots of one-tick epochs, three clock ticks to an epoch. -/
def params16 : TimeSeriesParams :=
  ⟨16, 1, 3, Internal.fdivCeil 1, params16_kSlots_pos, Nat.one_pos, Internal.TimeSeriesTracker.three_ticks_pos,
    Internal.TimeSeriesTracker.three_ticks_lt, Internal.fdivCeil_one_pos⟩

/-- A peak of 100 confirmed as it enters epoch 1, then a decision in epoch 1 that needs
a peak of 50. -/
def epoch1Decided : SkippedSubreleaseCorrectnessTracker :=
  reportSkippedSubreleasePages params16 4 10 50 (reportUpdatedPeak params16 5 3 100 (init params16 0))

/-- Then a decision that enters epoch 2. -/
def epoch2BySkip : SkippedSubreleaseCorrectnessTracker := reportSkippedSubreleasePages params16 6 1 1 epoch1Decided

/-- A peak of 60 in epoch 2, with a correctness interval of 5 ticks: epoch 1 lies in the
walk, its decision is not yet counted and 60 ≥ 50, yet the stale `last_confirmed_peak_`
of 100 hides it, and it is neither counted correct nor pending, nor counted by a peak of
60 in epoch 3.  Had a peak of 40 entered epoch 2 instead, the peak of 60 would have
counted it. -/
theorem reportUpdatedPeak_drops_decision_after_skip_enters_epoch :
    (reportUpdatedPeak params16 5 7 60 epoch2BySkip).correctlySkipped = ⟨0, 0⟩ ∧
      (reportUpdatedPeak params16 5 7 60 epoch2BySkip).pendingSkipped = ⟨0, 0⟩ ∧
      (reportUpdatedPeak params16 5 7 60 epoch2BySkip).totalSkipped = ⟨11, 2⟩ ∧
      (reportUpdatedPeak params16 5 9 60 (reportUpdatedPeak params16 5 7 60 epoch2BySkip)).correctlySkipped =
        ⟨1, 1⟩ ∧
      (reportUpdatedPeak params16 5 7 60 (reportUpdatedPeak params16 5 6 40 epoch1Decided)).correctlySkipped =
        ⟨10, 1⟩ := by
  decide

end SkippedSubreleaseCorrectnessTracker

/-! ### Subrelease statistics over time -/

/-- `SubreleaseStatsTracker::SubreleaseStats`. -/
structure SubreleaseStats where
  numPages : Nat
  freePages : Nat
  unmappedPages : Nat
  numPagesSubreleased : Nat
  deriving DecidableEq, Repr

/-- `SubreleaseStatsEntry::kDefaultValue`, `Length::max()`. -/
def kDefaultValue : Nat := 2 ^ 64 - 1

/-- `SubreleaseStatsEntry`: the stats at the epoch's minimum and maximum demand
(`stats[kStatsAtMinDemand]` and `stats[kStatsAtMaxDemand]`), the fewest free and free
backed pages seen, and the pages subreleased. -/
structure SubreleaseStatsEntry where
  atMinDemand : SubreleaseStats
  atMaxDemand : SubreleaseStats
  minFreePages : Nat
  minFreeBackedPages : Nat
  numPagesSubreleased : Nat
  deriving DecidableEq, Repr

namespace SubreleaseStatsEntry

/-- `SubreleaseStatsEntry::Nil()`. -/
def nil : SubreleaseStatsEntry := ⟨⟨0, 0, 0, 0⟩, ⟨0, 0, 0, 0⟩, kDefaultValue, kDefaultValue, 0⟩

/-- `SubreleaseStatsEntry::empty()`. -/
def empty (e : SubreleaseStatsEntry) : Bool := e.minFreePages == kDefaultValue

/-- `SubreleaseStatsEntry::Report`. -/
def report (e : SubreleaseStatsEntry) (s : SubreleaseStats) : SubreleaseStatsEntry :=
  let e := if e.empty then { e with atMinDemand := s, atMaxDemand := s } else e
  let e := if s.numPages < e.atMinDemand.numPages then { e with atMinDemand := s } else e
  let e := if e.atMaxDemand.numPages < s.numPages then { e with atMaxDemand := s } else e
  { e with
    minFreePages := min e.minFreePages (s.freePages + s.unmappedPages)
    minFreeBackedPages := min e.minFreeBackedPages s.freePages
    numPagesSubreleased := e.numPagesSubreleased + s.numPagesSubreleased }

/-- The entry type's operations for the tracker. -/
def ops : EntryOps SubreleaseStatsEntry SubreleaseStats := ⟨nil, report⟩

/-- The demand at an epoch's minimum is at most the demand at its maximum, so the
`Length` difference of the two does not wrap. -/
def Ordered (e : SubreleaseStatsEntry) : Prop := e.atMinDemand.numPages ≤ e.atMaxDemand.numPages

theorem ordered_nil : nil.Ordered := Nat.le_refl 0

theorem Ordered.report {e : SubreleaseStatsEntry} (h : e.Ordered) (s : SubreleaseStats) : (e.report s).Ordered := by
  -- each of the three updates of `Report` keeps the order
  have first : ∀ e : SubreleaseStatsEntry, e.Ordered →
      (if e.empty then { e with atMinDemand := s, atMaxDemand := s } else e).Ordered := by
    intro e he
    split
    · exact Nat.le_refl _
    · exact he
  have lower : ∀ e : SubreleaseStatsEntry, e.Ordered →
      (if s.numPages < e.atMinDemand.numPages then { e with atMinDemand := s } else e).Ordered := by
    intro e he
    split
    · exact Nat.le_of_lt (Nat.lt_of_lt_of_le ‹_› he)
    · exact he
  have upper : ∀ e : SubreleaseStatsEntry, e.Ordered →
      (if e.atMaxDemand.numPages < s.numPages then { e with atMaxDemand := s } else e).Ordered := by
    intro e he
    split
    · exact Nat.le_of_lt (Nat.lt_of_le_of_lt he ‹_›)
    · exact he
  exact upper _ (lower _ (first e h))

end SubreleaseStatsEntry

/-- The largest `f` of the non-empty entries among the visits of a walk: the callbacks of
`CalculateDemandPeak` and `CalculateCombinedDemandTrend`, which differ in `f` only. -/
def maxOverNonEmpty (f : SubreleaseStatsEntry → Nat) (visits : List (Nat × Nat × SubreleaseStatsEntry)) : Nat :=
  visits.foldl (fun m v => if !v.2.2.empty ∧ m < f v.2.2 then f v.2.2 else m) 0

theorem maxOverNonEmpty_eq (f : SubreleaseStatsEntry → Nat) (visits : List (Nat × Nat × SubreleaseStatsEntry)) :
    maxOverNonEmpty f visits = ((visits.filter fun v => !v.2.2.empty).map fun v => f v.2.2).foldl max 0 := by
  unfold maxOverNonEmpty
  generalize 0 = m
  induction visits generalizing m with
  | nil => rfl
  | cons v vs ih =>
      rw [List.foldl_cons, ih, List.filter_cons]
      by_cases hv : v.2.2.empty
      · simp [hv]
      · simp only [hv, Bool.not_false, true_and, if_true, List.map_cons, List.foldl_cons]
        congr 1
        split <;> omega

/-- The constants of a `SubreleaseStatsTracker`: its tracker's parameters, with
`epoch_length_ = window_ / kSlots`, and `window_`, `summary_interval_` and
`demand_cap_interval_` in the ticks of `absl::Duration`. -/
structure StatsConfig where
  P : TimeSeriesParams
  window : Nat
  summaryInterval : Nat
  demandCapInterval : Nat
  epochLength_eq : P.epochLength = window / P.kSlots

/-- `summary_epochs_`. -/
def StatsConfig.summaryEpochs (cfg : StatsConfig) : Nat := cfg.summaryInterval / cfg.P.epochLength

/-- The state of a `SubreleaseStatsTracker`: `tracker_` and `skipped_subrelease_correctness_`. -/
structure SubreleaseStatsTracker where
  tracker : TimeSeriesTracker SubreleaseStatsEntry
  skippedSubreleaseCorrectness : SkippedSubreleaseCorrectnessTracker

namespace SubreleaseStatsTracker

variable (cfg : StatsConfig)

/-- The constructor at the clock reading `now`. -/
def init (now : Nat) : SubreleaseStatsTracker :=
  ⟨TimeSeriesTracker.init cfg.P SubreleaseStatsEntry.nil now, SkippedSubreleaseCorrectnessTracker.init cfg.P now⟩

/-- `Report(stats)` at the clock reading `now`: when the clock advanced and decisions are
pending, the peak of the report and of the most recent record within the summary
interval is confirmed. -/
def report (now : Nat) (stats : SubreleaseStats) (t : SubreleaseStatsTracker) : SubreleaseStatsTracker :=
  let r := TimeSeriesTracker.report cfg.P SubreleaseStatsEntry.ops now stats t.tracker
  let t := { t with tracker := r.2 }
  if r.1 ∧ 0 < t.skippedSubreleaseCorrectness.pendingSkipped.count then
    let recent := getMostRecentRecord cfg.P t.tracker
    let peak :=
      if recent.1 ≤ cfg.summaryEpochs then max stats.numPages recent.2.atMaxDemand.numPages
      else stats.numPages
    { t with
      skippedSubreleaseCorrectness :=
        SkippedSubreleaseCorrectnessTracker.reportUpdatedPeak cfg.P cfg.summaryInterval now peak
          t.skippedSubreleaseCorrectness }
  else t

/-- `CalculateDemandPeak(peak_interval)`. -/
def calculateDemandPeak (t : SubreleaseStatsTracker) (peakInterval : Nat) : Nat :=
  maxOverNonEmpty (fun e => e.atMaxDemand.numPages) (iterBackwards cfg.P t.tracker (.finite peakInterval))

/-- `CalculateCombinedDemandTrend(short_interval, long_interval)`: the short interval is
first capped at the long one when both are set, and each is clamped to `[0, window_]`. -/
def calculateCombinedDemandTrend (t : SubreleaseStatsTracker) (shortInterval longInterval : Nat) : Nat :=
  let shortInterval :=
    if shortInterval ≠ 0 ∧ longInterval ≠ 0 then min shortInterval longInterval else shortInterval
  let shortTermFluctuationPages :=
    maxOverNonEmpty (fun e => e.atMaxDemand.numPages - e.atMinDemand.numPages)
      (iterBackwards cfg.P t.tracker (.finite (min shortInterval cfg.window)))
  let longTermTrendPages :=
    maxOverNonEmpty (fun e => e.atMinDemand.numPages)
      (iterBackwards cfg.P t.tracker (.finite (min longInterval cfg.window)))
  shortTermFluctuationPages + longTermTrendPages

/-- `GetRecentPeak(peak_interval)`. -/
def getRecentPeak (t : SubreleaseStatsTracker) (peakInterval : Nat) : Nat :=
  calculateDemandPeak cfg t (min peakInterval cfg.window)

/-- `GetRecentDemand(short_interval, long_interval)`: the trend, capped by the peak over
`demand_cap_interval_`. -/
def getRecentDemand (t : SubreleaseStatsTracker) (shortInterval longInterval : Nat) : Nat :=
  min (calculateDemandPeak cfg t cfg.demandCapInterval) (calculateCombinedDemandTrend cfg t shortInterval longInterval)

/-- `ReportSkippedSubreleasePages(pages, peak_pages)` at the clock reading `now`. -/
def reportSkippedSubreleasePages (now pages peakPages : Nat) (t : SubreleaseStatsTracker) : SubreleaseStatsTracker :=
  if pages = 0 then t
  else
    { t with
      skippedSubreleaseCorrectness :=
        SkippedSubreleaseCorrectnessTracker.reportSkippedSubreleasePages cfg.P now pages peakPages
          t.skippedSubreleaseCorrectness }

@[simp] theorem reportSkippedSubreleasePages_totalSkipped_pages (now pages peakPages : Nat) (t : SubreleaseStatsTracker) :
    (reportSkippedSubreleasePages cfg now pages peakPages t).skippedSubreleaseCorrectness.totalSkipped.pages =
      t.skippedSubreleaseCorrectness.totalSkipped.pages + pages := by
  unfold SubreleaseStatsTracker.reportSkippedSubreleasePages
  split
  · simp [*]
  · simp [SkippedSubreleaseCorrectnessTracker.reportSkippedSubreleasePages]

/-- Every entry of the tracker keeps its minimum demand at most its maximum. -/
def Ordered (t : SubreleaseStatsTracker) : Prop := AllPayloads SubreleaseStatsEntry.Ordered t.tracker

theorem ordered_init (now : Nat) : (init cfg now).Ordered := allPayloads_init SubreleaseStatsEntry.ordered_nil

theorem Ordered.report {t : SubreleaseStatsTracker} (h : t.Ordered) (now : Nat) (stats : SubreleaseStats) :
    (report cfg now stats t).Ordered := by
  have htracker : AllPayloads SubreleaseStatsEntry.Ordered
      (TimeSeriesTracker.report cfg.P SubreleaseStatsEntry.ops now stats t.tracker).2 :=
    (AllPayloads.updateClock h SubreleaseStatsEntry.ordered_nil).reportCurrent
      (fun e s he => he.report s) stats
  simp only [SubreleaseStatsTracker.report]
  split <;> exact htracker

end SubreleaseStatsTracker

end TCMalloc.HugePageSubrelease
