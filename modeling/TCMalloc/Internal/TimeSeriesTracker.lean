import Mathlib.Data.Nat.Size
import Mathlib.Data.List.Nodup
import TCMalloc.Lib.MulShift
import TCMalloc.Lib.Window
import TCMalloc.Lib.Run
import TCMalloc.Lib.Binary64

/-!
`TimeSeriesTracker` (`internal/timeseries_tracker.h`): a ring of `kSlots`
entries, each aggregating the values reported during one epoch, that advances
one slot whenever the clock has moved into a later epoch and records in the new
slot how many epochs passed.  The epoch of a clock reading is computed by
multiplying with `epoch_ticks_m_` and shifting by `div_precision_`; for a
divisor `d` that is not a power of two this is `now / d` on every reading below
`2 ^ 63`, and for a power of two the multiplier wraps to 1 and the epoch never
leaves 0.  Read newest first from `current_slot_`, the ring is a list that
`UpdateClock` pushes onto and drops the oldest entry from, with positive epoch
counts followed by the zeros of slots never written; `IterBackwards` takes the
shortest prefix of that list covering the epochs it is asked for, and `Iter`
the list's non-empty entries oldest first.
-/

set_option autoImplicit false
set_option relaxedAutoImplicit false

namespace TCMalloc.Internal

open TCMalloc.Lib

/-! ### The epoch clock -/

/-- `absl::bit_width`. -/
def bitWidth (x : Nat) : Nat := x.size

/-- `div_precision_`, for `d` the epoch length in clock ticks as the constructor
casts it to `uint64_t`. -/
def divPrecision (d : Nat) : Nat := 63 + bitWidth d

/-- `epoch_ticks_m_`: `(uint64_t)((uint128(1) << div_precision_) / d) + 1`, with the
wraps of the two casts. -/
def epochTicksM (d : Nat) : Nat := ((2 ^ divPrecision d % 2 ^ 128 / d) % 2 ^ 64 + 1) % 2 ^ 64

/-- `GetCurrentEpoch` at the clock reading `now`: the `uint128` product shifted by
`div_precision_`, as the `size_t` that `UpdateClock` keeps. -/
def getCurrentEpoch (d now : Nat) : Nat :=
  ((epochTicksM d * now % 2 ^ 128) >>> divPrecision d) % 2 ^ 64

section Clock

variable {d now : Nat}

theorem bitWidth_pos (hd : 0 < d) : 0 < bitWidth d := Nat.size_pos.mpr hd

theorem pow_bitWidth_pred_le (hd : 0 < d) : 2 ^ (bitWidth d - 1) ≤ d := by
  have hpos := bitWidth_pos hd
  exact Nat.lt_size.mp (by unfold bitWidth at hpos ⊢; omega)

theorem lt_pow_bitWidth (d : Nat) : d < 2 ^ bitWidth d := Nat.lt_size_self d

theorem bitWidth_le_64 (hd64 : d < 2 ^ 64) : bitWidth d ≤ 64 := Nat.size_le.mpr hd64

theorem bitWidth_pow (k : Nat) : bitWidth (2 ^ k) = k + 1 := Nat.size_pow

theorem epochTicksM_pow {k : Nat} (hk : k < 64) : epochTicksM (2 ^ k) = 1 := by
  have hp : divPrecision (2 ^ k) = 64 + k := by
    rw [divPrecision, bitWidth_pow]
    omega
  have hlt : 2 ^ (64 + k) < 2 ^ 128 := Nat.pow_lt_pow_right (by decide) (by omega)
  rw [epochTicksM, hp, Nat.mod_eq_of_lt hlt, pow_add_div_pow, Nat.mod_self, Nat.zero_add,
    Nat.mod_eq_of_lt (by decide)]

theorem getCurrentEpoch_pow {k : Nat} (hk : k < 64) (hnow : now < 2 ^ 63) :
    getCurrentEpoch (2 ^ k) now = 0 := by
  have hp : divPrecision (2 ^ k) = 64 + k := by
    rw [divPrecision, bitWidth_pow]
    omega
  have hsmall : now < 2 ^ (64 + k) :=
    Nat.lt_of_lt_of_le hnow (Nat.pow_le_pow_right (by decide) (by omega))
  have h128 : now < 2 ^ 128 := by omega
  rw [getCurrentEpoch, epochTicksM_pow hk, Nat.one_mul, Nat.mod_eq_of_lt h128, hp,
    Nat.shiftRight_eq_div_pow, Nat.div_eq_of_lt hsmall, Nat.zero_mod]

section NotPow

variable (hd : 0 < d) (hd64 : d < 2 ^ 64) (hnp : 2 ^ (bitWidth d - 1) < d)
include hd hd64 hnp

theorem epochTicksM_eq : epochTicksM d = 2 ^ divPrecision d / d + 1 := by
  have hb := bitWidth_pos hd
  have hb64 := bitWidth_le_64 hd64
  have hp : divPrecision d = 64 + (bitWidth d - 1) := by
    rw [divPrecision]
    omega
  have hfit : 2 ^ (64 + (bitWidth d - 1)) / d + 1 < 2 ^ 64 :=
    pow_add_div_add_one_lt hnp (by omega) (by decide)
  have hlt : 2 ^ (64 + (bitWidth d - 1)) < 2 ^ 128 := Nat.pow_lt_pow_right (by decide) (by omega)
  have hq : 2 ^ (64 + (bitWidth d - 1)) / d < 2 ^ 64 := by omega
  rw [epochTicksM, hp, Nat.mod_eq_of_lt hlt, Nat.mod_eq_of_lt hq, Nat.mod_eq_of_lt hfit]

theorem getCurrentEpoch_eq_div (hnow : now < 2 ^ 63) : getCurrentEpoch d now = now / d := by
  have hm := epochTicksM_eq hd hd64 hnp
  have hb64 := bitWidth_le_64 hd64
  have hfit : now * d < 2 ^ divPrecision d := by
    calc now * d < 2 ^ 63 * 2 ^ bitWidth d :=
          Nat.mul_lt_mul'' hnow (lt_pow_bitWidth d)
      _ = 2 ^ divPrecision d := by rw [divPrecision, Nat.pow_add]
  have hmlt : epochTicksM d < 2 ^ 64 := by
    unfold epochTicksM
    exact Nat.mod_lt _ (by decide)
  have hprod : epochTicksM d * now < 2 ^ 128 := by
    calc epochTicksM d * now < 2 ^ 64 * 2 ^ 63 := Nat.mul_lt_mul'' hmlt hnow
      _ ≤ 2 ^ 128 := by decide
  have hq : now / d < 2 ^ 64 := by
    have : now / d ≤ now := Nat.div_le_self now d
    omega
  rw [getCurrentEpoch, Nat.mod_eq_of_lt hprod, Nat.shiftRight_eq_div_pow, hm, Nat.mul_comm,
    mul_div_add_one_div hd hfit, Nat.mod_eq_of_lt hq]

end NotPow

theorem getCurrentEpoch_eq (hd : 0 < d) (hd64 : d < 2 ^ 64) (hnow : now < 2 ^ 63) :
    getCurrentEpoch d now = if 2 ^ (bitWidth d - 1) = d then 0 else now / d := by
  split
  · rename_i hpow
    rw [← hpow]
    have hb64 := bitWidth_le_64 hd64
    have hb := bitWidth_pos hd
    exact getCurrentEpoch_pow (by omega) hnow
  · rename_i hpow
    exact getCurrentEpoch_eq_div hd hd64 (Nat.lt_of_le_of_ne (pow_bitWidth_pred_le hd) hpow) hnow

theorem getCurrentEpoch_mono (hd : 0 < d) (hd64 : d < 2 ^ 64) {now' : Nat} (hle : now ≤ now')
    (hnow' : now' < 2 ^ 63) : getCurrentEpoch d now ≤ getCurrentEpoch d now' := by
  rw [getCurrentEpoch_eq hd hd64 (by omega), getCurrentEpoch_eq hd hd64 hnow']
  split
  · exact le_rfl
  · exact Nat.div_le_div_right hle

/-- With the fuzzer's clock (`freq() = 1 << 10`) and the filler stats tracker's one
second epochs, `d = 1024`: every reading stays in epoch 0, so one epoch's worth of
ticks does not advance the tracker. -/
theorem getCurrentEpoch_stalls_at_1024_ticks :
    (∀ now, now < 2 ^ 63 → getCurrentEpoch 1024 now = 0) ∧ getCurrentEpoch 1024 1024 ≠ 1024 / 1024 :=
  ⟨fun _ hnow => getCurrentEpoch_pow (k := 10) (by decide) hnow, by decide⟩

end Clock

/-! ### The ring of entries -/

/-- The constants a tracker is built with: `kSlots`, `epoch_length_` in the ticks of
`absl::Duration`, `d`, the epoch length in clock ticks (`epoch_length_` in seconds
times the clock's frequency, as the constructor casts it to `uint64_t`; it divides),
and `ceil(absl::FDivDuration(interval, epoch_length_))` for a finite interval of
`ticks`, a double quotient that is positive for a positive interval. -/
structure TimeSeriesParams where
  kSlots : Nat
  epochLength : Nat
  d : Nat
  ceilFDiv : Nat → Nat
  kSlots_pos : 0 < kSlots
  epochLength_pos : 0 < epochLength
  d_pos : 0 < d
  d_lt : d < 2 ^ 64
  ceilFDiv_pos : ∀ ticks, 0 < ticks → 0 < ceilFDiv ticks

/-- `ceil(absl::FDivDuration(interval, epoch_length_))` with both durations' ticks rounded
to doubles and divided in binary64. -/
def fdivCeil (epochLength ticks : Nat) : Nat := Lib.Binary64.ceilQuot ticks epochLength

theorem fdivCeil_pos {epochLength : Nat} (hel : 0 < epochLength) :
    ∀ ticks, 0 < ticks → 0 < fdivCeil epochLength ticks :=
  fun _ hticks => Lib.Binary64.ceilQuot_pos hticks hel

theorem fdivCeil_one_pos : ∀ ticks, 0 < ticks → 0 < fdivCeil 1 ticks := fdivCeil_pos Nat.one_pos

/-- What the tracker asks of its entry type `T` for reports of type `S`: `T::Nil()` and
`T::Report(S)`. -/
structure EntryOps (T S : Type) where
  nil : T
  report : T → S → T

/-- `TimeSeriesContent`: the epochs passed since the previous slot was started, and
the aggregate of the values reported in this slot. -/
structure TimeSeriesContent (T : Type) where
  epochDelta : Nat
  payload : T

/-- The state of a tracker: `entries_` (slots `[0, kSlots)`), `last_epoch_`,
`current_slot_` and `covered_epochs_`. -/
structure TimeSeriesTracker (T : Type) where
  entries : Nat → TimeSeriesContent T
  lastEpoch : Nat
  currentSlot : Nat
  coveredEpochs : Nat

/-- An `absl::Duration` handed to `IterBackwards`, in the ticks `epoch_length_` is
counted in; `infinite` is `absl::InfiniteDuration()`. -/
inductive Interval
  | finite (ticks : Nat)
  | infinite
  deriving DecidableEq, Repr

namespace TimeSeriesTracker

variable {T S : Type} (P : TimeSeriesParams)

/-- The constructor at the clock reading `now`: every slot default-constructed
(`epoch_delta` 0 and `T::Nil()`), then `InitTracker`'s record of one epoch in slot 0. -/
def init (nil : T) (now : Nat) : TimeSeriesTracker T where
  entries := Function.update (fun _ => ⟨0, nil⟩) 0 ⟨1, nil⟩
  lastEpoch := getCurrentEpoch P.d now
  currentSlot := 0
  coveredEpochs := 1

/-- The slot after `current_slot_`, wrapping at `kSlots`. -/
def nextSlot (kSlots cur : Nat) : Nat := if cur + 1 = kSlots then 0 else cur + 1

/-- `UpdateClock` at the clock reading `now`: when the epoch moved, the next slot is
started with the epochs passed, after its old count is taken off `covered_epochs_`. -/
def updateClock (nil : T) (now : Nat) (s : TimeSeriesTracker T) : Bool × TimeSeriesTracker T :=
  let epoch := getCurrentEpoch P.d now
  let delta := epoch - s.lastEpoch
  if delta = 0 then (false, s)
  else
    let slot := nextSlot P.kSlots s.currentSlot
    (true,
      { entries := Function.update s.entries slot ⟨delta, nil⟩
        lastEpoch := epoch
        currentSlot := slot
        coveredEpochs := s.coveredEpochs - (s.entries slot).epochDelta + delta })

/-- `entries_[current_slot_].payload.Report(val)`. -/
def reportCurrent (report : T → S → T) (val : S) (s : TimeSeriesTracker T) : TimeSeriesTracker T :=
  { s with
    entries := Function.update s.entries s.currentSlot
      ⟨(s.entries s.currentSlot).epochDelta, report (s.entries s.currentSlot).payload val⟩ }

/-- `Report(val)` at the clock reading `now`: whether the clock advanced, and the state. -/
def report (ops : EntryOps T S) (now : Nat) (val : S) (s : TimeSeriesTracker T) :
    Bool × TimeSeriesTracker T :=
  let r := updateClock P ops.nil now s
  (r.1, reportCurrent ops.report val r.2)

/-- `UpdateTimeBase()` at the clock reading `now`. -/
def updateTimeBase (nil : T) (now : Nat) (s : TimeSeriesTracker T) : TimeSeriesTracker T :=
  (updateClock P nil now s).2

/-- `epochs_to_traverse` for an interval that is not zero: the double ceiling, capped at
`covered_epochs_`. -/
def epochsToTraverse (s : TimeSeriesTracker T) : Interval → Nat
  | .finite ticks => min (P.ceilFDiv ticks) s.coveredEpochs
  | .infinite => s.coveredEpochs

/-- `IterBackwards`' loop from slot `j` with `sequence_num` and `epochs_traversed`: the
arguments of the callback's calls, in order. -/
def iterBackwardsLoop (kSlots : Nat) (entries : Nat → TimeSeriesContent T) (target : Nat) :
    Nat → Nat → Nat → Nat → List (Nat × Nat × T)
  | 0, _, _, _ => []
  | fuel + 1, sequenceNum, j, epochsTraversed =>
      (sequenceNum, (entries j).epochDelta, (entries j).payload) ::
        if target ≤ epochsTraversed + (entries j).epochDelta then []
        else
          iterBackwardsLoop kSlots entries target fuel (sequenceNum + 1)
            (if j = 0 then kSlots - 1 else j - 1) (epochsTraversed + (entries j).epochDelta)

/-- `IterBackwards(f, interval)`: the arguments `f` is called with. -/
def iterBackwards (s : TimeSeriesTracker T) (interval : Interval) : List (Nat × Nat × T) :=
  if interval = .finite 0 then []
  else
    let target := epochsToTraverse P s interval
    iterBackwardsLoop P.kSlots s.entries target (min P.kSlots target) 0 s.currentSlot 0

/-- `Iter`'s loop from slot `j` with `sequenc_num`: the arguments of the callback's calls,
skipping entries whose payload is `empty()`. -/
def iterLoop (kSlots : Nat) (empty : T → Bool) (entries : Nat → TimeSeriesContent T) :
    Nat → Nat → Nat → List (Nat × Nat × T)
  | 0, _, _ => []
  | fuel + 1, sequenceNum, j =>
      (if empty (entries j).payload then [] else [(sequenceNum, (entries j).epochDelta, (entries j).payload)]) ++
        iterLoop kSlots empty entries fuel (sequenceNum + 1) (if j + 1 = kSlots then 0 else j + 1)

/-- `Iter(f)`: the arguments `f` is called with. -/
def iter (empty : T → Bool) (s : TimeSeriesTracker T) : List (Nat × Nat × T) :=
  iterLoop P.kSlots empty s.entries P.kSlots 0 (nextSlot P.kSlots s.currentSlot)

/-- `GetMostRecentRecord()`: `epoch_taken` and the payload of the slot before the current one. -/
def getMostRecentRecord (s : TimeSeriesTracker T) : Nat × T :=
  ((s.entries s.currentSlot).epochDelta,
    (s.entries ((s.currentSlot + P.kSlots - 1) % P.kSlots)).payload)

/-! ### The entries newest first -/

/-- The slot `i` places before `cur`, going backwards around a ring of `kSlots`. -/
def slotBefore (kSlots cur i : Nat) : Nat := if i ≤ cur then cur - i else cur + kSlots - i

/-- The entries newest first: `current_slot_`, the slot before it, and on around the ring. -/
def newestFirst (s : TimeSeriesTracker T) : List (TimeSeriesContent T) :=
  (List.range P.kSlots).map fun i => s.entries (slotBefore P.kSlots s.currentSlot i)

/-- The epoch counts of a list of entries. -/
def deltas (l : List (TimeSeriesContent T)) : List Nat := l.map (·.epochDelta)

/-- The callback's arguments for the entries of `l`, numbered from `i`. -/
def visitsFrom (i : Nat) (l : List (TimeSeriesContent T)) : List (Nat × Nat × T) :=
  (l.zipIdx i).map fun p => (p.2, p.1.epochDelta, p.1.payload)

section Slots

variable {kSlots cur : Nat}

@[simp] theorem slotBefore_zero : slotBefore kSlots cur 0 = cur := by simp [slotBefore]

theorem slotBefore_lt (hcur : cur < kSlots) {i : Nat} (hi : i < kSlots) : slotBefore kSlots cur i < kSlots := by
  unfold slotBefore
  split <;> omega

theorem slotBefore_inj {i i' : Nat} (hi : i < kSlots) (hi' : i' < kSlots)
    (h : slotBefore kSlots cur i = slotBefore kSlots cur i') : i = i' := by
  unfold slotBefore at h
  split at h <;> split at h <;> omega

theorem slotBefore_last (hcur : cur < kSlots) : slotBefore kSlots cur (kSlots - 1) = nextSlot kSlots cur := by
  unfold slotBefore nextSlot
  split <;> split <;> omega

theorem slotBefore_nextSlot_succ {i : Nat} (hi : i < kSlots) :
    slotBefore kSlots (nextSlot kSlots cur) (i + 1) = slotBefore kSlots cur i := by
  unfold slotBefore nextSlot
  split <;> split <;> split <;> omega

theorem slotBefore_succ (hcur : cur < kSlots) {i : Nat} (hi : i < kSlots) :
    (if slotBefore kSlots cur i = 0 then kSlots - 1 else slotBefore kSlots cur i - 1) =
      slotBefore kSlots cur (i + 1) := by
  unfold slotBefore
  split <;> split <;> split <;> omega

theorem slotBefore_pred (hcur : cur < kSlots) {m : Nat} (hm : 0 < m) (hmk : m < kSlots) :
    (if slotBefore kSlots cur m + 1 = kSlots then 0 else slotBefore kSlots cur m + 1) =
      slotBefore kSlots cur (m - 1) := by
  unfold slotBefore
  split <;> split <;> split <;> omega

theorem nextSlot_lt (hcur : cur < kSlots) : nextSlot kSlots cur < kSlots := by
  unfold nextSlot
  split <;> omega

theorem map_slotBefore_perm (hcur : cur < kSlots) :
    ((List.range kSlots).map (slotBefore kSlots cur)).Perm (List.range kSlots) := by
  apply (List.perm_ext_iff_of_nodup _ List.nodup_range).mpr
  · intro j
    simp only [List.mem_map, List.mem_range]
    constructor
    · rintro ⟨i, hi, rfl⟩
      exact slotBefore_lt hcur hi
    · intro hj
      refine ⟨if j ≤ cur then cur - j else cur + kSlots - j, by split <;> omega, ?_⟩
      unfold slotBefore
      split <;> split <;> omega
  · exact List.Nodup.map_on (fun i hi i' hi' h =>
      slotBefore_inj (List.mem_range.mp hi) (List.mem_range.mp hi') h) List.nodup_range

end Slots

variable {P}

@[simp] theorem length_newestFirst (s : TimeSeriesTracker T) : (newestFirst P s).length = P.kSlots := by
  simp [newestFirst]

theorem getElem_newestFirst (s : TimeSeriesTracker T) {i : Nat} (hi : i < (newestFirst P s).length) :
    (newestFirst P s)[i] = s.entries (slotBefore P.kSlots s.currentSlot i) := by
  simp [newestFirst]

@[simp] theorem length_deltas (l : List (TimeSeriesContent T)) : (deltas l).length = l.length := by
  simp [deltas]

theorem deltas_take (l : List (TimeSeriesContent T)) (n : Nat) : deltas (l.take n) = (deltas l).take n := by
  simp [deltas, List.map_take]

theorem deltas_cons (c : TimeSeriesContent T) (l : List (TimeSeriesContent T)) :
    deltas (c :: l) = c.epochDelta :: deltas l := rfl

theorem visitsFrom_cons (i : Nat) (c : TimeSeriesContent T) (l : List (TimeSeriesContent T)) :
    visitsFrom i (c :: l) = (i, c.epochDelta, c.payload) :: visitsFrom (i + 1) l := by
  simp [visitsFrom, List.zipIdx_cons]

@[simp] theorem visitsFrom_nil (i : Nat) : visitsFrom i ([] : List (TimeSeriesContent T)) = [] := rfl

theorem newestFirst_advance (s : TimeSeriesTracker T) (hcur : s.currentSlot < P.kSlots) (c : TimeSeriesContent T)
    (e : Nat) (covered : Nat) :
    newestFirst P ⟨Function.update s.entries (nextSlot P.kSlots s.currentSlot) c, e,
        nextSlot P.kSlots s.currentSlot, covered⟩ = c :: (newestFirst P s).take (P.kSlots - 1) := by
  apply List.ext_getElem
  · simp only [length_newestFirst, List.length_cons, List.length_take]
    omega
  · intro i h₁ h₂
    cases i with
    | zero => simp [newestFirst]
    | succ i =>
        have hi : i < P.kSlots - 1 := by simp only [length_newestFirst] at h₁; omega
        have hne : slotBefore P.kSlots s.currentSlot i ≠ nextSlot P.kSlots s.currentSlot := by
          rw [← slotBefore_last hcur]
          intro h
          have := slotBefore_inj (by omega) (by omega) h
          omega
        simp only [newestFirst, List.getElem_map, List.getElem_range, List.getElem_cons_succ,
          List.getElem_take]
        rw [slotBefore_nextSlot_succ (by omega), Function.update_of_ne hne]

theorem newestFirst_eq_take_append (s : TimeSeriesTracker T) (hcur : s.currentSlot < P.kSlots) :
    newestFirst P s = (newestFirst P s).take (P.kSlots - 1) ++ [s.entries (nextSlot P.kSlots s.currentSlot)] := by
  have hk := P.kSlots_pos
  conv_lhs => rw [← List.take_append_drop (P.kSlots - 1) (newestFirst P s)]
  congr 1
  apply List.ext_getElem
  · simp only [List.length_drop, length_newestFirst, List.length_singleton]
    omega
  · intro i h₁ h₂
    have hi : i = 0 := by simp at h₂; omega
    subst hi
    simp only [List.getElem_drop, Nat.add_zero, getElem_newestFirst, List.getElem_singleton]
    rw [slotBefore_last hcur]

theorem newestFirst_update_current (s : TimeSeriesTracker T) (c : TimeSeriesContent T) :
    newestFirst P { s with entries := Function.update s.entries s.currentSlot c } = c :: (newestFirst P s).tail := by
  apply List.ext_getElem
  · simp only [length_newestFirst, List.length_cons, List.length_tail]
    have := P.kSlots_pos
    omega
  · intro i h₁ h₂
    cases i with
    | zero => simp [newestFirst]
    | succ i =>
        have hi : i + 1 < P.kSlots := by simpa using h₁
        have hne : slotBefore P.kSlots s.currentSlot (i + 1) ≠ s.currentSlot := by
          intro h
          rw [← @slotBefore_zero P.kSlots s.currentSlot] at h
          exact absurd (slotBefore_inj hi (by omega) h) (by omega)
        simp only [newestFirst, List.getElem_map, List.getElem_range, List.getElem_cons_succ,
          List.getElem_tail]
        rw [Function.update_of_ne hne]

/-! ### The shape of the ring -/

section Shape

variable {nil : T} {now : Nat} {s : TimeSeriesTracker T}

theorem updateClock_of_eq (h : getCurrentEpoch P.d now = s.lastEpoch) :
    updateClock P nil now s = (false, s) := by
  simp [updateClock, h]

theorem updateClock_of_lt (h : s.lastEpoch < getCurrentEpoch P.d now) :
    updateClock P nil now s =
      (true,
        ⟨Function.update s.entries (nextSlot P.kSlots s.currentSlot) ⟨getCurrentEpoch P.d now - s.lastEpoch, nil⟩,
          getCurrentEpoch P.d now, nextSlot P.kSlots s.currentSlot,
          s.coveredEpochs - (s.entries (nextSlot P.kSlots s.currentSlot)).epochDelta +
            (getCurrentEpoch P.d now - s.lastEpoch)⟩) := by
  have hne : getCurrentEpoch P.d now - s.lastEpoch ≠ 0 := by omega
  simp only [updateClock, hne, if_false]

/-- The shape every tracker keeps: the current slot in range, `covered_epochs_` the sum
of the epoch counts, and those counts, newest first, positive up to the slots never
written, whose counts are 0. -/
structure Wf (P : TimeSeriesParams) (s : TimeSeriesTracker T) : Prop where
  currentSlot_lt : s.currentSlot < P.kSlots
  covered_eq : s.coveredEpochs = (deltas (newestFirst P s)).sum
  settled : ∃ pos : List Nat, pos ≠ [] ∧ (∀ d ∈ pos, 0 < d) ∧
    deltas (newestFirst P s) = pos ++ List.replicate (P.kSlots - pos.length) 0

theorem deltas_newestFirst_init : deltas (newestFirst P (init P nil now)) = 1 :: List.replicate (P.kSlots - 1) 0 := by
  apply List.ext_getElem
  · simp only [length_deltas, length_newestFirst, List.length_cons, List.length_replicate]
    have := P.kSlots_pos
    omega
  · intro i h₁ h₂
    simp only [length_deltas, length_newestFirst] at h₁
    cases i with
    | zero => simp [deltas, newestFirst, init]
    | succ i =>
        have hslot : slotBefore P.kSlots 0 (i + 1) ≠ 0 := by unfold slotBefore; split <;> omega
        simp [deltas, newestFirst, init, Function.update_of_ne hslot]

theorem wf_init : Wf P (init P nil now) where
  currentSlot_lt := P.kSlots_pos
  covered_eq := by
    rw [deltas_newestFirst_init]
    simp [init]
  settled := ⟨[1], by simp, by simp, by simp [deltas_newestFirst_init]⟩

theorem settled_push {k : Nat} {pos : List Nat} (hpos : ∀ d ∈ pos, 0 < d)
    (hlen : pos.length ≤ k) {delta : Nat} (hdelta : 0 < delta) :
    ∃ pos' : List Nat, pos' ≠ [] ∧ (∀ d ∈ pos', 0 < d) ∧
      delta :: (pos ++ List.replicate (k - pos.length) 0).take (k - 1) =
        pos' ++ List.replicate (k - pos'.length) 0 := by
  refine ⟨delta :: pos.take (k - 1), List.cons_ne_nil _ _, ?_, ?_⟩
  · intro d hd
    rcases List.mem_cons.mp hd with rfl | hd
    · exact hdelta
    · exact hpos d (List.mem_of_mem_take hd)
  · rw [List.take_append, List.take_replicate, List.cons_append, List.length_cons, List.length_take]
    congr 3
    omega

theorem Wf.updateClock (hwf : Wf P s) : Wf P (updateClock P nil now s).2 := by
  rcases Nat.lt_or_ge s.lastEpoch (getCurrentEpoch P.d now) with hlt | hge
  · obtain ⟨pos, -, hpos, hsettled⟩ := hwf.settled
    have hlen : pos.length ≤ P.kSlots := by
      have := congrArg List.length hsettled
      simp only [length_deltas, length_newestFirst, List.length_append, List.length_replicate] at this
      omega
    have hsplit := newestFirst_eq_take_append s hwf.currentSlot_lt
    have hsum : (deltas (newestFirst P s)).sum =
        (deltas ((newestFirst P s).take (P.kSlots - 1))).sum +
          (s.entries (nextSlot P.kSlots s.currentSlot)).epochDelta := by
      conv_lhs => rw [hsplit]
      simp [deltas]
    rw [updateClock_of_lt hlt]
    refine ⟨nextSlot_lt hwf.currentSlot_lt, ?_, ?_⟩
    · simp only [newestFirst_advance s hwf.currentSlot_lt, deltas_cons, List.sum_cons]
      rw [hwf.covered_eq]
      omega
    · simp only [newestFirst_advance s hwf.currentSlot_lt, deltas_cons, deltas_take, hsettled]
      exact settled_push hpos hlen (by omega)
  · have heq : getCurrentEpoch P.d now = s.lastEpoch ∨ getCurrentEpoch P.d now < s.lastEpoch := by omega
    rcases heq with heq | hlt
    · rw [updateClock_of_eq heq]
      exact hwf
    · -- a clock running backwards makes the `size_t` difference wrap; the model's `Nat`
      -- difference is 0 and leaves the state alone
      have hzero : getCurrentEpoch P.d now - s.lastEpoch = 0 := by omega
      simp only [TimeSeriesTracker.updateClock, hzero, if_true]
      exact hwf

theorem deltas_newestFirst_reportCurrent (report : T → S → T) (val : S) (s : TimeSeriesTracker T) :
    deltas (newestFirst P (reportCurrent report val s)) = deltas (newestFirst P s) := by
  have hlen : 0 < (newestFirst P s).length := by simpa using P.kSlots_pos
  obtain ⟨x, xs, hxs⟩ := List.exists_cons_of_length_pos hlen
  have hx : x = s.entries s.currentSlot := by
    have h0 := getElem_newestFirst s hlen
    simp only [hxs, List.getElem_cons_zero, slotBefore_zero] at h0
    exact h0
  rw [reportCurrent, newestFirst_update_current, hxs, hx]
  rfl

theorem Wf.reportCurrent (hwf : Wf P s) (report : T → S → T) (val : S) :
    Wf P (reportCurrent report val s) where
  currentSlot_lt := hwf.currentSlot_lt
  covered_eq := by rw [deltas_newestFirst_reportCurrent]; exact hwf.covered_eq
  settled := by rw [deltas_newestFirst_reportCurrent]; exact hwf.settled

theorem Wf.one_le_covered (hwf : Wf P s) : 1 ≤ s.coveredEpochs := by
  obtain ⟨pos, hne, hpos, hsettled⟩ := hwf.settled
  obtain ⟨d, ds, rfl⟩ := List.exists_cons_of_ne_nil hne
  have hd := hpos d List.mem_cons_self
  rw [hwf.covered_eq, hsettled]
  simp only [List.cons_append, List.sum_cons, List.sum_append]
  omega

theorem Wf.covered_eq_sum_entries (hwf : Wf P s) :
    s.coveredEpochs = ((List.range P.kSlots).map fun j => (s.entries j).epochDelta).sum := by
  have hperm := (@map_slotBefore_perm P.kSlots s.currentSlot hwf.currentSlot_lt).map
    (fun j => (s.entries j).epochDelta)
  rw [hwf.covered_eq, ← hperm.sum_eq]
  simp [deltas, newestFirst, List.map_map, Function.comp_def]

end Shape

/-! ### The walks -/

section Walks

variable {s : TimeSeriesTracker T}

theorem iterBackwardsLoop_eq (hcur : s.currentSlot < P.kSlots) (target : Nat) :
    ∀ fuel i epochsTraversed, fuel + i ≤ P.kSlots →
      iterBackwardsLoop P.kSlots s.entries target fuel i (slotBefore P.kSlots s.currentSlot i) epochsTraversed =
        visitsFrom i (((newestFirst P s).drop i).take
          (min fuel (reachCount target epochsTraversed (deltas ((newestFirst P s).drop i))))) := by
  intro fuel
  induction fuel with
  | zero => intro i _ _; simp [iterBackwardsLoop]
  | succ f ih =>
      intro i epochsTraversed hfuel
      have hi : i < (newestFirst P s).length := by simp only [length_newestFirst]; omega
      rw [List.drop_eq_getElem_cons hi, deltas_cons, reachCount_cons, getElem_newestFirst]
      simp only [iterBackwardsLoop]
      split
      · simp [visitsFrom_cons]
      · rw [slotBefore_succ hcur (by omega), ih (i + 1) _ (by omega), Nat.succ_min_succ,
          List.take_succ_cons, visitsFrom_cons]

theorem Wf.epochsToTraverse_bounds (hwf : Wf P s) {interval : Interval} (hne : interval ≠ .finite 0) :
    0 < epochsToTraverse P s interval ∧ epochsToTraverse P s interval ≤ s.coveredEpochs := by
  have hcov := hwf.one_le_covered
  cases interval with
  | finite ticks =>
      have hticks : 0 < ticks := Nat.pos_of_ne_zero (fun h => hne (by rw [h]))
      have hceil := P.ceilFDiv_pos ticks hticks
      simp only [epochsToTraverse]
      omega
  | infinite =>
      simp only [epochsToTraverse]
      omega

theorem Wf.iterBackwards_eq (hwf : Wf P s) {interval : Interval} (hne : interval ≠ .finite 0) :
    iterBackwards P s interval = visitsFrom 0 ((newestFirst P s).take
      (reachCount (epochsToTraverse P s interval) 0 (deltas (newestFirst P s)))) := by
  obtain ⟨hpos, hle⟩ := hwf.epochsToTraverse_bounds hne
  obtain ⟨pos, -, hposd, hsettled⟩ := hwf.settled
  have hreach : reachCount (epochsToTraverse P s interval) 0 (deltas (newestFirst P s)) ≤
      min pos.length (epochsToTraverse P s interval - 0) := by
    rw [hsettled]
    apply reachCount_append_zeros_le _ hposd hpos
    have hsum := hwf.covered_eq
    have hzeros : (List.replicate (P.kSlots - pos.length) 0).sum = 0 := by simp
    rw [hsettled, List.sum_append, hzeros] at hsum
    omega
  have hlen : pos.length ≤ P.kSlots := by
    have := congrArg List.length hsettled
    simp only [length_deltas, length_newestFirst, List.length_append, List.length_replicate] at this
    omega
  have hfuel : min (min P.kSlots (epochsToTraverse P s interval))
      (reachCount (epochsToTraverse P s interval) 0 (deltas (newestFirst P s))) =
      reachCount (epochsToTraverse P s interval) 0 (deltas (newestFirst P s)) := by
    omega
  rw [iterBackwards, if_neg hne, ← @slotBefore_zero P.kSlots s.currentSlot,
    iterBackwardsLoop_eq hwf.currentSlot_lt _ _ 0 0 (by omega), List.drop_zero, hfuel]

theorem iterLoop_eq (hcur : s.currentSlot < P.kSlots) (empty : T → Bool) :
    ∀ fuel i j, fuel + i ≤ P.kSlots → (0 < fuel → j = slotBefore P.kSlots s.currentSlot (P.kSlots - 1 - i)) →
      iterLoop P.kSlots empty s.entries fuel i j =
        (visitsFrom i (((newestFirst P s).reverse.drop i).take fuel)).filter fun v => !empty v.2.2 := by
  intro fuel
  induction fuel with
  | zero => intro i j _ _; simp [iterLoop]
  | succ f ih =>
      intro i j hfuel hj
      have hi : i < (newestFirst P s).reverse.length := by simp only [List.length_reverse, length_newestFirst]; omega
      rw [List.drop_eq_getElem_cons hi, List.take_succ_cons, visitsFrom_cons, List.filter_cons,
        List.getElem_reverse, getElem_newestFirst, length_newestFirst, ← hj (Nat.succ_pos f)]
      have hnext : 0 < f → (if j + 1 = P.kSlots then 0 else j + 1) =
          slotBefore P.kSlots s.currentSlot (P.kSlots - 1 - (i + 1)) := by
        intro hf
        rw [hj (Nat.succ_pos f), slotBefore_pred hcur (by omega) (by omega), Nat.sub_sub]
      simp only [iterLoop]
      rw [ih (i + 1) _ (by omega) hnext]
      cases empty (s.entries j).payload <;> simp

theorem Wf.iter_eq (hwf : Wf P s) (empty : T → Bool) :
    iter P empty s = (visitsFrom 0 (newestFirst P s).reverse).filter fun v => !empty v.2.2 := by
  have hlen : ((newestFirst P s).reverse.drop 0).length ≤ P.kSlots := by simp
  rw [iter, iterLoop_eq hwf.currentSlot_lt empty P.kSlots 0 _ (by omega)
    (fun _ => by rw [Nat.sub_zero, slotBefore_last hwf.currentSlot_lt]), List.take_of_length_le hlen,
    List.drop_zero]

theorem Wf.iterBackwards_shortest (hwf : Wf P s) {interval : Interval} (hne : interval ≠ .finite 0) :
    ∃ k ≤ P.kSlots, iterBackwards P s interval = visitsFrom 0 ((newestFirst P s).take k) ∧
      epochsToTraverse P s interval ≤ ((deltas (newestFirst P s)).take k).sum ∧
      ∀ k' < k, ((deltas (newestFirst P s)).take k').sum < epochsToTraverse P s interval := by
  obtain ⟨hpos, hle⟩ := hwf.epochsToTraverse_bounds hne
  refine ⟨reachCount (epochsToTraverse P s interval) 0 (deltas (newestFirst P s)), ?_,
    hwf.iterBackwards_eq hne, ?_, ?_⟩
  · simpa using reachCount_le_length (e := epochsToTraverse P s interval) 0 (deltas (newestFirst P s))
  · have hcovered : epochsToTraverse P s interval ≤ 0 + (deltas (newestFirst P s)).sum := by
      rw [← hwf.covered_eq]
      omega
    simpa using le_sum_take_reachCount hcovered
  · intro k' hk'
    simpa using sum_take_lt_of_lt_reachCount hpos hk'

end Walks

/-! ### What every entry keeps -/

section Payloads

variable (Q : T → Prop)

/-- Every entry's payload has `Q`. -/
def AllPayloads (s : TimeSeriesTracker T) : Prop := ∀ j, Q (s.entries j).payload

variable {Q} {nil : T} {now : Nat} {s : TimeSeriesTracker T}

theorem allPayloads_init (hnil : Q nil) : AllPayloads Q (init P nil now) := by
  intro j
  by_cases hj : j = 0
  · subst hj
    simpa [init] using hnil
  · simpa [init, Function.update_of_ne hj] using hnil

theorem AllPayloads.updateClock (hs : AllPayloads Q s) (hnil : Q nil) :
    AllPayloads Q (updateClock P nil now s).2 := by
  intro j
  simp only [TimeSeriesTracker.updateClock]
  split
  · exact hs j
  · by_cases hj : j = nextSlot P.kSlots s.currentSlot
    · subst hj
      simpa using hnil
    · simpa [Function.update_of_ne hj] using hs j

theorem AllPayloads.reportCurrent {report : T → S → T} (hs : AllPayloads Q s)
    (hrep : ∀ t v, Q t → Q (report t v)) (val : S) : AllPayloads Q (reportCurrent report val s) := by
  intro j
  by_cases hj : j = s.currentSlot
  · subst hj
    simpa [TimeSeriesTracker.reportCurrent] using hrep _ val (hs s.currentSlot)
  · simpa [TimeSeriesTracker.reportCurrent, Function.update_of_ne hj] using hs j

end Payloads

/-! ### Runs -/

/-- The calls a tracker receives, each at a clock reading. -/
inductive Call (S : Type)
  | report (now : Nat) (val : S)
  | updateTimeBase (now : Nat)

namespace Call

/-- The clock reading a call is made at. -/
def now : Call S → Nat
  | .report now _ => now
  | .updateTimeBase now => now

/-- The reading and value of a call that reports one. -/
def reported : Call S → List (Nat × S)
  | .report now val => [(now, val)]
  | .updateTimeBase _ => []

end Call

/-- A tracker and the clock's latest reading. -/
structure State (T : Type) where
  tracker : TimeSeriesTracker T
  now : Nat

/-- One call on the tracker, at the clock reading it carries. -/
def step (P : TimeSeriesParams) (ops : EntryOps T S) (st : State T) : Call S → Option (State T)
  | .report now val => some ⟨(report P ops now val st.tracker).2, now⟩
  | .updateTimeBase now => some ⟨updateTimeBase P ops.nil now st.tracker, now⟩

/-- The clock never runs backwards and stays below `2 ^ 63`, where the `int64_t` of
`clock_.now()` is non-negative. -/
def Allowed (st : State T) (c : Call S) : Prop := st.now ≤ c.now ∧ c.now < 2 ^ 63

/-- The values reported at readings in epoch `e`, in order. -/
def reportedIn (d e : Nat) (reported : List (Nat × S)) : List S :=
  (reported.filter fun r => getCurrentEpoch d r.1 = e).map Prod.snd

theorem reportedIn_append (d e : Nat) (x y : List (Nat × S)) :
    reportedIn d e (x ++ y) = reportedIn d e x ++ reportedIn d e y := by
  simp [reportedIn, List.filter_append]

theorem reportedIn_eq_nil {d e : Nat} {x : List (Nat × S)} (h : ∀ r ∈ x, getCurrentEpoch d r.1 < e) :
    reportedIn d e x = [] := by
  simp only [reportedIn, List.map_eq_nil_iff, List.filter_eq_nil_iff, decide_eq_true_eq]
  intro r hr heq
  have := h r hr
  omega

theorem foldl_append_reported (calls : List (Call S)) (x : List (Nat × S)) :
    calls.foldl (fun x c => x ++ c.reported) x = x ++ calls.flatMap Call.reported := by
  induction calls generalizing x with
  | nil => simp
  | cons c calls ih => rw [List.foldl_cons, ih, List.flatMap_cons, List.append_assoc]

@[simp] theorem reportCurrent_currentSlot (report : T → S → T) (val : S) (s : TimeSeriesTracker T) :
    (reportCurrent report val s).currentSlot = s.currentSlot := rfl

@[simp] theorem reportCurrent_lastEpoch (report : T → S → T) (val : S) (s : TimeSeriesTracker T) :
    (reportCurrent report val s).lastEpoch = s.lastEpoch := rfl

theorem reportCurrent_current (report : T → S → T) (val : S) (s : TimeSeriesTracker T) :
    ((reportCurrent report val s).entries (reportCurrent report val s).currentSlot).payload =
      report (s.entries s.currentSlot).payload val := by
  simp [reportCurrent]

/-- What a run keeps, given the readings and values reported so far: the ring's shape,
`last_epoch_` the epoch of the latest reading, every report at or before it, and the
current slot holding the aggregate of the values reported in that epoch. -/
structure Inv (P : TimeSeriesParams) (ops : EntryOps T S) (st : State T) (reported : List (Nat × S)) : Prop where
  wf : Wf P st.tracker
  lastEpoch_eq : st.tracker.lastEpoch = getCurrentEpoch P.d st.now
  now_lt : st.now < 2 ^ 63
  reported_le : ∀ r ∈ reported, r.1 ≤ st.now
  current : (st.tracker.entries st.tracker.currentSlot).payload =
    (reportedIn P.d st.tracker.lastEpoch reported).foldl ops.report ops.nil

section Inv

variable {ops : EntryOps T S}

theorem inv_init {now₀ : Nat} (hnow₀ : now₀ < 2 ^ 63) : Inv P ops ⟨init P ops.nil now₀, now₀⟩ [] where
  wf := wf_init
  lastEpoch_eq := rfl
  now_lt := hnow₀
  reported_le := by simp
  current := by simp [init, reportedIn]

theorem Inv.reportedIn_of_lt {st : State T} {x : List (Nat × S)} (inv : Inv P ops st x) {now' : Nat}
    (hlt : st.tracker.lastEpoch < getCurrentEpoch P.d now') :
    reportedIn P.d (getCurrentEpoch P.d now') x = [] := by
  apply reportedIn_eq_nil
  intro r hr
  have hmono := getCurrentEpoch_mono P.d_pos P.d_lt (inv.reported_le r hr) inv.now_lt
  have hlast := inv.lastEpoch_eq
  omega

theorem Inv.reported_append_le {st : State T} {x : List (Nat × S)} (inv : Inv P ops st x) {c : Call S}
    (hle : st.now ≤ c.now) : ∀ r ∈ x ++ c.reported, r.1 ≤ c.now := by
  intro r hr
  rcases List.mem_append.mp hr with hr | hr
  · exact Nat.le_trans (inv.reported_le r hr) hle
  · cases c with
    | report now val =>
        simp only [Call.reported, List.mem_singleton] at hr
        rw [hr]
        exact le_rfl
    | updateTimeBase now => simp [Call.reported] at hr

theorem Inv.step {st st' : State T} {c : Call S} {x : List (Nat × S)} (inv : Inv P ops st x)
    (hok : Allowed st c) (hstep : step P ops st c = some st') : Inv P ops st' (x ++ c.reported) := by
  obtain ⟨hle, hlt63⟩ := hok
  have hmono := getCurrentEpoch_mono P.d_pos P.d_lt hle hlt63
  rw [← inv.lastEpoch_eq] at hmono
  have hreported := inv.reported_append_le hle
  have hwf := inv.wf
  cases c with
  | report now' val =>
      simp only [TimeSeriesTracker.step, Option.some.injEq] at hstep
      subst hstep
      simp only [Call.now] at hlt63 hmono hreported
      rcases Nat.lt_or_eq_of_le hmono with hadv | hstay
      · -- the clock enters a later epoch: the report lands in a fresh slot
        have hupd : Wf P (updateClock P ops.nil now' st.tracker).2 := hwf.updateClock
        rw [updateClock_of_lt hadv] at hupd
        simp only [report, updateClock_of_lt hadv]
        refine ⟨hupd.reportCurrent _ _, rfl, hlt63, hreported, ?_⟩
        dsimp only
        rw [reportCurrent_current, reportCurrent_lastEpoch]
        simp only [reportedIn_append, inv.reportedIn_of_lt hadv, Function.update_self]
        simp [reportedIn, Call.reported]
      · simp only [report, updateClock_of_eq hstay.symm]
        refine ⟨hwf.reportCurrent _ _, hstay, hlt63, hreported, ?_⟩
        dsimp only
        rw [reportCurrent_current, reportCurrent_lastEpoch, inv.current, reportedIn_append,
          List.foldl_append]
        simp [reportedIn, Call.reported, hstay]
  | updateTimeBase now' =>
      simp only [TimeSeriesTracker.step, Option.some.injEq] at hstep
      subst hstep
      simp only [Call.now] at hlt63 hmono hreported
      simp only [Call.reported, List.append_nil] at hreported ⊢
      rcases Nat.lt_or_eq_of_le hmono with hadv | hstay
      · have hupd : Wf P (updateClock P ops.nil now' st.tracker).2 := hwf.updateClock
        rw [updateClock_of_lt hadv] at hupd
        simp only [updateTimeBase, updateClock_of_lt hadv]
        refine ⟨hupd, rfl, hlt63, hreported, ?_⟩
        dsimp only
        rw [inv.reportedIn_of_lt hadv]
        simp
      · simp only [updateTimeBase, updateClock_of_eq hstay.symm]
        exact ⟨hwf, hstay, hlt63, hreported, inv.current⟩

theorem run_inv {now₀ : Nat} (hnow₀ : now₀ < 2 ^ 63) {calls : List (Call S)} {st : State T}
    (run : Run (step P ops) Allowed ⟨init P ops.nil now₀, now₀⟩ calls st) :
    Inv P ops st (calls.flatMap Call.reported) := by
  have h := Run.invariant_fold (Inv P ops) (fun x c => x ++ c.reported)
    (fun _ _ _ _ inv hok hstep => inv.step hok hstep) run (inv_init hnow₀)
  rwa [foldl_append_reported, List.nil_append] at h

end Inv

theorem sumParams_kSlots_pos : 0 < 4 := by decide

theorem three_ticks_pos : 0 < 3 := by decide

theorem three_ticks_lt : 3 < 2 ^ 64 := by decide

/-- Four slots of one-tick epochs, three clock ticks to an epoch, summing naturals. -/
def sumParams : TimeSeriesParams :=
  ⟨4, 1, 3, fdivCeil 1, sumParams_kSlots_pos, Nat.one_pos, three_ticks_pos, three_ticks_lt, fdivCeil_one_pos⟩

def sumOps : EntryOps Nat Nat := ⟨0, fun t v => t + v⟩

theorem longEpoch_pos : 0 < 2 ^ 24 * 10 ^ 9 := by decide

theorem longEpoch_fdivCeil_pos : ∀ ticks, 0 < ticks → 0 < fdivCeil (2 ^ 24 * 10 ^ 9) ticks :=
  fdivCeil_pos longEpoch_pos

/-- Four slots of epochs of `2 ^ 22` s, in the quarter nanoseconds of `absl::Duration`,
three clock ticks to an epoch. -/
def longEpochParams : TimeSeriesParams :=
  ⟨4, 2 ^ 24 * 10 ^ 9, 3, fdivCeil (2 ^ 24 * 10 ^ 9), sumParams_kSlots_pos, longEpoch_pos, three_ticks_pos,
    three_ticks_lt, longEpoch_fdivCeil_pos⟩

end TimeSeriesTracker

end TCMalloc.Internal
