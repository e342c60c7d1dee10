import Mathlib.Data.Finset.Card
import Mathlib.Order.Interval.Finset.Nat
import TCMalloc.Lib.Affine

/-!
`ExponentialBiased` of `internal/exponential_biased.h`: the `lrand64` generator
the sampler, the treap of `HugeAddressMap` and the system allocator's hints draw
from.  Modulo `2 ^ 48` its step is the affine map of `Lib.Affine`, whose
multiplier is `1` modulo `4` and whose increment is odd, so from every seed the
generator visits each of the `2 ^ 48` states once per period.
-/

set_option autoImplicit false
set_option relaxedAutoImplicit false

namespace TCMalloc

namespace ExponentialBiased

/-- `NextRandom`, the `lrand64` step: the product wraps at `2 ^ 64`, which the
mask to the low 48 bits does not see. -/
def nextRandom (rnd : Nat) : Nat := (0x5DEECE66D * rnd + 0xB) % 2 ^ 48

/-- `GetRandom`: `rnd >> 16` as a `uint32_t`. -/
def getRandom (rnd : Nat) : Nat := rnd / 2 ^ 16 % 2 ^ 32

open Function Lib.Affine

theorem nextRandom_lt (rnd : Nat) : nextRandom rnd < 2 ^ 48 := Nat.mod_lt _ (Nat.two_pow_pos 48)

theorem iterate_nextRandom_lt {x : Nat} (hx : x < 2 ^ 48) : ∀ n, nextRandom^[n] x < 2 ^ 48
  | 0 => hx
  | n + 1 => by
    rw [iterate_succ_apply']
    exact nextRandom_lt _

/-- The step modulo `2 ^ 48`. -/
abbrev step : ZMod (2 ^ (47 + 1)) → ZMod (2 ^ (47 + 1)) :=
  affine ((0x5DEECE66D : Nat) : ZMod (2 ^ (47 + 1))) ((0xB : Nat) : ZMod (2 ^ (47 + 1)))

theorem semiconj_cast : Semiconj (fun x : Nat => (x : ZMod (2 ^ (47 + 1)))) nextRandom step := by
  intro x
  show (((0x5DEECE66D * x + 0xB) % 2 ^ 48 : Nat) : ZMod (2 ^ (47 + 1))) = _
  rw [ZMod.natCast_mod]
  push_cast
  rfl

theorem cast_injOn {x y : Nat} (hx : x < 2 ^ 48) (hy : y < 2 ^ 48)
    (h : (x : ZMod (2 ^ (47 + 1))) = (y : ZMod (2 ^ (47 + 1)))) : x = y := by
  rw [ZMod.natCast_eq_natCast_iff', Nat.mod_eq_of_lt hx, Nat.mod_eq_of_lt hy] at h
  exact h

theorem isPeriodicPt_iff {x : Nat} (hx : x < 2 ^ 48) (n : Nat) :
    IsPeriodicPt nextRandom n x ↔ IsPeriodicPt step n (x : ZMod (2 ^ (47 + 1))) := by
  have hsemi := semiconj_cast.iterate_right n
  constructor
  · intro h
    unfold IsPeriodicPt IsFixedPt at h ⊢
    rw [← hsemi x, h]
  · intro h
    unfold IsPeriodicPt IsFixedPt at h ⊢
    rw [← hsemi x] at h
    exact cast_injOn (iterate_nextRandom_lt hx n) hx h

theorem minimalPeriod_nextRandom {x : Nat} (hx : x < 2 ^ 48) : minimalPeriod nextRandom x = 2 ^ 48 := by
  have hstep := minimalPeriod_affine (k := 47) (a := 0x5DEECE66D) (c := 0xB) (by decide) (by decide)
    (x : ZMod (2 ^ (47 + 1)))
  rw [← hstep]
  exact minimalPeriod_eq_minimalPeriod_iff.mpr (isPeriodicPt_iff hx)

theorem iterate_period {x : Nat} (hx : x < 2 ^ 48) : nextRandom^[2 ^ 48] x = x := by
  have h := isPeriodicPt_minimalPeriod nextRandom x
  rw [minimalPeriod_nextRandom hx] at h
  exact h

theorem image_iterate {x : Nat} (hx : x < 2 ^ 48) :
    (Finset.range (2 ^ 48)).image (fun i => nextRandom^[i] x) = Finset.range (2 ^ 48) := by
  have hinj : Set.InjOn (fun i => nextRandom^[i] x) (Finset.range (2 ^ 48) : Set Nat) := by
    have h := iterate_injOn_Iio_minimalPeriod (f := nextRandom) (x := x)
    rw [minimalPeriod_nextRandom hx] at h
    intro i hi j hj hij
    exact h (by simpa using hi) (by simpa using hj) hij
  apply Finset.eq_of_subset_of_card_le
  · intro y hy
    obtain ⟨i, -, rfl⟩ := Finset.mem_image.mp hy
    exact Finset.mem_range.mpr (iterate_nextRandom_lt hx i)
  · rw [Finset.card_image_of_injOn hinj]

theorem iterate_pred_nextRandom {x : Nat} (hx : x < 2 ^ 48) : nextRandom^[2 ^ 48 - 1] (nextRandom x) = x := by
  rw [← iterate_succ_apply, Nat.succ_eq_add_one, Nat.sub_add_cancel Nat.one_le_two_pow]
  exact iterate_period hx

theorem bijOn_nextRandom : Set.BijOn nextRandom (Set.Iio (2 ^ 48)) (Set.Iio (2 ^ 48)) := by
  refine ⟨fun x _ => nextRandom_lt x, ?_, ?_⟩
  · intro x hx y hy hxy
    rw [← iterate_pred_nextRandom hx, ← iterate_pred_nextRandom hy, hxy]
  · intro y hy
    refine ⟨nextRandom^[2 ^ 48 - 1] y, iterate_nextRandom_lt hy _, ?_⟩
    show nextRandom (nextRandom^[2 ^ 48 - 1] y) = y
    rw [← iterate_succ_apply' nextRandom, Nat.succ_eq_add_one, Nat.sub_add_cancel Nat.one_le_two_pow]
    exact iterate_period hy

theorem card_filter_shiftRight {v : Nat} (hv : v < 2 ^ 26) :
    ((Finset.range (2 ^ 48)).filter fun y => y >>> 22 = v).card = 2 ^ 22 := by
  have hset : (Finset.range (2 ^ 48)).filter (fun y => y >>> 22 = v) = Finset.Ico (v * 2 ^ 22) (v * 2 ^ 22 + 2 ^ 22) := by
    ext y
    simp only [Finset.mem_filter, Finset.mem_range, Finset.mem_Ico, Nat.shiftRight_eq_div_pow,
      Nat.div_eq_iff (Nat.two_pow_pos 22)]
    constructor
    · rintro ⟨-, hlo, hhi⟩
      omega
    · rintro ⟨hlo, hhi⟩
      omega
  rw [hset, Nat.card_Ico]
  omega

/-- `NextRandom` keeps every value below `2 ^ 48`, permutes the states below `2 ^ 48`
in a single cycle through all of them, and over one period the 26 bits
`GetGeometricVariable` takes (`rnd >> 22`) take each value `2 ^ 22` times. -/
theorem nextRandom_single_cycle :
    (∀ rnd, nextRandom rnd < 2 ^ 48) ∧
    Set.BijOn nextRandom (Set.Iio (2 ^ 48)) (Set.Iio (2 ^ 48)) ∧
    (∀ x < 2 ^ 48, minimalPeriod nextRandom x = 2 ^ 48 ∧ ∀ y < 2 ^ 48, ∃ i < 2 ^ 48, nextRandom^[i] x = y) ∧
    (∀ x < 2 ^ 48, ∀ v < 2 ^ 26,
      ((Finset.range (2 ^ 48)).filter fun i => nextRandom^[i + 1] x >>> 22 = v).card = 2 ^ 22) := by
  refine ⟨nextRandom_lt, bijOn_nextRandom, fun x hx => ⟨minimalPeriod_nextRandom hx, fun y hy => ?_⟩, ?_⟩
  · have hmem : y ∈ (Finset.range (2 ^ 48)).image (fun i => nextRandom^[i] x) := by
      rw [image_iterate hx]
      exact Finset.mem_range.mpr hy
    obtain ⟨i, hi, hiy⟩ := Finset.mem_image.mp hmem
    exact ⟨i, Finset.mem_range.mp hi, hiy⟩
  · intro x hx v hv
    -- The values drawn in one period start one step after the seed.
    have hx' : nextRandom x < 2 ^ 48 := nextRandom_lt x
    have hinj : Set.InjOn (fun i => nextRandom^[i] (nextRandom x)) (Finset.range (2 ^ 48) : Set Nat) := by
      have h := iterate_injOn_Iio_minimalPeriod (f := nextRandom) (x := nextRandom x)
      rw [minimalPeriod_nextRandom hx'] at h
      intro i hi j hj hij
      exact h (by simpa using hi) (by simpa using hj) hij
    have hshift : ∀ i, nextRandom^[i + 1] x = nextRandom^[i] (nextRandom x) := fun i => iterate_succ_apply _ _ _
    simp only [hshift]
    rw [← Finset.card_image_of_injOn (Set.InjOn.mono (Finset.coe_subset.mpr (Finset.filter_subset _ _)) hinj),
      ← Finset.filter_image (f := fun i => nextRandom^[i] (nextRandom x)) (p := fun y => y >>> 22 = v),
      image_iterate hx']
    exact card_filter_shiftRight hv

end ExponentialBiased

end TCMalloc
