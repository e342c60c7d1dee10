import Mathlib.Data.ZMod.Basic
import Mathlib.Dynamics.PeriodicPts.Lemmas
import Mathlib.Tactic.LinearCombination
import Mathlib.Tactic.Ring

/-!
Affine maps `x ↦ a * x + c` on the residues modulo `2 ^ (k + 1)`, the step of a
linear congruential generator with a power-of-two modulus.  Under Hull and
Dobell's conditions for such a modulus (`a % 4 = 1`, `c` odd), `2 ^ j` steps add
`2 ^ j` times an odd number, so every residue has minimal period `2 ^ (k + 1)`:
from every seed the generator runs through all residues once.
-/

set_option autoImplicit false
set_option relaxedAutoImplicit false

namespace TCMalloc.Lib.Affine

open Function

variable {n : ℕ}

/-- One step: `a * x + c`. -/
def affine (a c : ZMod n) (x : ZMod n) : ZMod n := a * x + c

/-- The coefficients of `2 ^ j` steps of `affine a c`, by squaring the map. -/
def doubled (a c : ZMod n) : ℕ → ZMod n × ZMod n
  | 0 => (a, c)
  | j + 1 => ((doubled a c j).1 * (doubled a c j).1, ((doubled a c j).1 + 1) * (doubled a c j).2)

theorem iterate_two_pow (a c : ZMod n) (j : ℕ) (x : ZMod n) :
    (affine a c)^[2 ^ j] x = (doubled a c j).1 * x + (doubled a c j).2 := by
  induction j generalizing x with
  | zero => rfl
  | succ j ih =>
    rw [pow_succ, mul_two, iterate_add_apply, ih, ih]
    simp only [doubled]
    ring

section Conditions

variable {a c : ℕ} (ha : a % 4 = 1) (hc : c % 2 = 1)
include ha hc

theorem doubled_form (j : ℕ) :
    ∃ t s : ZMod n, (doubled (a : ZMod n) c j).1 = 1 + 2 ^ (j + 2) * t ∧
      (doubled (a : ZMod n) c j).2 = 2 ^ j * (2 * s + 1) := by
  induction j with
  | zero =>
    have h4 : (a : ZMod n) = 1 + 4 * ((a / 4 : ℕ) : ZMod n) := by
      have h := Nat.mod_add_div a 4
      rw [ha] at h
      calc (a : ZMod n) = ((1 + 4 * (a / 4) : ℕ) : ZMod n) := by rw [h]
        _ = 1 + 4 * ((a / 4 : ℕ) : ZMod n) := by push_cast; ring
    have h2 : (c : ZMod n) = 2 * ((c / 2 : ℕ) : ZMod n) + 1 := by
      have h := Nat.mod_add_div c 2
      rw [hc] at h
      calc (c : ZMod n) = ((1 + 2 * (c / 2) : ℕ) : ZMod n) := by rw [h]
        _ = 2 * ((c / 2 : ℕ) : ZMod n) + 1 := by push_cast; ring
    refine ⟨(a / 4 : ℕ), (c / 2 : ℕ), ?_, ?_⟩
    · simp only [doubled]
      rw [h4]
      ring
    · simp only [doubled]
      rw [h2]
      ring
  | succ j ih =>
    obtain ⟨t, s, ht, hs⟩ := ih
    refine ⟨t + 2 ^ (j + 1) * t * t, s + 2 ^ j * t * (2 * s + 1), ?_, ?_⟩
    · simp only [doubled, ht]
      ring
    · simp only [doubled, ht, hs]
      ring

variable {k : ℕ}

omit ha hc in
theorem two_pow_eq_zero : (2 : ZMod (2 ^ (k + 1))) ^ (k + 1) = 0 := by
  exact_mod_cast ZMod.natCast_self (2 ^ (k + 1))

omit ha hc in
theorem two_pow_ne_zero : (2 : ZMod (2 ^ (k + 1))) ^ k ≠ 0 := by
  intro h
  have hcast : ((2 ^ k : ℕ) : ZMod (2 ^ (k + 1))) = ((0 : ℕ) : ZMod (2 ^ (k + 1))) := by
    push_cast
    exact h
  rw [ZMod.natCast_eq_natCast_iff', Nat.zero_mod,
    Nat.mod_eq_of_lt (Nat.pow_lt_pow_right (by decide) (Nat.lt_succ_self k))] at hcast
  exact absurd hcast (Nat.pos_iff_ne_zero.mp (Nat.two_pow_pos k))

theorem iterate_two_pow_succ (x : ZMod (2 ^ (k + 1))) : (affine (a : ZMod (2 ^ (k + 1))) c)^[2 ^ (k + 1)] x = x := by
  obtain ⟨t, s, ht, hs⟩ := doubled_form (n := 2 ^ (k + 1)) ha hc (k + 1)
  rw [iterate_two_pow, ht, hs]
  linear_combination (4 * t * x + 2 * s + 1) * two_pow_eq_zero

theorem iterate_two_pow_self (x : ZMod (2 ^ (k + 1))) :
    (affine (a : ZMod (2 ^ (k + 1))) c)^[2 ^ k] x = x + 2 ^ k := by
  obtain ⟨t, s, ht, hs⟩ := doubled_form (n := 2 ^ (k + 1)) ha hc k
  rw [iterate_two_pow, ht, hs]
  linear_combination (2 * t * x + s) * two_pow_eq_zero

theorem minimalPeriod_affine (x : ZMod (2 ^ (k + 1))) :
    minimalPeriod (affine (a : ZMod (2 ^ (k + 1))) c) x = 2 ^ (k + 1) := by
  have : Fact (Nat.Prime 2) := ⟨Nat.prime_two⟩
  apply minimalPeriod_eq_prime_pow
  · intro h
    have h' : x + 2 ^ k = x := (iterate_two_pow_self ha hc x).symm.trans h
    exact two_pow_ne_zero (by simpa using h')
  · exact iterate_two_pow_succ ha hc x

end Conditions

end TCMalloc.Lib.Affine
