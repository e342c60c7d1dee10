import Mathlib.Data.Nat.Bitwise

/-!
Rounding to an alignment with a mask, as C code writes it: `(x + a - 1) & -a`
in `w`-bit unsigned arithmetic, where `-a` is the mask `2 ^ w - a`.  `alignUp a x`
is the exact rounding.  For `a = 2 ^ j` the mask keeps the bits of `x` from `j`
up, so masking rounds down and the masked sum is `alignUp a x` while nothing
wraps.  For any other `a` the mask still clears only bits of `a - 1`, so masking
loses less than `a`: the bound that keeps code reading with an untrusted
alignment inside its buffer.
-/

set_option autoImplicit false
set_option relaxedAutoImplicit false

namespace TCMalloc.Lib.Align

/-- `x` rounded up to a multiple of `a`. -/
def alignUp (a x : Nat) : Nat := (x + a - 1) / a * a

variable {a x : Nat}

theorem le_alignUp (ha : 0 < a) : x ≤ alignUp a x := by
  have := Nat.lt_div_mul_add (a := x + a - 1) ha
  unfold alignUp
  omega

theorem dvd_alignUp : a ∣ alignUp a x := Nat.dvd_mul_left a _

theorem add_le_alignUp {n : Nat} (ha : 0 < a) (hn : a ∣ n) (hlt : n < x) :
    n + a ≤ alignUp a x := by
  obtain ⟨p, rfl⟩ := hn
  obtain ⟨q, hq⟩ := (dvd_alignUp : a ∣ alignUp a x)
  have hpq : a * p < a * q := hq ▸ lt_of_lt_of_le hlt (le_alignUp ha)
  have : p + 1 ≤ q := Nat.lt_of_mul_lt_mul_left hpq
  calc a * p + a = a * (p + 1) := (Nat.mul_succ a p).symm
    _ ≤ a * q := Nat.mul_le_mul_left a this
    _ = alignUp a x := hq.symm

theorem le_alignUp_of_pos (ha : 0 < a) (hx : 0 < x) : a ≤ alignUp a x := by
  simpa using add_le_alignUp ha (Nat.dvd_zero a) hx

theorem and_two_pow_sub_two_pow {w j : Nat} (hj : j ≤ w) (hx : x < 2 ^ w) :
    x &&& (2 ^ w - 2 ^ j) = x / 2 ^ j * 2 ^ j := by
  have hmask : 2 ^ w - 2 ^ j = 2 ^ j * (2 ^ (w - j) - 1) := by
    rw [Nat.mul_sub, ← Nat.pow_add, Nat.add_sub_cancel' hj, Nat.mul_one]
  apply Nat.eq_of_testBit_eq
  intro i
  rw [hmask, Nat.testBit_and, Nat.testBit_two_pow_mul, Nat.testBit_two_pow_sub_one,
    Nat.testBit_mul_two_pow, Nat.testBit_div_two_pow]
  by_cases hji : j ≤ i
  · rw [Nat.sub_add_cancel hji]
    by_cases hiw : i < w
    · simp [hji, show i - j < w - j by omega]
    · -- above the `w` bits of `x` both sides are zero
      have hbit : x.testBit i = false :=
        Nat.testBit_lt_two_pow (lt_of_lt_of_le hx (Nat.pow_le_pow_right (by decide) (by omega)))
      simp [hbit]
  · simp only [ge_iff_le, hji, decide_false, Bool.false_and, Bool.and_false]

theorem le_and_add {w m : Nat} (hx : x < 2 ^ w) (hm : m < 2 ^ w) :
    x ≤ (x &&& m) + (2 ^ w - 1 - m) := by
  -- the bits of `x` split into those inside `m` and those outside it
  have hdisj : (BitVec.ofNat w x &&& BitVec.ofNat w m) &&&
      (BitVec.ofNat w x &&& ~~~BitVec.ofNat w m) = 0#w := by
    ext i
    simp only [BitVec.getElem_and, BitVec.getElem_not, BitVec.getElem_zero]
    cases (BitVec.ofNat w m)[i] <;> simp
  have hor : (BitVec.ofNat w x &&& BitVec.ofNat w m) |||
      (BitVec.ofNat w x &&& ~~~BitVec.ofNat w m) = BitVec.ofNat w x := by
    ext i
    simp only [BitVec.getElem_or, BitVec.getElem_and, BitVec.getElem_not]
    cases (BitVec.ofNat w m)[i] <;> simp
  have hsum := BitVec.toNat_add_of_and_eq_zero hdisj
  rw [BitVec.add_eq_or_of_and_eq_zero _ _ hdisj, hor] at hsum
  have hout : (BitVec.ofNat w x &&& ~~~BitVec.ofNat w m).toNat ≤ (~~~BitVec.ofNat w m).toNat := by
    rw [BitVec.toNat_and]
    exact Nat.and_le_right
  simp only [BitVec.toNat_and, BitVec.toNat_not, BitVec.toNat_ofNat, Nat.mod_eq_of_lt hx,
    Nat.mod_eq_of_lt hm] at hsum hout
  omega

theorem and_le_mod {w m : Nat} (x : Nat) (hm : m < 2 ^ w) : x &&& m ≤ x % 2 ^ w := by
  rw [← Nat.mod_eq_of_lt (Nat.and_lt_two_pow x hm), Nat.and_mod_two_pow]
  exact Nat.and_le_left

end TCMalloc.Lib.Align
