import Mathlib.Data.Nat.Size
import Mathlib.Tactic.Ring
import Mathlib.Tactic.Zify

/-!
Division by a constant `d` as a multiplication and a shift: with the multiplier
`⌊N / d⌋ + 1` rounded up past `N / d`, the quotient `x * m / N` is `x / d` for
every numerator with `x * d < N`, and the multiplier stays below `2 ^ w` when
`N = 2 ^ (w + k)` and `d` lies strictly above `2 ^ k`.  At `d = 2 ^ k` itself
the quotient `N / d` is exactly `2 ^ w`, which a `w`-bit multiplier cannot hold.
-/

set_option autoImplicit false
set_option relaxedAutoImplicit false

namespace TCMalloc.Lib

theorem mul_div_add_one_div {d N x : Nat} (hd : 0 < d) (hx : x * d < N) :
    x * (N / d + 1) / N = x / d := by
  have hKd : d * (N / d) ≤ N := Nat.mul_div_le N d
  have hKd' : N < d * (N / d + 1) := Nat.lt_mul_div_succ N hd
  have hqd : x / d * d ≤ x := Nat.div_mul_le_self x d
  have hxq : x < d * (x / d + 1) := Nat.lt_mul_div_succ x hd
  apply Nat.div_eq_of_lt_le
  · calc x / d * N ≤ x / d * (d * (N / d + 1)) := Nat.mul_le_mul_left _ hKd'.le
      _ = x / d * d * (N / d + 1) := by ring
      _ ≤ x * (N / d + 1) := Nat.mul_le_mul_right _ hqd
  · -- multiplied through by `d`: the rounding adds at most `x * d < N`
    have hlt : d * (x * (N / d + 1)) < d * ((x / d + 1) * N) := by
      calc d * (x * (N / d + 1)) = x * (d * (N / d)) + x * d := by ring
        _ ≤ x * N + x * d := Nat.add_le_add_right (Nat.mul_le_mul_left x hKd) _
        _ < (x + 1) * N := by rw [Nat.add_one_mul]; omega
        _ ≤ d * (x / d + 1) * N := Nat.mul_le_mul_right N hxq
        _ = d * ((x / d + 1) * N) := by ring
    exact Nat.lt_of_mul_lt_mul_left hlt

theorem pow_add_div_add_one_lt {d w k : Nat} (hk : 2 ^ k < d) (hkw : k < w) (hw : 2 ≤ w) :
    2 ^ (w + k) / d + 1 < 2 ^ w := by
  have hd : 0 < d := Nat.lt_of_le_of_lt (Nat.zero_le _) hk
  have hroom : 2 ^ k + 1 < 2 ^ w := by
    rcases Nat.eq_zero_or_pos k with rfl | hk0
    · have : 2 ^ 2 ≤ 2 ^ w := Nat.pow_le_pow_right (by decide) hw
      simp only [pow_zero]
      omega
    · have h1 : 2 ^ (k + 1) ≤ 2 ^ w := Nat.pow_le_pow_right (by decide) hkw
      have h2 : 2 ≤ 2 ^ k := Nat.le_self_pow (Nat.pos_iff_ne_zero.mp hk0) 2
      rw [Nat.pow_succ] at h1
      omega
  have hbig : 2 ^ (w + k) < (2 ^ w - 1) * d := by
    have hmul : (2 ^ w - 1) * (2 ^ k + 1) ≤ (2 ^ w - 1) * d := Nat.mul_le_mul_left _ hk
    have hexp : (2 ^ w - 1) * (2 ^ k + 1) + 2 ^ k + 1 = 2 ^ (w + k) + 2 ^ w := by
      have hw1 : 1 ≤ 2 ^ w := Nat.one_le_two_pow
      rw [Nat.pow_add]
      zify [hw1]
      ring
    generalize (2 ^ w - 1) * (2 ^ k + 1) = lo at hmul hexp
    omega
  exact Nat.add_lt_of_lt_sub ((Nat.div_lt_iff_lt_mul hd).mpr hbig)

theorem pow_add_div_pow (w k : Nat) : 2 ^ (w + k) / 2 ^ k = 2 ^ w := by
  rw [Nat.pow_div (Nat.le_add_left k w) (by decide), Nat.add_sub_cancel]

end TCMalloc.Lib
