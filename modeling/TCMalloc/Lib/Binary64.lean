import Mathlib

/-!
Binary64 arithmetic on natural numbers, rounded to nearest with ties to even: the
double nearest a natural number, and the ceiling of the double nearest the quotient of
two doubles.  The exponent range is not modelled; quotients of naturals below `2 ^ 1000`
stay far from overflow and from the subnormals.
-/

set_option autoImplicit false
set_option relaxedAutoImplicit false

namespace TCMalloc.Lib.Binary64

/-- The bits of `n` past the 53 of a significand. -/
def excess (n : Nat) : Nat := n.log2 + 1 - 53

/-- `n + f` rounded to the 53 leading bits of `n`, ties to even, for a fraction
`0 ≤ f < 1` that is non-zero exactly when `sticky`: the significand, which counts in
units of `2 ^ excess n`.  The fraction matters only in a tie, so `n` has more than 53
bits whenever it is not zero. -/
def roundSig (n : Nat) (sticky : Bool) : Nat :=
  if 2 ^ excess n < 2 * (n % 2 ^ excess n) ∨
      (excess n ≠ 0 ∧ 2 * (n % 2 ^ excess n) = 2 ^ excess n ∧ (sticky ∨ n / 2 ^ excess n % 2 = 1)) then
    n / 2 ^ excess n + 1
  else n / 2 ^ excess n

/-- `static_cast<double>(n)`. -/
def ofNat (n : Nat) : Nat := roundSig n false * 2 ^ excess n

/-- The scale that gives the quotient by `y` of a double at least one more than 53 bits. -/
def scale (y : Nat) : Nat := y.log2 + 55

/-- `ceil(x / y)` for the doubles `x` and `y`: the quotient, scaled by `2 ^ scale y` and
rounded to 53 bits, then its ceiling. -/
def ceilDiv (x y : Nat) : Nat :=
  (roundSig (x * 2 ^ scale y / y) (x * 2 ^ scale y % y != 0) * 2 ^ excess (x * 2 ^ scale y / y) +
    2 ^ scale y - 1) / 2 ^ scale y

/-- `ceil(static_cast<double>(x) / static_cast<double>(y))`. -/
def ceilQuot (x y : Nat) : Nat := ceilDiv (ofNat x) (ofNat y)

theorem pow_excess_le {n : Nat} (hn : 0 < n) : 2 ^ excess n ≤ n :=
  calc 2 ^ excess n ≤ 2 ^ n.log2 := Nat.pow_le_pow_right (by decide) (by unfold excess; omega)
    _ ≤ n := Nat.log2_self_le (Nat.pos_iff_ne_zero.mp hn)

theorem le_roundSig (n : Nat) (sticky : Bool) : n / 2 ^ excess n ≤ roundSig n sticky := by
  unfold roundSig
  split <;> omega

theorem roundSig_pos {n : Nat} (hn : 0 < n) (sticky : Bool) : 0 < roundSig n sticky := by
  have hq : 0 < n / 2 ^ excess n := Nat.div_pos (pow_excess_le hn) (Nat.two_pow_pos _)
  exact lt_of_lt_of_le hq (le_roundSig n sticky)

theorem ofNat_pos {n : Nat} (hn : 0 < n) : 0 < ofNat n :=
  Nat.mul_pos (roundSig_pos hn false) (Nat.two_pow_pos _)

theorem ceilDiv_pos {x y : Nat} (hx : 0 < x) (hy : 0 < y) : 0 < ceilDiv x y := by
  have hys : y ≤ 2 ^ scale y :=
    (Nat.lt_log2_self (n := y)).le.trans (Nat.pow_le_pow_right (by decide) (by unfold scale; omega))
  have hq : 0 < x * 2 ^ scale y / y :=
    Nat.div_pos (hys.trans (Nat.le_mul_of_pos_left _ hx)) hy
  have hsig : 0 < roundSig (x * 2 ^ scale y / y) (x * 2 ^ scale y % y != 0) * 2 ^ excess (x * 2 ^ scale y / y) :=
    Nat.mul_pos (roundSig_pos hq _) (Nat.two_pow_pos _)
  unfold ceilDiv
  exact Nat.div_pos (by omega) (Nat.two_pow_pos _)

theorem ceilQuot_pos {x y : Nat} (hx : 0 < x) (hy : 0 < y) : 0 < ceilQuot x y :=
  ceilDiv_pos (ofNat_pos hx) (ofNat_pos hy)

end TCMalloc.Lib.Binary64
