import Mathlib.Data.Nat.Bitwise
import TCMalloc.Lib.Scan

/-!
Keys split into radix-tree indices by shifts and masks.  Above a field of `w`
bits, the index of `k` is `k >>> w` and its slot in the field is
`k &&& (2 ^ w - 1)`.  The pair determines `k`; `(i <<< w) ||| j` packs a pair
back; the slots of a coarser field inside a field are a field of the shifted
key; and `((k >>> w) + 1) <<< w` is where a walk field by field goes next.
Such a walk looks for the first key of a range with some property, one field
after another: `IsFirstIn` says what it finds, and the lemmas below put the
answers for consecutive ranges together.
-/

set_option autoImplicit false
set_option relaxedAutoImplicit false

namespace TCMalloc.Lib.Radix

variable {w : Nat}

theorem and_mask_lt (k w : Nat) : k &&& (2 ^ w - 1) < 2 ^ w := by
  rw [Nat.and_two_pow_sub_one_eq_mod]
  exact Nat.mod_lt _ (Nat.two_pow_pos w)

theorem shiftRight_mul_add_and (k w : Nat) : (k >>> w) * 2 ^ w + (k &&& (2 ^ w - 1)) = k := by
  rw [Nat.shiftRight_eq_div_pow, Nat.and_two_pow_sub_one_eq_mod, Nat.mul_comm]
  exact Nat.div_add_mod k (2 ^ w)

theorem eq_of_shiftRight_eq_of_and_eq {k k' : Nat} (hi : k >>> w = k' >>> w)
    (hj : k &&& (2 ^ w - 1) = k' &&& (2 ^ w - 1)) : k = k' := by
  rw [← shiftRight_mul_add_and k w, ← shiftRight_mul_add_and k' w, hi, hj]

theorem shiftLeft_or_eq (i : Nat) {j : Nat} (hj : j < 2 ^ w) : (i <<< w) ||| j = i * 2 ^ w + j := by
  rw [← Nat.shiftLeft_add_eq_or_of_lt hj, Nat.shiftLeft_eq]

theorem shiftLeft_or_shiftLeft (a : Nat) {b v : Nat} (hb : b < 2 ^ v) :
    (a <<< (w + v)) ||| (b <<< w) = (a * 2 ^ v + b) <<< w := by
  have hbw : b <<< w < 2 ^ (w + v) := by
    rw [Nat.shiftLeft_eq, Nat.pow_add, Nat.mul_comm (2 ^ w)]
    exact Nat.mul_lt_mul_of_pos_right hb (Nat.two_pow_pos w)
  rw [← Nat.shiftLeft_add_eq_or_of_lt hbw, Nat.shiftLeft_eq, Nat.shiftLeft_eq, Nat.shiftLeft_eq,
    Nat.pow_add, Nat.add_mul, Nat.mul_comm (2 ^ w) (2 ^ v), Nat.mul_assoc]

@[simp] theorem shiftLeft_or_shiftRight (i : Nat) {j : Nat} (hj : j < 2 ^ w) :
    ((i <<< w) ||| j) >>> w = i := by
  rw [shiftLeft_or_eq i hj, Nat.shiftRight_eq_div_pow, Nat.mul_comm,
    Nat.mul_add_div (Nat.two_pow_pos w), Nat.div_eq_of_lt hj, Nat.add_zero]

@[simp] theorem shiftLeft_or_and (i : Nat) {j : Nat} (hj : j < 2 ^ w) :
    ((i <<< w) ||| j) &&& (2 ^ w - 1) = j := by
  rw [shiftLeft_or_eq i hj, Nat.and_two_pow_sub_one_eq_mod, Nat.mul_comm, Nat.mul_add_mod,
    Nat.mod_eq_of_lt hj]

theorem and_mask_shiftRight {h : Nat} (hh : h ≤ w) (k : Nat) :
    (k &&& (2 ^ w - 1)) >>> h = (k >>> h) &&& (2 ^ (w - h) - 1) := by
  have hpow : 2 ^ w = 2 ^ h * 2 ^ (w - h) := by rw [← Nat.pow_add, Nat.add_sub_cancel' hh]
  rw [Nat.and_two_pow_sub_one_eq_mod, Nat.and_two_pow_sub_one_eq_mod, Nat.shiftRight_eq_div_pow,
    Nat.shiftRight_eq_div_pow, hpow, Nat.mod_mul_right_div_self]

theorem shiftRight_shiftRight_sub {h : Nat} (hh : h ≤ w) (k : Nat) : (k >>> h) >>> (w - h) = k >>> w := by
  rw [← Nat.shiftRight_add, Nat.add_sub_cancel' hh]

theorem shiftRight_eq_zero_iff {k : Nat} : k >>> w = 0 ↔ k < 2 ^ w := by
  rw [Nat.shiftRight_eq_div_pow, Nat.div_eq_zero_iff_lt (Nat.two_pow_pos w)]

theorem shiftRight_lt_iff {k n : Nat} : k >>> w < n ↔ k < n * 2 ^ w := by
  rw [Nat.shiftRight_eq_div_pow, Nat.div_lt_iff_lt_mul (Nat.two_pow_pos w)]

theorem shiftRight_mono {k k' : Nat} (h : k ≤ k') : k >>> w ≤ k' >>> w := by
  rw [Nat.shiftRight_eq_div_pow, Nat.shiftRight_eq_div_pow]
  exact Nat.div_le_div_right h

theorem shiftRight_eq_iff {k i : Nat} : k >>> w = i ↔ i * 2 ^ w ≤ k ∧ k < (i + 1) * 2 ^ w := by
  rw [Nat.shiftRight_eq_div_pow]
  constructor
  · rintro rfl
    exact ⟨Nat.div_mul_le_self k _, by
      rw [Nat.mul_comm]
      exact Nat.lt_mul_div_succ k (Nat.two_pow_pos w)⟩
  · rintro ⟨lo, hi⟩
    exact Nat.div_eq_of_lt_le lo hi

theorem lt_nextIndex (k w : Nat) : k < ((k >>> w) + 1) <<< w := by
  rw [Nat.shiftLeft_eq]
  exact (shiftRight_eq_iff.mp rfl).2

@[simp] theorem nextIndex_shiftRight (k w : Nat) : (((k >>> w) + 1) <<< w) >>> w = (k >>> w) + 1 :=
  Nat.shiftLeft_shiftRight _ _

/-! ### First keys of a range -/

open TCMalloc.Lib.Scan

/-- `r` is the first key of `[lo, hi)` satisfying `p`, or `none` when no key there does. -/
def IsFirstIn (p : Nat → Bool) (lo hi : Nat) : Option Nat → Prop
  | some k => lo ≤ k ∧ k < hi ∧ p k = true ∧ NoneIn p lo k
  | none => NoneIn p lo hi

variable {p : Nat → Bool} {lo hi : Nat}

theorem isFirstIn_none_of_le (h : hi ≤ lo) : IsFirstIn p lo hi none :=
  fun _ hk hk' => absurd (Nat.lt_of_lt_of_le hk' h) (Nat.not_lt.mpr hk)

theorem IsFirstIn.append {mid : Nat} {r : Option Nat} (hlm : lo ≤ mid)
    (h₁ : IsFirstIn p lo mid none) (h₂ : IsFirstIn p mid hi r) : IsFirstIn p lo hi r := by
  cases r with
  | none =>
      intro k hk hk'
      by_cases hkm : k < mid
      · exact h₁ k hk hkm
      · exact h₂ k (by omega) hk'
  | some k =>
      obtain ⟨hmk, hkh, hp, hbefore⟩ := h₂
      refine ⟨by omega, hkh, hp, fun j hj hjk => ?_⟩
      by_cases hjm : j < mid
      · exact h₁ j hj hjm
      · exact hbefore j (by omega) hjk

theorem IsFirstIn.widen {k hi' : Nat} (hle : hi ≤ hi') (h : IsFirstIn p lo hi (some k)) :
    IsFirstIn p lo hi' (some k) := by
  obtain ⟨hlo, hhi, hp, hbefore⟩ := h
  exact ⟨hlo, by omega, hp, hbefore⟩

theorem IsFirstIn.congr {q : Nat → Bool} {r : Option Nat} (hpq : ∀ k, lo ≤ k → k < hi → p k = q k)
    (h : IsFirstIn p lo hi r) : IsFirstIn q lo hi r := by
  cases r with
  | none => exact fun k hk hk' => (hpq k hk hk').symm.trans (h k hk hk')
  | some k =>
      obtain ⟨hlo, hhi, hp, hbefore⟩ := h
      exact ⟨hlo, hhi, (hpq k hlo hhi).symm.trans hp,
        fun j hj hjk => (hpq j hj (by omega)).symm.trans (hbefore j hj hjk)⟩

theorem IsFirstIn.shift (c : Nat) {r : Option Nat} (h : IsFirstIn (fun i => p (c + i)) lo hi r) :
    IsFirstIn p (c + lo) (c + hi) (r.map (c + ·)) := by
  cases r with
  | none =>
      intro k hk hk'
      have hk'' : p (c + (k - c)) = false := h (k - c) (by omega) (by omega)
      rwa [Nat.add_sub_cancel' (by omega)] at hk''
  | some k =>
      obtain ⟨hlo, hhi, hp, hbefore⟩ := h
      show c + lo ≤ c + k ∧ c + k < c + hi ∧ p (c + k) = true ∧ NoneIn p (c + lo) (c + k)
      refine ⟨by omega, by omega, hp, fun j hj hjk => ?_⟩
      have hj' : p (c + (j - c)) = false := hbefore (j - c) (by omega) (by omega)
      rwa [Nat.add_sub_cancel' (by omega)] at hj'

theorem isFirstIn_firstFrom (p : Nat → Bool) (fuel i : Nat) :
    IsFirstIn p i (i + fuel)
      (if firstFrom p fuel i < i + fuel then some (firstFrom p fuel i) else none) := by
  split
  · rename_i hlt
    exact ⟨le_firstFrom p fuel i, hlt, firstFrom_spec p fuel i hlt, noneIn_firstFrom p fuel i⟩
  · rename_i hge
    have hend : firstFrom p fuel i = i + fuel := Nat.le_antisymm (firstFrom_le p fuel i) (by omega)
    have hnone := noneIn_firstFrom p fuel i
    rwa [hend] at hnone

end TCMalloc.Lib.Radix
