import Mathlib.Algebra.BigOperators.Intervals
import Mathlib.Algebra.BigOperators.Ring.Finset

/-!
A byte range `[a, a + s)` laid over pages of `P` bytes.  Page `p` is `[p * P, (p + 1) * P)`
and holds `overlap P a s p` bytes of the range; a statistic that gives every byte the
weight of its page is `spread P a s w`, summed over the pages the range meets, from
`a / P` up to `(a + s + P - 1) / P`.  The overlaps of consecutive pages add up to the
length of the range they cover, so a walk that charges a partial first page, whole
middle pages and a partial last page charges every byte once.
-/

set_option autoImplicit false
set_option relaxedAutoImplicit false

namespace TCMalloc.Lib.PageSpan

/-- The bytes of page `p` that lie in `[a, a + s)`. -/
def overlap (P a s p : Nat) : Nat := min (a + s) ((p + 1) * P) - max a (p * P)

/-- Every byte of `[a, a + s)` counted with the weight `w` of its page. -/
def spread (P a s : Nat) (w : Nat → Nat) : Nat :=
  ∑ p ∈ Finset.Ico (a / P) ((a + s + P - 1) / P), overlap P a s p * w p

variable {P a s : Nat}

theorem sum_overlap_Ico {lo hi : Nat} (h : lo ≤ hi) :
    ∑ p ∈ Finset.Ico lo hi, overlap P a s p = min (a + s) (hi * P) - max a (lo * P) := by
  induction hi, h using Nat.le_induction with
  | base => simp only [Finset.Ico_self, Finset.sum_empty]; omega
  | succ hi hlo ih =>
    have hmul : lo * P ≤ hi * P := Nat.mul_le_mul_right P hlo
    rw [Finset.sum_Ico_succ_top hlo, ih]
    unfold overlap
    rw [Nat.succ_mul]
    omega

theorem sum_overlap_mul_const {lo hi c : Nat} {w : Nat → Nat} (h : lo ≤ hi)
    (hw : ∀ p ∈ Finset.Ico lo hi, w p = c) :
    ∑ p ∈ Finset.Ico lo hi, overlap P a s p * w p =
      (min (a + s) (hi * P) - max a (lo * P)) * c := by
  rw [← sum_overlap_Ico h, Finset.sum_mul]
  exact Finset.sum_congr rfl fun p hp => by rw [hw p hp]

theorem overlap_of_inside {p : Nat} (hlo : a ≤ p * P) (hhi : (p + 1) * P ≤ a + s) :
    overlap P a s p = P := by
  unfold overlap
  rw [Nat.succ_mul] at hhi ⊢
  omega

theorem sum_inside {lo hi : Nat} (w : Nat → Nat) (hlo : a ≤ lo * P) (hhi : hi * P ≤ a + s) :
    ∑ p ∈ Finset.Ico lo hi, overlap P a s p * w p = ∑ p ∈ Finset.Ico lo hi, P * w p := by
  refine Finset.sum_congr rfl fun p hp => ?_
  obtain ⟨hp1, hp2⟩ := Finset.mem_Ico.mp hp
  have h1 : lo * P ≤ p * P := Nat.mul_le_mul_right P hp1
  have h2 : (p + 1) * P ≤ hi * P := Nat.mul_le_mul_right P hp2
  rw [overlap_of_inside (by omega) (by omega)]

section Bounds

variable (hP : 0 < P)
include hP

theorem div_mul_le_lt (a : Nat) : a / P * P ≤ a ∧ a < (a / P + 1) * P := by
  refine ⟨Nat.div_mul_le_self a P, ?_⟩
  rw [Nat.succ_mul]
  exact Nat.lt_div_mul_add hP

theorem end_bounds (hs : 0 < s) :
    a + s ≤ (a + s + P - 1) / P * P ∧ ((a + s + P - 1) / P - 1) * P < a + s ∧
      a / P < (a + s + P - 1) / P := by
  have hdiv := Nat.div_add_mod (a + s + P - 1) P
  have hmod := Nat.mod_lt (a + s + P - 1) hP
  rw [Nat.mul_comm] at hdiv
  have hend : a + s ≤ (a + s + P - 1) / P * P := by omega
  refine ⟨hend, ?_, ?_⟩
  · rw [Nat.sub_mul, Nat.one_mul]
    omega
  · have hb := Nat.div_mul_le_self a P
    exact Nat.lt_of_mul_lt_mul_right (a := P) (by omega)

theorem spread_eq_const (hs : 0 < s) {c : Nat} {w : Nat → Nat}
    (hw : ∀ p ∈ Finset.Ico (a / P) ((a + s + P - 1) / P), w p = c) :
    spread P a s w = s * c := by
  obtain ⟨h1, -⟩ := div_mul_le_lt hP a
  obtain ⟨h3, -, h5⟩ := end_bounds hP hs
  unfold spread
  rw [sum_overlap_mul_const h5.le hw]
  congr 1
  omega

theorem spread_eq_head_add (hs : 0 < s) {m c : Nat} {w : Nat → Nat} (hm : a / P < m)
    (hme : m < (a + s + P - 1) / P) (hw : ∀ p ∈ Finset.Ico (a / P) m, w p = c) :
    spread P a s w = (m * P - a) * c + ∑ p ∈ Finset.Ico m ((a + s + P - 1) / P - 1), P * w p +
      (a + s - ((a + s + P - 1) / P - 1) * P) * w ((a + s + P - 1) / P - 1) := by
  obtain ⟨h1, h2⟩ := div_mul_le_lt hP a
  obtain ⟨h3, h4, -⟩ := end_bounds hP hs
  obtain ⟨e, he⟩ : ∃ e, e = (a + s + P - 1) / P := ⟨_, rfl⟩
  rw [← he] at hme h3 h4 ⊢
  have hbm : (a / P + 1) * P ≤ m * P := Nat.mul_le_mul_right P hm
  have hml : m * P ≤ (e - 1) * P := Nat.mul_le_mul_right P (by omega)
  have hsingle : ∑ p ∈ Finset.Ico (e - 1) e, overlap P a s p * w p =
      overlap P a s (e - 1) * w (e - 1) := by
    obtain ⟨d, rfl⟩ : ∃ d, e = d + 1 := ⟨e - 1, by omega⟩
    simp
  unfold spread
  rw [← he, ← Finset.sum_Ico_consecutive _ hm.le hme.le,
    ← Finset.sum_Ico_consecutive _ (show m ≤ e - 1 by omega) (show e - 1 ≤ e by omega),
    sum_overlap_mul_const hm.le hw, sum_inside w (by omega) (by omega), hsingle, Nat.add_assoc]
  unfold overlap
  rw [Nat.sub_add_cancel (show 1 ≤ e by omega), Nat.min_eq_right (show m * P ≤ a + s by omega),
    Nat.max_eq_left h1, Nat.min_eq_left h3, Nat.max_eq_right (show a ≤ (e - 1) * P by omega)]

theorem spread_aligned (b n : Nat) (w : Nat → Nat) :
    spread P (b * P) (n * P) w = P * ∑ j ∈ Finset.range n, w (b + j) := by
  have hend : (b * P + n * P + P - 1) / P = b + n := by
    rw [← Nat.add_mul, Nat.add_sub_assoc hP, Nat.add_comm, Nat.add_mul_div_right _ _ hP,
      Nat.div_eq_of_lt (by omega), Nat.zero_add]
  unfold spread
  rw [Nat.mul_div_cancel _ hP, hend,
    sum_inside w (le_refl _) (by rw [Nat.add_mul]), Finset.sum_Ico_eq_sum_range,
    Nat.add_sub_cancel_left, Finset.mul_sum]

end Bounds

end TCMalloc.Lib.PageSpan
