import TCMalloc.Lib.Scan
import Mathlib.Data.List.Range

/-!
The bits of a 64-bit word, `w.getLsbD k` for `k < 64`, and the word operations a bitmap of
such words is built from: the masks `~0 << s`, `(~0 >> (64 - n)) << s`, `(2 << s) - 1`
and `~0 >> d`, clearing the lowest set bit with `w & (w - 1)`, and the scans
`countr_zero`, `bit_width` and `popcount`, here defined by the searches of `Scan`.
-/

set_option autoImplicit false
set_option relaxedAutoImplicit false

namespace TCMalloc.Lib.Word64

open TCMalloc.Lib.Scan

/-- `countr_zero`: the index of the lowest set bit, `64` when there is none. -/
def countrZero (w : BitVec 64) : Nat := firstFrom (fun k => w.getLsbD k) 64 0

/-- `bit_width`: one more than the index of the highest set bit, `0` when there is none. -/
def bitWidth (w : BitVec 64) : Nat := (lastAtOrBelow (fun k => w.getLsbD k) 63 + 1).toNat

/-- `popcount`. -/
def popcount (w : BitVec 64) : Nat := Nat.count (fun k => w.getLsbD k = true) 64

/-- The set bits of a word, lowest first. -/
def setBits (w : BitVec 64) : List Nat := (List.range 64).filter fun k => w.getLsbD k

theorem eq_zero_of_getLsbD {w : BitVec 64} (h : ∀ k < 64, w.getLsbD k = false) : w = 0 :=
  BitVec.eq_of_getLsbD_eq fun k hk => by simp [h k hk]

theorem countrZero_spec {w : BitVec 64} (hw : w ≠ 0) :
    countrZero w < 64 ∧ w.getLsbD (countrZero w) = true ∧
      ∀ k < countrZero w, w.getLsbD k = false := by
  have hnone := noneIn_firstFrom (fun k => w.getLsbD k) 64 0
  have hlt : countrZero w < 64 := by
    apply Nat.lt_of_not_le
    intro hge
    exact hw (eq_zero_of_getLsbD fun k hk => hnone k (Nat.zero_le k) (by unfold countrZero at hge; omega))
  exact ⟨hlt, firstFrom_spec _ 64 0 (by unfold countrZero at hlt; omega),
    fun k hk => hnone k (Nat.zero_le k) hk⟩

theorem bitWidth_spec {w : BitVec 64} (hw : w ≠ 0) :
    0 < bitWidth w ∧ bitWidth w ≤ 64 ∧ w.getLsbD (bitWidth w - 1) = true ∧
      ∀ k, bitWidth w ≤ k → w.getLsbD k = false := by
  have hle := lastAtOrBelow_le (fun k => w.getLsbD k) 63
  have hge := neg_one_le_lastAtOrBelow (fun k => w.getLsbD k) 63
  have habove := noneAbove_lastAtOrBelow (fun k => w.getLsbD k) 63
  -- a non-zero word has a set bit, so the search finds one
  have hfound : 0 ≤ lastAtOrBelow (fun k => w.getLsbD k) 63 := by
    apply Int.le_of_not_gt
    intro hneg
    exact hw (eq_zero_of_getLsbD fun k hk => habove k (by omega) (by omega))
  have hspec := lastAtOrBelow_spec (fun k => w.getLsbD k) 63 hfound
  have hwidth : bitWidth w = (lastAtOrBelow (fun k => w.getLsbD k) 63).toNat + 1 := by
    unfold bitWidth
    omega
  refine ⟨by omega, by omega, by rw [hwidth, Nat.add_sub_cancel]; exact hspec, fun k hk => ?_⟩
  rcases Nat.lt_or_ge k 64 with hk64 | hk64
  · exact habove k (by omega) (by omega)
  · exact BitVec.getLsbD_of_ge w k hk64

theorem getLsbD_highMask (s k : Nat) :
    (BitVec.allOnes 64 <<< s).getLsbD k = (decide (k < 64) && decide (s ≤ k)) := by
  rw [BitVec.getLsbD_shiftLeft, BitVec.getLsbD_allOnes]
  by_cases hk : k < 64
  · by_cases hs : s ≤ k
    · simp [hk, hs]
      omega
    · simp [hk, hs]
  · simp [hk]

theorem getLsbD_rangeMask {s t : Nat} (hst : s < t) (ht : t ≤ 64) (k : Nat) :
    ((BitVec.allOnes 64 >>> (64 - (t - s))) <<< s).getLsbD k =
      (decide (s ≤ k) && decide (k < t)) := by
  rw [BitVec.getLsbD_shiftLeft, BitVec.getLsbD_ushiftRight, BitVec.getLsbD_allOnes]
  by_cases hk : k < 64 <;> by_cases hs : s ≤ k <;> by_cases hkt : k < t <;> simp [hk, hs, hkt] <;>
    omega

theorem getLsbD_one_shiftLeft {s : Nat} (hs : s < 64) (k : Nat) :
    (1#64 <<< s).getLsbD k = decide (k = s) := by
  rw [BitVec.getLsbD_shiftLeft, BitVec.getLsbD_one]
  by_cases hk : k = s
  · subst hk
    simp [hs]
  · by_cases hks : k < s
    · simp [hk, hks]
    · simp [hk, hks]
      omega

theorem getLsbD_lowMask {s : Nat} (hs : s < 64) (k : Nat) :
    ((2#64 <<< s) - 1#64).getLsbD k = decide (k ≤ s) := by
  have hpow : 2 ^ (s + 1) ≤ 2 ^ 64 := Nat.pow_le_pow_right (by decide) (by omega)
  have hpos : 0 < 2 ^ (s + 1) := Nat.two_pow_pos _
  have htoNat : ((2#64 <<< s) - 1#64).toNat = 2 ^ (s + 1) - 1 := by
    rw [BitVec.toNat_sub, BitVec.toNat_shiftLeft, BitVec.toNat_ofNat, BitVec.toNat_ofNat,
      Nat.shiftLeft_eq, show 2 % 2 ^ 64 = 2 by decide, show 1 % 2 ^ 64 = 1 by decide,
      show 2 * 2 ^ s = 2 ^ (s + 1) by rw [Nat.pow_succ, Nat.mul_comm]]
    rcases Nat.lt_or_ge (s + 1) 64 with hlt | hge
    · have : 2 ^ (s + 1) < 2 ^ 64 := Nat.pow_lt_pow_right (by decide) hlt
      rw [Nat.mod_eq_of_lt this]
      omega
    · have h64 : s + 1 = 64 := by omega
      rw [h64, Nat.mod_self]
      decide
  rw [← BitVec.testBit_toNat, htoNat, Nat.testBit_two_pow_sub_one]
  exact decide_eq_decide.mpr Nat.lt_add_one_iff

theorem getLsbD_deadMask (d k : Nat) :
    (BitVec.allOnes 64 >>> d).getLsbD k = decide (d + k < 64) := by
  rw [BitVec.getLsbD_ushiftRight, BitVec.getLsbD_allOnes]

theorem getLsbD_and_sub_one {w : BitVec 64} (hw : w ≠ 0) (k : Nat) :
    (w &&& (w - 1#64)).getLsbD k = (w.getLsbD k && decide (k ≠ countrZero w)) := by
  obtain ⟨hlt, hset, hbelow⟩ := countrZero_spec hw
  obtain ⟨t, ht⟩ : ∃ t, t = countrZero w := ⟨_, rfl⟩
  rw [← ht] at hlt hset hbelow ⊢
  have hlow : w.toNat % 2 ^ (t + 1) = 2 ^ t := by
    apply Nat.eq_of_testBit_eq
    intro i
    rw [Nat.testBit_mod_two_pow, Nat.testBit_two_pow, BitVec.testBit_toNat]
    rcases Nat.lt_trichotomy i t with hi | hi | hi
    · rw [hbelow i hi, Bool.and_false]
      exact (decide_eq_false (by omega)).symm
    · subst hi
      simp [hset]
    · rw [decide_eq_false (by omega : ¬ i < t + 1), Bool.false_and,
        decide_eq_false (by omega : ¬ t = i)]
  -- the word is `2 ^ (t + 1) * q + 2 ^ t`, and one less is `2 ^ (t + 1) * q + (2 ^ t - 1)`
  obtain ⟨q, hq⟩ : ∃ q, w.toNat = 2 ^ (t + 1) * q + 2 ^ t :=
    ⟨w.toNat / 2 ^ (t + 1), by rw [← hlow, Nat.div_add_mod]⟩
  have hpow : 2 ^ t < 2 ^ (t + 1) := Nat.pow_lt_pow_right (by decide) (by omega)
  have hone : 1 ≤ 2 ^ t := Nat.one_le_two_pow
  have hsub : (w - 1#64).toNat = 2 ^ (t + 1) * q + (2 ^ t - 1) := by
    have := w.isLt
    rw [BitVec.toNat_sub, BitVec.toNat_ofNat, show 1 % 2 ^ 64 = 1 by decide]
    omega
  rw [← BitVec.testBit_toNat, BitVec.toNat_and, Nat.testBit_and, hsub, hq,
    Nat.testBit_two_pow_mul_add _ hpow, Nat.testBit_two_pow_mul_add _ (by omega),
    ← BitVec.testBit_toNat, hq, Nat.testBit_two_pow_mul_add _ hpow]
  by_cases hk : k < t + 1
  · simp only [if_pos hk]
    rw [Nat.testBit_two_pow, Nat.testBit_two_pow_sub_one]
    by_cases hkt : k = t
    · subst hkt
      simp
    · simp [hkt, Ne.symm hkt]
  · simp only [if_neg hk]
    rw [Bool.and_self, decide_eq_true (by omega : k ≠ t), Bool.and_true]

theorem setBits_of_ne_zero {w : BitVec 64} (hw : w ≠ 0) :
    setBits w = countrZero w :: setBits (w &&& (w - 1#64)) := by
  obtain ⟨hlt, hset, hbelow⟩ := countrZero_spec hw
  have hsplit : List.range 64 =
      List.range (countrZero w) ++ countrZero w ::
        (List.range (63 - countrZero w)).map fun x => countrZero w + 1 + x := by
    rw [show 64 = countrZero w + (1 + (63 - countrZero w)) by omega, List.range_add,
      List.range_add]
    simp [Nat.add_assoc]
  have hpre : ∀ p : Nat → Bool, (∀ k < countrZero w, p k = false) →
      (List.range (countrZero w)).filter p = [] := fun p hp =>
    List.filter_eq_nil_iff.mpr fun k hk => by rw [hp k (List.mem_range.mp hk)]; simp
  unfold setBits
  rw [hsplit, List.filter_append, List.filter_append, hpre _ hbelow,
    hpre _ (fun k hk => by rw [getLsbD_and_sub_one hw, hbelow k hk, Bool.false_and]),
    List.nil_append, List.nil_append, List.filter_cons_of_pos hset,
    List.filter_cons_of_neg (by rw [getLsbD_and_sub_one hw]; simp)]
  congr 1
  refine List.filter_congr fun k hk => ?_
  obtain ⟨x, -, rfl⟩ := List.mem_map.mp hk
  rw [getLsbD_and_sub_one hw, decide_eq_true (by omega : countrZero w + 1 + x ≠ countrZero w),
    Bool.and_true]

theorem setBits_zero : setBits 0 = [] := by
  unfold setBits
  rw [List.filter_eq_nil_iff]
  intro k _
  simp

theorem length_setBits_le (w : BitVec 64) : (setBits w).length ≤ 64 :=
  (List.length_filter_le _ _).trans (List.length_range ▸ Nat.le_refl 64)

theorem popcount_and_rangeMask (w : BitVec 64) {s t : Nat} (hst : s < t) (ht : t ≤ 64) :
    popcount (w &&& ((BitVec.allOnes 64 >>> (64 - (t - s))) <<< s)) =
      Nat.count (fun j => w.getLsbD (s + j) = true) (t - s) := by
  unfold popcount
  have hbits : ∀ k, (w &&& ((BitVec.allOnes 64 >>> (64 - (t - s))) <<< s)).getLsbD k =
      (w.getLsbD k && (decide (s ≤ k) && decide (k < t))) := fun k => by
    rw [BitVec.getLsbD_and, getLsbD_rangeMask hst ht]
  simp only [hbits]
  have hsplit : Nat.count (fun k => (w.getLsbD k && (decide (s ≤ k) && decide (k < t))) = true) 64 =
      Nat.count (fun k => (w.getLsbD k && (decide (s ≤ k) && decide (k < t))) = true)
        (s + (t - s) + (64 - t)) := by
    rw [show s + (t - s) + (64 - t) = 64 by omega]
  have hbefore : Nat.count (fun k => (w.getLsbD k && (decide (s ≤ k) && decide (k < t))) = true)
      s = 0 :=
    Nat.count_iff_forall_not.mpr fun k hk => by
      simp only [Bool.and_eq_true, decide_eq_true_eq]
      exact fun ⟨_, h1, _⟩ => by omega
  have hafter : Nat.count (fun k => (w.getLsbD (s + (t - s) + k) &&
      (decide (s ≤ s + (t - s) + k) && decide (s + (t - s) + k < t))) = true) (64 - t) = 0 :=
    Nat.count_iff_forall_not.mpr fun k hk => by
      simp only [Bool.and_eq_true, decide_eq_true_eq]
      exact fun ⟨_, _, h2⟩ => by omega
  rw [hsplit, Nat.count_add, Nat.count_add, hbefore, hafter, Nat.zero_add, Nat.add_zero]
  exact count_congr_of_lt _ (fun j => w.getLsbD (s + j)) fun k hk => by
    rw [decide_eq_true (by omega : s ≤ s + k), decide_eq_true (by omega : s + k < t), Bool.and_true,
      Bool.and_true]

end TCMalloc.Lib.Word64
