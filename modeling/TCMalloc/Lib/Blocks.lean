import Mathlib.Data.Nat.Count
import TCMalloc.Lib.Scan

/-!
An index space cut into blocks of `P` consecutive indices.  A walk over a range
`[a, a + n)` that stops at every block boundary takes first the piece
`min n ((a / P + 1) * P - a)`, which lies in block `a / P`; what it does per
block is described by how many indices of each block a predicate holds on and
by which blocks the range touches.
-/

set_option autoImplicit false
set_option relaxedAutoImplicit false

namespace TCMalloc.Lib.Blocks

open TCMalloc.Lib.Scan

/-- The number of indices of block `i`, `[i * P, (i + 1) * P)`, on which `p` holds. -/
def blockCount (p : Nat → Bool) (P i : Nat) : Nat :=
  Nat.count (fun k => p k = true) ((i + 1) * P) - Nat.count (fun k => p k = true) (i * P)

/-- Some index of `[a, a + n)` lies in block `h`. -/
def Touches (P h a n : Nat) : Prop := ∃ k, a ≤ k ∧ k < a + n ∧ k / P = h

theorem not_touches_zero (P h a : Nat) : ¬ Touches P h a 0 := fun ⟨_, hk, hk', _⟩ => by omega

section Piece

variable {P : Nat} (hP : 0 < P)
include hP

theorem div_mul_le_self_lt (a : Nat) : a / P * P ≤ a ∧ a < (a / P + 1) * P := by
  refine ⟨Nat.div_mul_le_self a P, ?_⟩
  rw [Nat.succ_mul]
  exact Nat.lt_div_mul_add hP

theorem piece_spec (a n : Nat) (hn : 0 < n) :
    0 < min n ((a / P + 1) * P - a) ∧ a / P * P ≤ a ∧
      a + min n ((a / P + 1) * P - a) ≤ (a / P + 1) * P := by
  have ⟨hlo, hhi⟩ := div_mul_le_self_lt hP a
  refine ⟨?_, hlo, ?_⟩ <;> omega

theorem div_eq_of_mem_block {h k : Nat} (hlo : h * P ≤ k) (hhi : k < (h + 1) * P) : k / P = h := by
  rw [Nat.div_eq_iff hP]
  rw [Nat.succ_mul] at hhi
  exact ⟨hlo, by omega⟩

theorem mem_block_of_div_eq {h k : Nat} (hk : k / P = h) : h * P ≤ k ∧ k < (h + 1) * P := by
  subst hk
  exact div_mul_le_self_lt hP k

theorem touches_iff_piece (h a n : Nat) (hn : 0 < n) :
    Touches P h a n ↔
      h = a / P ∨ Touches P h (a + min n ((a / P + 1) * P - a)) (n - min n ((a / P + 1) * P - a)) := by
  obtain ⟨hpos, hlo, hhi⟩ := piece_spec hP a n hn
  constructor
  · rintro ⟨k, hak, hkn, rfl⟩
    by_cases hk : k < a + min n ((a / P + 1) * P - a)
    · left
      exact div_eq_of_mem_block hP (by omega) (by omega)
    · right
      exact ⟨k, by omega, by omega, rfl⟩
  · rintro (rfl | ⟨k, hak, hkn, rfl⟩)
    · exact ⟨a, le_rfl, by omega, rfl⟩
    · exact ⟨k, by omega, by omega, rfl⟩

theorem not_touches_piece_rest (a n : Nat) :
    ¬ Touches P (a / P) (a + min n ((a / P + 1) * P - a)) (n - min n ((a / P + 1) * P - a)) := by
  rintro ⟨k, hk, hk', hdiv⟩
  have := mem_block_of_div_eq hP hdiv
  omega

end Piece

section Count

variable (p q : Nat → Bool) {P : Nat}

theorem blockCount_pos (hP : 0 < P) {k : Nat} (hk : p k = true) : 0 < blockCount p P (k / P) := by
  unfold blockCount
  obtain ⟨hlo, hhi⟩ := div_mul_le_self_lt hP k
  have hbelow := Nat.count_monotone (fun k => p k = true) hlo
  have habove := Nat.count_monotone (fun k => p k = true) (show k + 1 ≤ (k / P + 1) * P by omega)
  have hat : Nat.count (fun k => p k = true) (k + 1) = Nat.count (fun k => p k = true) k + 1 := by
    rw [Nat.count_succ, if_pos hk]
  omega

theorem blockCount_mono (hpq : ∀ k, p k = true → q k = true) (i : Nat) :
    blockCount p P i ≤ blockCount q P i := by
  unfold blockCount
  rw [Nat.succ_mul, Nat.count_add, Nat.count_add, Nat.add_sub_cancel_left, Nat.add_sub_cancel_left]
  exact Nat.count_mono_left fun k _ hk => hpq _ hk

theorem clear_of_blockCount_eq_zero {i : Nat} (h : blockCount p P i = 0) :
    ∀ k, i * P ≤ k → k < (i + 1) * P → p k = false := by
  unfold blockCount at h
  rw [Nat.succ_mul, Nat.count_add, Nat.add_sub_cancel_left, Nat.count_iff_forall_not] at h
  intro k hlo hhi
  have := h (k - i * P) (by rw [Nat.succ_mul] at hhi; omega)
  rw [Nat.add_sub_cancel' hlo] at this
  simpa using this

theorem blockCount_of_set_range (a n i₀ : Nat)
    (outside : ∀ k, (k < a ∨ a + n ≤ k) → q k = p k)
    (inside : ∀ k, a ≤ k → k < a + n → p k = false ∧ q k = true)
    (lo : i₀ * P ≤ a) (hi : a + n ≤ (i₀ + 1) * P) (i : Nat) :
    blockCount q P i = blockCount p P i + if i = i₀ then n else 0 := by
  unfold blockCount
  rw [count_of_set_range p q a n outside inside, count_of_set_range p q a n outside inside]
  have hle : i * P ≤ (i + 1) * P := Nat.mul_le_mul_right P (Nat.le_add_right i 1)
  have hmono := Nat.count_monotone (fun k => p k = true) hle
  rcases Nat.lt_trichotomy i i₀ with hlt | rfl | hgt
  · have hbelow : (i + 1) * P ≤ i₀ * P := Nat.mul_le_mul_right P hlt
    rw [if_neg (Nat.ne_of_lt hlt)]
    omega
  · rw [if_pos rfl]
    omega
  · have habove : (i₀ + 1) * P ≤ i * P := Nat.mul_le_mul_right P hgt
    rw [if_neg (Nat.ne_of_gt hgt)]
    omega

theorem count_comp_div (hP : 0 < P) (H : Nat) :
    Nat.count (fun k => p (k / P) = true) (H * P) = Nat.count (fun h => p h = true) H * P := by
  induction H with
  | zero => simp
  | succ H ih =>
      have hdiv : ∀ k < P, (H * P + k) / P = H := fun k hk =>
        div_eq_of_mem_block hP (by omega) (by rw [Nat.succ_mul]; omega)
      have hblock : Nat.count (fun k => p ((H * P + k) / P) = true) P =
          if p H = true then P else 0 := by
        split
        · exact Nat.count_iff_forall.mpr fun k hk => by rw [hdiv k hk]; assumption
        · exact Nat.count_iff_forall_not.mpr fun k hk => by rw [hdiv k hk]; assumption
      rw [Nat.succ_mul, Nat.count_add, ih, hblock, Nat.count_succ, Nat.add_mul]
      split <;> simp

end Count

end TCMalloc.Lib.Blocks
