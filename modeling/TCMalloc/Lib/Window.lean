import Mathlib

/-!
Walks over a series of epoch counts that stop as soon as the epochs walked reach
a target.  `reachCount` is how many entries such a walk takes: no shorter prefix
reaches the target, the prefix it takes does when the whole series does, and
over a series whose entries are positive up to a tail of zeros it takes no more
entries than the target itself.
-/

set_option autoImplicit false
set_option relaxedAutoImplicit false

namespace TCMalloc.Lib

/-- The number of entries of `ds` a walk takes from the running total `acc` when
it stops after the first entry that brings the total to `e`. -/
def reachCount (e : Nat) : Nat → List Nat → Nat
  | _, [] => 0
  | acc, d :: ds => if e ≤ acc + d then 1 else reachCount e (acc + d) ds + 1

variable {e : Nat}

@[simp] theorem reachCount_nil (acc : Nat) : reachCount e acc [] = 0 := rfl

theorem reachCount_cons (acc d : Nat) (ds : List Nat) :
    reachCount e acc (d :: ds) = if e ≤ acc + d then 1 else reachCount e (acc + d) ds + 1 := rfl

theorem reachCount_le_length (acc : Nat) (ds : List Nat) : reachCount e acc ds ≤ ds.length := by
  induction ds generalizing acc with
  | nil => simp
  | cons d ds ih =>
      rw [reachCount_cons, List.length_cons]
      split
      · omega
      · exact Nat.succ_le_succ (ih (acc + d))

theorem sum_take_lt_of_lt_reachCount {acc : Nat} {ds : List Nat} {k : Nat} (hacc : acc < e)
    (hk : k < reachCount e acc ds) : acc + (ds.take k).sum < e := by
  induction ds generalizing acc k with
  | nil => simp at hk
  | cons d ds ih =>
      rw [reachCount_cons] at hk
      cases k with
      | zero => simpa using hacc
      | succ k =>
          split at hk
          · omega
          · have hrest := @ih (acc + d) k (by omega) (by omega)
            simp only [List.take_succ_cons, List.sum_cons]
            omega

theorem le_sum_take_reachCount {acc : Nat} {ds : List Nat} (h : e ≤ acc + ds.sum) :
    e ≤ acc + (ds.take (reachCount e acc ds)).sum := by
  induction ds generalizing acc with
  | nil => simpa using h
  | cons d ds ih =>
      rw [reachCount_cons]
      split
      · simpa using ‹e ≤ acc + d›
      · have hrest := @ih (acc + d) (by simp only [List.sum_cons] at h; omega)
        simp only [List.take_succ_cons, List.sum_cons]
        omega

theorem reachCount_append_zeros_le {acc : Nat} {pos : List Nat} (r : Nat) (hpos : ∀ d ∈ pos, 0 < d)
    (hlt : acc < e) (hreach : e ≤ acc + pos.sum) :
    reachCount e acc (pos ++ List.replicate r 0) ≤ min pos.length (e - acc) := by
  induction pos generalizing acc with
  | nil => simp at hreach; omega
  | cons d pos ih =>
      have hd : 0 < d := hpos d List.mem_cons_self
      rw [List.cons_append, reachCount_cons, List.length_cons]
      split
      · omega
      · have hrest := @ih (acc + d) (fun x hx => hpos x (List.mem_cons_of_mem d hx)) (by omega)
          (by simp only [List.sum_cons] at hreach; omega)
        omega

end TCMalloc.Lib
