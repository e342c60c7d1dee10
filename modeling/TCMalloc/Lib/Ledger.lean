import Mathlib

/-!
Accounts of natural numbers over a finite set of keys.  A step that changes one
account changes the total by as much; crediting a list of entries to their
accounts adds to each account the weights of its entries.
-/

set_option autoImplicit false
set_option relaxedAutoImplicit false

namespace TCMalloc.Lib.Ledger

section Point

variable {ι : Type} {s : Finset ι} {f g : ι → Nat} {j : ι}

theorem sum_add_eq_of_eq_off (hj : j ∈ s) (hoff : ∀ i ∈ s, i ≠ j → g i = f i) :
    ∑ i ∈ s, g i + f j = ∑ i ∈ s, f i + g j := by
  classical
  rw [← Finset.add_sum_erase s g hj, ← Finset.add_sum_erase s f hj]
  have hrest : ∑ i ∈ s.erase j, g i = ∑ i ∈ s.erase j, f i :=
    Finset.sum_congr rfl fun i hi => hoff i (Finset.mem_of_mem_erase hi) (Finset.ne_of_mem_erase hi)
  rw [hrest]
  omega

end Point

section Credit

variable {α ι : Type} [DecidableEq ι] (acct : α → ι) (w : α → Nat)

/-- Add the weight of each entry of `l` to its account, in order. -/
def credit (l : List α) (bal : ι → Nat) : ι → Nat :=
  l.foldl (fun b e => Function.update b (acct e) (b (acct e) + w e)) bal

theorem credit_append (l l' : List α) (bal : ι → Nat) :
    credit acct w (l ++ l') bal = credit acct w l' (credit acct w l bal) := by
  unfold credit
  rw [List.foldl_append]

theorem credit_apply (l : List α) (bal : ι → Nat) (x : ι) :
    credit acct w l bal x = bal x + ((l.filter fun e => acct e = x).map w).sum := by
  induction l generalizing bal with
  | nil => simp [credit]
  | cons e l ih =>
      change credit acct w l (Function.update bal (acct e) (bal (acct e) + w e)) x = _
      rw [ih, List.filter_cons]
      by_cases he : acct e = x
      · subst he
        simp only [Function.update_self, decide_true, ↓reduceIte, List.map_cons, List.sum_cons]
        omega
      · simp [Function.update_of_ne (Ne.symm he), he]

end Credit

theorem sum_Ico_eq_sum_range' (f : Nat → Nat) (a b : Nat) :
    ∑ i ∈ Finset.Ico a b, f i = ((List.range' a (b - a)).map f).sum := by
  rw [Nat.Ico_eq_range']
  rfl

end TCMalloc.Lib.Ledger
