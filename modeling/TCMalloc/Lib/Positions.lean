import Mathlib.Data.Finset.Card
import Mathlib.Logic.Function.Basic

/-!
Lists read by position.  A duplicate-free list holds each element at one
position, so what a walk takes from distinct positions is distinct; distinct
naturals below `n` number at most `n`; and a buffer `Nat → β` written at
consecutive positions reads back, over those positions, as the list of what was
written, and a fold of writes reads back as the last write to each position.
Ranges of positions are `(start, length)` pairs.
-/

set_option autoImplicit false
set_option relaxedAutoImplicit false

namespace TCMalloc.Lib

variable {β : Type}

theorem index_eq_of_nodup {l : List β} (hnd : l.Nodup) {i j : Nat} {c : β} (hi : l[i]? = some c)
    (hj : l[j]? = some c) : i = j :=
  (List.getElem?_inj (List.getElem?_eq_some_iff.mp hi).1 hnd).mp (hi.trans hj.symm)

theorem length_le_of_nodup {l : List Nat} {n : Nat} (hnd : l.Nodup) (hlt : ∀ c ∈ l, c < n) :
    l.length ≤ n := by
  have hsub : l.toFinset ⊆ Finset.range n := fun c hc =>
    Finset.mem_range.mpr (hlt c (List.mem_toFinset.mp hc))
  calc l.length = l.toFinset.card := (List.toFinset_card_of_nodup hnd).symm
    _ ≤ (Finset.range n).card := Finset.card_le_card hsub
    _ = n := Finset.card_range n

/-- The first `n` positions of a buffer. -/
def prefixOf (buf : Nat → β) (n : Nat) : List β := (List.range n).map buf

@[simp] theorem length_prefixOf (buf : Nat → β) (n : Nat) : (prefixOf buf n).length = n := by
  simp [prefixOf]

theorem prefixOf_update (buf : Nat → β) (n : Nat) (e : β) :
    prefixOf (Function.update buf n e) (n + 1) = prefixOf buf n ++ [e] := by
  have hkeep : ∀ i ∈ List.range n, Function.update buf n e i = buf i := fun i hi =>
    Function.update_of_ne (Nat.ne_of_lt (List.mem_range.mp hi)) _ _
  rw [prefixOf, List.range_succ, List.map_append, List.map_congr_left hkeep]
  simp [prefixOf]

theorem prefixOf_succ (buf : Nat → β) (n : Nat) : prefixOf buf (n + 1) = prefixOf buf n ++ [buf n] := by
  simp [prefixOf, List.range_succ]

theorem prefixOf_getD (l : List β) (d : β) : prefixOf (fun j => l.getD j d) l.length = l := by
  apply List.ext_getElem
  · simp
  · intro i h₁ h₂
    simp [prefixOf, List.getElem?_eq_getElem h₂]

theorem prefixOf_eq_append_pop (buf : Nat → β) {n r : Nat} (hr : r ≤ n) :
    prefixOf buf n = prefixOf buf (n - r) ++ ((List.range r).map fun i => buf (n - 1 - i)).reverse := by
  induction r with
  | zero => simp
  | succ r ih =>
      have hsplit : n - r = n - (r + 1) + 1 := by omega
      have htop : n - 1 - r = n - (r + 1) := by omega
      rw [ih (by omega), hsplit, prefixOf_succ, List.range_succ, List.map_append, List.reverse_append]
      simp [htop]

theorem foldl_update_apply (l : List Nat) (v : Nat → β) (g : Nat → β) (x : Nat) :
    l.foldl (fun g c => Function.update g c (v c)) g x = if x ∈ l then v x else g x := by
  induction l generalizing g with
  | nil => simp
  | cons c l ih =>
      rw [List.foldl_cons, ih]
      by_cases hxl : x ∈ l
      · simp [hxl]
      · by_cases hxc : x = c
        · subst hxc
          simp
        · simp [hxl, hxc]

theorem foldl_apply_of_forall {γ : Type} (l : List γ) (f : (Nat → β) → γ → Nat → β) (g : Nat → β)
    (x : Nat) (keep : ∀ y ∈ l, ∀ g, f g y x = g x) : l.foldl f g x = g x := by
  induction l generalizing g with
  | nil => rfl
  | cons y l ih =>
      rw [List.foldl_cons, ih _ (fun z hz => keep z (List.mem_cons_of_mem y hz)), keep y List.mem_cons_self]

/-- Two ranges `(start, length)` of positions do not overlap. -/
def RangesApart (r r' : Nat × Nat) : Prop := r.1 + r.2 ≤ r'.1 ∨ r'.1 + r'.2 ≤ r.1

instance : Std.Symm RangesApart := ⟨fun _ _ h => h.symm⟩

end TCMalloc.Lib
