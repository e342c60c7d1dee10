import Mathlib.Data.List.TakeDrop
import Mathlib.Data.List.TakeWhile

/-!
A list kept sorted by a transitive relation, and one element put back into it
where a walk over the list stops.  A walk that passes the elements satisfying
`p` stops at `dropWhile p`; the element may go there when it follows every
element passed and precedes the one the walk stops at.  Walking backwards is
the same walk over the reversed list, sorted by the converse relation.
-/

set_option autoImplicit false
set_option relaxedAutoImplicit false

namespace TCMalloc.Lib.SortedList

variable {α : Type*} {R : α → α → Prop}

theorem pairwise_insert {l₁ l₂ : List α} {x : α} (hl : (l₁ ++ l₂).Pairwise R)
    (h₁ : ∀ a ∈ l₁, R a x) (h₂ : ∀ b ∈ l₂, R x b) : (l₁ ++ x :: l₂).Pairwise R := by
  rw [List.pairwise_append] at hl ⊢
  obtain ⟨hp₁, hp₂, hcross⟩ := hl
  refine ⟨hp₁, List.pairwise_cons.mpr ⟨h₂, hp₂⟩, fun a ha b hb => ?_⟩
  rcases List.mem_cons.mp hb with rfl | hb
  · exact h₁ a ha
  · exact hcross a ha b hb

theorem pairwise_of_insert {l₁ l₂ : List α} {x : α} (hl : (l₁ ++ x :: l₂).Pairwise R) :
    (l₁ ++ l₂).Pairwise R :=
  hl.sublist (List.Sublist.append_left (List.sublist_cons_self x l₂) l₁)

theorem rel_dropWhile (htrans : ∀ a b c, R a b → R b c → R a c) (p : α → Bool) {l : List α}
    {x : α} (hl : l.Pairwise R) (hstop : ∀ a ∈ l, p a = false → R x a) :
    ∀ b ∈ l.dropWhile p, R x b := by
  intro b hb
  cases hd : l.dropWhile p with
  | nil =>
      rw [hd] at hb
      exact absurd hb List.not_mem_nil
  | cons c rest =>
      have hne : l.dropWhile p ≠ [] := by
        rw [hd]
        exact List.cons_ne_nil c rest
      have hc : p c = false := by
        have := List.head_dropWhile_not p hne
        simpa only [hd, List.head_cons] using this
      have hcl : c ∈ l := (List.dropWhile_sublist p).subset (by rw [hd]; exact List.mem_cons_self)
      have hsorted : (c :: rest).Pairwise R := hd ▸ hl.sublist (List.dropWhile_sublist p)
      rw [hd] at hb
      rcases List.mem_cons.mp hb with rfl | hb
      · exact hstop b hcl hc
      · exact htrans _ _ _ (hstop c hcl hc) (List.rel_of_pairwise_cons hsorted hb)

theorem pairwise_insert_dropWhile (htrans : ∀ a b c, R a b → R b c → R a c) (p : α → Bool)
    {l : List α} {x : α} (hl : l.Pairwise R) (hpass : ∀ a ∈ l, p a = true → R a x)
    (hstop : ∀ a ∈ l, p a = false → R x a) :
    (l.takeWhile p ++ x :: l.dropWhile p).Pairwise R := by
  apply pairwise_insert (by rw [List.takeWhile_append_dropWhile]; exact hl)
  · intro a ha
    exact hpass a ((List.takeWhile_sublist p).subset ha) (List.mem_takeWhile_imp ha)
  · exact rel_dropWhile htrans p hl hstop

theorem pairwise_insert_dropWhile_reverse (htrans : ∀ a b c, R a b → R b c → R a c)
    (p : α → Bool) {l : List α} {x : α} (hl : l.Pairwise R) (hpass : ∀ a ∈ l, p a = true → R x a)
    (hstop : ∀ a ∈ l, p a = false → R a x) :
    ((l.reverse.dropWhile p).reverse ++ x :: (l.reverse.takeWhile p).reverse).Pairwise R := by
  have htrans' : ∀ a b c, R b a → R c b → R c a := fun a b c hab hbc => htrans c b a hbc hab
  have hrev : (l.reverse.takeWhile p ++ x :: l.reverse.dropWhile p).Pairwise fun a b => R b a :=
    pairwise_insert_dropWhile htrans' p (List.pairwise_reverse.mpr hl)
      (fun a ha => hpass a (List.mem_reverse.mp ha)) (fun a ha => hstop a (List.mem_reverse.mp ha))
  have h := List.pairwise_reverse.mpr hrev
  simpa only [List.reverse_append, List.reverse_cons, List.append_assoc, List.singleton_append]
    using h

theorem takeWhile_append_dropWhile_reverse (p : α → Bool) (l : List α) :
    (l.reverse.dropWhile p).reverse ++ (l.reverse.takeWhile p).reverse = l := by
  rw [← List.reverse_append, List.takeWhile_append_dropWhile, List.reverse_reverse]

end TCMalloc.Lib.SortedList
