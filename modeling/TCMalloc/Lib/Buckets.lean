import Mathlib

/-!
Elements of a finite set kept on lists by a key: list `k` holds exactly the elements of
the set whose key is `k`, and an element whose key is `none` is on no list.  Putting an
element on the list of its key, taking one off, and changing the keys of elements
outside the set keep this.
-/

set_option autoImplicit false
set_option relaxedAutoImplicit false

namespace TCMalloc.Lib.Buckets

variable {α κ : Type}

/-- The lists `L` hold exactly the elements of `S`, each once, on the list its key names. -/
structure Holds (L : κ → List α) (S : Finset α) (key : α → Option κ) : Prop where
  mem_iff : ∀ k a, a ∈ L k ↔ a ∈ S ∧ key a = some k
  nodup : ∀ k, (L k).Nodup

variable {L : κ → List α} {S : Finset α} {key : α → Option κ} {a : α} {k : κ}

theorem holds_empty : Holds (fun _ => ([] : List α)) ∅ key :=
  ⟨fun _ _ => by simp, fun _ => List.nodup_nil⟩

theorem Holds.not_mem (h : Holds L S key) (ha : a ∉ S) (k : κ) : a ∉ L k :=
  fun hmem => ha ((h.mem_iff k a).mp hmem).1

theorem Holds.mem (h : Holds L S key) (ha : a ∈ S) (hk : key a = some k) : a ∈ L k :=
  (h.mem_iff k a).mpr ⟨ha, hk⟩

theorem Holds.congr (h : Holds L S key) {key' : α → Option κ} (hkey : ∀ b ∈ S, key' b = key b) :
    Holds L S key' := by
  refine ⟨fun k b => ?_, h.nodup⟩
  rw [h.mem_iff k b]
  constructor
  · rintro ⟨hb, hk⟩
    exact ⟨hb, (hkey b hb).trans hk⟩
  · rintro ⟨hb, hk⟩
    exact ⟨hb, (hkey b hb).symm.trans hk⟩

section Update

variable [DecidableEq α] [DecidableEq κ]

/-- `a` put on list `k`. -/
def insertAt (L : κ → List α) (k : κ) (a : α) : κ → List α := Function.update L k (a :: L k)

/-- `a` taken off list `k`. -/
def eraseAt (L : κ → List α) (k : κ) (a : α) : κ → List α := Function.update L k ((L k).erase a)

theorem Holds.insert (h : Holds L S key) (ha : a ∉ S) (hk : key a = some k) :
    Holds (insertAt L k a) (insert a S) key := by
  refine ⟨fun k' b => ?_, fun k' => ?_⟩
  · by_cases hkk : k' = k
    · subst hkk
      simp only [insertAt, Function.update_self, List.mem_cons, Finset.mem_insert]
      rw [h.mem_iff k' b]
      constructor
      · rintro (rfl | ⟨hb, hkey⟩)
        · exact ⟨Or.inl rfl, hk⟩
        · exact ⟨Or.inr hb, hkey⟩
      · rintro ⟨rfl | hb, hkey⟩
        · exact Or.inl rfl
        · exact Or.inr ⟨hb, hkey⟩
    · simp only [insertAt, Function.update_of_ne hkk, Finset.mem_insert]
      rw [h.mem_iff k' b]
      constructor
      · rintro ⟨hb, hkey⟩
        exact ⟨Or.inr hb, hkey⟩
      · rintro ⟨rfl | hb, hkey⟩
        · rw [hk] at hkey
          exact absurd (Option.some.inj hkey).symm hkk
        · exact ⟨hb, hkey⟩
  · by_cases hkk : k' = k
    · subst hkk
      simp only [insertAt, Function.update_self]
      exact List.nodup_cons.mpr ⟨h.not_mem ha k', h.nodup k'⟩
    · simp only [insertAt, Function.update_of_ne hkk]
      exact h.nodup k'

theorem Holds.erase (h : Holds L S key) (hk : key a = some k) :
    Holds (eraseAt L k a) (S.erase a) key := by
  refine ⟨fun k' b => ?_, fun k' => ?_⟩
  · by_cases hkk : k' = k
    · subst hkk
      simp only [eraseAt, Function.update_self, Finset.mem_erase]
      rw [(h.nodup k').mem_erase_iff, h.mem_iff k' b, and_assoc]
    · simp only [eraseAt, Function.update_of_ne hkk, Finset.mem_erase]
      rw [h.mem_iff k' b]
      constructor
      · rintro ⟨hb, hkey⟩
        refine ⟨⟨?_, hb⟩, hkey⟩
        rintro rfl
        rw [hk] at hkey
        exact hkk (Option.some.inj hkey).symm
      · rintro ⟨⟨-, hb⟩, hkey⟩
        exact ⟨hb, hkey⟩
  · by_cases hkk : k' = k
    · subst hkk
      simp only [eraseAt, Function.update_self]
      exact (h.nodup k').erase a
    · simp only [eraseAt, Function.update_of_ne hkk]
      exact h.nodup k'

end Update

section Pairs

variable [DecidableEq α] {β γ : Type} [DecidableEq β] [DecidableEq γ] {L : β × γ → List α} {b b' : β} {c : γ}

omit [DecidableEq α] in
theorem insertAt_slice_self :
    (fun c' => insertAt L (b, c) a (b, c')) = Function.update (fun c' => L (b, c')) c (a :: L (b, c)) := by
  funext c'
  by_cases hc : c' = c
  · subst hc
    simp [insertAt]
  · simp [insertAt, Function.update_of_ne hc, Function.update_of_ne (fun h => hc (Prod.mk.inj h).2)]

omit [DecidableEq α] in
theorem insertAt_slice_ne (hb : b' ≠ b) : (fun c' => insertAt L (b, c) a (b', c')) = fun c' => L (b', c') := by
  funext c'
  exact Function.update_of_ne (fun h => hb (Prod.mk.inj h).1) _ _

theorem eraseAt_slice_self :
    (fun c' => eraseAt L (b, c) a (b, c')) = Function.update (fun c' => L (b, c')) c ((L (b, c)).erase a) := by
  funext c'
  by_cases hc : c' = c
  · subst hc
    simp [eraseAt]
  · simp [eraseAt, Function.update_of_ne hc, Function.update_of_ne (fun h => hc (Prod.mk.inj h).2)]

theorem eraseAt_slice_ne (hb : b' ≠ b) : (fun c' => eraseAt L (b, c) a (b', c')) = fun c' => L (b', c') := by
  funext c'
  exact Function.update_of_ne (fun h => hb (Prod.mk.inj h).1) _ _

end Pairs

end TCMalloc.Lib.Buckets
