import Mathlib.Data.List.Chain
import Mathlib.Data.List.Nodup

/-!
Intrusive circular doubly-linked lists: the nodes of one heap carry `next` and
`prev` links, and each list is a ring through a sentinel node of its own.  The
ring through `h` holds the list `l` when following `next` from `h` runs through
`l` and back to `h`, with `prev` the inverse at every step.

Linking a node in after another and unlinking a node keep the ring, and touch
no node off it, so rings that share one heap do not disturb each other.  A walk
from the sentinel reads the list back.
-/

set_option autoImplicit false
set_option relaxedAutoImplicit false

namespace TCMalloc.Lib.LinkedRing

/-- The `next` and `prev` links of every node. -/
structure Links (α : Type) where
  next : α → α
  prev : α → α

variable {α : Type}

/-- `a` links forward to `b`, and `b` back to `a`. -/
def Linked (e : Links α) (a b : α) : Prop := e.next a = b ∧ e.prev b = a

/-- The ring through the sentinel `h` holds `l`: its nodes are distinct, and
linked `h → l → h`. -/
structure IsRing (e : Links α) (h : α) (l : List α) : Prop where
  chain : (h :: l ++ [h]).IsChain (Linked e)
  nodup : (h :: l).Nodup

/-! ### Chains under updates -/

theorem isChain_frame {e e' : Links α} :
    ∀ {c : List α}, c.IsChain (Linked e) → (∀ a ∈ c.dropLast, e'.next a = e.next a) →
      (∀ b ∈ c.tail, e'.prev b = e.prev b) → c.IsChain (Linked e')
  | [], _, _, _ => .nil
  | [a], _, _, _ => .singleton a
  | a :: b :: c, hc, hnext, hprev => by
    rw [List.isChain_cons_cons] at hc ⊢
    obtain ⟨⟨hab, hba⟩, hc⟩ := hc
    refine ⟨⟨?_, ?_⟩, isChain_frame hc ?_ ?_⟩
    · rw [hnext a (by simp)]
      exact hab
    · rw [hprev b (by simp)]
      exact hba
    · intro x hx
      exact hnext x (by rw [List.dropLast_cons_cons]; exact List.mem_cons_of_mem a hx)
    · intro x hx
      exact hprev x (List.mem_cons_of_mem b hx)

variable {e : Links α} {h : α} {l : List α}

theorem IsRing.nodup_append (hr : IsRing e h l) : (l ++ [h]).Nodup :=
  (List.perm_append_singleton h l).symm.nodup_iff.mp hr.nodup

theorem IsRing.after_sentinel (hr : IsRing e h l) :
    ∃ n t, l ++ [h] = n :: t ∧ e.next h = n ∧ (n :: t).IsChain (Linked e) := by
  obtain ⟨n, t, hnt⟩ := List.exists_cons_of_ne_nil (List.append_ne_nil_of_right_ne_nil l (List.cons_ne_nil h []))
  have hc := hr.chain
  rw [List.cons_append, hnt, List.isChain_cons_cons] at hc
  exact ⟨n, t, hnt, hc.1.1, hc.2⟩

theorem IsRing.next_sentinel_mem (hr : IsRing e h l) : e.next h ∈ h :: l := by
  obtain ⟨n, t, hnt, hn, -⟩ := hr.after_sentinel
  have hmem : n ∈ l ++ [h] := hnt ▸ List.mem_cons_self
  rw [hn, List.mem_cons]
  rw [List.mem_append, List.mem_singleton] at hmem
  exact hmem.symm

theorem IsRing.next_sentinel_eq_iff (hr : IsRing e h l) : e.next h = h ↔ l = [] := by
  obtain ⟨n, t, hnt, hn, -⟩ := hr.after_sentinel
  rw [hn]
  cases l with
  | nil =>
    simp only [List.nil_append, List.cons.injEq] at hnt
    simp [hnt.1]
  | cons a l =>
    simp only [List.cons_append, List.cons.injEq] at hnt
    have ha : a ≠ h := fun hah => (List.nodup_cons.mp hr.nodup).1 (hah ▸ List.mem_cons_self)
    rw [← hnt.1]
    simp [ha]

theorem IsRing.frame {e' : Links α} (hr : IsRing e h l)
    (hsame : ∀ a ∈ h :: l, e'.next a = e.next a ∧ e'.prev a = e.prev a) : IsRing e' h l where
  chain := by
    apply isChain_frame hr.chain
    · intro a ha
      rw [List.cons_append, List.dropLast_cons_of_ne_nil (by simp), List.dropLast_concat] at ha
      exact (hsame a ha).1
    · intro b hb
      rw [List.cons_append, List.tail_cons, List.mem_append, List.mem_singleton] at hb
      rcases hb with hb | rfl
      · exact (hsame b (List.mem_cons_of_mem h hb)).2
      · exact (hsame b List.mem_cons_self).2
  nodup := hr.nodup

variable [DecidableEq α]

namespace Links

/-- `x->next_ = y`. -/
def setNext (e : Links α) (x y : α) : Links α := { e with next := Function.update e.next x y }

/-- `x->prev_ = y`. -/
def setPrev (e : Links α) (x y : α) : Links α := { e with prev := Function.update e.prev x y }

@[simp] theorem setNext_next (e : Links α) (x y : α) : (e.setNext x y).next = Function.update e.next x y := rfl

@[simp] theorem setNext_prev (e : Links α) (x y : α) : (e.setNext x y).prev = e.prev := rfl

@[simp] theorem setPrev_next (e : Links α) (x y : α) : (e.setPrev x y).next = e.next := rfl

@[simp] theorem setPrev_prev (e : Links α) (x y : α) : (e.setPrev x y).prev = Function.update e.prev x y := rfl

end Links

/-- `Elem::append(item)`: `item` linked in right after `a`. -/
def insertAfter (e : Links α) (a item : α) : Links α :=
  let next := e.next a
  let e := e.setNext item next
  let e := e.setPrev item a
  let e := e.setPrev next item
  e.setNext a item

/-- `Elem::remove()`: `x` unlinked from its neighbours, and whether they are one node,
`none` when one of its `TC_ASSERT_EQ`s on the neighbours' links fails. -/
def unlink (e : Links α) (x : α) : Option (Links α × Bool) :=
  let next := e.next x
  let prev := e.prev x
  if e.next prev = x then
    let e := e.setNext prev next
    if e.prev next = x then some (e.setPrev next prev, decide (next = prev)) else none
  else none

/-- The nodes from `x` on, following `next` up to the sentinel `h`, in at most `fuel`
steps. -/
def walk (e : Links α) (h : α) : Nat → α → Option (List α)
  | 0, _ => none
  | fuel + 1, x => if x = h then some [] else (walk e h fuel (e.next x)).map (x :: ·)

/-! ### Linking in -/

theorem insertAfter_next (e : Links α) (a b : α) :
    (insertAfter e a b).next = Function.update (Function.update e.next b (e.next a)) a b := rfl

theorem insertAfter_prev (e : Links α) (a b : α) :
    (insertAfter e a b).prev = Function.update (Function.update e.prev b a) (e.next a) b := rfl

theorem insertAfter_next_of_ne {a b x : α} (hxa : x ≠ a) (hxb : x ≠ b) :
    (insertAfter e a b).next x = e.next x := by
  rw [insertAfter_next, Function.update_of_ne hxa, Function.update_of_ne hxb]

theorem insertAfter_prev_of_ne {a b x : α} (hxb : x ≠ b) (hxn : x ≠ e.next a) :
    (insertAfter e a b).prev x = e.prev x := by
  rw [insertAfter_prev, Function.update_of_ne hxn, Function.update_of_ne hxb]

variable {item : α}

theorem IsRing.insertAfter (hr : IsRing e h l) (hitem : item ∉ h :: l) :
    IsRing (insertAfter e h item) h (item :: l) := by
  have hih : item ≠ h := fun hi => hitem (hi ▸ List.mem_cons_self)
  have hil : item ∉ l := fun hi => hitem (List.mem_cons_of_mem h hi)
  have hhl : h ∉ l := (List.nodup_cons.mp hr.nodup).1
  -- `n` is the node after the sentinel: the first of `l`, or the sentinel itself.
  obtain ⟨n, t, hnt, hn, hc⟩ := hr.after_sentinel
  have hnodup : (n :: t).Nodup := hnt ▸ hr.nodup_append
  have hitem' : item ∉ n :: t := by
    rw [← hnt, List.mem_append, List.mem_singleton]
    exact fun hi => hi.elim hil hih
  have hin : item ≠ n := fun hi => hitem' (hi ▸ List.mem_cons_self)
  have hhi : h ∉ item :: l := by
    rw [List.mem_cons]
    exact fun hi => hi.elim (fun hhi => hih hhi.symm) hhl
  refine ⟨?_, List.nodup_cons.mpr ⟨hhi, List.nodup_cons.mpr ⟨hil, (List.nodup_cons.mp hr.nodup).2⟩⟩⟩
  rw [List.cons_append, List.cons_append, hnt, List.isChain_cons_cons, List.isChain_cons_cons]
  refine ⟨⟨?_, ?_⟩, ⟨?_, ?_⟩, ?_⟩
  · simp [insertAfter_next]
  · simp [insertAfter_prev, Function.update_of_ne hin, hn]
  · simp [insertAfter_next, Function.update_of_ne hih, hn]
  · simp [insertAfter_prev, hn]
  · apply isChain_frame hc
    · intro a ha
      rw [← hnt, List.dropLast_concat] at ha
      exact insertAfter_next_of_ne (fun hah => hhl (hah ▸ ha)) (fun hai => hil (hai ▸ ha))
    · intro b hb
      rw [List.tail_cons] at hb
      refine insertAfter_prev_of_ne (fun hbi => hitem' (List.mem_cons_of_mem n (hbi ▸ hb))) ?_
      rw [hn]
      exact fun hbn => (List.nodup_cons.mp hnodup).1 (hbn ▸ hb)

/-! ### Unlinking -/

omit [DecidableEq α] in
theorem nodup_split {x : α} {l₁ l₂ : List α} (hn : (h :: (l₁ ++ x :: l₂)).Nodup) :
    h ∉ l₁ ∧ h ∉ l₂ ∧ x ∉ l₁ ∧ x ≠ h ∧ (∀ a ∈ l₁, a ∉ l₂) ∧ l₁.Nodup ∧ l₂.Nodup := by
  simp only [List.nodup_cons, List.nodup_append, List.mem_append, List.mem_cons, not_or] at hn
  obtain ⟨⟨hh₁, hhx, hh₂⟩, hn₁, ⟨hx₂, hn₂⟩, hdis⟩ := hn
  refine ⟨hh₁, hh₂, fun hx => hdis x hx x (Or.inl rfl) rfl, Ne.symm hhx, ?_, hn₁, hn₂⟩
  intro a ha ha₂
  exact hdis a ha a (Or.inr ha₂) rfl

theorem unlink_eq {x p n : α} (hpx : Linked e p x) (hxn : Linked e x n) :
    unlink e x = some ((e.setNext p n).setPrev n p, decide (n = p)) := by
  obtain ⟨hp, hx⟩ := hpx
  obtain ⟨hn, hn'⟩ := hxn
  unfold unlink
  simp only [hx, hn, hp, ↓reduceIte, Links.setNext_prev, hn']

theorem IsRing.unlink {x : α} (hr : IsRing e h l) (hx : x ∈ l) :
    ∃ e', unlink e x = some (e', decide (l = [x])) ∧ IsRing e' h (l.erase x) ∧
      ∀ a ∉ h :: l, e'.next a = e.next a ∧ e'.prev a = e.prev a := by
  obtain ⟨l₁, l₂, rfl⟩ := List.append_of_mem hx
  obtain ⟨hh₁, hh₂, hx₁, hxh, hdis, hn₁, hn₂⟩ := nodup_split hr.nodup
  -- `p` is the node before `x` (the last of `h :: l₁`), `n` the node after it.
  obtain ⟨A, p, hA⟩ : ∃ A p, h :: l₁ = A ++ [p] :=
    ⟨(h :: l₁).dropLast, (h :: l₁).getLast (List.cons_ne_nil _ _), (List.dropLast_append_getLast _).symm⟩
  obtain ⟨n, t, hB⟩ : ∃ n t, l₂ ++ [h] = n :: t := List.exists_cons_of_ne_nil (by simp)
  have hring : ∀ l₀ : List α, h :: (l₁ ++ l₀ ++ l₂) ++ [h] = (A ++ [p]) ++ (l₀ ++ n :: t) := by
    intro l₀
    rw [← hA, ← hB]
    simp
  have hc := hr.chain
  rw [show l₁ ++ x :: l₂ = l₁ ++ [x] ++ l₂ by simp, hring, List.isChain_append, List.singleton_append,
    List.isChain_cons_cons] at hc
  obtain ⟨hcA, ⟨hxn, hcB⟩, hpx⟩ := hc
  have hpx : Linked e p x := hpx p (by simp) x rfl
  -- Where `p` and `n` lie: `p` in `h :: l₁` and last there, `n` in `l₂ ++ [h]` and first there.
  have hp : p ∈ h :: l₁ := hA ▸ List.mem_append_right A (List.mem_singleton_self p)
  have hpA : p ∉ A := by
    have hnA : (A ++ [p]).Nodup := hA ▸ (List.nodup_cons.mpr ⟨hh₁, hn₁⟩)
    exact fun hpA => List.disjoint_of_nodup_append hnA hpA (List.mem_singleton_self p)
  have hn : n ∈ l₂ ++ [h] := hB ▸ List.mem_cons_self
  have hnt : n ∉ t := by
    have hnB : (n :: t).Nodup := hB ▸ (List.perm_append_singleton h l₂).symm.nodup_iff.mp
      (List.nodup_cons.mpr ⟨hh₂, hn₂⟩)
    exact (List.nodup_cons.mp hnB).1
  have hl₁n : ∀ b ∈ l₁, b ≠ n := by
    intro b hb hbn
    rw [List.mem_append, List.mem_singleton] at hn
    rcases hn with hn | hn
    · exact hdis b hb (hbn ▸ hn)
    · exact hh₁ (hn ▸ hbn ▸ hb)
  have hl₂p : ∀ a ∈ l₂, a ≠ p := by
    intro a ha hap
    rw [List.mem_cons] at hp
    rcases hp with hp | hp
    · exact hh₂ (hp ▸ hap ▸ ha)
    · exact hdis p hp (hap ▸ ha)
  -- The neighbours coincide exactly when both sides are empty: then both are `h`.
  have hph : p = h ↔ l₁ = [] := by
    rcases List.eq_nil_or_concat l₁ with rfl | ⟨L, c, rfl⟩
    · rw [show [h] = [] ++ [h] from rfl, List.append_singleton_inj] at hA
      exact iff_of_true hA.2.symm rfl
    · rw [List.concat_eq_append, ← List.cons_append, List.append_singleton_inj] at hA
      refine iff_of_false (fun hph => hh₁ ?_) (by simp)
      rw [← hph, ← hA.2]
      simp
  have hnh : n = h ↔ l₂ = [] := by
    cases l₂ with
    | nil =>
      simp only [List.nil_append, List.cons.injEq] at hB
      exact iff_of_true hB.1.symm rfl
    | cons c l₂ =>
      simp only [List.cons_append, List.cons.injEq] at hB
      refine iff_of_false (fun hnh => hh₂ ?_) (by simp)
      rw [← hnh, ← hB.1]
      exact List.mem_cons_self
  have hnp : n = p ↔ l₁ ++ x :: l₂ = [x] := by
    rw [List.append_eq_singleton_iff]
    simp only [List.cons.injEq, true_and, List.cons_ne_nil, and_false, or_false]
    constructor
    · intro hnp
      have hn' : n = h := by
        by_contra hne
        have hn₂ : n ∈ l₂ := by simpa [hne] using hn
        rw [List.mem_cons] at hp
        rcases hp with hp | hp
        · exact hne (hnp.trans hp)
        · exact hdis p hp (hnp ▸ hn₂)
      exact ⟨hph.mp (hnp ▸ hn'), hnh.mp hn'⟩
    · rintro ⟨h₁, h₂⟩
      rw [hnh.mpr h₂, hph.mpr h₁]
  rw [← decide_eq_decide.mpr hnp]
  refine ⟨_, unlink_eq hpx hxn, ⟨?_, ?_⟩, ?_⟩
  · rw [List.erase_append_right _ hx₁, List.erase_cons_head, show l₁ ++ l₂ = l₁ ++ [] ++ l₂ by simp, hring,
      List.nil_append]
    refine List.IsChain.append ?_ ?_ ?_
    · apply isChain_frame hcA
      · intro a ha
        rw [List.dropLast_concat] at ha
        simp [Function.update_of_ne (fun hap : a = p => hpA (hap ▸ ha))]
      · intro b hb
        rw [← hA, List.tail_cons] at hb
        simp [Function.update_of_ne (hl₁n b hb)]
    · apply isChain_frame hcB
      · intro a ha
        rw [← hB, List.dropLast_concat] at ha
        simp [Function.update_of_ne (hl₂p a ha)]
      · intro b hb
        rw [List.tail_cons] at hb
        simp [Function.update_of_ne (fun hbn : b = n => hnt (hbn ▸ hb))]
    · intro a ha b hb
      rw [List.getLast?_concat, Option.mem_some_iff] at ha
      rw [List.head?_cons, Option.mem_some_iff] at hb
      subst ha hb
      exact ⟨by simp, by simp⟩
  · have hnd := hr.nodup.erase x
    rwa [List.erase_cons_tail (by simpa using hxh.symm)] at hnd
  · intro a ha
    have hap : a ≠ p := fun hap =>
      ha (hap ▸ List.mem_cons.mpr ((List.mem_cons.mp hp).imp id (List.mem_append_left _)))
    have han : a ≠ n := by
      intro han
      rw [List.mem_append, List.mem_singleton] at hn
      rcases hn with hn | hn
      · exact ha (han ▸ List.mem_cons_of_mem h (List.mem_append_right l₁ (List.mem_cons_of_mem x hn)))
      · exact ha (han ▸ hn ▸ List.mem_cons_self)
    simp [Function.update_of_ne hap, Function.update_of_ne han]

/-! ### Walking the ring -/

theorem walk_of_chain {fuel : Nat} :
    ∀ {c t : List α} {x : α}, c ++ [h] = x :: t → (x :: t).IsChain (Linked e) → h ∉ c → c.length < fuel →
      walk e h fuel x = some c := by
  induction fuel with
  | zero => intro c t x _ _ _ hfuel; omega
  | succ fuel ih =>
    intro c t x hct hc hh hfuel
    cases c with
    | nil =>
      simp only [List.nil_append, List.cons.injEq] at hct
      rw [← hct.1]
      simp [walk]
    | cons a c =>
      simp only [List.cons_append, List.cons.injEq] at hct
      obtain ⟨rfl, rfl⟩ := hct
      have hah : a ≠ h := fun hah => hh (hah ▸ List.mem_cons_self)
      obtain ⟨y, t', hyt⟩ := List.exists_cons_of_ne_nil (List.append_ne_nil_of_right_ne_nil c (List.cons_ne_nil h []))
      rw [hyt, List.isChain_cons_cons] at hc
      have hrest := ih hyt hc.2 (fun hhc => hh (List.mem_cons_of_mem a hhc))
        (by rw [List.length_cons] at hfuel; omega)
      simp [walk, hah, hc.1.1, hrest]

theorem IsRing.walk {fuel : Nat} (hr : IsRing e h l) (hfuel : l.length < fuel) :
    walk e h fuel (e.next h) = some l := by
  obtain ⟨n, t, hnt, hn, hc⟩ := hr.after_sentinel
  rw [hn]
  exact walk_of_chain hnt hc (List.nodup_cons.mp hr.nodup).1 hfuel

end TCMalloc.Lib.LinkedRing
