import Mathlib.Algebra.BigOperators.Group.Finset.Basic
import TCMalloc.Internal.Bitmap
import TCMalloc.Lib.Ledger
import TCMalloc.Lib.LinkedRing
import TCMalloc.Lib.Simulation

/-!
`HintedTrackerLists<TrackerType, N>` of `hinted_tracker_lists.h`: `N` intrusive
lists `lists_[i]` (`TList` of `internal/linked_list.h`), the count `size_` of
the trackers on them, and the hint `nonempty_`, a `Bitmap<N>` meant to have bit
`i` set exactly when list `i` is not empty.  The hint is cleared only when
`TList::remove` reports, by comparing the unlinked node's two neighbours, that
the list it left is empty.

The lists share one heap of `next_`/`prev_` links whose nodes are the lists'
sentinels and the trackers (`Node`); each list is a ring of `Lib.LinkedRing`.
`Rep` relates such a state to the lists of trackers it stands for, and `Spec` says
what the calls are for on those lists.  Every call the callers' contract allows
keeps `Rep` and answers as `Spec` does (`Rep.call`), so the hint is exact after
every run.  The debug-only `Elem::list_`, which checks that contract, is left
out, and `TrackerType*` is never null here.
-/

set_option autoImplicit false
set_option relaxedAutoImplicit false

namespace TCMalloc

open Lib.LinkedRing Internal

namespace Internal.TList

variable {α : Type} [DecidableEq α]

/-- `empty()`: `head_.next_ == &head_`. -/
def empty (e : Links α) (head : α) : Bool := decide (e.next head = head)

/-- `first()`: `head_.next_`, under `TC_ASSERT(!empty())`. -/
def first (e : Links α) (head : α) : Option α := if empty e head then none else some (e.next head)

/-- `prepend(item)`: `head_.append(item)`. -/
def prepend (e : Links α) (head item : α) : Links α := insertAfter e head item

/-- `remove(item)`: `item->remove()`, true when the list is left empty. -/
def remove (e : Links α) (item : α) : Option (Links α × Bool) := unlink e item

/-- The nodes `for (T* pt : list)` visits, from `head_.next_` until `&head_`, in at
most `fuel` steps. -/
def elements (e : Links α) (head : α) (fuel : Nat) : Option (List α) := walk e head fuel (e.next head)

/-- `length()`. -/
def length (e : Links α) (head : α) (fuel : Nat) : Option Nat := (elements e head fuel).map List.length

variable {e : Links α} {head : α} {l : List α}

theorem empty_eq (hr : IsRing e head l) : empty e head = l.isEmpty := by
  unfold empty
  cases l with
  | nil => simpa using hr.next_sentinel_eq_iff.mpr rfl
  | cons a l => simpa using fun h => List.cons_ne_nil a l (hr.next_sentinel_eq_iff.mp h)

theorem first_eq (hr : IsRing e head l) : first e head = l.head? := by
  unfold first
  rw [empty_eq hr]
  obtain ⟨n, t, hnt, hn, -⟩ := hr.after_sentinel
  cases l with
  | nil => rfl
  | cons a l =>
    simp only [List.cons_append, List.cons.injEq] at hnt
    simp [hn, hnt.1]

theorem elements_eq {fuel : Nat} (hr : IsRing e head l) (hfuel : l.length < fuel) :
    elements e head fuel = some l :=
  hr.walk hfuel

end Internal.TList

/-- A node of the lists' heap: the sentinel `lists_[i].head_`, or a tracker. -/
inductive HintedTrackerLists.Node (T : Type) where
  | head (i : Nat)
  | elem (t : T)
  deriving DecidableEq

/-- `HintedTrackerLists<T, N>`: the links of `lists_`, `size_` and `nonempty_`. -/
structure HintedTrackerLists (T : Type) (N : Nat) where
  links : Links (HintedTrackerLists.Node T)
  size : Nat
  nonempty : Bitmap N

namespace HintedTrackerLists

variable {T : Type} [DecidableEq T] {N : Nat}

/-- The tracker a node stands for: the `static_cast<TrackerType*>` of a node that is
no sentinel. -/
def Node.toElem : Node T → Option T
  | .head _ => none
  | .elem t => some t

/-- `constexpr HintedTrackerLists()`: every sentinel linked to itself, no tracker on a
list, no bit set. -/
def empty : HintedTrackerLists T N := ⟨⟨id, id⟩, 0, Bitmap.empty⟩

/-- `GetLeast(n)`: the first tracker of the first non-empty list at or after `n`,
taken off it, or `nullptr`. -/
def getLeast (s : HintedTrackerLists T N) (n : Nat) : Option (Option T × HintedTrackerLists T N) :=
  if n < N then
    let i := s.nonempty.findSet n
    if i = N then some (none, s)
    else do
      let first ← TList.first s.links (.head i)
      let pt ← first.toElem
      let (links, emptied) ← TList.remove s.links first
      let nonempty := if emptied then s.nonempty.clearBit i else s.nonempty
      pure (some pt, { links, size := s.size - 1, nonempty })
  else none

/-- `PeekLeast(n)`: as `GetLeast(n)`, leaving the tracker where it is. -/
def peekLeast (s : HintedTrackerLists T N) (n : Nat) : Option (Option T) :=
  if n < N then
    let i := s.nonempty.findSet n
    if i = N then some none
    else do
      let first ← TList.first s.links (.head i)
      let pt ← first.toElem
      pure (some pt)
  else none

/-- `Add(pt, i)`. -/
def add (s : HintedTrackerLists T N) (pt : T) (i : Nat) : Option (HintedTrackerLists T N) :=
  if i < N then
    some { links := TList.prepend s.links (.head i) (.elem pt), size := s.size + 1,
           nonempty := s.nonempty.setBit i }
  else none

/-- `Remove(pt, i)`: the bit is cleared when `TList::remove` reports the list empty,
under `TC_ASSERT(nonempty_.GetBit(i))`. -/
def remove (s : HintedTrackerLists T N) (pt : T) (i : Nat) : Option (HintedTrackerLists T N) :=
  if i < N then do
    let (links, emptied) ← TList.remove s.links (.elem pt)
    let nonempty ←
      if emptied then (if s.nonempty.getBit i then some (s.nonempty.clearBit i) else none)
      else some s.nonempty
    pure { links, size := s.size - 1, nonempty }
  else none

/-- `SizeOfList(n)`. -/
def sizeOfList (s : HintedTrackerLists T N) (n : Nat) (fuel : Nat) : Option Nat :=
  if n < N then TList.length s.links (.head n) fuel else none

/-- The trackers of list `i`, in the order `for (TrackerType* pt : list)` visits them. -/
def listElems (s : HintedTrackerLists T N) (i : Nat) (fuel : Nat) : Option (List T) :=
  (TList.elements s.links (.head i) fuel).bind (List.mapM Node.toElem)

/-- The `while (i < N)` loop of `Iter`, from list `i`, for at most `passes` passes: the
trackers handed to `func`, in order. -/
def iterLoop (s : HintedTrackerLists T N) (fuel : Nat) : Nat → Nat → Option (List T)
  | 0, _ => none
  | passes + 1, i =>
    if i < N then
      if TList.empty s.links (.head i) then none
      else do
        let visited ← listElems s i fuel
        let i := i + 1
        let i := if i < N then s.nonempty.findSet i else i
        let rest ← iterLoop s fuel passes i
        pure (visited ++ rest)
    else some []

/-- `Iter(func, start)`: the trackers handed to `func`, with `fuel` bounding the passes
and the walks along a list. -/
def iter (s : HintedTrackerLists T N) (start : Nat) (fuel : Nat) : Option (List T) :=
  iterLoop s fuel fuel (s.nonempty.findSet start)

/-- The calls a caller makes. -/
inductive Call (T : Type) where
  | add (pt : T) (i : Nat)
  | remove (pt : T) (i : Nat)
  | getLeast (n : Nat)
  | peekLeast (n : Nat)

/-- One call, and the tracker it returns (`nullptr` for the `void` ones). -/
def call (s : HintedTrackerLists T N) : Call T → Option (Option T × HintedTrackerLists T N)
  | .add pt i => (add s pt i).map fun s' => (none, s')
  | .remove pt i => (remove s pt i).map fun s' => (none, s')
  | .getLeast n => getLeast s n
  | .peekLeast n => (peekLeast s n).map fun r => (r, s)

/-! ### What the calls are for -/

namespace Spec

/-- The lowest index at or after `n`, below `N`, of a non-empty list, or `N`. -/
def least (N : Nat) (L : Nat → List T) (n : Nat) : Nat :=
  Lib.Scan.firstFrom (fun i => !(L i).isEmpty) (N - n) n

/-- The calls on the lists themselves. -/
def call (N : Nat) (L : Nat → List T) : Call T → Option T × (Nat → List T)
  | .add pt i => (none, Function.update L i (pt :: L i))
  | .remove pt i => (none, Function.update L i ((L i).erase pt))
  | .getLeast n =>
    if least N L n < N then
      ((L (least N L n)).head?, Function.update L (least N L n) (L (least N L n)).tail)
    else (none, L)
  | .peekLeast n => (if least N L n < N then (L (least N L n)).head? else none, L)

/-- The callers' contract: indices below `N`, a tracker added when on no list, and
removed from the list it is on. -/
def ok (N : Nat) (L : Nat → List T) : Call T → Prop
  | .add pt i => i < N ∧ ∀ j < N, pt ∉ L j
  | .remove pt i => i < N ∧ pt ∈ L i
  | .getLeast n => n < N
  | .peekLeast n => n < N

omit [DecidableEq T] in
theorem least_spec (L : Nat → List T) {n : Nat} (hn : n ≤ N) :
    n ≤ least N L n ∧ least N L n ≤ N ∧ (∀ k, n ≤ k → k < least N L n → L k = []) ∧
      (least N L n < N → L (least N L n) ≠ []) := by
  have hle := Lib.Scan.firstFrom_le (fun i => !(L i).isEmpty) (N - n) n
  refine ⟨Lib.Scan.le_firstFrom _ _ _, by unfold least; omega, ?_, ?_⟩
  · intro k hk hk'
    simpa using Lib.Scan.noneIn_firstFrom (fun i => !(L i).isEmpty) (N - n) n k hk hk'
  · intro hlt
    unfold least at hlt ⊢
    simpa using Lib.Scan.firstFrom_spec (fun i => !(L i).isEmpty) (N - n) n (by omega)

omit [DecidableEq T] in
theorem least_eq {L : Nat → List T} {n i : Nat} (hni : n ≤ i) (hiN : i ≤ N)
    (hbefore : ∀ k, n ≤ k → k < i → L k = []) (hhit : i < N → L i ≠ []) : least N L n = i := by
  apply Lib.Scan.firstFrom_eq _ _ _ _ hni (by omega)
  · intro k hk hk'
    simpa using hbefore k hk hk'
  · intro hlt
    simpa using hhit (by omega)

end Spec

/-! ### The representation -/

/-- The state holds the lists `L`: list `i` is the ring through its sentinel with the
trackers of `L i`, no tracker is on two lists, bit `i` is set exactly when `L i` is
not empty, and `size_` counts the trackers. -/
structure Rep (s : HintedTrackerLists T N) (L : Nat → List T) : Prop where
  ring : ∀ i < N, IsRing s.links (.head i) ((L i).map .elem)
  disjoint : ∀ i < N, ∀ j < N, i ≠ j → ∀ t ∈ L i, t ∉ L j
  hint : ∀ i < N, s.nonempty.getBit i = true ↔ L i ≠ []
  size : s.size = ∑ i ∈ Finset.range N, (L i).length

omit [DecidableEq T] in
theorem rep_empty : Rep (empty : HintedTrackerLists T N) fun _ => [] where
  ring := fun _ _ => ⟨by simp [Linked, empty], List.nodup_singleton _⟩
  disjoint := fun _ _ _ _ _ _ => by simp
  hint := fun _ _ => by simp [empty, Bitmap.getBit]
  size := by simp [empty]

variable {s : HintedTrackerLists T N} {L : Nat → List T}

omit [DecidableEq T] in
theorem mem_ring_iff {i : Nat} {a : Node T} :
    a ∈ (.head i :: (L i).map .elem : List (Node T)) ↔ a = .head i ∨ ∃ t ∈ L i, a = .elem t := by
  simp [eq_comm]

omit [DecidableEq T] in
theorem Rep.not_mem_ring (hs : Rep s L) {i j : Nat} (hi : i < N) (hj : j < N) (hij : i ≠ j) {a : Node T}
    (ha : a ∈ (.head j :: (L j).map .elem : List (Node T))) : a ∉ (.head i :: (L i).map .elem : List (Node T)) := by
  rw [mem_ring_iff] at ha ⊢
  rintro (rfl | ⟨t, ht, rfl⟩)
  · rcases ha with ha | ⟨u, -, hu⟩
    · exact hij (Node.head.inj ha)
    · cases hu
  · rcases ha with ha | ⟨u, hu, hut⟩
    · cases ha
    · exact hs.disjoint i hi j hj hij t ht (Node.elem.inj hut ▸ hu)

omit [DecidableEq T] in
theorem Rep.findSet_eq (hs : Rep s L) {n : Nat} (hn : n ≤ N) : s.nonempty.findSet n = Spec.least N L n := by
  obtain ⟨hlo, hhi, hbefore, hhit⟩ := Spec.least_spec L hn
  apply Bitmap.findSet_eq _ hlo hhi
  · intro k hk hk'
    have hkN : k < N := by omega
    have := (hs.hint k hkN).not
    simp only [Bitmap.getBit, Bool.not_eq_true, ne_eq, not_not] at this
    exact this.mpr (hbefore k hk hk')
  · intro hlt
    exact (hs.hint _ hlt).mpr (hhit hlt)

omit [DecidableEq T] in
theorem mapM_toElem_map (l : List T) : (l.map Node.elem).mapM Node.toElem = some l := by
  induction l with
  | nil => rfl
  | cons t l ih => simp [List.mapM_cons, Node.toElem, ih]

theorem Rep.listElems_eq (hs : Rep s L) {i fuel : Nat} (hi : i < N) (hfuel : (L i).length < fuel) :
    listElems s i fuel = some (L i) := by
  unfold HintedTrackerLists.listElems
  rw [TList.elements_eq (hs.ring i hi) (by simpa using hfuel), Option.bind_some, mapM_toElem_map]

/-! ### One call at a time -/

variable {i : Nat} {pt : T}

omit [DecidableEq T] in
theorem size_update (hi : i < N) (l : List T) :
    ∑ j ∈ Finset.range N, (Function.update L i l j).length + (L i).length =
      ∑ j ∈ Finset.range N, (L j).length + l.length := by
  have h := Lib.Ledger.sum_add_eq_of_eq_off (s := Finset.range N) (f := fun j => (L j).length)
    (g := fun j => (Function.update L i l j).length) (Finset.mem_range.mpr hi)
    (fun j _ hji => by simp [Function.update_of_ne hji])
  simpa using h

omit [DecidableEq T] in
theorem Rep.ring_frame (hs : Rep s L) (hi : i < N) {links : Links (Node T)}
    (hsame : ∀ a ∉ (.head i :: (L i).map .elem : List (Node T)),
      links.next a = s.links.next a ∧ links.prev a = s.links.prev a) :
    ∀ j < N, j ≠ i → IsRing links (.head j) ((L j).map .elem) :=
  fun j hj hji => (hs.ring j hj).frame fun a ha => hsame a (hs.not_mem_ring hi hj (Ne.symm hji) ha)

theorem Rep.add_spec (hs : Rep s L) (hi : i < N) (hpt : ∀ j < N, pt ∉ L j) :
    ∃ s', add s pt i = some s' ∧ Rep s' (Function.update L i (pt :: L i)) := by
  have hring := hs.ring i hi
  -- The links change at the sentinel, the tracker and the sentinel's successor only.
  have hsame : ∀ a ∉ (.head i :: (L i).map .elem : List (Node T)), a ≠ .elem pt →
      (TList.prepend s.links (.head i) (.elem pt)).next a = s.links.next a ∧
        (TList.prepend s.links (.head i) (.elem pt)).prev a = s.links.prev a := by
    intro a ha hapt
    refine ⟨insertAfter_next_of_ne (fun h => ha (h ▸ List.mem_cons_self)) hapt, insertAfter_prev_of_ne hapt ?_⟩
    exact fun h => ha (h ▸ hring.next_sentinel_mem)
  refine ⟨_, if_pos hi, ⟨?_, ?_, ?_, ?_⟩⟩
  · intro j hj
    by_cases hji : j = i
    · subst hji
      rw [Function.update_self, List.map_cons]
      exact hring.insertAfter (by simp [hpt j hj])
    · rw [Function.update_of_ne hji]
      refine (hs.ring j hj).frame fun a ha => hsame a (hs.not_mem_ring hi hj (Ne.symm hji) ha) ?_
      rintro rfl
      exact hpt j hj (by simpa using ha)
  · intro j hj k hk hjk t ht htk
    by_cases hji : j = i
    · subst hji
      rw [Function.update_of_ne (Ne.symm hjk)] at htk
      rw [Function.update_self, List.mem_cons] at ht
      rcases ht with rfl | ht
      · exact hpt k hk htk
      · exact hs.disjoint j hj k hk hjk t ht htk
    · rw [Function.update_of_ne hji] at ht
      by_cases hki : k = i
      · subst hki
        rw [Function.update_self, List.mem_cons] at htk
        rcases htk with rfl | htk
        · exact hpt j hj ht
        · exact hs.disjoint j hj k hk hjk t ht htk
      · rw [Function.update_of_ne hki] at htk
        exact hs.disjoint j hj k hk hjk t ht htk
  · intro j hj
    by_cases hji : j = i
    · subst hji
      simp [Bitmap.getBit]
    · simpa [Bitmap.getBit, hji, Function.update_of_ne hji] using hs.hint j hj
  · have := size_update (L := L) hi (pt :: L i)
    simp only [List.length_cons] at this
    show s.size + 1 = _
    rw [hs.size]
    omega

omit [DecidableEq T] in
theorem elem_injective : Function.Injective (Node.elem : T → Node T) := fun _ _ h => Node.elem.inj h

theorem Rep.erase (hs : Rep s L) (hi : i < N) (hpt : pt ∈ L i) :
    ∃ links, TList.remove s.links (.elem pt) = some (links, decide (L i = [pt])) ∧
      Rep { links, size := s.size - 1, nonempty := if L i = [pt] then s.nonempty.clearBit i else s.nonempty }
        (Function.update L i ((L i).erase pt)) := by
  obtain ⟨links, hunlink, hring, hsame⟩ := (hs.ring i hi).unlink (List.mem_map_of_mem (f := Node.elem) hpt)
  have hbool : decide ((L i).map Node.elem = [.elem pt]) = decide (L i = [pt]) := by
    apply decide_eq_decide.mpr
    rw [List.map_eq_singleton_iff]
    constructor
    · rintro ⟨a, ha, hapt⟩
      rw [ha, elem_injective hapt]
    · intro h
      exact ⟨pt, h, rfl⟩
  have hne : L i ≠ [] := List.ne_nil_of_mem hpt
  refine ⟨links, hbool ▸ hunlink, ⟨?_, ?_, ?_, ?_⟩⟩
  · intro j hj
    by_cases hji : j = i
    · subst hji
      rw [Function.update_self, List.map_erase elem_injective]
      exact hring
    · rw [Function.update_of_ne hji]
      exact hs.ring_frame hi hsame j hj hji
  · intro j hj k hk hjk t ht htk
    have hsub : ∀ m, Function.update L i ((L i).erase pt) m ⊆ L m := by
      intro m
      by_cases hmi : m = i
      · subst hmi
        rw [Function.update_self]
        exact List.erase_subset
      · intro x hx
        rwa [Function.update_of_ne hmi] at hx
    exact hs.disjoint j hj k hk hjk t (hsub j ht) (hsub k htk)
  · intro j hj
    by_cases hji : j = i
    · subst hji
      by_cases hone : L j = [pt]
      · simp [Bitmap.getBit, hone]
      · have hbit := (hs.hint j hj).mpr hne
        simp only [Bitmap.getBit] at hbit
        simp [Bitmap.getBit, hone, hbit, hne]
    · have hbit := hs.hint j hj
      rw [Function.update_of_ne hji]
      split <;> simpa [Bitmap.getBit, hji] using hbit
  · have := size_update (L := L) hi ((L i).erase pt)
    rw [List.length_erase_of_mem hpt] at this
    have hpos : 0 < (L i).length := List.length_pos_of_ne_nil hne
    show s.size - 1 = _
    rw [hs.size]
    omega

theorem Rep.remove_spec (hs : Rep s L) (hi : i < N) (hpt : pt ∈ L i) :
    ∃ s', remove s pt i = some s' ∧ Rep s' (Function.update L i ((L i).erase pt)) := by
  obtain ⟨links, hunlink, hrep⟩ := hs.erase hi hpt
  have hbit : s.nonempty.getBit i = true := (hs.hint i hi).mpr (List.ne_nil_of_mem hpt)
  refine ⟨_, ?_, hrep⟩
  unfold HintedTrackerLists.remove
  rw [if_pos hi, hunlink]
  by_cases hone : L i = [pt]
  · simp [hone, hbit]
  · simp [hone]

theorem Rep.first_least (hs : Rep s L) {n : Nat} (hn : n ≤ N) (hlt : Spec.least N L n < N) :
    ∃ t rest, L (Spec.least N L n) = t :: rest ∧
      TList.first s.links (.head (Spec.least N L n)) = some (.elem t) := by
  obtain ⟨-, -, -, hhit⟩ := Spec.least_spec L hn
  obtain ⟨t, rest, hL⟩ := List.exists_cons_of_ne_nil (hhit hlt)
  refine ⟨t, rest, hL, ?_⟩
  rw [TList.first_eq (hs.ring _ hlt), hL]
  rfl

theorem Rep.peekLeast_spec (hs : Rep s L) {n : Nat} (hn : n < N) :
    peekLeast s n = some (Spec.call N L (.peekLeast n)).1 := by
  unfold HintedTrackerLists.peekLeast
  simp only [Spec.call, if_pos hn, hs.findSet_eq (Nat.le_of_lt hn)]
  by_cases hlt : Spec.least N L n < N
  · obtain ⟨t, rest, hL, hfirst⟩ := hs.first_least (Nat.le_of_lt hn) hlt
    simp [Nat.ne_of_lt hlt, hlt, hfirst, hL, Node.toElem]
  · have heq : Spec.least N L n = N := by
      have := (Spec.least_spec L (Nat.le_of_lt hn)).2.1
      omega
    simp [heq]

theorem Rep.getLeast_spec (hs : Rep s L) {n : Nat} (hn : n < N) :
    ∃ s', getLeast s n = some ((Spec.call N L (.getLeast n)).1, s') ∧ Rep s' (Spec.call N L (.getLeast n)).2 := by
  unfold HintedTrackerLists.getLeast
  simp only [Spec.call, if_pos hn, hs.findSet_eq (Nat.le_of_lt hn)]
  by_cases hlt : Spec.least N L n < N
  · obtain ⟨t, rest, hL, hfirst⟩ := hs.first_least (Nat.le_of_lt hn) hlt
    obtain ⟨links, hunlink, hrep⟩ := hs.erase hlt (hL ▸ List.mem_cons_self)
    simp only [hL, List.erase_cons_head, List.cons.injEq] at hrep
    simp only [if_pos hlt, hL, List.head?_cons, List.tail_cons]
    refine ⟨_, ?_, hrep⟩
    simp [Nat.ne_of_lt hlt, hfirst, hL, Node.toElem, hunlink]
  · have heq : Spec.least N L n = N := by
      have := (Spec.least_spec L (Nat.le_of_lt hn)).2.1
      omega
    refine ⟨s, ?_, ?_⟩
    · simp [heq]
    · simpa [heq] using hs

theorem Rep.call_spec (hs : Rep s L) {c : Call T} (hc : Spec.ok N L c) :
    ∃ s', call s c = some ((Spec.call N L c).1, s') ∧ Rep s' (Spec.call N L c).2 := by
  cases c with
  | add pt i =>
    obtain ⟨s', hadd, hrep⟩ := hs.add_spec hc.1 hc.2
    exact ⟨s', by simp [HintedTrackerLists.call, hadd, Spec.call], hrep⟩
  | remove pt i =>
    obtain ⟨s', hremove, hrep⟩ := hs.remove_spec hc.1 hc.2
    exact ⟨s', by simp [HintedTrackerLists.call, hremove, Spec.call], hrep⟩
  | getLeast n => exact hs.getLeast_spec hc
  | peekLeast n => exact ⟨s, by simp [HintedTrackerLists.call, hs.peekLeast_spec hc], hs⟩

theorem Rep.sizeOfList_spec (hs : Rep s L) {n fuel : Nat} (hn : n < N) (hfuel : (L n).length < fuel) :
    sizeOfList s n fuel = some (L n).length := by
  unfold HintedTrackerLists.sizeOfList TList.length
  rw [if_pos hn, TList.elements_eq (hs.ring n hn) (by simpa using hfuel)]
  simp

omit [DecidableEq T] in
theorem flatMap_skip {a b : Nat} (hab : a ≤ b) (hb : b ≤ N) (hempty : ∀ k, a ≤ k → k < b → L k = []) :
    (List.range' a (N - a)).flatMap L = (List.range' b (N - b)).flatMap L := by
  have hsplit : List.range' a (N - a) = List.range' a (b - a) ++ List.range' (a + (b - a)) (N - b) := by
    rw [List.range'_append_1]
    congr 1
    omega
  rw [hsplit, List.flatMap_append, show a + (b - a) = b by omega]
  have hnil : (List.range' a (b - a)).flatMap L = [] := by
    rw [List.flatMap_eq_nil_iff]
    intro k hk
    rw [List.mem_range'_1] at hk
    exact hempty k hk.1 (by omega)
  rw [hnil, List.nil_append]

theorem Rep.iterLoop_spec (hs : Rep s L) {fuel : Nat} (hlen : ∀ k < N, (L k).length < fuel) :
    ∀ passes i, N - i < passes → i ≤ N → (i < N → L i ≠ []) →
      iterLoop s fuel passes i = some ((List.range' i (N - i)).flatMap L) := by
  intro passes
  induction passes with
  | zero => intro i h; omega
  | succ passes ih =>
    intro i hpasses hi hne
    unfold HintedTrackerLists.iterLoop
    by_cases hiN : i < N
    · -- The next list the loop visits: the first non-empty one after `i`, or `N`.
      have hnext : ∃ i', (if i + 1 < N then s.nonempty.findSet (i + 1) else i + 1) = i' ∧ i + 1 ≤ i' ∧ i' ≤ N ∧
          (∀ k, i + 1 ≤ k → k < i' → L k = []) ∧ (i' < N → L i' ≠ []) := by
        by_cases hi1 : i + 1 < N
        · obtain ⟨hlo, hhi, hbefore, hhit⟩ := Spec.least_spec L (Nat.le_of_lt hi1)
          exact ⟨_, by rw [if_pos hi1, hs.findSet_eq (Nat.le_of_lt hi1)], hlo, hhi, hbefore, hhit⟩
        · exact ⟨i + 1, if_neg hi1, le_refl _, by omega, fun k hk hk' => by omega, fun h => by omega⟩
      obtain ⟨i', hi', hlo, hhi, hbefore, hhit⟩ := hnext
      have hempty : TList.empty s.links (.head i) = false := by
        rw [TList.empty_eq (hs.ring i hiN)]
        simpa using hne hiN
      have hrest := ih i' (by omega) hhi hhit
      rw [if_pos hiN, hempty, if_neg Bool.false_ne_true, hs.listElems_eq hiN (hlen i hiN)]
      simp only [Option.bind_eq_bind, Option.bind_some, hi', hrest, Option.pure_def]
      rw [← flatMap_skip hlo hhi hbefore, show N - i = N - (i + 1) + 1 by omega, List.range'_succ,
        List.flatMap_cons]
    · have hiN' : i = N := by omega
      subst hiN'
      rw [if_neg hiN]
      simp

theorem Rep.iter_spec (hs : Rep s L) {start fuel : Nat} (hstart : start ≤ N) (hfuel : N < fuel)
    (hlen : ∀ k < N, (L k).length < fuel) :
    iter s start fuel = some ((List.range' start (N - start)).flatMap L) := by
  obtain ⟨hlo, hhi, hbefore, hhit⟩ := Spec.least_spec L hstart
  unfold HintedTrackerLists.iter
  rw [hs.findSet_eq hstart, hs.iterLoop_spec hlen fuel _ (by omega) hhi hhit, flatMap_skip hlo hhi hbefore]

/-! ### Runs -/

theorem rep_run {calls : List (Call T)}
    (hcalls : Lib.Simulation.Allowed (Spec.ok N) (Spec.call N) (fun _ => []) calls) :
    ∃ s, Lib.Simulation.runC call (empty : HintedTrackerLists T N) calls =
        some ((Lib.Simulation.runA (Spec.call N) (fun _ => []) calls).1, s) ∧
      Rep s (Lib.Simulation.runA (Spec.call N) (fun _ => []) calls).2 :=
  @Lib.Simulation.simulation _ _ _ _ call (Spec.call N) (Spec.ok N) Rep (fun _ _ _ hs hc => hs.call_spec hc)
    _ _ _ rep_empty hcalls

theorem Rep.least_none (hs : Rep s L) {n : Nat} (hn : n < N) (hall : ∀ k, n ≤ k → k < N → L k = []) :
    peekLeast s n = some none ∧ getLeast s n = some (none, s) := by
  have hleast : Spec.least N L n = N := Spec.least_eq (Nat.le_of_lt hn) (le_refl N) hall (fun h => absurd h (lt_irrefl N))
  unfold HintedTrackerLists.peekLeast HintedTrackerLists.getLeast
  simp [hn, hs.findSet_eq (Nat.le_of_lt hn), hleast]

theorem Rep.least_some (hs : Rep s L) {n i : Nat} {t : T} {rest : List T} (hn : n < N) (hni : n ≤ i) (hiN : i < N)
    (hbefore : ∀ k, n ≤ k → k < i → L k = []) (hL : L i = t :: rest) :
    peekLeast s n = some (some t) ∧ ∃ s', getLeast s n = some (some t, s') ∧ Rep s' (Function.update L i rest) := by
  have hleast : Spec.least N L n = i :=
    Spec.least_eq hni (Nat.le_of_lt hiN) hbefore (fun _ => by rw [hL]; exact List.cons_ne_nil t rest)
  have hpeek := hs.peekLeast_spec hn
  obtain ⟨s', hget, hrep⟩ := hs.getLeast_spec hn
  simp only [Spec.call, hleast, if_pos hiN, hL, List.head?_cons, List.tail_cons] at hpeek hget hrep
  exact ⟨hpeek, s', hget, hrep⟩

/-- `HintedTrackerLists` keeps its hint exact.  Every sequence of `Add`, `Remove`,
`GetLeast` and `PeekLeast` that the callers' contract allows runs from the empty
lists with the answers of `Spec`, to a state holding the lists `Spec` computes.  In
a state holding lists `L`, bit `i` of `nonempty_` is set exactly when `lists_[i]`
is not empty, `lists_[i]` holds `L i` and `size_` counts all trackers; `GetLeast(n)`
and `PeekLeast(n)` return the first tracker of the first non-empty list at or after
`n` (`GetLeast` taking it off), or `nullptr` when there is none; and `Iter` visits
the lists from `start` on, list by list. -/
theorem hintedTrackerLists_hint_exact {calls : List (Call T)}
    (hcalls : Lib.Simulation.Allowed (Spec.ok N) (Spec.call N) (fun _ => []) calls) :
    ∃ s, Lib.Simulation.runC call (empty : HintedTrackerLists T N) calls =
        some ((Lib.Simulation.runA (Spec.call N) (fun _ => []) calls).1, s) ∧
      Rep s (Lib.Simulation.runA (Spec.call N) (fun _ => []) calls).2 ∧
      ∀ L, Rep s L →
        (∀ i < N, (s.nonempty.getBit i = true ↔ TList.empty s.links (.head i) = false) ∧
          ∀ fuel, (L i).length < fuel → listElems s i fuel = some (L i)) ∧
        s.size = ∑ i ∈ Finset.range N, (L i).length ∧
        (∀ n < N, ((∀ k, n ≤ k → k < N → L k = []) → peekLeast s n = some none ∧ getLeast s n = some (none, s)) ∧
          ∀ i t rest, n ≤ i → i < N → (∀ k, n ≤ k → k < i → L k = []) → L i = t :: rest →
            peekLeast s n = some (some t) ∧
              ∃ s', getLeast s n = some (some t, s') ∧ Rep s' (Function.update L i rest)) ∧
        ∀ start fuel, start ≤ N → N < fuel → (∀ k < N, (L k).length < fuel) →
          iter s start fuel = some ((List.range' start (N - start)).flatMap L) := by
  obtain ⟨s, hrun, hrep⟩ := rep_run hcalls
  refine ⟨s, hrun, hrep, fun L hs => ⟨fun i hi => ⟨?_, fun fuel hfuel => hs.listElems_eq hi hfuel⟩, hs.size,
    fun n hn => ⟨hs.least_none hn, fun i t rest hni hiN hbefore hL => hs.least_some hn hni hiN hbefore hL⟩,
    fun start fuel hstart hfuel hlen => hs.iter_spec hstart hfuel hlen⟩⟩
  rw [hs.hint i hi, TList.empty_eq (hs.ring i hi)]
  simp

theorem hintedTrackerLists_hint_exact_after_add_get :
    Lib.Simulation.Allowed (Spec.ok 2) (Spec.call 2) (fun _ => [])
        ([.add 1 0, .add 2 1, .getLeast 0] : List (Call Nat)) ∧
      ∃ s, Lib.Simulation.runC call (empty : HintedTrackerLists Nat 2) [.add 1 0, .add 2 1, .getLeast 0] =
        some ([none, none, some 1], s) := by
  have hcalls : Lib.Simulation.Allowed (Spec.ok 2) (Spec.call 2) (fun _ => [])
      ([.add 1 0, .add 2 1, .getLeast 0] : List (Call Nat)) := by
    simp [Lib.Simulation.Allowed, Spec.ok, Spec.call, Function.update]
  obtain ⟨s, hrun, -⟩ := hintedTrackerLists_hint_exact hcalls
  exact ⟨hcalls, s, hrun⟩

end HintedTrackerLists

end TCMalloc
