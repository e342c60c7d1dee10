import Mathlib.Data.List.Basic
import Mathlib.Logic.Function.Basic

/-!
A ring of `K` slots with a position counter that wraps at `M` holds a FIFO queue of length
`K`: the slots read from the position on, oldest first (`view`).  Exchanging the slot at
the position and advancing it pops the queue's head and pushes the new value at its back
(`view_exchange`), as long as `K` divides `M`, so that wrapping the counter does not move
the slot it names.  A queue of length `K` that is pushed `xs` holds the last `K` of
`q ++ xs` (`shiftAll_eq_drop`): a value pushed is popped by exactly the `K`-th push after
it.
-/

set_option autoImplicit false
set_option relaxedAutoImplicit false

namespace TCMalloc.Lib.RingQueue

variable {α : Type}

/-- The `n` slots of `ring` from `pos` on, wrapping at `K`. -/
def view (ring : Nat → α) (K pos : Nat) : Nat → List α
  | 0 => []
  | n + 1 => view ring K pos n ++ [ring ((pos + n) % K)]

@[simp] theorem length_view (ring : Nat → α) (K pos n : Nat) : (view ring K pos n).length = n := by
  induction n with
  | zero => rfl
  | succ n ih => simp [view, ih]

theorem view_const (x : α) (K pos n : Nat) : view (fun _ => x) K pos n = List.replicate n x := by
  induction n with
  | zero => rfl
  | succ n ih => rw [view, ih, List.replicate_succ']

theorem view_succ (ring : Nat → α) (K pos n : Nat) :
    view ring K pos (n + 1) = ring (pos % K) :: view ring K (pos + 1) n := by
  induction n with
  | zero => simp [view]
  | succ n ih =>
    rw [view, ih, view, List.cons_append, Nat.add_right_comm pos 1 n, Nat.add_assoc]

theorem head?_view_succ (ring : Nat → α) (K pos n : Nat) :
    (view ring K pos (n + 1)).head? = some (ring (pos % K)) := by
  rw [view_succ]
  rfl

theorem view_congr {ring ring' : Nat → α} {K pos : Nat} :
    ∀ n, (∀ i < n, ring ((pos + i) % K) = ring' ((pos + i) % K)) →
      view ring K pos n = view ring' K pos n
  | 0, _ => rfl
  | n + 1, h => by
    rw [view, view, view_congr n fun i hi => h i (by omega), h n (by omega)]

theorem view_mod {ring : Nat → α} {K M : Nat} (hM : K ∣ M) (pos n : Nat) :
    view ring K (pos % M) n = view ring K pos n := by
  induction n with
  | zero => rfl
  | succ n ih =>
    rw [view, view, ih, Nat.add_mod (pos % M), Nat.mod_mod_of_dvd pos hM, ← Nat.add_mod]

theorem view_exchange {K M : Nat} (hK : 0 < K) (hM : K ∣ M) (ring : Nat → α) (pos : Nat)
    (x : α) :
    view (Function.update ring (pos % K) x) K ((pos + 1) % M) K =
      (view ring K pos K).tail ++ [x] := by
  obtain ⟨n, rfl⟩ : ∃ n, K = n + 1 := ⟨K - 1, by omega⟩
  rw [view_mod hM, view, view_succ, List.tail_cons]
  -- the slots after the position are not the one exchanged; the last is
  have hlast : (pos + 1 + n) % (n + 1) = pos % (n + 1) := by
    rw [Nat.add_assoc, Nat.add_comm 1 n, Nat.add_mod_right]
  rw [hlast, Function.update_self]
  congr 1
  refine view_congr n fun i hi => Function.update_of_ne ?_ _ _
  intro heq
  have hdiff := Nat.sub_mod_eq_zero_of_mod_eq heq
  rw [Nat.add_assoc, Nat.add_sub_cancel_left] at hdiff
  have := Nat.le_of_dvd (by omega) (Nat.dvd_of_mod_eq_zero hdiff)
  omega

/-- The queue after one push: its head is popped. -/
def shift (q : List α) (x : α) : List α := q.tail ++ [x]

/-- The queue after pushing `xs` in order. -/
def shiftAll (q : List α) (xs : List α) : List α := xs.foldl shift q

theorem shiftAll_append (q xs ys : List α) :
    shiftAll q (xs ++ ys) = shiftAll (shiftAll q xs) ys :=
  List.foldl_append

theorem shiftAll_eq_drop {q : List α} (hq : q ≠ []) :
    ∀ xs : List α, shiftAll q xs = (q ++ xs).drop xs.length
  | [] => by simp [shiftAll]
  | x :: xs => by
    obtain ⟨y, q', rfl⟩ := List.exists_cons_of_ne_nil hq
    rw [shiftAll, List.foldl_cons, ← shiftAll, shiftAll_eq_drop (by simp [shift]) xs, shift,
      List.tail_cons, List.append_assoc, List.singleton_append, List.length_cons,
      List.cons_append, List.drop_succ_cons]

end TCMalloc.Lib.RingQueue
