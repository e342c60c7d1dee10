/-!
A loop that marks the maximal runs of `true` in a sequence of bits `p 0, p 1, ...`.  It
remembers where the open run started; a `false` bit closes the open run, and so does the
end of the sequence, and a closed run `[start, start + length)` is handed to `close`,
which may fail.  When `close` marks a range in a map (related to the loop's output by
`R`), the loop has marked, after bit `i`, exactly the `true` bits below the open run,
and once the last run is closed, exactly the `true` bits.
-/

set_option autoImplicit false
set_option relaxedAutoImplicit false

namespace TCMalloc.Lib.RunLength

variable {β : Type} (close : β → Nat → Nat → Option β)

/-- One pass at bit `i` of value `bit`, with `start` the first bit of the open run. -/
def pass (i : Nat) (bit : Bool) : Option Nat × β → Option (Option Nat × β)
  | (start, out) =>
    if bit then some (if start = none then some i else start, out)
    else
      match start with
      | none => some (none, out)
      | some s => (close out s (i - s)).map fun out => (none, out)

/-- After the last bit, below `K`: the open run is closed at `K`. -/
def finish (K : Nat) : Option Nat × β → Option β
  | (none, out) => some out
  | (some s, out) => close out s (K - s)

/-- The `true` bits of `p` below `c`. -/
def marked (p : Nat → Bool) (c : Nat) (j : Nat) : Bool := decide (j < c) && p j

variable {close} {R : β → (Nat → Bool) → Prop} {p : Nat → Bool} {K : Nat}

/-- The invariant after the bits below `i`: the output stands for the `true` bits below
the open run, and the open run started below `i` on bits that are all `true`. -/
def Inv (R : β → (Nat → Bool) → Prop) (p : Nat → Bool) (i : Nat) : Option Nat × β → Prop
  | (start, out) =>
    R out (marked p (start.getD i)) ∧ ∀ s, start = some s → s < i ∧ ∀ j, s ≤ j → j < i → p j = true

theorem marked_union {s i : Nat} (hs : s ≤ i) (hrun : ∀ j, s ≤ j → j < i → p j = true) :
    (fun j => marked p s j || decide (s ≤ j ∧ j < s + (i - s))) = marked p i := by
  funext j
  unfold marked
  by_cases hj : j < s
  · have : ¬(s ≤ j ∧ j < s + (i - s)) := by omega
    simp only [hj, this, decide_true, decide_false, Bool.true_and, Bool.or_false,
      show j < i by omega]
  · by_cases hji : j < i
    · simp only [hj, hji, decide_true, decide_false, Bool.false_and, Bool.false_or, Bool.true_and,
        hrun j (by omega) hji, show s ≤ j ∧ j < s + (i - s) by omega, and_self]
    · simp only [hj, hji, decide_false, Bool.false_and, Bool.false_or]
      exact decide_eq_false (by omega)

section Close

-- what `close` does: on a run inside `[0, K)` it succeeds and marks the run
variable (hclose : ∀ out m s n, R out m → 0 < n → s + n ≤ K →
  ∃ out', close out s n = some out' ∧ R out' (fun j => m j || decide (s ≤ j ∧ j < s + n)))
include hclose

theorem pass_inv {i : Nat} (hi : i < K) {st : Option Nat × β} (h : Inv R p i st) :
    ∃ st', pass close i (p i) st = some st' ∧ Inv R p (i + 1) st' := by
  obtain ⟨start, out⟩ := st
  obtain ⟨hR, hrun⟩ := h
  cases hp : p i with
  | true =>
    -- the bit extends the open run, or opens one at `i`
    cases start with
    | none =>
      refine ⟨(some i, out), by simp [pass], hR, ?_⟩
      intro s hs
      rw [Option.some.injEq] at hs
      subst hs
      exact ⟨by omega, fun j hj hj' => by rw [show j = i by omega, hp]⟩
    | some s =>
      obtain ⟨hsi, hrun⟩ := hrun s rfl
      refine ⟨(some s, out), by simp [pass], hR, ?_⟩
      intro s' hs'
      rw [Option.some.injEq] at hs'
      subst hs'
      refine ⟨by omega, fun j hj hj' => ?_⟩
      rcases Nat.lt_or_ge j i with hlt | hge
      · exact hrun j hj hlt
      · rw [show j = i by omega, hp]
  | false =>
    cases start with
    | none =>
      -- no run is open: the bits below `i + 1` marked are those below `i`
      refine ⟨(none, out), by simp [pass], ?_, fun s h => by cases h⟩
      have hm : marked p i = marked p (i + 1) := by
        funext j
        unfold marked
        by_cases hj : j = i
        · rw [hj, hp]
          simp
        · simp only [Nat.lt_succ_iff_lt_or_eq, hj, or_false]
      simpa [hm] using hR
    | some s =>
      -- the false bit closes the run `[s, i)`
      obtain ⟨hsi, hrun⟩ := hrun s rfl
      obtain ⟨out', hout', hR'⟩ := hclose out _ s (i - s) hR (by omega) (by omega)
      refine ⟨(none, out'), by simp [pass, hout'], ?_, fun s h => by cases h⟩
      have hm : marked p (i + 1) = marked p i := by
        funext j
        unfold marked
        by_cases hj : j = i
        · rw [hj, hp]
          simp
        · simp only [Nat.lt_succ_iff_lt_or_eq, hj, or_false]
      show R out' (marked p (i + 1))
      rw [hm, ← marked_union (Nat.le_of_lt hsi) hrun]
      exact hR'

theorem finish_inv {st : Option Nat × β} (h : Inv R p K st) :
    ∃ out, finish close K st = some out ∧ R out (marked p K) := by
  obtain ⟨start, out⟩ := st
  obtain ⟨hR, hrun⟩ := h
  cases start with
  | none => exact ⟨out, rfl, hR⟩
  | some s =>
    obtain ⟨hsK, hrun⟩ := hrun s rfl
    obtain ⟨out', hout', hR'⟩ := hclose out _ s (K - s) hR (by omega) (by omega)
    refine ⟨out', hout', ?_⟩
    rw [← marked_union (Nat.le_of_lt hsK) hrun]
    exact hR'

end Close

theorem inv_zero {out : β} (h : R out fun _ => false) : Inv R p 0 (none, out) := by
  refine ⟨?_, fun s h => by cases h⟩
  have hm : marked p ((none : Option Nat).getD 0) = fun _ => false := by
    funext j
    simp [marked]
  rw [hm]
  exact h

end TCMalloc.Lib.RunLength
