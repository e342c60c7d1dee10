/-!
`while (true)` loops with fuel, and the total-correctness rule for them.  The body
of a loop either leaves it with a result or goes round again from a new state; a
run gets at most `fuel` passes, and `none` stands for running out (or for a failed
check of the body).  An invariant kept by every pass, with a measure that every
pass that goes round lowers, gives a result within one more pass than the measure.
-/

set_option autoImplicit false
set_option relaxedAutoImplicit false

namespace TCMalloc.Lib

variable {σ ρ : Type}

/-- At most `fuel` passes of `body`: `.inl r` leaves the loop with `r`, `.inr s` goes
round again from `s`. -/
def whileLoop (body : σ → Option (ρ ⊕ σ)) : Nat → σ → Option ρ
  | 0, _ => none
  | fuel + 1, s =>
    match body s with
    | none => none
    | some (.inl r) => some r
    | some (.inr s') => whileLoop body fuel s'

variable {body : σ → Option (ρ ⊕ σ)}

theorem whileLoop_exit {fuel : Nat} {s : σ} {r : ρ} (h : body s = some (.inl r)) :
    whileLoop body (fuel + 1) s = some r := by
  simp [whileLoop, h]

theorem whileLoop_next {fuel : Nat} {s s' : σ} (h : body s = some (.inr s')) :
    whileLoop body (fuel + 1) s = whileLoop body fuel s' := by
  simp [whileLoop, h]

theorem whileLoop_measure (inv : σ → Prop) (post : ρ → Prop) (measure : σ → Nat)
    (hbody : ∀ s, inv s →
      (∃ r, body s = some (.inl r) ∧ post r) ∨
        ∃ s', body s = some (.inr s') ∧ inv s' ∧ measure s' < measure s) :
    ∀ fuel s, inv s → measure s < fuel → ∃ r, whileLoop body fuel s = some r ∧ post r
  | 0, _, _, h => absurd h (Nat.not_lt_zero _)
  | fuel + 1, s, hs, h => by
    rcases hbody s hs with ⟨r, hr, hpost⟩ | ⟨s', hs', hinv, hlt⟩
    · exact ⟨r, whileLoop_exit hr, hpost⟩
    · rw [whileLoop_next hs']
      exact whileLoop_measure inv post measure hbody fuel s' hinv (by omega)

end TCMalloc.Lib
