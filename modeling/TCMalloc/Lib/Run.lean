/-!
Runs of a partial step function under a precondition, and the invariant rule
for them.  A component is a `step : σ → α → Option σ` (`none` is a failed
check of the code) and a precondition `ok` on the calls its callers promise;
a `Run` is a sequence of calls, each allowed in the state it meets.
-/

set_option autoImplicit false
set_option relaxedAutoImplicit false

namespace TCMalloc.Lib

/-- From `s`, the calls `as`, each allowed by `ok` where it is made, lead to `s'`. -/
inductive Run {σ α : Type} (step : σ → α → Option σ) (ok : σ → α → Prop) :
    σ → List α → σ → Prop
  | nil (s : σ) : Run step ok s [] s
  | cons {s s' s'' : σ} {a : α} {as : List α} :
      ok s a → step s a = some s' → Run step ok s' as s'' → Run step ok s (a :: as) s''

/-- The state the calls `as` reach from `s` when each passes the test `okb` where it is
made and steps: a run that can be computed. -/
def runChecked {σ α : Type} (step : σ → α → Option σ) (okb : σ → α → Bool) : σ → List α → Option σ
  | s, [] => some s
  | s, a :: as => if okb s a then (step s a).bind fun s' => runChecked step okb s' as else none

namespace Run

variable {σ α β : Type} {step : σ → α → Option σ} {ok : σ → α → Prop}

theorem of_runChecked {okb : σ → α → Bool} (hok : ∀ s a, okb s a = true → ok s a) :
    ∀ {s s' : σ} {as : List α}, runChecked step okb s as = some s' → Run step ok s as s'
  | s, s', [], h => by
      simp only [runChecked, Option.some.injEq] at h
      subst h
      exact .nil s
  | s, s', a :: as, h => by
      simp only [runChecked] at h
      split at h
      · rename_i hokb
        cases hstep : step s a with
        | none => rw [hstep] at h; cases h
        | some s₁ =>
            rw [hstep, Option.bind_some] at h
            exact .cons (hok s a hokb) hstep (of_runChecked hok h)
      · cases h

theorem invariant (inv : σ → Prop)
    (preserve : ∀ s a s', inv s → ok s a → step s a = some s' → inv s')
    {s s' : σ} {as : List α} (run : Run step ok s as s') (init : inv s) : inv s' := by
  induction run with
  | nil => exact init
  | cons hok hstep _ ih => exact ih (preserve _ _ _ init hok hstep)

theorem invariant_fold (inv : σ → β → Prop) (f : β → α → β)
    (preserve : ∀ s a s' x, inv s x → ok s a → step s a = some s' → inv s' (f x a))
    {s s' : σ} {as : List α} (run : Run step ok s as s') {x : β} (init : inv s x) :
    inv s' (as.foldl f x) := by
  induction run generalizing x with
  | nil => exact init
  | cons hok hstep _ ih => exact ih (preserve _ _ _ _ init hok hstep)

theorem simulate {γ : Type} (cstep : γ → α → Option γ) (R : γ → σ → Prop) (inv : σ → Prop)
    (preserve : ∀ s a s', inv s → ok s a → step s a = some s' → inv s')
    (hstep : ∀ c s a s', R c s → inv s → ok s a → step s a = some s' →
      ∃ c', cstep c a = some c' ∧ R c' s')
    {s s' : σ} {as : List α} (run : Run step ok s as s') {c : γ} (hR : R c s) (hinv : inv s) :
    ∃ c', as.foldlM cstep c = some c' ∧ R c' s' := by
  induction run generalizing c with
  | nil => exact ⟨c, rfl, hR⟩
  | cons hok hst _ ih =>
      obtain ⟨c₁, hc₁, hR₁⟩ := hstep _ _ _ _ hR hinv hok hst
      obtain ⟨c', hrest, hR'⟩ := ih hR₁ (preserve _ _ _ hinv hok hst)
      refine ⟨c', ?_, hR'⟩
      rw [List.foldlM_cons, hc₁]
      exact hrest

end Run

theorem foldlM_range_invariant {σ : Type} (inv : Nat → σ → Prop) (f : σ → Nat → Option σ) (n : Nat)
    (hstep : ∀ i s, i < n → inv i s → ∃ s', f s i = some s' ∧ inv (i + 1) s') {s : σ}
    (hs : inv 0 s) : ∃ s', (List.range n).foldlM f s = some s' ∧ inv n s' := by
  induction n with
  | zero => exact ⟨s, rfl, hs⟩
  | succ n ih =>
      obtain ⟨s₁, h₁, hinv₁⟩ := ih fun i s hi h => hstep i s (by omega) h
      obtain ⟨s', h', hinv'⟩ := hstep n s₁ (by omega) hinv₁
      refine ⟨s', ?_, hinv'⟩
      rw [List.range_succ, List.foldlM_append, h₁, Option.bind_eq_bind, Option.bind_some,
        List.foldlM_cons, h']
      rfl

end TCMalloc.Lib
