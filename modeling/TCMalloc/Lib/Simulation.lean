/-!
Forward simulation of a machine that answers its calls by an abstract one.  The
concrete step `σ → α → Option (ρ × σ)` may fail (`none` is a failed check of the
code); the abstract step `τ → α → ρ × τ` says what each call is for, and `ok`
says which calls its callers may make.  When a relation between the states is
kept by every allowed call, and the concrete call answers as the abstract one,
every allowed sequence of calls runs on the concrete machine with the abstract
answers, and ends in related states.
-/

set_option autoImplicit false
set_option relaxedAutoImplicit false

namespace TCMalloc.Lib.Simulation

variable {σ τ α ρ : Type}

/-- The concrete calls `as` from `s`, with their answers; `none` once one fails. -/
def runC (step : σ → α → Option (ρ × σ)) : σ → List α → Option (List ρ × σ)
  | s, [] => some ([], s)
  | s, a :: as => do
    let (r, s) ← step s a
    let (rs, s) ← runC step s as
    pure (r :: rs, s)

/-- The abstract calls `as` from `t`, with their answers. -/
def runA (step : τ → α → ρ × τ) : τ → List α → List ρ × τ
  | t, [] => ([], t)
  | t, a :: as => ((step t a).1 :: (runA step (step t a).2 as).1, (runA step (step t a).2 as).2)

/-- Each call of `as` is allowed in the abstract state it meets. -/
def Allowed (ok : τ → α → Prop) (step : τ → α → ρ × τ) : τ → List α → Prop
  | _, [] => True
  | t, a :: as => ok t a ∧ Allowed ok step (step t a).2 as

variable {cstep : σ → α → Option (ρ × σ)} {astep : τ → α → ρ × τ} {ok : τ → α → Prop}

theorem allowed_of_forall (hok : ∀ t a, ok t a) : ∀ (t : τ) (as : List α), Allowed ok astep t as
  | _, [] => trivial
  | t, a :: as => ⟨hok t a, allowed_of_forall hok _ as⟩

@[simp] theorem runC_nil (s : σ) : runC cstep s [] = some ([], s) := rfl

@[simp] theorem runA_nil (t : τ) : runA astep t [] = ([], t) := rfl

theorem runC_cons_of_step {s s' : σ} {a : α} {as : List α} {r : ρ} (h : cstep s a = some (r, s')) :
    runC cstep s (a :: as) = (runC cstep s' as).map fun p => (r :: p.1, p.2) := by
  simp only [runC, h, Option.bind_eq_bind, Option.bind_some, Option.pure_def]
  cases runC cstep s' as <;> rfl

theorem simulation (R : σ → τ → Prop)
    (hstep : ∀ s t a, R s t → ok t a → ∃ s', cstep s a = some ((astep t a).1, s') ∧ R s' (astep t a).2) :
    ∀ {as : List α} {s : σ} {t : τ}, R s t → Allowed ok astep t as →
      ∃ s', runC cstep s as = some ((runA astep t as).1, s') ∧ R s' (runA astep t as).2
  | [], s, _, hR, _ => ⟨s, rfl, hR⟩
  | a :: as, s, t, hR, ⟨hok, hrest⟩ => by
    obtain ⟨s₁, hs₁, hR₁⟩ := hstep s t a hR hok
    obtain ⟨s', hrun, hR'⟩ := simulation R hstep hR₁ hrest
    refine ⟨s', ?_, hR'⟩
    rw [runC_cons_of_step hs₁, hrun]
    rfl

end TCMalloc.Lib.Simulation
