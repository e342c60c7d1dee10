/-!
`TC_ASSERT`, `TC_CHECK` and `ASSUME` in a model whose operations can fail: the code goes
on only when the condition holds, and a failed check is `none`.  A statement that every
allowed call returns `some` then says that no check of the call fires.
-/

set_option autoImplicit false
set_option relaxedAutoImplicit false

namespace TCMalloc.Lib

/-- `TC_ASSERT(cond)` before the rest `x` of an operation. -/
def check (cond : Prop) [Decidable cond] {α : Type} (x : Option α) : Option α :=
  if cond then x else none

variable {cond : Prop} [Decidable cond] {α : Type} {x : Option α}

@[simp] theorem check_pos (h : cond) : check cond x = x := if_pos h

@[simp] theorem check_neg (h : ¬cond) : check cond x = none := if_neg h

theorem check_eq_some {a : α} : check cond x = some a ↔ cond ∧ x = some a := by
  by_cases h : cond
  · simp [h]
  · simp [h]

end TCMalloc.Lib
