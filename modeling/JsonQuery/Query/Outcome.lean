import JsonQuery.Error

/-!
# Outcomes of evaluation

Applying a query to a value answers, fails with an error, is aborted, or does not settle: references
can apply each other without end, so evaluation is cut off at some depth, and being cut off is neither
an answer nor an error.
-/

set_option autoImplicit false

namespace JsonQuery

inductive Outcome (α : Type) where
  | answer (a : α)
  | failure (e : Error)
  /-- Sorting came to no result, which ends the program. -/
  | aborted
  /-- Evaluation was cut off. -/
  | unsettled

namespace Outcome

variable {α β : Type}

def bind (outcome : Outcome α) (f : α → Outcome β) : Outcome β :=
  match outcome with
  | .answer a => f a
  | .failure e => .failure e
  | .aborted => .aborted
  | .unsettled => .unsettled

instance : Monad Outcome where
  pure := .answer
  bind := bind

@[simp] theorem pure_eq (a : α) : (pure a : Outcome α) = .answer a :=
  rfl

@[simp] theorem answer_bind (a : α) (f : α → Outcome β) : (Outcome.answer a >>= f) = f a :=
  rfl

@[simp] theorem failure_bind (e : Error) (f : α → Outcome β) :
    ((Outcome.failure e : Outcome α) >>= f) = .failure e :=
  rfl

@[simp] theorem aborted_bind (f : α → Outcome β) :
    ((Outcome.aborted : Outcome α) >>= f) = .aborted :=
  rfl

@[simp] theorem unsettled_bind (f : α → Outcome β) :
    ((Outcome.unsettled : Outcome α) >>= f) = .unsettled :=
  rfl

instance : LawfulMonad Outcome :=
  LawfulMonad.mk' Outcome
    (fun outcome => by cases outcome <;> rfl)
    (fun _ _ => rfl)
    (fun outcome _ _ => by cases outcome <;> rfl)

/-- The outcomes of a function on the items of a list, in order; the first that is no answer ends
the walk. -/
def traverse (f : α → Outcome β) : List α → Outcome (List β)
  | [] => .answer []
  | a :: rest => do
      let b ← f a
      let bs ← traverse f rest
      return b :: bs

end Outcome

end JsonQuery
