import JsonQuery.Proofs.Coupling.Value
import JsonQuery.Query.Outcome

/-!
# Outcomes that follow each other

Two runs that differ in their references, or in how far they go, are compared from left to right:
where the left one answers, the right one answers with a related value, and where the left one is
aborted, so is the right one.  What is known where the left one fails or is cut off is part of the
coupling.
-/

set_option autoImplicit false

namespace JsonQuery

/-- What is common to two runs. -/
structure Coupling where
  /-- The bodies of references that stand for each other. -/
  refs : Query → Query → Prop
  /-- The errors with which the left run may fail. -/
  admits : Error → Prop
  /-- Where the left run fails, the right one is free. -/
  pardons : Prop
  /-- The left run may be cut off, and then the right one is free. -/
  cuts : Prop

namespace Outcome

variable {α β γ δ : Type} {c : Coupling} {rel : α → β → Prop} {rel' : γ → δ → Prop}

/-- The right outcome is what the coupling allows beside the left one. -/
def Follows (c : Coupling) (rel : α → β → Prop) : Outcome α → Outcome β → Prop
  | .answer a, right => ∃ b, right = .answer b ∧ rel a b
  | .failure e, right => c.admits e ∧ (c.pardons ∨ right = .failure e)
  | .aborted, right => right = .aborted
  | .unsettled, _ => c.cuts

namespace Follows

theorem answer {a : α} {b : β} (related : rel a b) : Follows c rel (.answer a) (.answer b) :=
  ⟨b, rfl, related⟩

theorem failure {e : Error} (admitted : c.admits e) : Follows c rel (.failure e) (.failure e) :=
  ⟨admitted, .inr rfl⟩

theorem bind {left : Outcome α} {right : Outcome β} {f : α → Outcome γ} {g : β → Outcome δ}
    (first : Follows c rel left right)
    (next : ∀ a b, rel a b → Follows c rel' (f a) (g b)) :
    Follows c rel' (left >>= f) (right >>= g) := by
  cases left with
  | answer a =>
      obtain ⟨b, rfl, related⟩ := first
      exact next a b related
  | failure e =>
      refine ⟨first.1, first.2.imp_right ?_⟩
      rintro rfl
      rfl
  | aborted =>
      obtain rfl := first
      rfl
  | unsettled => exact first

/-- A weaker coupling asks for less. -/
theorem weaken {c' : Coupling} {rel' : α → β → Prop} {left : Outcome α} {right : Outcome β}
    (follows : Follows c rel left right) (related : ∀ a b, rel a b → rel' a b)
    (admitted : ∀ e, c.admits e → c'.admits e) (pardoned : c.pardons → c'.pardons)
    (cut : c.cuts → c'.cuts) : Follows c' rel' left right := by
  cases left with
  | answer a =>
      obtain ⟨b, answered, both⟩ := follows
      exact ⟨b, answered, related a b both⟩
  | failure e => exact ⟨admitted e follows.1, follows.2.imp_left pardoned⟩
  | aborted => exact follows
  | unsettled => exact cut follows

theorem traverse {f : α → Outcome γ} {g : β → Outcome δ} {as : List α} {bs : List β}
    (items : List.Forall₂ rel as bs) (each : ∀ a b, rel a b → Follows c rel' (f a) (g b)) :
    Follows c (List.Forall₂ rel') (Outcome.traverse f as) (Outcome.traverse g bs) := by
  induction items with
  | nil => exact .answer .nil
  | cons head _ ih =>
      exact (each _ _ head).bind fun _ _ first => ih.bind fun _ _ rest => .answer (.cons first rest)

end Follows

end Outcome

end JsonQuery
