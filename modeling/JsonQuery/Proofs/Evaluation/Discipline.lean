import JsonQuery.Proofs.Coupling.Plain
import JsonQuery.Proofs.Evaluation.Depth

/-!
# Disciplined queries

A query is disciplined when its literals are plain and it holds references only at places where a
function applies its argument.  Then no reference ever becomes a part of a value, and the references
that evaluation applies get smaller from one nested application to the next.
-/

set_option autoImplicit false

namespace JsonQuery

namespace Query

mutual

/-- Literals are plain, and references stand only where a function applies its argument.  The flag
tells that the query itself stands there. -/
def disciplinedAt (applied : Bool) : Query → Bool
  | .current | .field _ | .index _ | .slice _ | .path _ | .range _ _ => true
  | .literal v => v.isPlain
  | .reference _ body => applied && disciplinedAt false body
  | .flatten child | .negate child | .presentItems child | .presentMembers child =>
      disciplinedAt false child
  | .chain left right | .pipe left right | .eachItem left right | .eachMember left right
  | .guard left right | .compare _ left right | .both left right | .either left right =>
      disciplinedAt false left && disciplinedAt false right
  | .guardLiteral _ left v body =>
      disciplinedAt false left && v.isPlain && disciplinedAt false body
  | .guardCompare _ left right body =>
      disciplinedAt false left && disciplinedAt false right && disciplinedAt false body
  | .list items => listDisciplined items
  | .hash entries => entriesDisciplined entries
  | .call function args _ => argumentsDisciplined function 0 args
termination_by structural query => query

def listDisciplined : List Query → Bool
  | [] => true
  | query :: rest => disciplinedAt false query && listDisciplined rest
termination_by structural queries => queries

def entriesDisciplined : List (String × Query) → Bool
  | [] => true
  | (_, query) :: rest => disciplinedAt false query && entriesDisciplined rest
termination_by structural entries => entries

/-- The same for the arguments of a function from a place on. -/
def argumentsDisciplined (function : String) (place : Nat) : List Query → Bool
  | [] => true
  | query :: rest =>
      disciplinedAt (Builtin.takesReference function place) query &&
        argumentsDisciplined function (place + 1) rest
termination_by structural queries => queries

end

/-- References stand only where a function applies its argument, and literals are plain. -/
def isDisciplined (query : Query) : Bool :=
  query.disciplinedAt false

theorem disciplinedAt_cases {applied : Bool} {q : Query}
    (disciplined : q.disciplinedAt applied = true) :
    q.isDisciplined = true ∨
      applied = true ∧ ∃ tag body, q = .reference tag body ∧ body.isDisciplined = true := by
  cases q with
  | reference tag body =>
      simp only [disciplinedAt, Bool.and_eq_true] at disciplined
      exact .inr ⟨disciplined.1, tag, body, rfl, disciplined.2⟩
  | _ => exact .inl disciplined

end Query

end JsonQuery
