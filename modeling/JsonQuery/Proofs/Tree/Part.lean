import JsonQuery.Value.Basic
import Mathlib.Data.List.Basic

/-!
# Parts of queries

The queries directly inside a query, each with the place where it stands, and what holds of a query
and of everything inside it.  Literals are values, so what they hold is no part.
-/

set_option autoImplicit false

namespace JsonQuery.Query

inductive Place where
  /-- A projection from an array projects from the query. -/
  | target
  /-- A projection from an array applies the query to each item. -/
  | body
  | other
  deriving DecidableEq

def parts : Query → List (Place × Query)
  | .current | .field _ | .index _ | .literal _ | .slice _ | .path _ | .range _ _ => []
  | .flatten child | .negate child | .presentMembers child | .reference _ child => [(.other, child)]
  | .presentItems target => [(.target, target)]
  | .eachItem target body => [(.target, target), (.body, body)]
  | .chain left right | .pipe left right | .eachMember left right | .guard left right
  | .compare _ left right | .both left right | .either left right
  | .guardLiteral _ left _ right => [(.other, left), (.other, right)]
  | .guardCompare _ left right body => [(.other, left), (.other, right), (.other, body)]
  | .list items | .call _ items _ => items.map fun item => (.other, item)
  | .hash entries => entries.map fun entry => (.other, entry.2)

theorem sizeOf_lt_of_mem_parts {q : Query} {part : Place × Query} (found : part ∈ q.parts) :
    sizeOf part.2 < sizeOf q := by
  have listed {items : List Query} (found : part ∈ items.map fun item => (Place.other, item)) :
      sizeOf part.2 < sizeOf items := by
    obtain ⟨item, inside, rfl⟩ := List.mem_map.mp found
    exact List.sizeOf_lt_of_mem inside
  cases q with
  | current | field | index | literal | slice | path | range => cases found
  | list items =>
      have smaller := listed found
      rw [list.sizeOf_spec]
      omega
  | call name items lenient =>
      have smaller := listed found
      rw [call.sizeOf_spec]
      omega
  | hash entries =>
      obtain ⟨⟨key, item⟩, inside, rfl⟩ := List.mem_map.mp found
      have smaller := List.sizeOf_lt_of_mem inside
      rw [Prod.mk.sizeOf_spec] at smaller
      show sizeOf item < _
      rw [hash.sizeOf_spec]
      omega
  | _ =>
      simp only [parts, List.mem_cons, List.not_mem_nil, or_false] at found
      grind

/-- Induction on queries with all parts at once. -/
theorem induct_parts {motive : Query → Prop}
    (step : ∀ q, (∀ part ∈ q.parts, motive part.2) → motive q) (q : Query) : motive q :=
  step q fun part _ => induct_parts step part.2
termination_by sizeOf q
decreasing_by exact sizeOf_lt_of_mem_parts ‹_›

/-- The property holds of the query and of everything inside it. -/
inductive Everywhere (holds : Query → Prop) : Query → Prop
  | intro {q : Query} (here : holds q) (inside : ∀ part ∈ q.parts, Everywhere holds part.2) :
      Everywhere holds q

namespace Everywhere

variable {holds : Query → Prop} {q : Query}

theorem here (all : Everywhere holds q) : holds q := by
  cases all with
  | intro here _ => exact here

theorem inside (all : Everywhere holds q) {part : Place × Query} (found : part ∈ q.parts) :
    Everywhere holds part.2 := by
  cases all with
  | intro _ inside => exact inside part found

/-- A query with one part. -/
theorem single {place : Place} {child : Query} (here : holds q) (only : q.parts = [(place, child)])
    (all : Everywhere holds child) : Everywhere holds q := by
  refine ⟨here, ?_⟩
  rw [only]
  exact List.forall_mem_singleton.mpr all

/-- A query with two parts. -/
theorem pair {place place' : Place} {left right : Query} (here : holds q)
    (both : q.parts = [(place, left), (place', right)]) (first : Everywhere holds left)
    (second : Everywhere holds right) : Everywhere holds q := by
  refine ⟨here, ?_⟩
  rw [both]
  exact List.forall_mem_cons.mpr ⟨first, List.forall_mem_singleton.mpr second⟩

/-- A query with the items of a list as its parts. -/
theorem list {items : List Query} (here : holds q)
    (listed : q.parts = items.map fun item => (.other, item))
    (all : ∀ item ∈ items, Everywhere holds item) : Everywhere holds q := by
  refine ⟨here, ?_⟩
  rw [listed]
  exact List.forall_mem_map.mpr all

end Everywhere

end JsonQuery.Query
