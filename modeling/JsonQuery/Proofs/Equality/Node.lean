import JsonQuery.Proofs.Equality.Congruence
import JsonQuery.Proofs.Tree.Part
import Mathlib.Data.List.Forall2

/-!
# Equality, node by node

A query is its head, the literals at its root and the queries directly inside it.  Two queries are
equal when their heads are the same and the rest is equal piece by piece.  So what is to be shown of
equality of queries need not look at their forms.
-/

set_option autoImplicit false

namespace JsonQuery

open List (Forall₂)

/-! ## Lists -/

theorem forall₂_imp_of_mem {α β : Type} {R S : α → β → Prop} {as : List α} {bs : List β}
    (pairs : Forall₂ R as bs) (step : ∀ a ∈ as, ∀ b ∈ bs, R a b → S a b) : Forall₂ S as bs := by
  obtain ⟨length, related⟩ := List.forall₂_iff_zip.mp pairs
  refine List.forall₂_iff_zip.mpr ⟨length, fun found => ?_⟩
  obtain ⟨left, right⟩ := List.of_mem_zip found
  exact step _ left _ right (related found)

theorem Value.listEqualsIn_iff {same : Bool} {as bs : List Value} :
    listEqualsIn same as bs = true ↔ Forall₂ (fun a b => equalsIn same a b = true) as bs := by
  induction as generalizing bs with
  | nil => cases bs <;> simp [listEqualsIn]
  | cons a as ih => cases bs <;> simp [listEqualsIn, ih]

/-- The entries of the first list are in the second one under their keys. -/
theorem Value.entriesWithin_iff {same : Bool} {as bs : Entries Value} :
    entriesWithin same as bs = true ↔
      ∀ entry ∈ as, ∃ b, Entries.get? entry.1 bs = some b ∧ equalsIn same entry.2 b = true := by
  induction as with
  | nil => simp [entriesWithin]
  | cons entry as ih =>
      obtain ⟨key, a⟩ := entry
      simp only [entriesWithin, Bool.and_eq_true, ih, List.forall_mem_cons]
      cases Entries.get? key bs <;> simp

namespace Query

theorem listEqualsIn_iff {same : Bool} {ps qs : List Query} :
    listEqualsIn same ps qs = true ↔ Forall₂ (fun p q => equalsIn same p q = true) ps qs := by
  induction ps generalizing qs with
  | nil => cases qs <;> simp [listEqualsIn]
  | cons p ps ih => cases qs <;> simp [listEqualsIn, ih]

theorem entriesEqualIn_iff {same : Bool} {ps qs : Entries Query} :
    entriesEqualIn same ps qs = true ↔
      Entries.keys ps = Entries.keys qs ∧
        Forall₂ (fun p q => equalsIn same p q = true) (Entries.values ps) (Entries.values qs) := by
  induction ps generalizing qs with
  | nil => cases qs <;> simp [entriesEqualIn, Entries.keys, Entries.values]
  | cons entry ps ih =>
      obtain ⟨key, p⟩ := entry
      cases qs with
      | nil => simp [entriesEqualIn, Entries.keys]
      | cons entry' qs =>
          obtain ⟨key', q⟩ := entry'
          simp only [entriesEqualIn, Bool.and_eq_true, beq_iff_eq, ih, Entries.keys, Entries.values,
            List.map_cons, List.cons.injEq, List.forall₂_cons]
          tauto

/-! ## Nodes -/

/-- The queries directly inside a query. -/
def children (q : Query) : List Query :=
  q.parts.map Prod.snd

/-- The literals that a query holds itself. -/
def literals : Query → List Value
  | .literal v | .guardLiteral _ _ v _ => [v]
  | _ => []

/-- A query without what is inside it.  Tags are no part of it, because they are not compared. -/
def head : Query → Query
  | .chain _ _ => .chain .current .current
  | .pipe _ _ => .pipe .current .current
  | .flatten _ => .flatten .current
  | .eachItem _ _ => .eachItem .current .current
  | .eachMember _ _ => .eachMember .current .current
  | .guard _ _ => .guard .current .current
  | .compare op _ _ => .compare op .current .current
  | .both _ _ => .both .current .current
  | .either _ _ => .either .current .current
  | .negate _ => .negate .current
  | .list _ => .list []
  | .hash entries => .hash (entries.map fun entry => (entry.1, .current))
  | .literal _ => .literal .null
  | .reference _ _ => .reference none .current
  | .call name _ lenient => .call name [] lenient
  | .presentItems _ => .presentItems .current
  | .presentMembers _ => .presentMembers .current
  | .guardCompare op _ _ _ => .guardCompare op .current .current .current
  | .guardLiteral negated _ _ _ => .guardLiteral negated .current .null .current
  | q => q

theorem sizeOf_lt_of_mem_children {q child : Query} (found : child ∈ q.children) :
    sizeOf child < sizeOf q := by
  obtain ⟨part, inside, rfl⟩ := List.mem_map.mp found
  exact sizeOf_lt_of_mem_parts inside

theorem sizeOf_lt_of_mem_literals {q : Query} {v : Value} (found : v ∈ q.literals) :
    sizeOf v < sizeOf q := by
  cases q with
  | literal w =>
      obtain rfl := List.mem_singleton.mp found
      rw [literal.sizeOf_spec]
      omega
  | guardLiteral negated left w body =>
      obtain rfl := List.mem_singleton.mp found
      rw [guardLiteral.sizeOf_spec]
      omega
  | _ => cases found

end Query

/-! ## Induction -/

namespace Value

/-- The values directly inside a value. -/
def inside : Value → List Value
  | .array items => items
  | .object entries => Entries.values entries
  | _ => []

/-- The query of a reference. -/
def bodies : Value → List Query
  | .reference _ body => [body]
  | _ => []

theorem sizeOf_lt_of_mem_inside {v w : Value} (found : w ∈ v.inside) : sizeOf w < sizeOf v := by
  cases v with
  | array items =>
      have smaller := List.sizeOf_lt_of_mem (show w ∈ items from found)
      rw [array.sizeOf_spec]
      omega
  | object entries =>
      obtain ⟨⟨key, member⟩, held, rfl⟩ := List.mem_map.mp found
      have smaller := List.sizeOf_lt_of_mem held
      rw [Prod.mk.sizeOf_spec] at smaller
      show sizeOf member < _
      rw [object.sizeOf_spec]
      omega
  | _ => cases found

theorem sizeOf_lt_of_mem_bodies {v : Value} {body : Query} (found : body ∈ v.bodies) :
    sizeOf body < sizeOf v := by
  cases v with
  | reference tag query =>
      obtain rfl := List.mem_singleton.mp found
      rw [reference.sizeOf_spec]
      omega
  | _ => cases found

end Value

/-- What carries over to a value or a query from everything that is directly inside it. -/
structure CarriesOver (values : Value → Prop) (queries : Query → Prop) : Prop where
  value : ∀ v : Value, (∀ w ∈ v.inside, values w) → (∀ body ∈ v.bodies, queries body) → values v
  query : ∀ q : Query, (∀ v ∈ q.literals, values v) → (∀ child ∈ q.children, queries child) →
    queries q

namespace CarriesOver

variable {values : Value → Prop} {queries : Query → Prop}

mutual

theorem onValue (carries : CarriesOver values queries) (v : Value) : values v :=
  carries.value v (fun w _ => carries.onValue w) fun body _ => carries.onQuery body
termination_by sizeOf v
decreasing_by
  · exact Value.sizeOf_lt_of_mem_inside ‹_›
  · exact Value.sizeOf_lt_of_mem_bodies ‹_›

theorem onQuery (carries : CarriesOver values queries) (q : Query) : queries q :=
  carries.query q (fun v _ => carries.onValue v) fun child _ => carries.onQuery child
termination_by sizeOf q
decreasing_by
  · exact Query.sizeOf_lt_of_mem_literals ‹_›
  · exact Query.sizeOf_lt_of_mem_children ‹_›

end

end CarriesOver

/-! ## Equal nodes -/

namespace Query

theorem hash_head_eq_iff {ps qs : Entries Query} :
    head (.hash ps) = head (.hash qs) ↔ Entries.keys ps = Entries.keys qs := by
  have pair : Function.Injective fun key : String => (key, Query.current) :=
    fun _ _ same => congrArg Prod.fst same
  have whole (entries : Entries Query) : entries.map (fun entry => (entry.1, Query.current)) =
      (Entries.keys entries).map fun key => (key, Query.current) := by
    rw [Entries.keys, List.map_map]
    rfl
  rw [head, head, hash.injEq, whole, whole]
  exact pair.list_map.eq_iff

theorem children_list (items : List Query) : (Query.list items).children = items := by
  rw [children, parts, List.map_map]
  exact List.map_id items

theorem children_call (name : String) (args : List Query) (lenient : Bool) :
    (Query.call name args lenient).children = args :=
  children_list args

theorem children_hash (entries : Entries Query) :
    (Query.hash entries).children = Entries.values entries := by
  rw [children, parts, List.map_map]
  rfl

/-- Equality of queries looks at their heads, their literals and what is directly inside them. -/
theorem equalsIn_iff {same : Bool} {p q : Query} :
    equalsIn same p q = true ↔
      p.head = q.head ∧
        Forall₂ (fun v w => Value.equalsIn same v w = true) p.literals q.literals ∧
        Forall₂ (fun p q => equalsIn same p q = true) p.children q.children := by
  cases p with
  | list items =>
      cases q with
      | list items' =>
          rw [equalsIn, listEqualsIn_iff, children_list, children_list]
          simp [head, literals]
      | _ => exact iff_of_false Bool.false_ne_true fun pieces => by cases pieces.1
  | call name args lenient =>
      cases q with
      | call name' args' lenient' =>
          simp only [equalsIn, Bool.and_eq_true, beq_iff_eq, listEqualsIn_iff, children_call, head,
            call.injEq, literals, List.Forall₂.nil, true_and]
          tauto
      | _ => exact iff_of_false Bool.false_ne_true fun pieces => by cases pieces.1
  | hash entries =>
      cases q with
      | hash entries' =>
          rw [equalsIn, entriesEqualIn_iff, hash_head_eq_iff, children_hash, children_hash]
          simp [literals]
      | _ => exact iff_of_false Bool.false_ne_true fun pieces => by cases pieces.1
  | guardLiteral negated left v body =>
      cases q with
      | guardLiteral negated' left' v' body' =>
          simp [equalsIn, head, literals, children, parts]
          tauto
      | _ => exact iff_of_false Bool.false_ne_true fun pieces => by cases pieces.1
  | _ =>
      -- the heads differ, or the pieces are as many as the form says
      cases q <;> first
        | exact iff_of_false Bool.false_ne_true fun pieces => by cases pieces.1
        | simp [equalsIn, head, literals, children, parts, and_assoc]

end Query

end JsonQuery
