import JsonQuery.Proofs.Grammar.Related
import JsonQuery.Proofs.Leniency.Query

/-!
# Leniency of reading

All calls in a query that has been read carry the mark of the parser, they name functions, and the
literals beside them are plain.  Two parsers read the same text into the same query up to the marks,
or refuse it with the same error.
-/

set_option autoImplicit false

namespace JsonQuery

namespace Query

/-- Uniformly marked, and the same query with the other mark. -/
def Remarked (marked lenient : Bool) (p q : Query) : Prop :=
  p.isUniform marked = true ∧ q = p.withLenient lenient

section Remarked

variable {marked lenient : Bool}

theorem listWithLenient_of_remarked {ps qs : List Query}
    (items : List.Forall₂ (Remarked marked lenient) ps qs) :
    listIsUniform marked ps = true ∧ qs = listWithLenient lenient ps := by
  induction items with
  | nil => exact ⟨rfl, rfl⟩
  | cons head _ ih =>
      obtain ⟨uniform, rfl⟩ := head
      obtain ⟨others, rfl⟩ := ih
      exact ⟨by simp only [listIsUniform, uniform, others, Bool.and_self], rfl⟩

theorem entriesWithLenient_of_remarked {ps qs : Entries Query}
    (entries : Entries.Coupled (Remarked marked lenient) ps qs) :
    entriesAreUniform marked ps = true ∧ qs = entriesWithLenient lenient ps := by
  induction entries with
  | nil => exact ⟨rfl, rfl⟩
  | @cons entry entry' _ _ head _ ih =>
      obtain ⟨key, p⟩ := entry
      obtain ⟨key', q⟩ := entry'
      obtain ⟨rfl, uniform, rfl⟩ := head
      obtain ⟨others, rfl⟩ := ih
      exact ⟨by simp only [entriesAreUniform, uniform, others, Bool.and_self], rfl⟩

theorem Remarked.binary {p q p' q' : Query} (left : Remarked marked lenient p q)
    (right : Remarked marked lenient p' q') :
    (p.isUniform marked && p'.isUniform marked) = true ∧
      q = p.withLenient lenient ∧ q' = p'.withLenient lenient :=
  ⟨by simp only [left.1, right.1, Bool.and_self], left.2, right.2⟩

theorem remarked_join (op : Grammar.Connective) {p q p' q' : Query}
    (left : Remarked marked lenient p q) (right : Remarked marked lenient p' q') :
    Remarked marked lenient (op.join p p') (op.join q q') := by
  obtain ⟨uniform, rfl, rfl⟩ := left.binary right
  cases op <;> exact ⟨uniform, rfl⟩

theorem remarked_project {s t : Grammar.Source}
    (source : Grammar.Source.Related (Remarked marked lenient) s t) {p q : Query}
    (body : Remarked marked lenient p q) :
    Remarked marked lenient (s.project p) (t.project q) := by
  cases source with
  | items target =>
      obtain ⟨uniform, rfl, rfl⟩ := target.binary body
      exact ⟨uniform, rfl⟩
  | members target =>
      obtain ⟨uniform, rfl, rfl⟩ := target.binary body
      exact ⟨uniform, rfl⟩
  | flattened target =>
      obtain ⟨uniform, rfl, rfl⟩ := target.binary body
      exact ⟨uniform, rfl⟩
  | filtered target test =>
      obtain ⟨uniform, rfl⟩ := target
      obtain ⟨uniform', rfl, rfl⟩ := test.binary body
      refine ⟨?_, rfl⟩
      simp only [Grammar.Source.project, isUniform, uniform, uniform', Bool.and_self]
  | sliced target allowed =>
      obtain ⟨uniform', rfl⟩ := body
      cases target with
      | none => exact ⟨uniform', rfl⟩
      | some related =>
          obtain ⟨uniform, rfl⟩ := related
          refine ⟨?_, rfl⟩
          simp only [Grammar.Source.project, isUniform, uniform, uniform', Bool.and_self]

theorem remarked_builds : Grammar.Builds (Remarked marked lenient) marked lenient where
  current := ⟨rfl, rfl⟩
  field _ := ⟨rfl, rfl⟩
  literal document := ⟨Value.isPlain_of_isDocument document, rfl⟩
  index _ := ⟨rfl, rfl⟩
  member left right := by
    obtain ⟨uniform, rfl, rfl⟩ := left.binary right
    exact ⟨uniform, rfl⟩
  reference body := by
    obtain ⟨uniform, rfl⟩ := body
    exact ⟨uniform, rfl⟩
  negation child := by
    obtain ⟨uniform, rfl⟩ := child
    exact ⟨uniform, rfl⟩
  connective op := remarked_join op
  projection := remarked_project
  list items _ := by
    obtain ⟨uniform, rfl⟩ := listWithLenient_of_remarked items
    exact ⟨uniform, rfl⟩
  hash entries _ := by
    obtain ⟨uniform, rfl⟩ := entriesWithLenient_of_remarked entries
    exact ⟨uniform, rfl⟩
  call known args := by
    obtain ⟨uniform, rfl⟩ := listWithLenient_of_remarked args
    refine ⟨?_, rfl⟩
    simp only [isUniform, known, uniform, beq_self_eq_true, Bool.and_self]

end Remarked

end Query

/-! ## Reading with either setting -/

theorem parse_withLenient (marked lenient : Bool) (text : String) :
    (Parser.mk lenient).parse text =
      ((Parser.mk marked).parse text).map (Query.withLenient lenient) := by
  have builds : Grammar.Builds (Query.Remarked marked lenient) marked lenient :=
    Query.remarked_builds
  have both := Grammar.parse_related builds text
  generalize (Parser.mk marked).parse text = left at both
  generalize (Parser.mk lenient).parse text = right at both
  cases both with
  | error e => rfl
  | ok related => rw [related.2, Except.map]

theorem parse_isUniform {lenient : Bool} {text : String} {q : Query}
    (read : (Parser.mk lenient).parse text = .ok q) : q.isUniform lenient = true := by
  have builds : Grammar.Builds (Query.Remarked lenient lenient) lenient lenient :=
    Query.remarked_builds
  have both := Grammar.parse_related builds text
  rw [read] at both
  cases both with
  | ok related => exact related.1

end JsonQuery
