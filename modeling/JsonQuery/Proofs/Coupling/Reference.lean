import JsonQuery.Proofs.Coupling.Query

/-!
# References inside values and queries

All bodies that a value or a query holds, at any depth, with those inside other bodies.  A value or
query is coupled with itself as soon as these bodies are.
-/

set_option autoImplicit false

namespace JsonQuery

mutual

/-- The bodies of all references in a value, with those inside other references. -/
def Value.references : Value → List Query
  | .null | .bool _ | .int _ | .float _ | .string _ => []
  | .array items => Value.listReferences items
  | .object entries => Value.entriesReferences entries
  | .reference _ body => body :: body.references
termination_by structural v => v

def Value.listReferences : List Value → List Query
  | [] => []
  | v :: rest => v.references ++ Value.listReferences rest
termination_by structural items => items

def Value.entriesReferences : List (String × Value) → List Query
  | [] => []
  | (_, v) :: rest => v.references ++ Value.entriesReferences rest
termination_by structural entries => entries

/-- The bodies of all references in a query, with those inside other references and in literals. -/
def Query.references : Query → List Query
  | .current | .field _ | .index _ | .slice _ | .path _ | .range _ _ => []
  | .literal v => v.references
  | .reference _ body => body :: body.references
  | .flatten child | .negate child | .presentItems child | .presentMembers child =>
      child.references
  | .chain left right | .pipe left right | .eachItem left right | .eachMember left right
  | .guard left right | .compare _ left right | .both left right | .either left right =>
      left.references ++ right.references
  | .guardLiteral _ left v body => left.references ++ v.references ++ body.references
  | .guardCompare _ left right body => left.references ++ right.references ++ body.references
  | .list items | .call _ items _ => Query.listReferences items
  | .hash entries => Query.entriesReferences entries
termination_by structural query => query

def Query.listReferences : List Query → List Query
  | [] => []
  | query :: rest => query.references ++ Query.listReferences rest
termination_by structural queries => queries

def Query.entriesReferences : List (String × Query) → List Query
  | [] => []
  | (_, query) :: rest => query.references ++ Query.entriesReferences rest
termination_by structural entries => entries

end

/-! ## References within references -/

/-- With each body there are all bodies inside it. -/
def Nested (bodies : List Query) : Prop :=
  ∀ body ∈ bodies, (body :: body.references).Sublist bodies

theorem Nested.append {left right : List Query} (first : Nested left) (second : Nested right) :
    Nested (left ++ right) := by
  intro body found
  obtain found | found := List.mem_append.mp found
  · exact (first body found).trans (List.sublist_append_left _ _)
  · exact (second body found).trans (List.sublist_append_right _ _)

theorem Nested.cons {body : Query} (inner : Nested body.references) :
    Nested (body :: body.references) := by
  intro other found
  obtain rfl | found := List.mem_cons.mp found
  · exact .refl _
  · exact (inner other found).cons body

theorem Nested.nil : Nested [] :=
  nofun

mutual

theorem Value.references_nested : ∀ v : Value, Nested v.references
  | .null | .bool _ | .int _ | .float _ | .string _ => .nil
  | .array items => Value.listReferences_nested items
  | .object entries => Value.entriesReferences_nested entries
  | .reference _ body => .cons body.references_nested

theorem Value.listReferences_nested : ∀ items : List Value, Nested (Value.listReferences items)
  | [] => .nil
  | v :: rest => .append v.references_nested (Value.listReferences_nested rest)

theorem Value.entriesReferences_nested : ∀ entries : Entries Value,
    Nested (Value.entriesReferences entries)
  | [] => .nil
  | (_, v) :: rest => .append v.references_nested (Value.entriesReferences_nested rest)

theorem Query.references_nested : ∀ q : Query, Nested q.references
  | .current | .field _ | .index _ | .slice _ | .path _ | .range _ _ => .nil
  | .literal v => v.references_nested
  | .reference _ body => .cons body.references_nested
  | .flatten child | .negate child | .presentItems child | .presentMembers child =>
      child.references_nested
  | .chain left right | .pipe left right | .eachItem left right | .eachMember left right
  | .guard left right | .compare _ left right | .both left right | .either left right =>
      .append left.references_nested right.references_nested
  | .guardLiteral _ left v body =>
      .append (.append left.references_nested v.references_nested) body.references_nested
  | .guardCompare _ left right body =>
      .append (.append left.references_nested right.references_nested) body.references_nested
  | .list items | .call _ items _ => Query.listReferences_nested items
  | .hash entries => Query.entriesReferences_nested entries

theorem Query.listReferences_nested : ∀ queries : List Query,
    Nested (Query.listReferences queries)
  | [] => .nil
  | q :: rest => .append q.references_nested (Query.listReferences_nested rest)

theorem Query.entriesReferences_nested : ∀ entries : Entries Query,
    Nested (Query.entriesReferences entries)
  | [] => .nil
  | (_, q) :: rest => .append q.references_nested (Query.entriesReferences_nested rest)

end

theorem Query.references_length_lt {q body : Query} (found : body ∈ q.references) :
    body.references.length < q.references.length :=
  (q.references_nested body found).length_le

/-! ## Coupled with themselves -/

section Self

variable {refs : Query → Query → Prop}

mutual

theorem Value.coupled_self : ∀ v : Value, (∀ body ∈ v.references, refs body body) →
    Value.Coupled refs v v
  | .null, _ => .null
  | .bool b, _ => .bool b
  | .int n, _ => .int n
  | .float x, _ => .float x
  | .string s, _ => .string s
  | .array items, same => .array (Value.list_coupled_self items same)
  | .object entries, same => .ofEntries (Value.entries_coupled_self entries same)
  | .reference tag body, same => .reference tag (same body List.mem_cons_self)

theorem Value.list_coupled_self : ∀ items : List Value,
    (∀ body ∈ Value.listReferences items, refs body body) →
    List.Forall₂ (Value.Coupled refs) items items
  | [], _ => .nil
  | v :: rest, same => by
      simp only [Value.listReferences, List.forall_mem_append] at same
      exact .cons (Value.coupled_self v same.1) (Value.list_coupled_self rest same.2)

theorem Value.entries_coupled_self : ∀ entries : Entries Value,
    (∀ body ∈ Value.entriesReferences entries, refs body body) →
    Entries.Coupled (Value.Coupled refs) entries entries
  | [], _ => .nil
  | (_, v) :: rest, same => by
      simp only [Value.entriesReferences, List.forall_mem_append] at same
      exact .cons ⟨rfl, Value.coupled_self v same.1⟩ (Value.entries_coupled_self rest same.2)

end

end Self

namespace Query

variable {c : Coupling}

mutual

theorem coupled_self (calls : ∀ name lenient, c.AllowsCall name lenient lenient) :
    ∀ q : Query, (∀ body ∈ q.references, c.refs body body) → Coupled c q q
  | .current, _ => .current
  | .field name, _ => .field name
  | .index position, _ => .index position
  | .slice s, _ => .slice s
  | .path keys, _ => .path keys
  | .range start stop, _ => .range start stop
  | .literal v, same => .literal (v.coupled_self same)
  | .reference tag body, same => .reference tag (same body List.mem_cons_self)
  | .flatten child, same => .flatten (coupled_self calls child same)
  | .negate child, same => .negate (coupled_self calls child same)
  | .presentItems child, same => .presentItems (coupled_self calls child same)
  | .presentMembers child, same => .presentMembers (coupled_self calls child same)
  | .chain left right, same =>
      have both := List.forall_mem_append.mp same
      .chain (coupled_self calls left both.1) (coupled_self calls right both.2)
  | .pipe left right, same =>
      have both := List.forall_mem_append.mp same
      .pipe (coupled_self calls left both.1) (coupled_self calls right both.2)
  | .eachItem target body, same =>
      have both := List.forall_mem_append.mp same
      .eachItem (coupled_self calls target both.1) (coupled_self calls body both.2)
  | .eachMember target body, same =>
      have both := List.forall_mem_append.mp same
      .eachMember (coupled_self calls target both.1) (coupled_self calls body both.2)
  | .guard test body, same =>
      have both := List.forall_mem_append.mp same
      .guard (coupled_self calls test both.1) (coupled_self calls body both.2)
  | .compare op left right, same =>
      have both := List.forall_mem_append.mp same
      .compare op (coupled_self calls left both.1) (coupled_self calls right both.2)
  | .both left right, same =>
      have both := List.forall_mem_append.mp same
      .both (coupled_self calls left both.1) (coupled_self calls right both.2)
  | .either left right, same =>
      have both := List.forall_mem_append.mp same
      .either (coupled_self calls left both.1) (coupled_self calls right both.2)
  | .guardLiteral negated left v body, same => by
      simp only [references, List.forall_mem_append] at same
      exact .guardLiteral negated (coupled_self calls left same.1.1) (v.coupled_self same.1.2)
        (coupled_self calls body same.2)
  | .guardCompare op left right body, same => by
      simp only [references, List.forall_mem_append] at same
      exact .guardCompare op (coupled_self calls left same.1.1) (coupled_self calls right same.1.2)
        (coupled_self calls body same.2)
  | .list items, same => .list (list_coupled_self calls items same)
  | .call name args lenient, same => .call (calls name lenient) (list_coupled_self calls args same)
  | .hash entries, same => .hash rfl (entries_coupled_self calls entries same).values

theorem list_coupled_self (calls : ∀ name lenient, c.AllowsCall name lenient lenient) :
    ∀ queries : List Query, (∀ body ∈ listReferences queries, c.refs body body) →
    List.Forall₂ (Coupled c) queries queries
  | [], _ => .nil
  | q :: rest, same =>
      have both := List.forall_mem_append.mp same
      .cons (coupled_self calls q both.1) (list_coupled_self calls rest both.2)

theorem entries_coupled_self (calls : ∀ name lenient, c.AllowsCall name lenient lenient) :
    ∀ entries : Entries Query, (∀ body ∈ entriesReferences entries, c.refs body body) →
    Entries.Coupled (Coupled c) entries entries
  | [], _ => .nil
  | (_, q) :: rest, same =>
      have both := List.forall_mem_append.mp same
      .cons ⟨rfl, coupled_self calls q both.1⟩ (entries_coupled_self calls rest both.2)

end

end Query

end JsonQuery
