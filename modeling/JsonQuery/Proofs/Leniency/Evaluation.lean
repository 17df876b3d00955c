import JsonQuery.Proofs.Evaluation.Depth
import JsonQuery.Proofs.Leniency.Parse
import Mathlib

/-!
# Leniency of evaluation

A lenient query never fails.  Where the strict one answers, the lenient one gives the same answer,
up to the marks of calls inside references; where the strict one fails, the arguments of some call
were refused.
-/

set_option autoImplicit false

namespace JsonQuery

/-! ## Answers with the other mark -/

namespace Value

mutual

/-- The value in which every call inside references is marked as given. -/
def withLenient (lenient : Bool) : Value → Value
  | .array items => .array (listWithLenient lenient items)
  | .object entries => .object (entriesWithLenient lenient entries)
  | .reference tag body => .reference tag (body.withLenient lenient)
  | v => v
termination_by structural v => v

def listWithLenient (lenient : Bool) : List Value → List Value
  | [] => []
  | v :: rest => withLenient lenient v :: listWithLenient lenient rest
termination_by structural items => items

def entriesWithLenient (lenient : Bool) : List (String × Value) → List (String × Value)
  | [] => []
  | (key, v) :: rest => (key, withLenient lenient v) :: entriesWithLenient lenient rest
termination_by structural entries => entries

end

theorem eq_listWithLenient {lenient : Bool} {as bs : List Value}
    (items : List.Forall₂ (fun v w => w = v.withLenient lenient) as bs) :
    bs = listWithLenient lenient as := by
  induction items with
  | nil => rfl
  | cons head _ ih => rw [listWithLenient, head, ih]

theorem eq_entriesWithLenient {lenient : Bool} {as bs : Entries Value}
    (entries : Entries.Coupled (fun v w => w = v.withLenient lenient) as bs) :
    bs = entriesWithLenient lenient as := by
  induction entries with
  | nil => rfl
  | @cons entry entry' _ _ head _ ih =>
      obtain ⟨key, v⟩ := entry
      obtain ⟨key', w⟩ := entry'
      obtain ⟨rfl, rfl⟩ := head
      rw [entriesWithLenient, ih]

theorem Coupled.eq_withLenient {marked lenient : Bool} {v w : Value}
    (coupled : Coupled (Query.Remarked marked lenient) v w) : w = v.withLenient lenient := by
  induction coupled using Coupled.induct with
  | array items ih =>
      rw [withLenient, ← eq_listWithLenient (ih.imp fun _ _ ⟨_, equal⟩ => equal)]
  | object keys values ih =>
      rw [withLenient,
        ← eq_entriesWithLenient (ih.imp fun _ _ ⟨sameKey, _, equal⟩ => ⟨sameKey, equal⟩)]
  | reference tag bodies => rw [bodies.2, withLenient]
  | _ => rfl

end Value

namespace Query

/-! ## Strict and lenient runs -/

/-- The coupling of a run with marks as given and the lenient run.  Only strict calls fail, and only
where their arguments are refused. -/
def leniency (marked : Bool) : Coupling where
  refs := Remarked marked true
  admits e := marked = false ∧ e.isForgivable = true
  pardons := marked = false
  cuts := True

variable {marked : Bool}

theorem remarked_respectful : Respectful (Remarked marked true) := by
  rintro same p _ p' _ ⟨uniform, rfl⟩ ⟨uniform', rfl⟩
  exact (equalsIn_withLenient same p p' uniform uniform').symm

theorem leniency_allowsCall {name : String} (known : (Builtin.ofName? name).isSome = true) :
    (leniency marked).AllowsCall name marked true := by
  refine ⟨fun unknown => ?_, ?_⟩
  · rw [unknown] at known
    cases known
  · cases marked with
    | true => exact ⟨rfl, nofun⟩
    | false => exact ⟨fun _ forgivable => ⟨rfl, forgivable⟩, fun _ => rfl⟩

mutual

theorem coupled_withLenient : ∀ q : Query, q.isUniform marked = true →
    Coupled (leniency marked) q (q.withLenient true)
  | .current, _ => .current
  | .field name, _ => .field name
  | .index position, _ => .index position
  | .slice s, _ => .slice s
  | .path keys, _ => .path keys
  | .range start stop, _ => .range start stop
  | .literal _, uniform => .literal (Value.coupled_of_isPlain uniform)
  | .reference tag _, uniform => .reference tag ⟨uniform, rfl⟩
  | .flatten child, uniform => .flatten (coupled_withLenient child uniform)
  | .negate child, uniform => .negate (coupled_withLenient child uniform)
  | .presentItems child, uniform => .presentItems (coupled_withLenient child uniform)
  | .presentMembers child, uniform => .presentMembers (coupled_withLenient child uniform)
  | .chain left right, uniform =>
      have both := Bool.and_eq_true_iff.mp uniform
      .chain (coupled_withLenient left both.1) (coupled_withLenient right both.2)
  | .pipe left right, uniform =>
      have both := Bool.and_eq_true_iff.mp uniform
      .pipe (coupled_withLenient left both.1) (coupled_withLenient right both.2)
  | .eachItem target body, uniform =>
      have both := Bool.and_eq_true_iff.mp uniform
      .eachItem (coupled_withLenient target both.1) (coupled_withLenient body both.2)
  | .eachMember target body, uniform =>
      have both := Bool.and_eq_true_iff.mp uniform
      .eachMember (coupled_withLenient target both.1) (coupled_withLenient body both.2)
  | .guard test body, uniform =>
      have both := Bool.and_eq_true_iff.mp uniform
      .guard (coupled_withLenient test both.1) (coupled_withLenient body both.2)
  | .compare op left right, uniform =>
      have both := Bool.and_eq_true_iff.mp uniform
      .compare op (coupled_withLenient left both.1) (coupled_withLenient right both.2)
  | .both left right, uniform =>
      have both := Bool.and_eq_true_iff.mp uniform
      .both (coupled_withLenient left both.1) (coupled_withLenient right both.2)
  | .either left right, uniform =>
      have both := Bool.and_eq_true_iff.mp uniform
      .either (coupled_withLenient left both.1) (coupled_withLenient right both.2)
  | .guardLiteral negated left _ body, uniform => by
      simp only [isUniform, Bool.and_eq_true] at uniform
      exact .guardLiteral negated (coupled_withLenient left uniform.1.1)
        (Value.coupled_of_isPlain uniform.1.2) (coupled_withLenient body uniform.2)
  | .guardCompare op left right body, uniform => by
      simp only [isUniform, Bool.and_eq_true] at uniform
      exact .guardCompare op (coupled_withLenient left uniform.1.1)
        (coupled_withLenient right uniform.1.2) (coupled_withLenient body uniform.2)
  | .list items, uniform => .list (list_coupled_withLenient items uniform)
  | .hash entries, uniform =>
      have coupled := entries_coupled_withLenient entries uniform
      .hash coupled.keys coupled.values
  | .call _ args _, uniform => by
      simp only [isUniform, Bool.and_eq_true, beq_iff_eq] at uniform
      obtain ⟨⟨known, same⟩, uniform⟩ := uniform
      rw [same]
      exact .call (leniency_allowsCall known) (list_coupled_withLenient args uniform)

theorem list_coupled_withLenient : ∀ queries : List Query, listIsUniform marked queries = true →
    List.Forall₂ (Coupled (leniency marked)) queries (listWithLenient true queries)
  | [], _ => .nil
  | q :: rest, uniform =>
      have both := Bool.and_eq_true_iff.mp uniform
      .cons (coupled_withLenient q both.1) (list_coupled_withLenient rest both.2)

theorem entries_coupled_withLenient : ∀ entries : Entries Query,
    entriesAreUniform marked entries = true →
    Entries.Coupled (Coupled (leniency marked)) entries (entriesWithLenient true entries)
  | [], _ => .nil
  | (_, q) :: rest, uniform =>
      have both := Bool.and_eq_true_iff.mp uniform
      .cons ⟨rfl, coupled_withLenient q both.1⟩ (entries_coupled_withLenient rest both.2)

end

theorem eval_withLenient {q : Query} (uniform : q.isUniform marked = true) {v : Value}
    (plain : v.isPlain = true) (depth : Nat) :
    Outcome.Follows (leniency marked) (Value.Coupled (Remarked marked true))
      (q.eval depth v) ((q.withLenient true).eval depth v) := by
  have closed (p q : Query) (related : Remarked marked true p q) :
      Coupled (leniency marked) p q := by
    obtain ⟨uniform, rfl⟩ := related
    exact coupled_withLenient p uniform
  exact eval_follows (c := leniency marked) remarked_respectful trivial closed (Nat.le_refl depth)
    (coupled_withLenient q uniform) (Value.coupled_of_isPlain plain)

/-! ## Queries without calls -/

theorem traverse_answers {α β : Type} {f : α → Outcome β} (answers : ∀ a, ∃ b, f a = .answer b)
    (items : List α) : ∃ bs, Outcome.traverse f items = .answer bs := by
  induction items with
  | nil => exact ⟨[], rfl⟩
  | cons a rest ih =>
      obtain ⟨b, first⟩ := answers a
      obtain ⟨bs, others⟩ := ih
      exact ⟨b :: bs, by rw [Outcome.traverse, first, others]; rfl⟩

theorem project_answers {f : Value → Outcome Value} (answers : ∀ v, ∃ a, f v = .answer a)
    (items : List Value) : ∃ a, project f items = .answer a := by
  obtain ⟨as, answered⟩ := traverse_answers answers items
  exact ⟨_, by rw [project, answered]; rfl⟩

mutual

/-- Only calls fail or apply references, so without them evaluation answers. -/
theorem evalWith_answers {apply : Builtin.Apply} (q : Query) (callFree : q.hasCall = false)
    (v : Value) : ∃ a, evalWith apply q v = .answer a := by
  cases q with
  | current => exact ⟨_, rfl⟩
  | field name => exact ⟨_, rfl⟩
  | path keys => exact ⟨_, rfl⟩
  | index position => exact ⟨_, rfl⟩
  | slice s => exact ⟨_, rfl⟩
  | range start stop => exact ⟨_, rfl⟩
  | literal a => exact ⟨_, rfl⟩
  | reference tag body => exact ⟨_, rfl⟩
  | call name args lenient => cases callFree
  | chain left right =>
      obtain ⟨first, second⟩ := Bool.or_eq_false_iff.mp callFree
      obtain ⟨a, answered⟩ := evalWith_answers left first v
      rw [evalWith, answered]
      exact evalWith_answers right second a
  | pipe left right =>
      obtain ⟨first, second⟩ := Bool.or_eq_false_iff.mp callFree
      obtain ⟨a, answered⟩ := evalWith_answers left first v
      rw [evalWith, answered]
      exact evalWith_answers right second a
  | flatten child =>
      obtain ⟨a, answered⟩ := evalWith_answers child callFree v
      exact ⟨_, by rw [evalWith, answered]; rfl⟩
  | negate child =>
      obtain ⟨a, answered⟩ := evalWith_answers child callFree v
      exact ⟨_, by rw [evalWith, answered]; rfl⟩
  | presentItems target =>
      obtain ⟨a, answered⟩ := evalWith_answers target callFree v
      rw [evalWith, answered]
      cases a <;> exact ⟨_, rfl⟩
  | presentMembers target =>
      obtain ⟨a, answered⟩ := evalWith_answers target callFree v
      rw [evalWith, answered]
      cases a <;> exact ⟨_, rfl⟩
  | eachItem target body =>
      obtain ⟨first, second⟩ := Bool.or_eq_false_iff.mp callFree
      obtain ⟨a, answered⟩ := evalWith_answers target first v
      rw [evalWith, answered]
      cases a with
      | array items => exact project_answers (evalWith_answers body second) items
      | _ => exact ⟨_, rfl⟩
  | eachMember target body =>
      obtain ⟨first, second⟩ := Bool.or_eq_false_iff.mp callFree
      obtain ⟨a, answered⟩ := evalWith_answers target first v
      rw [evalWith, answered]
      cases a with
      | object entries => exact project_answers (evalWith_answers body second) _
      | _ => exact ⟨_, rfl⟩
  | guard test body =>
      obtain ⟨first, second⟩ := Bool.or_eq_false_iff.mp callFree
      obtain ⟨a, answered⟩ := evalWith_answers test first v
      rw [evalWith, answered, Outcome.answer_bind]
      split
      · exact evalWith_answers body second v
      · exact ⟨_, rfl⟩
  | compare op left right =>
      obtain ⟨first, second⟩ := Bool.or_eq_false_iff.mp callFree
      obtain ⟨a, answered⟩ := evalWith_answers left first v
      obtain ⟨b, answered'⟩ := evalWith_answers right second v
      exact ⟨_, by rw [evalWith, answered, answered']; rfl⟩
  | guardCompare op left right body =>
      simp only [hasCall, Bool.or_eq_false_iff] at callFree
      obtain ⟨a, answered⟩ := evalWith_answers left callFree.1.1 v
      obtain ⟨b, answered'⟩ := evalWith_answers right callFree.1.2 v
      rw [evalWith, answered, answered', Outcome.answer_bind, Outcome.answer_bind]
      split
      · exact evalWith_answers body callFree.2 v
      · exact ⟨_, rfl⟩
  | guardLiteral negated left expected body =>
      obtain ⟨first, second⟩ := Bool.or_eq_false_iff.mp callFree
      obtain ⟨a, answered⟩ := evalWith_answers left first v
      rw [evalWith, answered, Outcome.answer_bind]
      split
      · exact evalWith_answers body second v
      · exact ⟨_, rfl⟩
  | both left right =>
      obtain ⟨first, second⟩ := Bool.or_eq_false_iff.mp callFree
      obtain ⟨a, answered⟩ := evalWith_answers left first v
      rw [evalWith, answered, Outcome.answer_bind]
      split
      · exact evalWith_answers right second v
      · exact ⟨_, rfl⟩
  | either left right =>
      obtain ⟨first, second⟩ := Bool.or_eq_false_iff.mp callFree
      obtain ⟨a, answered⟩ := evalWith_answers left first v
      rw [evalWith, answered, Outcome.answer_bind]
      split
      · exact ⟨_, rfl⟩
      · exact evalWith_answers right second v
  | list items =>
      obtain ⟨as, answered⟩ := evalList_answers items callFree v
      rw [evalWith, answered]
      split <;> exact ⟨_, rfl⟩
  | hash entries =>
      obtain ⟨as, answered⟩ := evalEntries_answers entries callFree v
      rw [evalWith, answered]
      split <;> exact ⟨_, rfl⟩
termination_by structural q

theorem evalList_answers {apply : Builtin.Apply} (queries : List Query)
    (callFree : listHasCall queries = false) (v : Value) :
    ∃ as, evalList apply queries v = .answer as := by
  cases queries with
  | nil => exact ⟨_, rfl⟩
  | cons q rest =>
      obtain ⟨first, second⟩ := Bool.or_eq_false_iff.mp callFree
      obtain ⟨a, answered⟩ := evalWith_answers q first v
      obtain ⟨as, answered'⟩ := evalList_answers rest second v
      exact ⟨_, by rw [evalList, answered, answered']; rfl⟩
termination_by structural queries

theorem evalEntries_answers {apply : Builtin.Apply} (entries : Entries Query)
    (callFree : entriesHaveCall entries = false) (v : Value) :
    ∃ as, evalEntries apply entries v = .answer as := by
  cases entries with
  | nil => exact ⟨_, rfl⟩
  | cons entry rest =>
      obtain ⟨key, q⟩ := entry
      obtain ⟨first, second⟩ := Bool.or_eq_false_iff.mp callFree
      obtain ⟨a, answered⟩ := evalWith_answers q first v
      obtain ⟨as, answered'⟩ := evalEntries_answers rest second v
      exact ⟨_, by rw [evalEntries, answered, answered']; rfl⟩
termination_by structural entries

end

theorem eval_answers {q : Query} (callFree : q.hasCall = false) (depth : Nat) (v : Value) :
    ∃ a, q.eval depth v = .answer a := by
  cases depth <;> exact evalWith_answers q callFree v

/-! ## Leniency extends strictness -/

/-- What the lenient query does on a value, compared with the strict one. -/
structure Extends (strict lenient : Query) (v : Value) : Prop where
  answer : ∀ a, strict.Settles v (.answer a) → lenient.Settles v (.answer (a.withLenient true))
  failure : ∀ e, strict.Settles v (.failure e) →
    ((∃ function expected found, e = .arity function expected found) ∨ ∃ fault, e = .mistyped fault) ∧
      strict.hasCall = true
  never : ∀ e, ¬lenient.Settles v (.failure e)

theorem isForgivable_cases {e : Error} (forgivable : e.isForgivable = true) :
    (∃ function expected found, e = .arity function expected found) ∨
      ∃ fault, e = .mistyped fault := by
  cases e with
  | arity function expected found => exact .inl ⟨function, expected, found, rfl⟩
  | mistyped fault => exact .inr ⟨fault, rfl⟩
  | _ => cases forgivable

theorem withLenient_extends {q : Query} (uniform : q.isUniform false = true) {v : Value}
    (plain : v.isPlain = true) : Extends q (q.withLenient true) v where
  answer := by
    rintro a ⟨-, depth, answered⟩
    have follows := eval_withLenient uniform plain depth
    rw [answered] at follows
    obtain ⟨b, answered', related⟩ := follows
    rw [related.eq_withLenient] at answered'
    exact ⟨nofun, depth, answered'⟩
  failure := by
    rintro e ⟨-, depth, failed⟩
    have follows := eval_withLenient uniform plain depth
    rw [failed] at follows
    refine ⟨isForgivable_cases follows.1.2, ?_⟩
    by_contra callFree
    obtain ⟨a, answered⟩ := eval_answers (Bool.not_eq_true _ ▸ callFree) depth v
    rw [failed] at answered
    cases answered
  never := by
    rintro e ⟨-, depth, failed⟩
    have lenient : (q.withLenient true).isUniform true = true := isUniform_withLenient q uniform
    have follows := eval_withLenient lenient plain depth
    rw [failed] at follows
    cases follows.1.1

end Query

/-- Reading leniently gives the strict tree with all calls marked, or the same error; and both the
tree and its simplified form extend the strict ones on every plain value. -/
theorem lenient_extends_strict (text : String) :
    (Parser.mk true).parse text = ((Parser.mk false).parse text).map (Query.withLenient true) ∧
      ∀ strict lenient, (Parser.mk false).parse text = .ok strict →
        (Parser.mk true).parse text = .ok lenient → ∀ v : Value, v.isPlain = true →
          strict.Extends lenient v ∧ strict.simplify.Extends lenient.simplify v := by
  refine ⟨parse_withLenient false true text, fun strict lenient read read' v plain => ?_⟩
  have uniform := parse_isUniform read
  rw [parse_withLenient false true text, read] at read'
  cases read'
  refine ⟨Query.withLenient_extends uniform plain, ?_⟩
  rw [Query.simplify_withLenient]
  exact Query.withLenient_extends (Query.isUniform_simplify strict uniform) plain

/-- A refused argument beside a reference that holds a call itself. -/
theorem lenient_extends_strict_abs :
    let strict : Query := .list [.call "abs" [.field "a"] false,
      .reference none (.call "abs" [.current] false)]
    let lenient : Query := .list [.call "abs" [.field "a"] true,
      .reference none (.call "abs" [.current] true)]
    (Parser.mk false).parse "[abs(a), &abs(@)]" = .ok strict ∧
      (Parser.mk true).parse "[abs(a), &abs(@)]" = .ok lenient ∧
      strict.Extends lenient (.object [("a", .string "x")]) ∧
      strict.simplify.Extends lenient.simplify (.object [("a", .string "x")]) := by
  intro strict lenient
  have read : (Parser.mk false).parse "[abs(a), &abs(@)]" = .ok strict := by cbv
  have read' : (Parser.mk true).parse "[abs(a), &abs(@)]" = .ok lenient := by cbv
  exact ⟨read, read', (lenient_extends_strict _).2 strict lenient read read' _ rfl⟩

end JsonQuery
