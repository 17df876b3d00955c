import JsonQuery.Proofs.Coupling.Reference
import JsonQuery.Proofs.Safety.Reading
import JsonQuery.Proofs.Safety.Slice
import JsonQuery.Proofs.Tree.WellFormed

/-!
# Evaluation without faults

Evaluation in which every operation on words and places is checked, and a given outcome takes the
place of an operation that faults.  An unforgivable failure in that place would end the evaluation.
It never shows: for queries that are read, and for their simplified forms, the checked evaluation
has the outcome of the plain one, whatever stands for a fault.
-/

set_option autoImplicit false

namespace JsonQuery

/-! ## Calls -/

namespace Builtin

/-- The arguments that a body takes from their places in the table of arguments.  Two bodies walk
over the whole table instead. -/
def taken? (builtin : Builtin) (args : List Value) : Option (List Value) :=
  match builtin with
  | .merge | .notNull => some args
  | .contains | .endsWith | .join | .map | .maxBy | .minBy | .sortBy | .startsWith =>
      [0, 1].mapM fun place => args[place]?
  | _ => [0].mapM fun place => args[place]?

/-- Calls a function whose body takes its arguments from their places. -/
def callChecked (fault : Outcome Value) (apply : Apply) (name : String) (args : List Value) :
    Outcome Value :=
  match ofName? name with
  | none => .failure (.unknownFunction name)
  | some builtin =>
      match builtin.check args with
      | .error e => .failure e
      | .ok () => (builtin.taken? args).elim fault (builtin.run apply)

/-- The number of arguments that a function accepts has all places that its body takes. -/
theorem run_taken {builtin : Builtin} {args : List Value}
    (accepted : builtin.arity.accepts args.length = true) :
    ∃ taken, builtin.taken? args = some taken ∧
      ∀ apply, builtin.run apply taken = builtin.run apply args := by
  have one (single : args.length = 1) : ∃ v, args = [v] := List.length_eq_one_iff.mp single
  have two (pair : args.length = 2) : ∃ v w, args = [v, w] := List.length_eq_two.mp pair
  cases builtin with
  | merge | notNull => exact ⟨args, rfl, fun _ => rfl⟩
  | reverse =>
      cases args with
      | nil => cases accepted
      | cons v rest => exact ⟨[v], rfl, fun _ => rfl⟩
  | contains | endsWith | join | map | maxBy | minBy | sortBy | startsWith =>
      obtain ⟨v, w, rfl⟩ := two (beq_iff_eq.mp accepted)
      exact ⟨[v, w], rfl, fun _ => rfl⟩
  | _ =>
      obtain ⟨v, rfl⟩ := one (beq_iff_eq.mp accepted)
      exact ⟨[v], rfl, fun _ => rfl⟩

theorem callChecked_eq (fault : Outcome Value) (apply : Apply) (name : String)
    (args : List Value) : callChecked fault apply name args = call apply name args := by
  unfold callChecked call invoke
  cases ofName? name with
  | none => rfl
  | some builtin =>
      dsimp only
      cases checked : builtin.check args with
      | error e => rfl
      | ok =>
          obtain ⟨taken, found, same⟩ := run_taken (accepts_of_check checked)
          rw [found]
          exact same apply

end Builtin

namespace Query

/-! ## Queries -/

mutual

/-- The outcome of a query with every operation checked.  Sequences of 2⁶³ elements do not occur;
slicing them is not checked. -/
def evalCheckedWith (fault : Outcome Value) (apply : Builtin.Apply) :
    Query → Value → Outcome Value
  | .current, v => .answer v
  | .field name, v => .answer (v.field name)
  | .path keys, v => .answer (v.follow keys)
  | .index position, v => (v.item? position).elim fault .answer
  | .slice s, v =>
      if v.size < 2 ^ 63 then (v.slice? s).elim fault .answer else .answer (v.slice s)
  | .range start stop, v => (v.range? start stop).elim fault .answer
  | .literal a, _ => .answer a
  | .reference tag body, _ => .answer (.reference tag body)
  | .chain left right, v | .pipe left right, v => do
      evalCheckedWith fault apply right (← evalCheckedWith fault apply left v)
  | .flatten child, v => do return (← evalCheckedWith fault apply child v).flatten
  | .eachItem target body, v => do
      match ← evalCheckedWith fault apply target v with
      | .array items => project (fun item => evalCheckedWith fault apply body item) items
      | _ => return .null
  | .eachMember target body, v => do
      match ← evalCheckedWith fault apply target v with
      | .object entries =>
          project (fun item => evalCheckedWith fault apply body item) (Entries.values entries)
      | _ => return .null
  | .presentItems target, v => do
      match ← evalCheckedWith fault apply target v with
      | .array items => return Value.present items
      | _ => return .null
  | .presentMembers target, v => do
      match ← evalCheckedWith fault apply target v with
      | .object entries => return Value.present (Entries.values entries)
      | _ => return .null
  | .guard test body, v => do
      if (← evalCheckedWith fault apply test v).isTruthy then evalCheckedWith fault apply body v
      else return .null
  | .compare op left right, v => do
      let a ← evalCheckedWith fault apply left v
      let b ← evalCheckedWith fault apply right v
      return ((op.test? a b).map Value.bool).getD .null
  | .guardCompare op left right body, v => do
      let a ← evalCheckedWith fault apply left v
      let b ← evalCheckedWith fault apply right v
      if op.test? a b == some true then evalCheckedWith fault apply body v else return .null
  | .guardLiteral negated left expected body, v => do
      let a ← evalCheckedWith fault apply left v
      if a.equals expected != negated then evalCheckedWith fault apply body v else return .null
  | .both left right, v => do
      let a ← evalCheckedWith fault apply left v
      if a.isTruthy then evalCheckedWith fault apply right v else return a
  | .either left right, v => do
      let a ← evalCheckedWith fault apply left v
      if a.isTruthy then return a else evalCheckedWith fault apply right v
  | .negate child, v => do return .bool (!(← evalCheckedWith fault apply child v).isTruthy)
  | .list items, v =>
      if v.isNull then .answer .null
      else do return .array (← evalCheckedList fault apply items v)
  | .hash entries, v =>
      if v.isNull then .answer .null
      else do return .object (Entries.ofList (← evalCheckedEntries fault apply entries v))
  | .call name args lenient, v => do
      let values ← evalCheckedList fault apply args v
      let outcome := Builtin.callChecked fault apply name values
      if lenient then forgive outcome else outcome
termination_by structural query => query

def evalCheckedList (fault : Outcome Value) (apply : Builtin.Apply) :
    List Query → Value → Outcome (List Value)
  | [], _ => .answer []
  | query :: rest, v => do
      let a ← evalCheckedWith fault apply query v
      let as ← evalCheckedList fault apply rest v
      return a :: as
termination_by structural queries => queries

def evalCheckedEntries (fault : Outcome Value) (apply : Builtin.Apply) :
    List (String × Query) → Value → Outcome (List (String × Value))
  | [], _ => .answer []
  | (key, query) :: rest, v => do
      let a ← evalCheckedWith fault apply query v
      let as ← evalCheckedEntries fault apply rest v
      return (key, a) :: as
termination_by structural entries => entries

end

/-- The outcome of a query with every operation checked, also where references are applied. -/
def evalChecked (fault : Outcome Value) : (depth : Nat) → Query → Value → Outcome Value
  | 0, query, v => evalCheckedWith fault (fun _ _ => .unsettled) query v
  | depth + 1, query, v => evalCheckedWith fault (evalChecked fault depth) query v

section Checked

/-- On every input, the checked evaluation of the query is the plain one. -/
def NeverFaults (fault : Outcome Value) (apply : Builtin.Apply) (q : Query) : Prop :=
  evalCheckedWith fault apply q = evalWith apply q

variable {fault : Outcome Value} {apply : Builtin.Apply}

theorem evalCheckedList_eq {queries : List Query}
    (agree : ∀ query ∈ queries, NeverFaults fault apply query) :
    evalCheckedList fault apply queries = evalList apply queries := by
  induction queries with
  | nil => rfl
  | cons query rest ih =>
      obtain ⟨first, others⟩ := List.forall_mem_cons.mp agree
      unfold NeverFaults at first
      funext v
      rw [evalCheckedList, evalList, first, ih others]

theorem evalCheckedEntries_eq {entries : List (String × Query)}
    (agree : ∀ entry ∈ entries, NeverFaults fault apply entry.2) :
    evalCheckedEntries fault apply entries = evalEntries apply entries := by
  induction entries with
  | nil => rfl
  | cons entry rest ih =>
      obtain ⟨first, others⟩ := List.forall_mem_cons.mp agree
      unfold NeverFaults at first
      funext v
      rw [evalCheckedEntries, evalEntries, first, ih others]

theorem WellFormed.neverFaults {lenient : Bool} {place : Place} {q : Query}
    (formed : WellFormed lenient place q) : NeverFaults fault apply q := by
  induction formed with
  | @intro place q stands sound inside ih =>
      funext v
      cases q with
      | current | field | path | literal | reference => rfl
      | index position => rw [evalCheckedWith, Value.item?_eq, evalWith, Option.elim_some]
      | slice s =>
          rw [evalCheckedWith, evalWith]
          split
          · rename_i short
            rw [Value.slice?_eq sound short, Option.elim_some]
          · rfl
      | range start stop =>
          have ordered : 0 < start ∧ start < stop := sound
          rw [evalCheckedWith, Value.range?_eq ordered.2, evalWith, Option.elim_some]
      | list items =>
          simp only [parts, List.forall_mem_map] at ih
          rw [evalCheckedWith, evalWith, evalCheckedList_eq ih]
      | hash entries =>
          simp only [parts, List.forall_mem_map] at ih
          rw [evalCheckedWith, evalWith, evalCheckedEntries_eq ih]
      | call name args mark =>
          simp only [parts, List.forall_mem_map] at ih
          simp only [evalCheckedWith, evalWith, evalCheckedList_eq ih, Builtin.callChecked_eq]
      | flatten | negate =>
          simp only [parts, List.forall_mem_cons, NeverFaults] at ih
          simp only [evalCheckedWith, evalWith, ih.1]
      | presentItems | presentMembers =>
          simp only [parts, List.forall_mem_cons, NeverFaults] at ih
          rw [evalCheckedWith, ih.1]
          rfl
      | eachItem | eachMember =>
          simp only [parts, List.forall_mem_cons, NeverFaults] at ih
          rw [evalCheckedWith, ih.1, ih.2.1]
          rfl
      | guardCompare op left right body =>
          simp only [parts, List.forall_mem_cons, NeverFaults] at ih
          simp only [evalCheckedWith, evalWith, ih.1, ih.2.1, ih.2.2.1]
      | _ =>
          simp only [parts, List.forall_mem_cons, NeverFaults] at ih
          simp only [evalCheckedWith, evalWith, ih.1, ih.2.1]

end Checked

/-! ## References -/

section References

variable {lenient : Bool} {place : Place} {q : Query}

theorem mem_listReferences {queries : List Query} {body : Query} :
    body ∈ listReferences queries ↔ ∃ query ∈ queries, body ∈ query.references := by
  induction queries with
  | nil => simp only [listReferences, List.not_mem_nil, false_and, exists_false]
  | cons query rest ih =>
      rw [listReferences, List.mem_append, ih, List.exists_mem_cons_iff]

theorem mem_entriesReferences {entries : Entries Query} {body : Query} :
    body ∈ entriesReferences entries ↔ ∃ entry ∈ entries, body ∈ entry.2.references := by
  induction entries with
  | nil => simp only [entriesReferences, List.not_mem_nil, false_and, exists_false]
  | cons entry rest ih =>
      rw [entriesReferences, List.mem_append, ih, List.exists_mem_cons_iff]

/-- Literals hold no references, so all bodies are well-formed parts. -/
theorem WellFormed.references (formed : WellFormed lenient place q) :
    ∀ body ∈ q.references, WellFormed lenient .other body := by
  have literal {v : Value} (document : v.isDocument = true) : v.references = [] :=
    Value.references_of_isPlain (Value.isPlain_of_isDocument document)
  induction formed with
  | @intro place q stands sound inside ih =>
      cases q with
      | current | field | path | index | slice | range => nofun
      | literal v =>
          rw [Query.references, literal sound]
          nofun
      | reference tag body =>
          have itself := inside _ List.mem_cons_self
          exact List.forall_mem_cons.mpr ⟨itself, ih _ List.mem_cons_self⟩
      | list items | call name items =>
          intro body found
          obtain ⟨item, listed, held⟩ := mem_listReferences.mp found
          exact ih _ (List.mem_map_of_mem listed) body held
      | hash entries =>
          intro body found
          obtain ⟨entry, listed, held⟩ := mem_entriesReferences.mp found
          exact ih _ (List.mem_map_of_mem listed) body held
      | flatten | negate | presentItems | presentMembers => exact ih _ List.mem_cons_self
      | guardLiteral negated left v body =>
          simp only [parts, List.forall_mem_cons] at ih
          rw [Query.references, literal sound, List.append_nil]
          exact List.forall_mem_append.mpr ⟨ih.1, ih.2.1⟩
      | guardCompare op left right body =>
          simp only [parts, List.forall_mem_cons] at ih
          exact List.forall_mem_append.mpr ⟨List.forall_mem_append.mpr ⟨ih.1, ih.2.1⟩, ih.2.2.1⟩
      | _ =>
          simp only [parts, List.forall_mem_cons] at ih
          exact List.forall_mem_append.mpr ⟨ih.1, ih.2.1⟩

/-- The coupling of two runs with the same well-formed references. -/
def sameReferences (lenient : Bool) : Coupling where
  refs p q := p = q ∧ WellFormed lenient .other p
  admits _ := True
  pardons := False
  cuts := True

/-- The right outcome follows the left one, and they hold the same well-formed references. -/
abbrev FollowsSame (lenient : Bool) (left right : Outcome Value) : Prop :=
  left.Follows (sameReferences lenient) (Value.Coupled (sameReferences lenient).refs) right

theorem sameReferences_respectful : Respectful (sameReferences lenient).refs :=
  respectful_of_eq fun _ _ => And.left

theorem WellFormed.coupled (formed : WellFormed lenient place q) :
    Coupled (sameReferences lenient) q q := by
  have calls := (sameReferences lenient).allowsCall_of_admits (fun _ => trivial) id
  exact coupled_self calls q fun body found => ⟨rfl, formed.references body found⟩

/-- Outcomes that follow each other both ways are the same. -/
theorem FollowsSame.antisymm {left right : Outcome Value} (forth : FollowsSame lenient left right)
    (back : FollowsSame lenient right left) : left = right := by
  cases left with
  | answer a =>
      obtain ⟨b, rfl, coupled⟩ := forth
      rw [coupled.eq fun _ _ both => both.1]
  | failure e => exact (forth.2.resolve_left id).symm
  | aborted => exact forth.symm
  | unsettled =>
      cases right with
      | answer b =>
          obtain ⟨a, cut, -⟩ := back
          cases cut
      | failure e => exact back.2.resolve_left id
      | aborted => exact back
      | unsettled => rfl

theorem eval_followsSame (formed : WellFormed lenient place q) (depth : Nat) {v : Value}
    (known : Value.Coupled (sameReferences lenient).refs v v) :
    FollowsSame lenient (q.eval depth v) (q.eval depth v) := by
  refine eval_follows sameReferences_respectful trivial ?_ (Nat.le_refl depth) formed.coupled known
  rintro p _ ⟨rfl, body⟩
  exact body.coupled

/-- Checked evaluation of a well-formed query has the outcome of plain evaluation, whatever stands
for a fault. -/
theorem evalChecked_eq (formed : WellFormed lenient place q) (fault : Outcome Value)
    (depth : Nat) {v : Value} (known : Value.Coupled (sameReferences lenient).refs v v) :
    q.evalChecked fault depth v = q.eval depth v := by
  induction depth generalizing place q v with
  | zero => exact congrFun formed.neverFaults v
  | succ depth ih =>
      -- Applied references are well formed, and so are all that their inputs hold.
      have applied (p p' : Query) (v w : Value) (bodies : (sameReferences lenient).refs p p')
          (inputs : Value.Coupled (sameReferences lenient).refs v w) :
          FollowsSame lenient (evalChecked fault depth p v) (eval depth p' w) ∧
            FollowsSame lenient (eval depth p v) (evalChecked fault depth p' w) := by
        obtain ⟨rfl, body⟩ := bodies
        obtain rfl := inputs.eq fun _ _ both => both.1
        rw [ih body inputs]
        exact ⟨eval_followsSame body depth inputs, eval_followsSame body depth inputs⟩
      have forth : (sameReferences lenient).Applies (evalChecked fault depth) (eval depth) :=
        ⟨sameReferences_respectful, fun p p' v w bodies inputs =>
          (applied p p' v w bodies inputs).1⟩
      have back : (sameReferences lenient).Applies (eval depth) (evalChecked fault depth) :=
        ⟨sameReferences_respectful, fun p p' v w bodies inputs =>
          (applied p p' v w bodies inputs).2⟩
      rw [evalChecked, congrFun formed.neverFaults v, eval]
      exact FollowsSame.antisymm (forth.evalWith_follows q formed.coupled known)
        (back.evalWith_follows q formed.coupled known)

end References

end Query

/-- No partial operation leaves its domain, neither while a text is read nor while the query that
was read, or its simplified form, is evaluated on a plain value. -/
theorem operations_inside (parser : Parser) (text : String) :
    Token.scanAt? text.toList 0 = some (tokenize text) ∧
      (∀ moves ahead, ((Stream.ofTokens text (tokenize text)).advanceBy? moves).bind
          (fun stream => stream.lookahead? ahead) =
        some ((Cursor.advance^[moves] (Cursor.ofTokens text (tokenize text))).lookahead ahead)) ∧
      parser.parse? text = some (parser.parse text) ∧
      ∀ q, parser.parse text = .ok q → ∀ v : Value, v.isPlain = true →
        ∀ (fault : Outcome Value) (depth : Nat),
          q.evalChecked fault depth v = q.eval depth v ∧
            q.simplify.evalChecked fault depth v = q.simplify.eval depth v := by
  refine ⟨scanAt?_eq_tokenize text, ?_, parser.parse?_eq text, ?_⟩
  · intro moves ahead
    have shows := Stream.ofTokens_shows text (tokenize text)
    obtain ⟨stream, moved, shows⟩ := shows.advanceBy? moves
    rw [moved]
    exact shows.lookahead? ahead
  · intro q read v plain fault depth
    have formed : q.WellFormed parser.lenient .other := .of_parse read
    have known : Value.Coupled (Query.sameReferences parser.lenient).refs v v :=
      Value.coupled_of_isPlain plain
    exact ⟨Query.evalChecked_eq formed fault depth known,
      Query.evalChecked_eq formed.simplify fault depth known⟩

/-- The only step of this walk leads beyond the words. -/
theorem operations_inside_widest_step :
    (Parser.mk false).parse "reverse(@)[1::9223372036854775807]" = .ok
        (.chain (.call "reverse" [.current] false)
          (.eachItem (.slice ⟨some 1, none, some 9223372036854775807⟩) .current)) ∧
      (Value.array [.int 1, .int 2, .int 3]).isPlain = true ∧
      (Query.chain (.call "reverse" [.current] false)
          (.presentItems (.slice ⟨some 1, none, some 9223372036854775807⟩))).evalChecked
        .unsettled 1 (.array [.int 1, .int 2, .int 3]) = .answer (.array [.int 2]) := by
  have read : (Parser.mk false).parse "reverse(@)[1::9223372036854775807]" = .ok
      (.chain (.call "reverse" [.current] false)
        (.eachItem (.slice ⟨some 1, none, some 9223372036854775807⟩) .current)) := by
    cbv
  have inside := (operations_inside (Parser.mk false) "reverse(@)[1::9223372036854775807]").2.2.2
  have same := inside _ read (.array [.int 1, .int 2, .int 3]) rfl .unsettled 1
  exact ⟨read, rfl, same.2.trans (by cbv)⟩

end JsonQuery
