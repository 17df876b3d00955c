import JsonQuery.Proofs.Evaluation.Discipline
import JsonQuery.Query.Simplify

/-!
# Simplification preserves outcomes

Each fusion answers as the query it replaces, whatever its parts are and however references are
applied.  A simplified query differs from the given one in the bodies of its references as well, so
for disciplined queries the two are followed through every application of a reference.
-/

set_option autoImplicit false

namespace JsonQuery

/-! ## Paths -/

namespace Value

theorem follow_null (keys : List String) : follow keys .null = .null := by
  cases keys <;> rfl

theorem follow_append (outer inner : List String) (v : Value) :
    v.follow (outer ++ inner) = (v.follow outer).follow inner := by
  induction outer generalizing v with
  | nil => rfl
  | cons key rest ih =>
      simp only [List.cons_append, follow]
      cases v.member? key with
      | some next => exact ih next
      | none => exact (follow_null inner).symm

theorem follow_singleton (name : String) (v : Value) : v.follow [name] = v.field name := by
  simp only [follow, field]
  cases v.member? name <;> rfl

end Value

/-! ## Ranges -/

namespace Slice

theorem stepCount_one (first limit : Int) : stepCount first limit 1 = (limit - first).toNat := by
  simp [stepCount]

theorem place_one (length : Nat) {bound : Int} (nonnegative : 0 ≤ bound) :
    place length 1 bound = (min bound.toNat length : Nat) := by
  simp only [place]
  split
  · omega
  · split <;> omega

theorem filterMap_range_getElem? {α : Type} (items : List α) (start count : Nat) :
    (List.range count).filterMap (fun k => items[start + k]?) = (items.drop start).take count := by
  induction count with
  | zero => rfl
  | succ count ih =>
      rw [List.range_succ, List.filterMap_append, ih, List.take_add_one, List.getElem?_drop]
      cases found : items[start + count]? <;> simp [found]

theorem select_step_one {α : Type} {s : Slice} (one : s.step = none ∨ s.step = some 1)
    {start stop : Int64} (starts : s.start = some start) (stops : s.stop = some stop)
    (positive : 0 ≤ start.toInt) (ordered : start.toInt ≤ stop.toInt) (items : List α) :
    s.select items = Value.between start.toInt.toNat stop.toInt.toNat items := by
  have stride : s.stride = 1 := by
    rcases one with step | step
    · simp only [Slice.stride, step]
    · simp only [Slice.stride, step]
      rfl
  have first : s.first items.length = (min start.toInt.toNat items.length : Nat) := by
    simp only [Slice.first, starts, stride, place_one _ positive]
  have limit : s.limit items.length = (min stop.toInt.toNat items.length : Nat) := by
    simp only [Slice.limit, stops, stride, place_one _ (Int.le_trans positive ordered)]
  have position (from_ k : Nat) : ((from_ : Int) + k * 1).toNat = from_ + k := by omega
  simp only [Slice.select, Slice.positions, first, limit, stride, stepCount_one, position,
    List.filterMap_map, Function.comp_def, List.getElem?_toArray, filterMap_range_getElem?,
    Value.between]
  by_cases inside : start.toInt.toNat ≤ items.length
  · rw [Nat.min_eq_left inside, List.take_eq_take_iff, List.length_drop]
    omega
  · rw [List.drop_eq_nil_of_le (by omega), List.drop_eq_nil_of_le (by omega)]
    simp only [List.take_nil]

end Slice

namespace Query

variable {apply : Builtin.Apply} {v : Value}

theorem evalWith_of_keys? {q : Query} {keys : List String} (found : q.keys? = some keys) :
    evalWith apply q v = .answer (v.follow keys) := by
  cases q with
  | field name =>
      cases found
      rw [Value.follow_singleton]
      rfl
  | path keys =>
      cases found
      rfl
  | _ => cases found

theorem evalWith_fuseChain (left right : Query) :
    evalWith apply (fuseChain left right) v = evalWith apply (.chain left right) v := by
  simp only [fuseChain]
  cases inner : right.keys? with
  | none => cases left.keys? <;> rfl
  | some innerKeys =>
      cases outer : left.keys? with
      | some outerKeys =>
          simp only [evalWith, evalWith_of_keys? outer, evalWith_of_keys? inner,
            Outcome.answer_bind, Value.follow_append]
      | none =>
          cases left with
          | chain first last =>
              dsimp only
              cases middle : last.keys? with
              | none => rfl
              | some middleKeys =>
                  simp only [evalWith, evalWith_of_keys? middle, evalWith_of_keys? inner,
                    bind_assoc, Outcome.answer_bind, Value.follow_append]
          | _ => rfl

theorem project_answer (items : List Value) :
    project (fun item => .answer item) items = .answer (Value.present items) := by
  have traversed : Outcome.traverse (fun item => .answer item) items = .answer items := by
    induction items with
    | nil => rfl
    | cons item rest ih => simp only [Outcome.traverse, ih, Outcome.answer_bind, Outcome.pure_eq]
  simp only [project, traversed, Outcome.answer_bind, Outcome.pure_eq]

theorem evalWith_fuseItems (target body : Query) :
    evalWith apply (fuseItems target body) v = evalWith apply (.eachItem target body) v := by
  cases body with
  | current => simp only [fuseItems, evalWith, project_answer, Outcome.pure_eq]
  | _ => rfl

theorem evalWith_fuseMembers (target body : Query) :
    evalWith apply (fuseMembers target body) v = evalWith apply (.eachMember target body) v := by
  cases body with
  | current => simp only [fuseMembers, evalWith, project_answer, Outcome.pure_eq]
  | _ => rfl

theorem evalWith_fuseCompare (op : Comparator) (left right body : Query) :
    evalWith apply (fuseCompare op left right body) v =
      evalWith apply (.guardCompare op left right body) v := by
  cases right with
  | literal expected =>
      cases op with
      | eq =>
          simp only [fuseCompare, evalWith, Comparator.test?, Outcome.answer_bind]
          simp
      | ne =>
          simp only [fuseCompare, evalWith, Comparator.test?, Outcome.answer_bind]
          simp
      | _ => rfl
  | _ => cases op <;> rfl

theorem isTruthy_outcome (outcome : Option Bool) :
    ((outcome.map Value.bool).getD .null).isTruthy = (outcome == some true) := by
  rcases outcome with _ | _ | _ <;> rfl

theorem evalWith_fuseGuard (test body : Query) :
    evalWith apply (fuseGuard test body) v = evalWith apply (.guard test body) v := by
  cases test with
  | compare op left right =>
      simp only [fuseGuard, evalWith_fuseCompare, evalWith, bind_assoc, pure_bind,
        isTruthy_outcome]
  | _ => rfl

theorem evalWith_fuseSlice (s : Slice) :
    evalWith apply (fuseSlice s) v = evalWith apply (.slice s) v := by
  simp only [fuseSlice]
  split
  · rename_i start stop starts stops
    split
    · rename_i plain
      have select := fun {α : Type} => Slice.select_step_one (α := α) plain.1 starts stops
        (by omega) (by omega)
      cases v with
      | array items => simp only [evalWith, Value.range, Value.slice, select]
      | string text => simp only [evalWith, Value.range, Value.slice, select]
      | _ => rfl
    · rfl
  · rfl

/-! ## Disciplined queries -/

/-- The coupling of two runs on plain values that both return, with the same outcome. -/
def agreement : Coupling where
  refs := Value.NoReference
  admits _ := True
  pardons := False
  cuts := False

/-- A body and its simplified form. -/
def IsSimplified (known : Query → Prop) (p q : Query) : Prop :=
  known p ∧ p.isDisciplined = true ∧ q = p.simplify

/-- The known references and their simplified forms have the same outcomes on plain values. -/
def KnownAgree (apply : Builtin.Apply) (known : Query → Prop) : Prop :=
  ∀ p q v w, IsSimplified known p q → Value.Coupled Value.NoReference v w →
    Outcome.Follows agreement (Value.Coupled Value.NoReference) (apply p v) (apply q w)

section Agreement

variable {apply : Builtin.Apply} {known : Query → Prop}

theorem KnownAgree.call_agrees (agree : KnownAgree apply known) {name : String} {lenient : Bool}
    {as bs : List Value} (args : Builtin.ArgumentsCoupled Value.NoReference (IsSimplified known)
      (Builtin.takesReference name) 0 as bs) :
    Outcome.Follows agreement (Value.Coupled Value.NoReference)
      (if lenient then forgive (Builtin.call apply name as) else Builtin.call apply name as)
      (if lenient then forgive (Builtin.call apply name bs) else Builtin.call apply name bs) := by
  have allowed := agreement.allowsCall_of_admits (fun _ => trivial) id name lenient
  exact callOutcome_follows (c := agreement) Value.noReference_respectful
    (fun _ _ => False.elim) agree allowed args

open Outcome.Follows (branch)

mutual

/-- A disciplined query and its simplified form have the same outcome on a plain value, and the
outcome is plain, when this holds of the references in it. -/
theorem KnownAgree.evalWith_simplify (agree : KnownAgree apply known) (q : Query)
    (disciplined : q.isDisciplined = true) (bodies : ∀ body ∈ q.references, known body) {v : Value}
    (plain : Value.Coupled Value.NoReference v v) :
    Outcome.Follows agreement (Value.Coupled Value.NoReference)
      (evalWith apply q v) (evalWith apply q.simplify v) := by
  cases q with
  | current => exact .answer plain
  | field name => exact .answer (plain.field name)
  | path keys => exact .answer (plain.follow keys)
  | index position => exact .answer (plain.item position)
  | range start stop => exact .answer (plain.range start stop)
  | slice s =>
      simp only [simplify, evalWith_fuseSlice]
      exact .answer (plain.slice s)
  | literal a => exact .answer (Value.coupled_of_isPlain disciplined)
  | reference tag body => exact Bool.noConfusion disciplined
  | chain left right =>
      simp only [isDisciplined, disciplinedAt, references, Bool.and_eq_true,
        List.forall_mem_append] at disciplined bodies
      simp only [simplify, evalWith_fuseChain]
      refine (agree.evalWith_simplify left disciplined.1 bodies.1 plain).bind fun a b answer => ?_
      obtain rfl := answer.eq_of_noReference
      exact agree.evalWith_simplify right disciplined.2 bodies.2 answer
  | pipe left right =>
      simp only [isDisciplined, disciplinedAt, references, Bool.and_eq_true,
        List.forall_mem_append] at disciplined bodies
      refine (agree.evalWith_simplify left disciplined.1 bodies.1 plain).bind fun a b answer => ?_
      obtain rfl := answer.eq_of_noReference
      exact agree.evalWith_simplify right disciplined.2 bodies.2 answer
  | flatten child =>
      exact (agree.evalWith_simplify child disciplined bodies plain).bind fun _ _ answer =>
        .answer answer.flatten
  | eachItem target body =>
      simp only [isDisciplined, disciplinedAt, references, Bool.and_eq_true,
        List.forall_mem_append] at disciplined bodies
      simp only [simplify, evalWith_fuseItems]
      refine (agree.evalWith_simplify target disciplined.1 bodies.1 plain).bind fun a b answer => ?_
      cases answer with
      | array items =>
          refine Outcome.Follows.project items fun v w item => ?_
          obtain rfl := item.eq_of_noReference
          exact agree.evalWith_simplify body disciplined.2 bodies.2 item
      | _ => exact .answer .null
  | eachMember target body =>
      simp only [isDisciplined, disciplinedAt, references, Bool.and_eq_true,
        List.forall_mem_append] at disciplined bodies
      simp only [simplify, evalWith_fuseMembers]
      refine (agree.evalWith_simplify target disciplined.1 bodies.1 plain).bind fun a b answer => ?_
      cases answer with
      | object _ values =>
          refine Outcome.Follows.project values fun v w item => ?_
          obtain rfl := item.eq_of_noReference
          exact agree.evalWith_simplify body disciplined.2 bodies.2 item
      | _ => exact .answer .null
  | presentItems target =>
      refine (agree.evalWith_simplify target disciplined bodies plain).bind fun a b answer => ?_
      cases answer with
      | array items => exact .answer (Value.Coupled.present items)
      | _ => exact .answer .null
  | presentMembers target =>
      refine (agree.evalWith_simplify target disciplined bodies plain).bind fun a b answer => ?_
      cases answer with
      | object _ values => exact .answer (Value.Coupled.present values)
      | _ => exact .answer .null
  | guard test body =>
      simp only [isDisciplined, disciplinedAt, references, Bool.and_eq_true,
        List.forall_mem_append] at disciplined bodies
      simp only [simplify, evalWith_fuseGuard]
      refine (agree.evalWith_simplify test disciplined.1 bodies.1 plain).bind fun _ _ answer => ?_
      have follows := agree.evalWith_simplify body disciplined.2 bodies.2 plain
      exact branch answer follows (.answer .null)
  | compare op left right =>
      simp only [isDisciplined, disciplinedAt, references, Bool.and_eq_true,
        List.forall_mem_append] at disciplined bodies
      refine (agree.evalWith_simplify left disciplined.1 bodies.1 plain).bind fun a b first => ?_
      have others := agree.evalWith_simplify right disciplined.2 bodies.2 plain
      refine others.bind fun a' b' second => ?_
      rw [first.test? Value.noReference_respectful op second]
      cases op.test? b b' with
      | some outcome => exact .answer (.bool outcome)
      | none => exact .answer .null
  | guardCompare op left right body =>
      simp only [isDisciplined, disciplinedAt, references, Bool.and_eq_true,
        List.forall_mem_append] at disciplined bodies
      simp only [simplify, evalWith_fuseCompare]
      have firsts := agree.evalWith_simplify left disciplined.1.1 bodies.1.1 plain
      have seconds := agree.evalWith_simplify right disciplined.1.2 bodies.1.2 plain
      refine firsts.bind fun a b first => seconds.bind fun a' b' second => ?_
      rw [first.test? Value.noReference_respectful op second]
      split
      · exact agree.evalWith_simplify body disciplined.2 bodies.2 plain
      · exact .answer .null
  | guardLiteral negated left expected body =>
      simp only [isDisciplined, disciplinedAt, references, Bool.and_eq_true,
        List.forall_mem_append] at disciplined bodies
      have answers := agree.evalWith_simplify left disciplined.1.1 bodies.1.1 plain
      refine answers.bind fun a b answer => ?_
      obtain rfl := answer.eq_of_noReference
      split
      · exact agree.evalWith_simplify body disciplined.2 bodies.2 plain
      · exact .answer .null
  | both left right =>
      simp only [isDisciplined, disciplinedAt, references, Bool.and_eq_true,
        List.forall_mem_append] at disciplined bodies
      refine (agree.evalWith_simplify left disciplined.1 bodies.1 plain).bind fun _ _ answer => ?_
      have follows := agree.evalWith_simplify right disciplined.2 bodies.2 plain
      exact branch answer follows (.answer answer)
  | either left right =>
      simp only [isDisciplined, disciplinedAt, references, Bool.and_eq_true,
        List.forall_mem_append] at disciplined bodies
      refine (agree.evalWith_simplify left disciplined.1 bodies.1 plain).bind fun _ _ answer => ?_
      have follows := agree.evalWith_simplify right disciplined.2 bodies.2 plain
      exact branch answer (.answer answer) follows
  | negate child =>
      refine (agree.evalWith_simplify child disciplined bodies plain).bind fun a b answer => ?_
      rw [answer.isTruthy]
      exact .answer (.bool _)
  | list items =>
      simp only [simplify, evalWith]
      cases v.isNull with
      | true => exact .answer .null
      | false =>
          exact (agree.evalList_simplify items disciplined bodies plain).bind fun _ _ answers =>
            .answer (.array answers)
  | hash entries =>
      simp only [simplify, evalWith]
      cases v.isNull with
      | true => exact .answer .null
      | false =>
          have members := agree.evalEntries_simplify entries disciplined bodies plain
          exact members.bind fun _ _ answers => .answer (.ofEntries (Entries.Coupled.ofList answers))
  | call name args lenient =>
      have arguments := agree.evalArguments_simplify name 0 args disciplined bodies plain
      exact arguments.bind fun _ _ values => agree.call_agrees values
termination_by structural q

theorem KnownAgree.evalList_simplify (agree : KnownAgree apply known) (queries : List Query)
    (disciplined : listDisciplined queries = true)
    (bodies : ∀ body ∈ listReferences queries, known body) {v : Value}
    (plain : Value.Coupled Value.NoReference v v) :
    Outcome.Follows agreement (List.Forall₂ (Value.Coupled Value.NoReference))
      (evalList apply queries v) (evalList apply (simplifyList queries) v) := by
  cases queries with
  | nil => exact .answer .nil
  | cons q rest =>
      simp only [listDisciplined, listReferences, Bool.and_eq_true,
        List.forall_mem_append] at disciplined bodies
      exact (agree.evalWith_simplify q disciplined.1 bodies.1 plain).bind fun _ _ first =>
        (agree.evalList_simplify rest disciplined.2 bodies.2 plain).bind fun _ _ others =>
          .answer (.cons first others)
termination_by structural queries

theorem KnownAgree.evalEntries_simplify (agree : KnownAgree apply known) (entries : Entries Query)
    (disciplined : entriesDisciplined entries = true)
    (bodies : ∀ body ∈ entriesReferences entries, known body) {v : Value}
    (plain : Value.Coupled Value.NoReference v v) :
    Outcome.Follows agreement (Entries.Coupled (Value.Coupled Value.NoReference))
      (evalEntries apply entries v) (evalEntries apply (simplifyEntries entries) v) := by
  cases entries with
  | nil => exact .answer .nil
  | cons entry rest =>
      obtain ⟨key, q⟩ := entry
      simp only [entriesDisciplined, entriesReferences, Bool.and_eq_true,
        List.forall_mem_append] at disciplined bodies
      exact (agree.evalWith_simplify q disciplined.1 bodies.1 plain).bind fun _ _ first =>
        (agree.evalEntries_simplify rest disciplined.2 bodies.2 plain).bind fun _ _ others =>
          .answer (.cons ⟨rfl, first⟩ others)
termination_by structural entries

theorem KnownAgree.evalArguments_simplify (agree : KnownAgree apply known) (function : String)
    (place : Nat) (args : List Query)
    (disciplined : argumentsDisciplined function place args = true)
    (bodies : ∀ body ∈ listReferences args, known body) {v : Value}
    (plain : Value.Coupled Value.NoReference v v) :
    Outcome.Follows agreement
      (Builtin.ArgumentsCoupled Value.NoReference (IsSimplified known)
        (Builtin.takesReference function) place)
      (evalList apply args v) (evalList apply (simplifyList args) v) := by
  cases args with
  | nil => exact .answer (.nil place)
  | cons q rest =>
      simp only [argumentsDisciplined, listReferences, Bool.and_eq_true,
        List.forall_mem_append] at disciplined bodies
      have others :=
        agree.evalArguments_simplify function (place + 1) rest disciplined.2 bodies.2 plain
      obtain inner | ⟨taken, tag, body, rfl, inner⟩ := disciplinedAt_cases disciplined.1
      · exact (agree.evalWith_simplify q inner bodies.1 plain).bind fun _ _ first =>
          others.bind fun _ _ values => .answer (.cons (.inl first) values)
      · have related : IsSimplified known body body.simplify :=
          ⟨bodies.1 body List.mem_cons_self, inner, rfl⟩
        exact others.bind fun _ _ values =>
          .answer (.cons (.inr ⟨taken, tag, body, body.simplify, rfl, rfl, related⟩) values)
termination_by structural args

end

end Agreement

/-- Deep enough for the references of a disciplined query, both forms return alike. -/
theorem eval_simplify {q : Query} (disciplined : q.isDisciplined = true) {depth : Nat}
    (deep : q.references.length ≤ depth) {v : Value} (plain : v.isPlain = true) :
    Outcome.Follows agreement (Value.Coupled Value.NoReference)
      (eval depth q v) (eval depth q.simplify v) := by
  induction depth generalizing q v with
  | zero =>
      have empty : q.references = [] := List.eq_nil_of_length_eq_zero (Nat.le_zero.mp deep)
      have known : ∀ body ∈ q.references, False := by
        rw [empty]
        exact fun _ => List.not_mem_nil
      have agree : KnownAgree (fun _ _ => .unsettled) fun _ => False :=
        fun _ _ _ _ simplified _ => simplified.1.elim
      exact agree.evalWith_simplify q disciplined known (Value.coupled_of_isPlain plain)
  | succ depth ih =>
      have known : ∀ body ∈ q.references, body.references.length ≤ depth := by
        intro body found
        have smaller := references_length_lt found
        omega
      have agree : KnownAgree (eval depth) fun body => body.references.length ≤ depth := by
        rintro body _ v w ⟨shallow, inner, rfl⟩ coupled
        obtain rfl := coupled.eq_of_noReference
        exact ih inner shallow coupled.isPlain
      exact agree.evalWith_simplify q disciplined known (Value.coupled_of_isPlain plain)

end Query

end JsonQuery
