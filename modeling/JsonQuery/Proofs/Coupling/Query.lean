import JsonQuery.Proofs.Coupling.Call
import JsonQuery.Query.Eval

/-!
# Coupled queries

Two queries are coupled when they are the same tree up to the bodies of references, the literals and
the leniency of calls, which the coupling constrains.  Coupled queries on coupled values have
outcomes that follow each other, under any two ways of applying references that do so themselves,
and hence at any two depths of which the right one is at least the left one.
-/

set_option autoImplicit false

namespace JsonQuery

/-- A lenient call forgives on both sides, so the right one must fail as the left one does; a strict
call has to be allowed to fail, and its counterpart is lenient only where failures are pardoned. -/
def Coupling.AllowsCall (c : Coupling) (name : String) (lenient lenient' : Bool) : Prop :=
  (Builtin.ofName? name = none → c.admits (.unknownFunction name)) ∧
    if lenient then lenient' = true ∧ ¬c.pardons
    else (∀ e, e.isForgivable = true → c.admits e) ∧ (lenient' = true → c.pardons)

theorem Coupling.allowsCall_of_admits {c : Coupling} (admits : ∀ e, c.admits e)
    (unpardoning : ¬c.pardons) (name : String) (lenient : Bool) :
    c.AllowsCall name lenient lenient := by
  refine ⟨fun _ => admits _, ?_⟩
  cases lenient with
  | true => exact ⟨rfl, unpardoning⟩
  | false => exact ⟨fun e _ => admits e, nofun⟩

/-- The coupling under which calls are made before anything is forgiven. -/
def Coupling.calling (c : Coupling) : Coupling :=
  { c with admits := fun e => c.admits e ∨ e.isForgivable = true }

namespace Query

/-- The same tree, up to what the coupling leaves open. -/
inductive Coupled (c : Coupling) : Query → Query → Prop
  | current : Coupled c .current .current
  | field (name : String) : Coupled c (.field name) (.field name)
  | index (position : Int64) : Coupled c (.index position) (.index position)
  | chain {p q p' q' : Query} (left : Coupled c p q) (right : Coupled c p' q') :
      Coupled c (.chain p p') (.chain q q')
  | pipe {p q p' q' : Query} (left : Coupled c p q) (right : Coupled c p' q') :
      Coupled c (.pipe p p') (.pipe q q')
  | flatten {p q : Query} (child : Coupled c p q) : Coupled c (.flatten p) (.flatten q)
  | eachItem {p q p' q' : Query} (target : Coupled c p q) (body : Coupled c p' q') :
      Coupled c (.eachItem p p') (.eachItem q q')
  | eachMember {p q p' q' : Query} (target : Coupled c p q) (body : Coupled c p' q') :
      Coupled c (.eachMember p p') (.eachMember q q')
  | guard {p q p' q' : Query} (test : Coupled c p q) (body : Coupled c p' q') :
      Coupled c (.guard p p') (.guard q q')
  | compare (op : Comparator) {p q p' q' : Query} (left : Coupled c p q)
      (right : Coupled c p' q') : Coupled c (.compare op p p') (.compare op q q')
  | both {p q p' q' : Query} (left : Coupled c p q) (right : Coupled c p' q') :
      Coupled c (.both p p') (.both q q')
  | either {p q p' q' : Query} (left : Coupled c p q) (right : Coupled c p' q') :
      Coupled c (.either p p') (.either q q')
  | negate {p q : Query} (child : Coupled c p q) : Coupled c (.negate p) (.negate q)
  | list {ps qs : List Query} (items : List.Forall₂ (Coupled c) ps qs) :
      Coupled c (.list ps) (.list qs)
  | hash {ps qs : Entries Query} (keys : Entries.keys ps = Entries.keys qs)
      (values : List.Forall₂ (Coupled c) (Entries.values ps) (Entries.values qs)) :
      Coupled c (.hash ps) (.hash qs)
  | literal {v w : Value} (value : Value.Coupled c.refs v w) : Coupled c (.literal v) (.literal w)
  | reference (tag : Tag) {p q : Query} (bodies : c.refs p q) :
      Coupled c (.reference tag p) (.reference tag q)
  | slice (s : Slice) : Coupled c (.slice s) (.slice s)
  | call {name : String} {ps qs : List Query} {lenient lenient' : Bool}
      (allowed : c.AllowsCall name lenient lenient') (args : List.Forall₂ (Coupled c) ps qs) :
      Coupled c (.call name ps lenient) (.call name qs lenient')
  | path (keys : List String) : Coupled c (.path keys) (.path keys)
  | presentItems {p q : Query} (target : Coupled c p q) :
      Coupled c (.presentItems p) (.presentItems q)
  | presentMembers {p q : Query} (target : Coupled c p q) :
      Coupled c (.presentMembers p) (.presentMembers q)
  | guardCompare (op : Comparator) {p q p' q' p'' q'' : Query} (left : Coupled c p q)
      (right : Coupled c p' q') (body : Coupled c p'' q'') :
      Coupled c (.guardCompare op p p' p'') (.guardCompare op q q' q'')
  | guardLiteral (negated : Bool) {p q p' q' : Query} {v w : Value} (left : Coupled c p q)
      (value : Value.Coupled c.refs v w) (body : Coupled c p' q') :
      Coupled c (.guardLiteral negated p v p') (.guardLiteral negated q w q')
  | range (start stop : Nat) : Coupled c (.range start stop) (.range start stop)

theorem Coupled.entries {c : Coupling} {ps qs : Entries Query}
    (coupled : Coupled c (.hash ps) (.hash qs)) : Entries.Coupled (Coupled c) ps qs := by
  cases coupled with
  | hash keys values => exact Entries.Coupled.iff_keys_values.mpr ⟨keys, values⟩

end Query

/-! ## What the evaluator does with outcomes -/

namespace Outcome.Follows

variable {c : Coupling} {left right : Outcome Value}

theorem forgive {name : String} {lenient lenient' : Bool} {rel : Value → Value → Prop}
    (null : rel .null .null) (allowed : c.AllowsCall name lenient lenient')
    (follows : Follows c.calling rel left right) :
    Follows c rel (if lenient then Query.forgive left else left)
      (if lenient' then Query.forgive right else right) := by
  obtain ⟨-, allowed⟩ := allowed
  cases left with
  | answer a =>
      obtain ⟨b, rfl, related⟩ := follows
      have kept : ∀ (lenient : Bool) (v : Value),
          (if lenient then Query.forgive (.answer v) else .answer v) = .answer v := by
        intro lenient v
        cases lenient <;> rfl
      rw [kept, kept]
      exact .answer related
  | aborted =>
      obtain rfl := follows
      cases lenient <;> cases lenient' <;> exact rfl
  | unsettled => cases lenient <;> exact follows
  | failure e =>
      obtain ⟨admitted, fails⟩ := follows
      cases lenient with
      | true =>
          obtain ⟨rfl, noPardon⟩ := allowed
          obtain rfl := fails.resolve_left noPardon
          simp only [if_true, Query.forgive]
          by_cases forgivable : e.isForgivable = true
          · simp only [if_pos forgivable]
            exact .answer null
          · simp only [if_neg forgivable]
            exact .failure (admitted.resolve_right forgivable)
      | false =>
          refine ⟨admitted.elim id (allowed.1 e), ?_⟩
          cases lenient' with
          | true => exact .inl (allowed.2 rfl)
          | false => exact fails

variable {refs : Query → Query → Prop}

theorem project {f g : Value → Outcome Value} {as bs : List Value}
    (items : List.Forall₂ (Value.Coupled refs) as bs)
    (each : ∀ v w, Value.Coupled refs v w → Follows c (Value.Coupled refs) (f v) (g w)) :
    Follows c (Value.Coupled refs) (Query.project f as) (Query.project g bs) :=
  (traverse items each).bind fun _ _ answers => .answer (Value.Coupled.present answers)

theorem branch {v w : Value} (coupled : Value.Coupled refs v w)
    {left right left' right' : Outcome Value}
    (holds : Follows c (Value.Coupled refs) left right)
    (fails : Follows c (Value.Coupled refs) left' right') :
    Follows c (Value.Coupled refs) (if v.isTruthy then left else left')
      (if w.isTruthy then right else right') := by
  rw [coupled.isTruthy]
  cases w.isTruthy with
  | true => exact holds
  | false => exact fails

end Outcome.Follows

theorem Builtin.ArgumentsCoupled.ofForall₂ {refs : Query → Query → Prop} {takes : Nat → Bool}
    {as bs : List Value} (place : Nat) (items : List.Forall₂ (Value.Coupled refs) as bs) :
    ArgumentsCoupled refs refs takes place as bs := by
  induction items generalizing place with
  | nil => exact .nil place
  | cons head _ ih => exact .cons (.inl head) (ih _)

namespace Query

theorem callOutcome_follows {c : Coupling} (respected : Respectful c.refs)
    {applied : Query → Query → Prop} (within : ∀ p q, c.refs p q → applied p q)
    {apply apply' : Builtin.Apply}
    (applies : ∀ p q v w, applied p q → Value.Coupled c.refs v w →
      Outcome.Follows c (Value.Coupled c.refs) (apply p v) (apply' q w))
    {name : String} {lenient lenient' : Bool} (allowed : c.AllowsCall name lenient lenient')
    {as bs : List Value}
    (args : Builtin.ArgumentsCoupled c.refs applied (Builtin.takesReference name) 0 as bs) :
    Outcome.Follows c (Value.Coupled c.refs)
      (if lenient then forgive (Builtin.call apply name as) else Builtin.call apply name as)
      (if lenient' then forgive (Builtin.call apply' name bs) else Builtin.call apply' name bs) := by
  refine Outcome.Follows.forgive .null allowed ?_
  refine Builtin.call_follows (c := c.calling) (fun _ => .inr) respected within
    (fun p q v w bodies coupled => ?_) name (fun unknown => .inl (allowed.1 unknown)) args
  exact (applies p q v w bodies coupled).weaken (fun _ _ => id) (fun _ => .inl) id id

end Query

/-- Two ways of applying references have outcomes that follow each other where the references are
related, and equality does not tell these apart. -/
structure Coupling.Applies (c : Coupling) (apply apply' : Builtin.Apply) : Prop where
  respected : Query.Respectful c.refs
  follows : ∀ p q v w, c.refs p q → Value.Coupled c.refs v w →
    Outcome.Follows c (Value.Coupled c.refs) (apply p v) (apply' q w)

namespace Coupling.Applies

open Query
open Outcome.Follows (branch)

variable {c : Coupling} {apply apply' : Builtin.Apply}

mutual

/-- Coupled queries have outcomes that follow each other on coupled values. -/
theorem evalWith_follows (applies : c.Applies apply apply') (p : Query) {q : Query}
    (coupled : Query.Coupled c p q) {v w : Value} (input : Value.Coupled c.refs v w) :
    Outcome.Follows c (Value.Coupled c.refs) (evalWith apply p v) (evalWith apply' q w) := by
  cases coupled with
  | current => exact .answer input
  | field name => exact .answer (input.field name)
  | path keys => exact .answer (input.follow keys)
  | index position => exact .answer (input.item position)
  | slice s => exact .answer (input.slice s)
  | range start stop => exact .answer (input.range start stop)
  | literal value => exact .answer value
  | reference tag bodies => exact .answer (.reference tag bodies)
  | chain left right =>
      exact (applies.evalWith_follows _ left input).bind fun _ _ => applies.evalWith_follows _ right
  | pipe left right =>
      exact (applies.evalWith_follows _ left input).bind fun _ _ => applies.evalWith_follows _ right
  | flatten child =>
      exact (applies.evalWith_follows _ child input).bind fun _ _ answer => .answer answer.flatten
  | eachItem target body =>
      refine (applies.evalWith_follows _ target input).bind fun a b answer => ?_
      cases answer with
      | array items =>
          exact Outcome.Follows.project items fun _ _ => applies.evalWith_follows _ body
      | _ => exact .answer .null
  | eachMember target body =>
      refine (applies.evalWith_follows _ target input).bind fun a b answer => ?_
      cases answer with
      | object _ values =>
          exact Outcome.Follows.project values fun _ _ => applies.evalWith_follows _ body
      | _ => exact .answer .null
  | presentItems target =>
      refine (applies.evalWith_follows _ target input).bind fun a b answer => ?_
      cases answer with
      | array items => exact .answer (Value.Coupled.present items)
      | _ => exact .answer .null
  | presentMembers target =>
      refine (applies.evalWith_follows _ target input).bind fun a b answer => ?_
      cases answer with
      | object _ values => exact .answer (Value.Coupled.present values)
      | _ => exact .answer .null
  | guard test body =>
      exact (applies.evalWith_follows _ test input).bind fun _ _ answer =>
        branch answer (applies.evalWith_follows _ body input) (.answer .null)
  | compare op left right =>
      refine (applies.evalWith_follows _ left input).bind fun a b first => ?_
      refine (applies.evalWith_follows _ right input).bind fun a' b' second => ?_
      rw [first.test? applies.respected op second]
      cases op.test? b b' with
      | some outcome => exact .answer (.bool outcome)
      | none => exact .answer .null
  | guardCompare op left right body =>
      refine (applies.evalWith_follows _ left input).bind fun a b first => ?_
      refine (applies.evalWith_follows _ right input).bind fun a' b' second => ?_
      rw [first.test? applies.respected op second]
      split
      · exact applies.evalWith_follows _ body input
      · exact .answer .null
  | guardLiteral negated left value body =>
      refine (applies.evalWith_follows _ left input).bind fun a b answer => ?_
      rw [answer.equals applies.respected value]
      split
      · exact applies.evalWith_follows _ body input
      · exact .answer .null
  | both left right =>
      exact (applies.evalWith_follows _ left input).bind fun _ _ answer =>
        branch answer (applies.evalWith_follows _ right input) (.answer answer)
  | either left right =>
      exact (applies.evalWith_follows _ left input).bind fun _ _ answer =>
        branch answer (.answer answer) (applies.evalWith_follows _ right input)
  | negate child =>
      refine (applies.evalWith_follows _ child input).bind fun a b answer => ?_
      rw [answer.isTruthy]
      exact .answer (.bool _)
  | list items =>
      simp only [evalWith, input.isNull]
      cases w.isNull with
      | true => exact .answer .null
      | false =>
          exact (applies.evalList_follows _ items input).bind fun _ _ answers =>
            .answer (.array answers)
  | hash keys values =>
      simp only [evalWith, input.isNull]
      cases w.isNull with
      | true => exact .answer .null
      | false =>
          have entries := (Query.Coupled.hash keys values).entries
          exact (applies.evalEntries_follows _ entries input).bind fun _ _ answers =>
            .answer (.ofEntries (Entries.Coupled.ofList answers))
  | call allowed args =>
      exact (applies.evalList_follows _ args input).bind fun _ _ values =>
        callOutcome_follows applies.respected (fun _ _ => id) applies.follows allowed
          (.ofForall₂ 0 values)
termination_by structural p

theorem evalList_follows (applies : c.Applies apply apply') (ps : List Query) {qs : List Query}
    (coupled : List.Forall₂ (Query.Coupled c) ps qs) {v w : Value}
    (input : Value.Coupled c.refs v w) :
    Outcome.Follows c (List.Forall₂ (Value.Coupled c.refs))
      (evalList apply ps v) (evalList apply' qs w) := by
  cases coupled with
  | nil => exact .answer .nil
  | cons head tail =>
      exact (applies.evalWith_follows _ head input).bind fun _ _ first =>
        (applies.evalList_follows _ tail input).bind fun _ _ rest => .answer (.cons first rest)
termination_by structural ps

theorem evalEntries_follows (applies : c.Applies apply apply') (ps : Entries Query)
    {qs : Entries Query} (coupled : Entries.Coupled (Query.Coupled c) ps qs) {v w : Value}
    (input : Value.Coupled c.refs v w) :
    Outcome.Follows c (Entries.Coupled (Value.Coupled c.refs))
      (evalEntries apply ps v) (evalEntries apply' qs w) := by
  cases coupled with
  | nil => exact .answer .nil
  | @cons a b _ _ head tail =>
      obtain ⟨key, p⟩ := a
      obtain ⟨key', q⟩ := b
      exact (applies.evalWith_follows _ head.2 input).bind fun _ _ first =>
        (applies.evalEntries_follows _ tail input).bind fun _ _ rest =>
          .answer (.cons ⟨head.1, first⟩ rest)
termination_by structural ps

end

end Coupling.Applies

namespace Query

/-- Coupled queries have outcomes that follow each other at any two depths, when references are
coupled wherever they are related. -/
theorem eval_follows {c : Coupling} (respected : Respectful c.refs) (cuts : c.cuts)
    (closed : ∀ p q, c.refs p q → Coupled c p q) {depth depth' : Nat} (le : depth ≤ depth')
    {p q : Query} (coupled : Coupled c p q) {v w : Value} (input : Value.Coupled c.refs v w) :
    Outcome.Follows c (Value.Coupled c.refs) (eval depth p v) (eval depth' q w) := by
  induction depth generalizing depth' p q v w with
  | zero =>
      have applies (apply' : Builtin.Apply) : c.Applies (fun _ _ => .unsettled) apply' :=
        ⟨respected, fun _ _ _ _ _ _ => cuts⟩
      cases depth' <;> exact (applies _).evalWith_follows p coupled input
  | succ depth ih =>
      cases depth' with
      | zero => omega
      | succ depth' =>
          have applies : c.Applies (eval depth) (eval depth') :=
            ⟨respected, fun p q v w bodies input => ih (by omega) (closed p q bodies) input⟩
          exact applies.evalWith_follows p coupled input

end Query

end JsonQuery
