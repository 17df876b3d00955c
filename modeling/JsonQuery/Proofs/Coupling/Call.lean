import JsonQuery.Builtin.Call
import JsonQuery.Proofs.Coupling.Function

/-!
# Calls on coupled arguments

A call treats references as black boxes, except where it applies one.  So its outcomes on coupled
arguments follow each other as soon as the applications do.  At a place where a function applies its
argument, the bodies may be related more loosely than elsewhere.
-/

set_option autoImplicit false

namespace JsonQuery.Builtin

/-- The places of arguments, counted from zero, at which a function applies a reference. -/
def takesReference (function : String) (place : Nat) : Bool :=
  match function with
  | "map" => place == 0
  | "sort_by" | "max_by" | "min_by" => place == 1
  | _ => false

/-- Coupled as values, or references whose bodies are related as those to be applied are. -/
def ArgumentCoupled (refs applied : Query → Query → Prop) (takes : Bool) (v w : Value) : Prop :=
  Value.Coupled refs v w ∨
    takes = true ∧ ∃ tag p q, v = .reference tag p ∧ w = .reference tag q ∧ applied p q

/-- Arguments, from a place on, that are coupled one by one. -/
inductive ArgumentsCoupled (refs applied : Query → Query → Prop) (takes : Nat → Bool) :
    Nat → List Value → List Value → Prop
  | nil (place : Nat) : ArgumentsCoupled refs applied takes place [] []
  | cons {place : Nat} {v w : Value} {as bs : List Value}
      (head : ArgumentCoupled refs applied (takes place) v w)
      (tail : ArgumentsCoupled refs applied takes (place + 1) as bs) :
      ArgumentsCoupled refs applied takes place (v :: as) (w :: bs)

variable {c : Coupling} {refs applied : Query → Query → Prop} {takes : Nat → Bool}
  {place : Nat} {v w : Value} {as bs : List Value}

namespace ArgumentsCoupled

theorem length_eq (args : ArgumentsCoupled refs applied takes place as bs) :
    as.length = bs.length := by
  induction args with
  | nil => rfl
  | cons _ _ ih => simp only [List.length_cons, ih]

theorem single (args : ArgumentsCoupled refs applied takes place as bs) (one : as.length = 1) :
    ∃ v w, as = [v] ∧ bs = [w] ∧ ArgumentCoupled refs applied (takes place) v w := by
  cases args with
  | nil => simp at one
  | cons head tail =>
      cases tail with
      | nil => exact ⟨_, _, rfl, rfl, head⟩
      | cons => simp at one

theorem pair (args : ArgumentsCoupled refs applied takes place as bs) (two : as.length = 2) :
    ∃ v w v' w', as = [v, v'] ∧ bs = [w, w'] ∧ ArgumentCoupled refs applied (takes place) v w ∧
      ArgumentCoupled refs applied (takes (place + 1)) v' w' := by
  cases args with
  | nil => simp at two
  | cons head tail =>
      obtain ⟨v', w', rfl, rfl, second⟩ := tail.single (by simpa using two)
      exact ⟨_, _, _, _, rfl, rfl, head, second⟩

end ArgumentsCoupled

theorem ArgumentCoupled.plain {taken : Bool} (never : taken = false)
    (coupled : ArgumentCoupled refs applied taken v w) : Value.Coupled refs v w := by
  subst never
  exact coupled.resolve_right fun both => Bool.noConfusion both.1

theorem ArgumentsCoupled.plain (never : ∀ place, takes place = false)
    (args : ArgumentsCoupled refs applied takes place as bs) :
    List.Forall₂ (Value.Coupled refs) as bs := by
  induction args with
  | nil => exact .nil
  | cons head _ ih => exact .cons (head.plain (never _)) ih

/-! ## Checks -/

theorem accepts_coupled (t : ArgType) {taken : Bool}
    (coupled : ArgumentCoupled refs applied taken v w) : t.accepts v = t.accepts w := by
  obtain related | ⟨-, tag, p, q, rfl, rfl, -⟩ := coupled
  · cases related with
    | array items =>
        cases t <;> simp only [ArgType.accepts, Value.isNumber, Value.isString]
        · exact Functions.all_coupled items fun _ _ => Value.Coupled.isNumber
        · exact Functions.all_coupled items fun _ _ => Value.Coupled.isString
    | _ => cases t <;> rfl
  · cases t <;> rfl

theorem kind_coupled {taken : Bool} (coupled : ArgumentCoupled refs applied taken v w) :
    v.kind = w.kind := by
  obtain related | ⟨-, tag, p, q, rfl, rfl, -⟩ := coupled
  · exact related.kind
  · rfl

theorem checkTypes_coupled (builtin : Builtin) (start : Nat)
    (args : ArgumentsCoupled refs applied takes place as bs) :
    builtin.checkTypes start as = builtin.checkTypes start bs := by
  induction args generalizing start with
  | nil => rfl
  | cons head _ ih =>
      simp only [checkTypes, accepts_coupled _ head, kind_coupled head, ih]

theorem check_coupled (builtin : Builtin)
    (args : ArgumentsCoupled refs applied takes place as bs) :
    builtin.check as = builtin.check bs := by
  simp only [check, args.length_eq, checkTypes_coupled builtin 0 args]

theorem checkTypes_error {builtin : Builtin} {start : Nat} {e : Error}
    (checked : builtin.checkTypes start as = .error e) : ∃ fault, e = .mistyped fault := by
  induction as generalizing start with
  | nil => cases checked
  | cons v rest ih =>
      simp only [checkTypes] at checked
      split at checked
      · exact ih checked
      · cases checked
        exact ⟨_, rfl⟩

theorem isForgivable_of_check {builtin : Builtin} {e : Error}
    (checked : builtin.check as = .error e) : e.isForgivable = true := by
  simp only [check] at checked
  split at checked
  · obtain ⟨fault, rfl⟩ := checkTypes_error checked
    rfl
  · cases checked
    rfl

theorem accepts_of_check {builtin : Builtin} (checked : builtin.check as = .ok ()) :
    builtin.arity.accepts as.length = true := by
  simp only [check] at checked
  split at checked
  · assumption
  · cases checked

/-! ## Bodies -/

section Bodies

variable (forgivable : ∀ e, e.isForgivable = true → c.admits e)

include forgivable

theorem ofAnswer_follows {a b : Functions.Answer} (coupled : Functions.Answer.Coupled c.refs a b) :
    Outcome.Follows c (Value.Coupled c.refs) (ofAnswer a) (ofAnswer b) := by
  cases coupled with
  | ok related => exact .answer related
  | error fault => exact .failure (forgivable _ rfl)

theorem withItems_follows {run run' : List Value → Outcome Value}
    (coupled : Value.Coupled c.refs v w)
    (each : ∀ as bs, List.Forall₂ (Value.Coupled c.refs) as bs →
      Outcome.Follows c (Value.Coupled c.refs) (run as) (run' bs)) :
    Outcome.Follows c (Value.Coupled c.refs) (withItems v run) (withItems w run') := by
  cases coupled with
  | array items => exact each _ _ items
  | _ => exact .failure (forgivable _ rfl)

theorem withReference_follows {taken : Bool} {run run' : Query → Outcome Value}
    (within : ∀ p q, c.refs p q → applied p q)
    (coupled : ArgumentCoupled c.refs applied taken v w)
    (each : ∀ p q, applied p q → Outcome.Follows c (Value.Coupled c.refs) (run p) (run' q)) :
    Outcome.Follows c (Value.Coupled c.refs) (withReference v run) (withReference w run') := by
  obtain related | ⟨-, tag, p, q, rfl, rfl, bodies⟩ := coupled
  · cases related with
    | reference tag bodies => exact each _ _ (within _ _ bodies)
    | _ => exact .failure (forgivable _ rfl)
  · exact each _ _ bodies

variable (respected : Query.Respectful c.refs) (within : ∀ p q, c.refs p q → applied p q)
  {apply apply' : Apply}
  (applies : ∀ p q v w, applied p q → Value.Coupled c.refs v w →
    Outcome.Follows c (Value.Coupled c.refs) (apply p v) (apply' q w))

include within applies in
/-- What a function does with items keyed by a reference. -/
theorem keyedRun_follows {taken : Bool} (function : String)
    {finish : List Functions.Keyed → Outcome Value}
    (finished : ∀ left right, List.Forall₂ (Functions.Keyed.Coupled c.refs) left right →
      Outcome.Follows c (Value.Coupled c.refs) (finish left) (finish right))
    (coupled : Value.Coupled c.refs v w) {v' w' : Value}
    (coupled' : ArgumentCoupled c.refs applied taken v' w') :
    Outcome.Follows c (Value.Coupled c.refs)
      (withItems v fun items => withReference v' fun query => do
        finish (← Functions.keyed apply function query items))
      (withItems w fun items => withReference w' fun query => do
        finish (← Functions.keyed apply' function query items)) := by
  refine withItems_follows forgivable coupled fun as bs items => ?_
  refine withReference_follows forgivable within coupled' fun p q bodies => ?_
  refine (Functions.keyed_follows forgivable function (applies p q · · bodies) items).bind ?_
  exact finished

include respected within applies in
theorem run_follows (builtin : Builtin) (accepted : builtin.arity.accepts as.length = true)
    (args : ArgumentsCoupled c.refs applied (takesReference builtin.name) 0 as bs) :
    Outcome.Follows c (Value.Coupled c.refs)
      (builtin.run apply as) (builtin.run apply' bs) := by
  have one : builtin.arity = .exactly 1 → as.length = 1 := by
    intro arity
    simpa [arity, Arity.accepts] using accepted
  have two : builtin.arity = .exactly 2 → as.length = 2 := by
    intro arity
    simpa [arity, Arity.accepts] using accepted
  cases builtin with
  | abs =>
      obtain ⟨v, w, rfl, rfl, head⟩ := args.single (one rfl)
      exact ofAnswer_follows forgivable (Functions.absolute_coupled (head.plain rfl))
  | avg =>
      obtain ⟨v, w, rfl, rfl, head⟩ := args.single (one rfl)
      refine withItems_follows forgivable (head.plain rfl) fun as bs items => ?_
      exact .answer (Functions.average_coupled items)
  | ceil =>
      obtain ⟨v, w, rfl, rfl, head⟩ := args.single (one rfl)
      exact ofAnswer_follows forgivable (Functions.roundWith_coupled Binary64.ceil (head.plain rfl))
  | contains =>
      obtain ⟨v, w, v', w', rfl, rfl, first, second⟩ := args.pair (two rfl)
      exact ofAnswer_follows forgivable
        (Functions.contains_coupled respected (first.plain rfl) (second.plain rfl))
  | endsWith =>
      obtain ⟨v, w, v', w', rfl, rfl, first, second⟩ := args.pair (two rfl)
      exact ofAnswer_follows forgivable
        (Functions.endsWith_coupled (first.plain rfl) (second.plain rfl))
  | floor =>
      obtain ⟨v, w, rfl, rfl, head⟩ := args.single (one rfl)
      exact ofAnswer_follows forgivable (Functions.roundWith_coupled Binary64.floor (head.plain rfl))
  | join =>
      obtain ⟨v, w, v', w', rfl, rfl, first, second⟩ := args.pair (two rfl)
      exact ofAnswer_follows forgivable
        (Functions.join_coupled (first.plain rfl) (second.plain rfl))
  | keys =>
      obtain ⟨v, w, rfl, rfl, head⟩ := args.single (one rfl)
      exact ofAnswer_follows forgivable (Functions.keys_coupled (head.plain rfl))
  | length =>
      obtain ⟨v, w, rfl, rfl, head⟩ := args.single (one rfl)
      exact ofAnswer_follows forgivable (Functions.length_coupled (head.plain rfl))
  | map =>
      obtain ⟨v, w, v', w', rfl, rfl, first, second⟩ := args.pair (two rfl)
      refine withReference_follows forgivable within first fun p q bodies => ?_
      refine withItems_follows forgivable (second.plain rfl) fun as bs items => ?_
      refine (Outcome.Follows.traverse items (applies p q · · bodies)).bind ?_
      exact fun left right both => .answer (.array both)
  | max =>
      obtain ⟨v, w, rfl, rfl, head⟩ := args.single (one rfl)
      refine withItems_follows forgivable (head.plain rfl) fun as bs items => ?_
      exact .answer (Functions.extreme_coupled .gt (Functions.selfKeyed_coupled items))
  | maxBy =>
      obtain ⟨v, w, v', w', rfl, rfl, first, second⟩ := args.pair (two rfl)
      exact keyedRun_follows forgivable within applies _
        (fun _ _ both => .answer (Functions.extreme_coupled .gt both)) (first.plain rfl) second
  | merge =>
      exact ofAnswer_follows forgivable
        (Functions.mergeInto_coupled .nil (args.plain fun _ => rfl))
  | min =>
      obtain ⟨v, w, rfl, rfl, head⟩ := args.single (one rfl)
      refine withItems_follows forgivable (head.plain rfl) fun as bs items => ?_
      exact .answer (Functions.extreme_coupled .lt (Functions.selfKeyed_coupled items))
  | minBy =>
      obtain ⟨v, w, v', w', rfl, rfl, first, second⟩ := args.pair (two rfl)
      exact keyedRun_follows forgivable within applies _
        (fun _ _ both => .answer (Functions.extreme_coupled .lt both)) (first.plain rfl) second
  | notNull => exact .answer (Functions.notNull_coupled (args.plain fun _ => rfl))
  | reverse =>
      cases args with
      | nil => simp [arity, Arity.accepts] at accepted
      | cons head _ => exact ofAnswer_follows forgivable (Functions.reverse_coupled (head.plain rfl))
  | sort =>
      obtain ⟨v, w, rfl, rfl, head⟩ := args.single (one rfl)
      refine withItems_follows forgivable (head.plain rfl) fun as bs items => ?_
      exact Functions.sorted_follows Functions.valueSize (Functions.selfKeyed_coupled items)
  | sortBy =>
      obtain ⟨v, w, v', w', rfl, rfl, first, second⟩ := args.pair (two rfl)
      exact keyedRun_follows forgivable within applies _
        (fun _ _ => Functions.sorted_follows Functions.keySize) (first.plain rfl) second
  | startsWith =>
      obtain ⟨v, w, v', w', rfl, rfl, first, second⟩ := args.pair (two rfl)
      exact ofAnswer_follows forgivable
        (Functions.startsWith_coupled (first.plain rfl) (second.plain rfl))
  | sum =>
      obtain ⟨v, w, rfl, rfl, head⟩ := args.single (one rfl)
      refine withItems_follows forgivable (head.plain rfl) fun as bs items => ?_
      exact .answer (Functions.sum_coupled items)
  | toArray =>
      obtain ⟨v, w, rfl, rfl, head⟩ := args.single (one rfl)
      exact .answer (Functions.toArray_coupled (head.plain rfl))
  | toNumber =>
      obtain ⟨v, w, rfl, rfl, head⟩ := args.single (one rfl)
      exact .answer (Functions.toNumber_coupled (head.plain rfl))
  | toString =>
      obtain ⟨v, w, rfl, rfl, head⟩ := args.single (one rfl)
      exact ofAnswer_follows forgivable (Functions.asText_coupled (head.plain rfl))
  | type =>
      obtain ⟨v, w, rfl, rfl, head⟩ := args.single (one rfl)
      simp only [run, kind_coupled head]
      exact .answer (.string _)
  | values =>
      obtain ⟨v, w, rfl, rfl, head⟩ := args.single (one rfl)
      exact ofAnswer_follows forgivable (Functions.values_coupled (head.plain rfl))

include respected within applies in
theorem invoke_follows (builtin : Builtin)
    (args : ArgumentsCoupled c.refs applied (takesReference builtin.name) 0 as bs) :
    Outcome.Follows c (Value.Coupled c.refs)
      (builtin.invoke apply as) (builtin.invoke apply' bs) := by
  simp only [invoke, ← check_coupled builtin args]
  cases checked : builtin.check as with
  | error e =>
      refine .failure (forgivable e ?_)
      exact isForgivable_of_check checked
  | ok =>
      refine run_follows forgivable respected within applies builtin ?_ args
      exact accepts_of_check checked

include respected within applies in
/-- Calls of a function on coupled arguments follow each other. -/
theorem call_follows (name : String)
    (unknown : ofName? name = none → c.admits (.unknownFunction name))
    (args : ArgumentsCoupled c.refs applied (takesReference name) 0 as bs) :
    Outcome.Follows c (Value.Coupled c.refs) (call apply name as) (call apply' name bs) := by
  simp only [call]
  cases found : ofName? name with
  | none => exact .failure (unknown found)
  | some builtin =>
      have named : builtin.name = name := by simpa using List.find?_some found
      subst named
      exact invoke_follows forgivable respected within applies builtin args

end Bodies

end JsonQuery.Builtin
