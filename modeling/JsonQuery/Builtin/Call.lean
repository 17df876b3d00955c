import JsonQuery.Builtin.Collection
import JsonQuery.Builtin.Ordering

/-!
# Calling functions

A call finds the function by its name, checks the number of arguments, then their types from left
to right, and only then runs the body.  Bodies that take a reference apply it through a function
they are given.
-/

set_option autoImplicit false

namespace JsonQuery.Builtin

abbrev Apply : Type :=
  Query → Value → Outcome Value

def ofAnswer : Functions.Answer → Outcome Value
  | .ok v => .answer v
  | .error fault => .failure (.mistyped fault)

/-- Refuses the first argument, from a place on, that its place does not accept. -/
def checkTypes (builtin : Builtin) (place : Nat) : List Value → Except Error Unit
  | [] => .ok ()
  | v :: rest =>
      let accepted := builtin.accepted place
      if accepted.any fun t => t.accepts v then checkTypes builtin (place + 1) rest
      else .error (.mistyped (.argument builtin.name (place + 1) accepted v.kind))

def check (builtin : Builtin) (args : List Value) : Except Error Unit :=
  if builtin.arity.accepts args.length then builtin.checkTypes 0 args
  else .error (.arity builtin.name builtin.arity args.length)

def withItems (v : Value) (run : List Value → Outcome Value) : Outcome Value :=
  match v with
  | .array items => run items
  | _ => .failure (.mistyped (.operand "array" v.kind))

def withReference (v : Value) (run : Query → Outcome Value) : Outcome Value :=
  match v with
  | .reference _ query => run query
  | _ => .failure (.mistyped (.operand "expression" v.kind))

/-- Runs the body of a function on arguments that pass its check. -/
def run (apply : Apply) (builtin : Builtin) (args : List Value) : Outcome Value :=
  match builtin, args with
  | .abs, [v] => ofAnswer (Functions.absolute v)
  | .avg, [v] => withItems v fun items => .answer (Functions.average items)
  | .ceil, [v] => ofAnswer (Functions.roundWith Binary64.ceil v)
  | .contains, [v, needle] => ofAnswer (Functions.contains v needle)
  | .endsWith, [v, stop] => ofAnswer (Functions.endsWith v stop)
  | .floor, [v] => ofAnswer (Functions.roundWith Binary64.floor v)
  | .join, [glue, v] => ofAnswer (Functions.join glue v)
  | .keys, [v] => ofAnswer (Functions.keys v)
  | .length, [v] => ofAnswer (Functions.length v)
  | .map, [r, v] => withReference r fun query => withItems v fun items => do
      return .array (← Outcome.traverse (apply query) items)
  | .max, [v] => withItems v fun items =>
      .answer (Functions.extreme .gt (Functions.selfKeyed items))
  | .maxBy, [v, r] => withItems v fun items => withReference r fun query => do
      return Functions.extreme .gt (← Functions.keyed apply builtin.name query items)
  | .merge, _ => ofAnswer (Functions.mergeInto [] args)
  | .min, [v] => withItems v fun items =>
      .answer (Functions.extreme .lt (Functions.selfKeyed items))
  | .minBy, [v, r] => withItems v fun items => withReference r fun query => do
      return Functions.extreme .lt (← Functions.keyed apply builtin.name query items)
  | .notNull, _ => .answer (Functions.notNull args)
  | .reverse, v :: _ => ofAnswer (Functions.reverse v)
  | .sort, [v] => withItems v fun items =>
      Functions.sorted Functions.valueSize (Functions.selfKeyed items)
  | .sortBy, [v, r] => withItems v fun items => withReference r fun query => do
      Functions.sorted Functions.keySize (← Functions.keyed apply builtin.name query items)
  | .startsWith, [v, start] => ofAnswer (Functions.startsWith v start)
  | .sum, [v] => withItems v fun items => .answer (Functions.sum items)
  | .toArray, [v] => .answer (Functions.toArray v)
  | .toNumber, [v] => .answer (Functions.toNumber v)
  | .toString, [v] => ofAnswer (Functions.asText v)
  | .type, [v] => .answer (.string v.kind.name)
  | .values, [v] => ofAnswer (Functions.values v)
  | _, _ => .failure (.arity builtin.name builtin.arity args.length)

def invoke (apply : Apply) (builtin : Builtin) (args : List Value) : Outcome Value :=
  match builtin.check args with
  | .error e => .failure e
  | .ok () => builtin.run apply args

def call (apply : Apply) (name : String) (args : List Value) : Outcome Value :=
  match ofName? name with
  | none => .failure (.unknownFunction name)
  | some builtin => builtin.invoke apply args

end JsonQuery.Builtin
