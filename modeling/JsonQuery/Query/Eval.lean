import JsonQuery.Builtin.Call
import JsonQuery.Value.Access

/-!
# Evaluation

The outcome of a query on a value, given those of the references that its functions apply.
Evaluation walks down the tree of the query, except where a function applies a reference: there a tree
may be entered again from within itself, so with a bound each such application takes one unit from a
given depth.  A greater depth never changes an outcome that has settled.
-/

set_option autoImplicit false

namespace JsonQuery.Query

def forgive : Outcome Value → Outcome Value
  | .failure e => if e.isForgivable then .answer .null else .failure e
  | outcome => outcome

/-- The answers on all items, without those that are null. -/
def project (eval : Value → Outcome Value) (items : List Value) : Outcome Value := do
  return Value.present (← Outcome.traverse eval items)

mutual

/-- The outcome of a query, where references are applied by `apply`. -/
def evalWith (apply : Builtin.Apply) : Query → Value → Outcome Value
  | .current, v => .answer v
  | .field name, v => .answer (v.field name)
  | .path keys, v => .answer (v.follow keys)
  | .index position, v => .answer (v.item position)
  | .slice s, v => .answer (v.slice s)
  | .range start stop, v => .answer (v.range start stop)
  | .literal a, _ => .answer a
  | .reference tag body, _ => .answer (.reference tag body)
  | .chain left right, v => do evalWith apply right (← evalWith apply left v)
  | .pipe left right, v => do evalWith apply right (← evalWith apply left v)
  | .flatten child, v => do return (← evalWith apply child v).flatten
  | .eachItem target body, v => do
      match ← evalWith apply target v with
      | .array items => project (fun item => evalWith apply body item) items
      | _ => return .null
  | .eachMember target body, v => do
      match ← evalWith apply target v with
      | .object entries => project (fun item => evalWith apply body item) (Entries.values entries)
      | _ => return .null
  | .presentItems target, v => do
      match ← evalWith apply target v with
      | .array items => return Value.present items
      | _ => return .null
  | .presentMembers target, v => do
      match ← evalWith apply target v with
      | .object entries => return Value.present (Entries.values entries)
      | _ => return .null
  | .guard test body, v => do
      if (← evalWith apply test v).isTruthy then evalWith apply body v else return .null
  | .compare op left right, v => do
      let a ← evalWith apply left v
      let b ← evalWith apply right v
      return ((op.test? a b).map Value.bool).getD .null
  | .guardCompare op left right body, v => do
      let a ← evalWith apply left v
      let b ← evalWith apply right v
      if op.test? a b == some true then evalWith apply body v else return .null
  | .guardLiteral negated left expected body, v => do
      let a ← evalWith apply left v
      if a.equals expected != negated then evalWith apply body v else return .null
  | .both left right, v => do
      let a ← evalWith apply left v
      if a.isTruthy then evalWith apply right v else return a
  | .either left right, v => do
      let a ← evalWith apply left v
      if a.isTruthy then return a else evalWith apply right v
  | .negate child, v => do return .bool (!(← evalWith apply child v).isTruthy)
  | .list items, v =>
      if v.isNull then .answer .null
      else do return .array (← evalList apply items v)
  | .hash entries, v =>
      if v.isNull then .answer .null
      else do return .object (Entries.ofList (← evalEntries apply entries v))
  | .call name args lenient, v => do
      let values ← evalList apply args v
      let outcome := Builtin.call apply name values
      if lenient then forgive outcome else outcome
termination_by structural query => query

def evalList (apply : Builtin.Apply) : List Query → Value → Outcome (List Value)
  | [], _ => .answer []
  | query :: rest, v => do
      let a ← evalWith apply query v
      let as ← evalList apply rest v
      return a :: as
termination_by structural queries => queries

def evalEntries (apply : Builtin.Apply) :
    List (String × Query) → Value → Outcome (List (String × Value))
  | [], _ => .answer []
  | (key, query) :: rest, v => do
      let a ← evalWith apply query v
      let as ← evalEntries apply rest v
      return (key, a) :: as
termination_by structural entries => entries

end

/-- The outcome of a query in which references may be nested in each other up to `depth` deep while
they are applied. -/
def eval : (depth : Nat) → Query → Value → Outcome Value
  | 0, query, v => evalWith (fun _ _ => .unsettled) query v
  | depth + 1, query, v => evalWith (eval depth) query v

end JsonQuery.Query
