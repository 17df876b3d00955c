import JsonQuery.Value.Basic

/-!
# Parts of values

Looking up members and items, and cutting arrays and strings.  What is not there, or not a part of
this kind of value, is null.
-/

set_option autoImplicit false

namespace JsonQuery.Value

def field (key : String) (v : Value) : Value :=
  (v.member? key).getD .null

/-- The member reached by following keys from the outside inwards. -/
def follow : List String → Value → Value
  | [], v => v
  | key :: rest, v =>
      match v.member? key with
      | some next => follow rest next
      | none => .null

/-- The item of an array at a position; negative positions count from the end. -/
def item (position : Int64) : Value → Value
  | .array items =>
      let p := position.toInt
      if 0 ≤ p then (items[p.toNat]?).getD .null
      else if p.natAbs ≤ items.length then (items[items.length - p.natAbs]?).getD .null
      else .null
  | _ => .null

/-- What an item contributes to a flattened array: an array its items, all else itself. -/
def flattened : Value → List Value
  | .array items => items
  | v => [v]

def flatten : Value → Value
  | .array items => .array (items.flatMap flattened)
  | _ => .null

def present (items : List Value) : Value :=
  .array (items.filter fun v => !v.isNull)

def slice (s : Slice) : Value → Value
  | .array items => .array (s.select items)
  | .string text => .string (String.ofList (s.select text.toList))
  | _ => .null

def between {α : Type} (start stop : Nat) (items : List α) : List α :=
  (items.drop start).take (stop - start)

def range (start stop : Nat) : Value → Value
  | .array items => .array (between start stop items)
  | .string text => .string (String.ofList (between start stop text.toList))
  | _ => .null

end JsonQuery.Value
