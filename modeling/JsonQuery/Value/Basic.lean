import JsonQuery.Comparator
import JsonQuery.Entries
import JsonQuery.Slice

/-!
# Values and queries

A value is what a query reads and answers: a JSON document in which any part may also be a
reference, an unevaluated query that a function applies later.  A query is the tree of an
expression; since literals hold values and references hold queries, the two types are defined
together.

A reference may carry a tag, which says which reference it is.  References with one tag are the same
one; they are equal even where an undefined number in them differs from itself.  Other references
are told apart by their trees alone.

Queries come in two forms.  Expressions are read as plain trees; the constructors from `path` on
are fused forms, which answer the same with less work and are built by simplification only.
-/

set_option autoImplicit false

namespace JsonQuery

/-- Which reference a reference is, where that matters. -/
abbrev Tag : Type :=
  Option Nat

def Tag.same : Tag → Tag → Bool
  | some a, some b => a == b
  | _, _ => false

mutual

inductive Value where
  | null
  | bool (b : Bool)
  | int (n : Int64)
  | float (x : Float)
  | string (s : String)
  | array (items : List Value)
  /-- The members of an object, in order.  Keys do not repeat in the values that the library
  builds. -/
  | object (entries : List (String × Value))
  | reference (tag : Tag) (query : Query)

inductive Query where
  /-- The input itself. -/
  | current
  /-- A member of an object. -/
  | field (name : String)
  /-- An item of an array; negative positions count from the end. -/
  | index (position : Int64)
  /-- The right query on the answer of the left one, as written with a dot or a bracket. -/
  | chain (left right : Query)
  /-- The right query on the answer of the left one, as written with a bar. -/
  | pipe (left right : Query)
  /-- Opens the arrays inside an array by one level. -/
  | flatten (child : Query)
  /-- The body on every item of an array, without the null answers. -/
  | eachItem (target body : Query)
  /-- The body on every member of an object, without the null answers. -/
  | eachMember (target body : Query)
  /-- The body, where the test holds. -/
  | guard (test body : Query)
  | compare (op : Comparator) (left right : Query)
  | both (left right : Query)
  | either (left right : Query)
  | negate (child : Query)
  | list (items : List Query)
  /-- The members in the order in which they are written; keys may repeat. -/
  | hash (entries : List (String × Query))
  | literal (value : Value)
  /-- The body as a reference; its answers carry the tag. -/
  | reference (tag : Tag) (body : Query)
  | slice (slice : Slice)
  /-- A call of a function.  A lenient call answers null where its arguments are refused. -/
  | call (name : String) (args : List Query) (lenient : Bool)
  /-- Members of members, from the outermost key inwards. -/
  | path (keys : List String)
  /-- The items of an array that are not null. -/
  | presentItems (target : Query)
  /-- The members of an object that are not null. -/
  | presentMembers (target : Query)
  /-- The body, where the comparison holds. -/
  | guardCompare (op : Comparator) (left right body : Query)
  /-- The body, where the left query answers the literal, or anything else when negated. -/
  | guardLiteral (negated : Bool) (left : Query) (literal : Value) (body : Query)
  /-- The elements from `start` to before `stop`. -/
  | range (start stop : Nat)

end

instance : Inhabited Value :=
  ⟨.null⟩

instance : Inhabited Query :=
  ⟨.current⟩

namespace Value

/-- The kinds that values are told apart by.  Integers and binary64 numbers are both numbers. -/
inductive Kind where
  | null
  | boolean
  | number
  | string
  | array
  | object
  | expression
  deriving DecidableEq, Repr

def Kind.name : Kind → String
  | .null => "null"
  | .boolean => "boolean"
  | .number => "number"
  | .string => "string"
  | .array => "array"
  | .object => "object"
  | .expression => "expression"

def kind : Value → Kind
  | .null => .null
  | .bool _ => .boolean
  | .int _ => .number
  | .float _ => .number
  | .string _ => .string
  | .array _ => .array
  | .object _ => .object
  | .reference _ _ => .expression

/-- What counts as false: null, `false`, and empty strings, arrays and objects. -/
def isTruthy : Value → Bool
  | .null => false
  | .bool b => b
  | .string s => !s.toList.isEmpty
  | .array items => !items.isEmpty
  | .object entries => !entries.isEmpty
  | .int _ | .float _ | .reference _ _ => true

def isNull : Value → Bool
  | .null => true
  | _ => false

def isNumber : Value → Bool
  | .int _ | .float _ => true
  | _ => false

def isString : Value → Bool
  | .string _ => true
  | _ => false

def int? : Value → Option Int64
  | .int n => some n
  | _ => none

def string? : Value → Option String
  | .string s => some s
  | _ => none

def items? : Value → Option (List Value)
  | .array items => some items
  | _ => none

def entries? : Value → Option (Entries Value)
  | .object entries => some entries
  | _ => none

def member? (key : String) : Value → Option Value
  | .object entries => Entries.get? key entries
  | _ => none

end Value

end JsonQuery
