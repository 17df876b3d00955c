import JsonQuery.Value.Basic

/-!
# The built-in functions and their contracts

Each function declares how many arguments it takes and which values it accepts at each place.  The
contract alone decides whether a call is refused; the bodies are defined elsewhere.
-/

set_option autoImplicit false

namespace JsonQuery

inductive ArgType where
  | any
  | number
  | string
  | array
  | object
  | expression
  /-- An array of numbers; it may be empty. -/
  | numbers
  /-- An array of strings; it may be empty. -/
  | strings
  deriving DecidableEq, Repr

namespace ArgType

def name : ArgType → String
  | .any => "any"
  | .number => "number"
  | .string => "string"
  | .array => "array"
  | .object => "object"
  | .expression => "expression"
  | .numbers => "array[number]"
  | .strings => "array[string]"

def accepts : ArgType → Value → Bool
  | .any, _ => true
  | .number, v => v.isNumber
  | .string, v => v.isString
  | .array, .array _ => true
  | .object, .object _ => true
  | .expression, .reference _ _ => true
  | .numbers, .array items => items.all Value.isNumber
  | .strings, .array items => items.all Value.isString
  | _, _ => false

/-- Alternatives, separated by bars. -/
def describe (types : List ArgType) : String :=
  "|".intercalate (types.map name)

end ArgType

inductive Arity where
  | exactly (n : Nat)
  | atLeast (n : Nat)
  deriving DecidableEq, Repr

namespace Arity

def accepts : Arity → Nat → Bool
  | .exactly n, count => count == n
  | .atLeast n, count => decide (n ≤ count)

def describe : Arity → String
  | .exactly 1 => "one argument"
  | .exactly n => toString n ++ " arguments"
  | .atLeast n => "at least " ++ toString n ++ " argument(s)"

def isVariadic : Arity → Bool
  | .exactly _ => false
  | .atLeast _ => true

def count : Arity → Nat
  | .exactly n => n
  | .atLeast n => n

end Arity

inductive Builtin where
  | abs
  | avg
  | ceil
  | contains
  | endsWith
  | floor
  | join
  | keys
  | length
  | map
  | max
  | maxBy
  | merge
  | min
  | minBy
  | notNull
  | reverse
  | sort
  | sortBy
  | startsWith
  | sum
  | toArray
  | toNumber
  | toString
  | type
  | values
  deriving DecidableEq, Repr

namespace Builtin

def name : Builtin → String
  | .abs => "abs"
  | .avg => "avg"
  | .ceil => "ceil"
  | .contains => "contains"
  | .endsWith => "ends_with"
  | .floor => "floor"
  | .join => "join"
  | .keys => "keys"
  | .length => "length"
  | .map => "map"
  | .max => "max"
  | .maxBy => "max_by"
  | .merge => "merge"
  | .min => "min"
  | .minBy => "min_by"
  | .notNull => "not_null"
  | .reverse => "reverse"
  | .sort => "sort"
  | .sortBy => "sort_by"
  | .startsWith => "starts_with"
  | .sum => "sum"
  | .toArray => "to_array"
  | .toNumber => "to_number"
  | .toString => "to_string"
  | .type => "type"
  | .values => "values"

def all : List Builtin :=
  [.abs, .avg, .ceil, .contains, .endsWith, .floor, .join, .keys, .length, .map, .max, .maxBy,
    .merge, .min, .minBy, .notNull, .reverse, .sort, .sortBy, .startsWith, .sum, .toArray,
    .toNumber, .toString, .type, .values]

def ofName? (name : String) : Option Builtin :=
  all.find? fun builtin => builtin.name == name

def arity : Builtin → Arity
  | .contains | .endsWith | .join | .map | .maxBy | .minBy | .sortBy | .startsWith => .exactly 2
  | .merge | .notNull | .reverse => .atLeast 1
  | .abs | .avg | .ceil | .floor | .keys | .length | .max | .min | .sort | .sum | .toArray
  | .toNumber | .toString | .type | .values => .exactly 1

/-- The types accepted at each place.  Arguments beyond the last place are held to its types. -/
def signature : Builtin → List (List ArgType)
  | .abs | .ceil | .floor => [[.number]]
  | .avg | .sum => [[.numbers]]
  | .contains => [[.array, .string], [.any]]
  | .endsWith | .startsWith => [[.string], [.string]]
  | .join => [[.string], [.strings]]
  | .keys | .merge | .values => [[.object]]
  | .length => [[.string, .array, .object]]
  | .map => [[.expression], [.array]]
  | .max | .min | .sort => [[.numbers, .strings]]
  | .maxBy | .minBy | .sortBy => [[.array], [.expression]]
  | .reverse => [[.string, .array], [.any]]
  | .notNull | .toArray | .toNumber | .toString | .type => [[.any]]

/-- The types accepted at a place, counted from zero. -/
def accepted (builtin : Builtin) (place : Nat) : List ArgType :=
  (builtin.signature[place]?).getD (builtin.signature.getLastD [])

/-- The name with the types of the arguments; dots say that more may follow. -/
def signatureText (builtin : Builtin) : String :=
  let places := builtin.signature.map ArgType.describe
  let more := if builtin.arity.isVariadic then ["..."] else []
  builtin.name ++ "(" ++ ", ".intercalate (places ++ more) ++ ")"

theorem ofName?_name (builtin : Builtin) : ofName? builtin.name = some builtin := by
  cases builtin <;> decide

end Builtin

end JsonQuery
