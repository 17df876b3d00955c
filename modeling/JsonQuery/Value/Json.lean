import JsonQuery.Value.Basic
import JsonQuery.Json.Decode
import JsonQuery.Json.Encode

/-!
# Values and documents

Every document is a value.  The other way, references and numbers that are not finite have no
counterpart in a document and become null; nothing else is lost.
-/

set_option autoImplicit false

namespace JsonQuery.Value

mutual

def ofJson : Json → Value
  | .null => .null
  | .bool b => .bool b
  | .int n => .int n
  | .float x => .float x
  | .string s => .string s
  | .array items => .array (ofJsonList items)
  | .object entries => .object (ofJsonEntries entries)
termination_by structural json => json

def ofJsonList : List Json → List Value
  | [] => []
  | item :: rest => ofJson item :: ofJsonList rest
termination_by structural items => items

def ofJsonEntries : List (String × Json) → List (String × Value)
  | [] => []
  | (key, v) :: rest => (key, ofJson v) :: ofJsonEntries rest
termination_by structural entries => entries

end

mutual

def toJson : Value → Json
  | .null => .null
  | .bool b => .bool b
  | .int n => .int n
  | .float x => if Binary64.isFinite x then .float x else .null
  | .string s => .string s
  | .array items => .array (toJsonList items)
  | .object entries => .object (toJsonEntries entries)
  | .reference _ _ => .null
termination_by structural v => v

def toJsonList : List Value → List Json
  | [] => []
  | item :: rest => toJson item :: toJsonList rest
termination_by structural items => items

def toJsonEntries : List (String × Value) → List (String × Json)
  | [] => []
  | (key, v) :: rest => (key, toJson v) :: toJsonEntries rest
termination_by structural entries => entries

end

def decode? (text : String) : Option Value :=
  (Json.decode? text).map ofJson

def encode (v : Value) : String :=
  v.toJson.encode

end JsonQuery.Value
