import JsonQuery.Builtin.Numeric
import JsonQuery.Text
import JsonQuery.Value.Json

/-!
# Functions on strings, arrays and objects

Strings are taken as lists of characters.  The members of a merged object are those of its parts in
order of first appearance, each with the value of the last part that has it.
-/

set_option autoImplicit false

namespace JsonQuery.Functions

/-! ## Strings -/

def startsWith : Value → Value → Answer
  | .string s, .string start => .ok (.bool (start.toList.isPrefixOf s.toList))
  | .string _, v => .error (.operand "string" v.kind)
  | v, _ => .error (.operand "string" v.kind)

def endsWith : Value → Value → Answer
  | .string s, .string stop => .ok (.bool (stop.toList.isSuffixOf s.toList))
  | .string _, v => .error (.operand "string" v.kind)
  | v, _ => .error (.operand "string" v.kind)

def strings : List Value → Except TypeFault (List String)
  | [] => .ok []
  | .string s :: rest =>
      match strings rest with
      | .ok more => .ok (s :: more)
      | .error fault => .error fault
  | v :: _ => .error (.operand "string" v.kind)

def join : Value → Value → Answer
  | .string glue, .array items =>
      match strings items with
      | .ok parts => .ok (.string (glue.intercalate parts))
      | .error fault => .error fault
  | .string _, v => .error (.operand "array" v.kind)
  | v, _ => .error (.operand "string" v.kind)

/-- Strings stay as they are and all else becomes JSON text, except references. -/
def asText : Value → Answer
  | .string s => .ok (.string s)
  | .reference _ _ => .error (.referenceText Builtin.toString.name)
  | v => .ok (.string v.encode)

/-! ## Sequences -/

def length : Value → Answer
  | .string s => .ok (.int (Int64.ofInt s.toList.length))
  | .array items => .ok (.int (Int64.ofInt items.length))
  | .object entries => .ok (.int (Int64.ofInt entries.length))
  | v => .error (.operand "string, array or object" v.kind)

/-- Is a value among the items of an array, or a string part of another?  Nothing else is part of a
string. -/
def contains : Value → Value → Answer
  | .array items, needle => .ok (.bool (items.any fun item => item.equals needle))
  | .string s, .string part => .ok (.bool (Text.isInfix part.toList s.toList))
  | .string _, _ => .ok (.bool false)
  | v, _ => .error (.operand "array or string" v.kind)

def reverse : Value → Answer
  | .string s => .ok (.string (String.ofList s.toList.reverse))
  | .array items => .ok (.array items.reverse)
  | v => .error (.operand "string or array" v.kind)

/-- Arrays stay as they are; all else becomes an array of one item. -/
def toArray : Value → Value
  | .array items => .array items
  | v => .array [v]

def notNull (args : List Value) : Value :=
  (args.find? fun v => !v.isNull).getD .null

/-! ## Objects -/

def keys : Value → Answer
  | .object entries => .ok (.array ((Entries.keys entries).map .string))
  | v => .error (.operand "object" v.kind)

def values : Value → Answer
  | .object entries => .ok (.array (Entries.values entries))
  | v => .error (.operand "object" v.kind)

def mergeInto (entries : Entries Value) : List Value → Answer
  | [] => .ok (.object entries)
  | .object more :: rest => mergeInto (Entries.insertAll entries more) rest
  | v :: _ => .error (.operand "object" v.kind)

end JsonQuery.Functions
