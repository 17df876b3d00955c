import JsonQuery.Json.Basic
import JsonQuery.Number.Shortest

/-!
# Encoding JSON text

Compact text has no blanks.  Indented text puts every item and every member on a line of its own,
two spaces deeper than the brackets around it, and leaves empty arrays and objects closed up.
-/

set_option autoImplicit false

namespace JsonQuery.Json

/-- Numbers are positional from `0.00001` up to sixteen digits before the point. -/
def numberStyle : Shortest.Style :=
  ⟨-5, 15⟩

/-- Numbers that are not finite have no JSON text and are written as `null`. -/
def floatText (x : Float) : List Char :=
  if Binary64.isFinite x then Shortest.write numberStyle x else ['n', 'u', 'l', 'l']

def intText (n : Int) : List Char :=
  if n < 0 then '-' :: Shortest.digitChars n.natAbs else Shortest.digitChars n.natAbs

def hexChar (n : Nat) : Char :=
  if n < 10 then Char.ofNat ('0'.toNat + n) else Char.ofNat ('a'.toNat + (n - 10))

/-- The written form of a character inside a string: quotes, backslashes and control characters are
escaped and nothing else. -/
def charText (c : Char) : List Char :=
  if c = '\x22' then ['\\', '\x22']
  else if c = '\\' then ['\\', '\\']
  else if c = '\x08' then ['\\', 'b']
  else if c = '\x0c' then ['\\', 'f']
  else if c = '\n' then ['\\', 'n']
  else if c = '\r' then ['\\', 'r']
  else if c = '\t' then ['\\', 't']
  else if c.toNat < 0x20 then
    ['\\', 'u', '0', '0', hexChar (c.toNat / 16), hexChar (c.toNat % 16)]
  else [c]

def stringText (s : String) : List Char :=
  '\x22' :: (s.toList.flatMap charText ++ ['\x22'])

/-! ## Compact text -/

mutual

def compact : Json → List Char
  | .null => ['n', 'u', 'l', 'l']
  | .bool true => ['t', 'r', 'u', 'e']
  | .bool false => ['f', 'a', 'l', 's', 'e']
  | .int n => intText n.toInt
  | .float x => floatText x
  | .string s => stringText s
  | .array items => '[' :: compactItems items
  | .object entries => '\x7b' :: compactEntries entries
termination_by structural json => json

/-- The items of an array with commas between them, and the closing bracket. -/
def compactItems : List Json → List Char
  | [] => [']']
  | item :: rest => compact item ++ compactMoreItems rest
termination_by structural items => items

def compactMoreItems : List Json → List Char
  | [] => [']']
  | item :: rest => ',' :: (compact item ++ compactMoreItems rest)
termination_by structural items => items

/-- The members of an object with commas between them, and the closing brace. -/
def compactEntries : List (String × Json) → List Char
  | [] => ['\x7d']
  | (key, v) :: rest => stringText key ++ ':' :: (compact v ++ compactMoreEntries rest)
termination_by structural entries => entries

def compactMoreEntries : List (String × Json) → List Char
  | [] => ['\x7d']
  | (key, v) :: rest =>
      ',' :: (stringText key ++ ':' :: (compact v ++ compactMoreEntries rest))
termination_by structural entries => entries

end

/-! ## Indented text -/

def newline (depth : Nat) : List Char :=
  '\n' :: List.replicate (2 * depth) ' '

mutual

def indented (depth : Nat) : Json → List Char
  | .array [] => ['[', ']']
  | .array (item :: rest) =>
      '[' :: (newline (depth + 1) ++ indented (depth + 1) item ++ indentedItems depth rest)
  | .object [] => ['\x7b', '\x7d']
  | .object ((key, v) :: rest) =>
      '\x7b' :: (newline (depth + 1) ++ stringText key ++ ':' :: ' ' ::
        indented (depth + 1) v ++ indentedEntries depth rest)
  | .null => ['n', 'u', 'l', 'l']
  | .bool true => ['t', 'r', 'u', 'e']
  | .bool false => ['f', 'a', 'l', 's', 'e']
  | .int n => intText n.toInt
  | .float x => floatText x
  | .string s => stringText s
termination_by structural json => json

/-- The items behind a first one, and the closing bracket. -/
def indentedItems (depth : Nat) : List Json → List Char
  | [] => newline depth ++ [']']
  | item :: rest =>
      ',' :: (newline (depth + 1) ++ indented (depth + 1) item ++ indentedItems depth rest)
termination_by structural items => items

/-- The members behind a first one, and the closing brace. -/
def indentedEntries (depth : Nat) : List (String × Json) → List Char
  | [] => newline depth ++ ['\x7d']
  | (key, v) :: rest =>
      ',' :: (newline (depth + 1) ++ stringText key ++ ':' :: ' ' ::
        indented (depth + 1) v ++ indentedEntries depth rest)
termination_by structural entries => entries

end

def encode (json : Json) : String :=
  String.ofList json.compact

def encodeIndented (json : Json) : String :=
  String.ofList (json.indented 0)

end JsonQuery.Json
