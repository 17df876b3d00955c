import JsonQuery.Json.Number
import JsonQuery.Text

/-!
# Symbols of JSON text

The punctuation and the scalars of a JSON text, without the blanks between them.  A symbol starts at
the first character that is not blank, and its first character decides how far it extends; its
spelling alone then decides what it stands for, or that it stands for nothing.
-/

set_option autoImplicit false

namespace JsonQuery.Json

/-! ## Strings -/

def hexDigit? (c : Char) : Option Nat :=
  if '0' ≤ c ∧ c ≤ '9' then some (c.toNat - '0'.toNat)
  else if 'a' ≤ c ∧ c ≤ 'f' then some (c.toNat - 'a'.toNat + 10)
  else if 'A' ≤ c ∧ c ≤ 'F' then some (c.toNat - 'A'.toNat + 10)
  else none

def hexWord? (a b c d : Char) : Option Nat :=
  match hexDigit? a, hexDigit? b, hexDigit? c, hexDigit? d with
  | some a, some b, some c, some d => some (((a * 16 + b) * 16 + c) * 16 + d)
  | _, _, _, _ => none

def isHighSurrogate (n : Nat) : Bool :=
  decide (0xD800 ≤ n) && decide (n < 0xDC00)

def isLowSurrogate (n : Nat) : Bool :=
  decide (0xDC00 ≤ n) && decide (n < 0xE000)

def ofSurrogates (high low : Nat) : Char :=
  Char.ofNat (0x10000 + (high - 0xD800) * 0x400 + (low - 0xDC00))

def escaped? : Char → Option Char
  | '\x22' => some '\x22'
  | '\\' => some '\\'
  | '/' => some '/'
  | 'b' => some '\x08'
  | 'f' => some '\x0c'
  | 'n' => some '\n'
  | 'r' => some '\r'
  | 't' => some '\t'
  | _ => none

/-- Reads the escape behind a backslash: its character, and how many characters it takes.  A high
surrogate needs an escaped low one behind it, and a low one cannot stand alone. -/
def escape? : List Char → Option (Char × Nat)
  | 'u' :: a :: b :: c :: d :: rest =>
      match hexWord? a b c d with
      | none => none
      | some n =>
          if isLowSurrogate n then none
          else if isHighSurrogate n then
            match rest with
            | '\\' :: 'u' :: e :: f :: g :: h :: _ =>
                match hexWord? e f g h with
                | none => none
                | some low => if isLowSurrogate low then some (ofSurrogates n low, 11) else none
            | _ => none
          else some (Char.ofNat n, 5)
  | c :: _ => (escaped? c).map fun plain => (plain, 1)
  | [] => none

/-- The text that the characters between two quotes stand for.  Control characters have to be
escaped. -/
def unescape? : List Char → Option (List Char)
  | [] => some []
  | c :: rest =>
      if c = '\\' then
        match escape? rest with
        | none => none
        | some (plain, used) => (unescape? (rest.drop used)).map (plain :: ·)
      else if c.toNat < 0x20 then none
      else (unescape? rest).map (c :: ·)
termination_by text => text.length
decreasing_by all_goals simp only [List.length_cons, List.length_drop]; omega

def string? : List Char → Option String
  | '\x22' :: rest =>
      match Text.delimited? '\x22' rest with
      | some (body, []) => (unescape? body).map String.ofList
      | _ => none
  | _ => none

/-! ## Symbols -/

inductive Symbol where
  | beginArray
  | endArray
  | beginObject
  | endObject
  | comma
  | colon
  | scalar (value : Json)

def isBlank (c : Char) : Bool :=
  c == ' ' || c == '\t' || c == '\n' || c == '\r'

def isNumeralChar (c : Char) : Bool :=
  Numeral.isDigit c || c == '-' || c == '+' || c == '.' || c == 'e' || c == 'E'

def isWordChar (c : Char) : Bool :=
  decide ('a' ≤ c) && decide (c ≤ 'z')

/-- How many of the characters after the first one belong to the same symbol. -/
def Symbol.extent (first : Char) (rest : List Char) : Nat :=
  if first = '\x22' then
    match Text.delimited? '\x22' rest with
    | some (body, _) => body.length + 1
    | none => rest.length
  else if Numeral.isDigit first || first == '-' then (rest.takeWhile isNumeralChar).length
  else if isWordChar first then (rest.takeWhile isWordChar).length
  else 0

def Symbol.ofSpelling? : List Char → Option Symbol
  | ['['] => some .beginArray
  | [']'] => some .endArray
  | ['\x7b'] => some .beginObject
  | ['\x7d'] => some .endObject
  | [','] => some .comma
  | [':'] => some .colon
  | ['n', 'u', 'l', 'l'] => some (.scalar .null)
  | ['t', 'r', 'u', 'e'] => some (.scalar (.bool true))
  | ['f', 'a', 'l', 's', 'e'] => some (.scalar (.bool false))
  | '\x22' :: rest => (string? ('\x22' :: rest)).map fun s => .scalar (.string s)
  | text => (number? text).map .scalar

def symbols? : List Char → Option (List Symbol)
  | [] => some []
  | c :: rest =>
      if isBlank c then symbols? rest
      else
        let n := Symbol.extent c rest
        match Symbol.ofSpelling? (c :: rest.take n) with
        | none => none
        | some symbol => (symbols? (rest.drop n)).map (symbol :: ·)
termination_by text => text.length
decreasing_by all_goals simp only [List.length_cons, List.length_drop]; omega

end JsonQuery.Json
