import JsonQuery.Token.Basic
import JsonQuery.Value.Json

/-!
# Scanning text into tokens

Scanning never fails.  A token starts at the first character that is not blank, and its first
character decides how far it extends; its spelling alone then decides which lexeme it is.  Text
that no other lexeme is spelled by becomes an unknown one.  After the last token comes one that
marks the end of the text.
-/

set_option autoImplicit false

namespace JsonQuery

namespace Lexeme

def isBlank (c : Char) : Bool :=
  c == ' ' || c == '\t' || c == '\n' || c == '\r'

def startsName (c : Char) : Bool :=
  c.isAlpha || c == '_'

def continuesName (c : Char) : Bool :=
  c.isAlphanum || c == '_'

def startsNumber (c : Char) : Bool :=
  Numeral.isDigit c || c == '-'

def isQuote (c : Char) : Bool :=
  c == '\x27' || c == '\x22' || c == '\x60'

def isPair (first second : Char) : Bool :=
  match first with
  | '[' => second == ']' || second == '?'
  | '|' => second == '|'
  | '&' => second == '&'
  | '=' | '!' | '<' | '>' => second == '='
  | _ => false

/-- How many of the characters after the first one belong to the same lexeme.  Quoted text without
its closing mark extends to the end. -/
def extent (first : Char) (rest : List Char) : Nat :=
  if startsName first then (rest.takeWhile continuesName).length
  else if startsNumber first then (rest.takeWhile Numeral.isDigit).length
  else if isQuote first then
    match Text.delimited? first rest with
    | some (body, _) => body.length + 1
    | none => rest.length
  else
    match rest with
    | second :: _ => if isPair first second then 1 else 0
    | [] => 0

def ofQuotedName? (body : List Char) : Option Lexeme :=
  (Json.string? ('\x22' :: (body ++ ['\x22']))).map .quotedIdentifier

/-- A JSON literal is a JSON text in which the closing mark is escaped by a backslash. -/
def ofJsonLiteral? (body : List Char) : Option Lexeme :=
  (Value.decode? (String.ofList (Text.unprotect '\x60' body))).map fun v => .literal v

/-- A raw string is taken as it stands, except that its mark is escaped by a backslash. -/
def ofRawString (body : List Char) : Lexeme :=
  .literal (.string (String.ofList (Text.unprotect '\x27' body)))

def ofQuoted? (mark : Char) (body : List Char) : Option Lexeme :=
  if mark = '\x27' then some (ofRawString body)
  else if mark = '\x22' then ofQuotedName? body
  else ofJsonLiteral? body

def ofPunctuation? : List Char → Option Lexeme
  | ['.'] => some .dot
  | ['*'] => some .star
  | [']'] => some .rbracket
  | [','] => some .comma
  | [':'] => some .colon
  | ['@'] => some .current
  | ['('] => some .lparen
  | [')'] => some .rparen
  | ['\x7b'] => some .lbrace
  | ['\x7d'] => some .rbrace
  | ['['] => some .lbracket
  | ['[', ']'] => some .flatten
  | ['[', '?'] => some .filter
  | ['|'] => some .pipe
  | ['|', '|'] => some .or
  | ['&'] => some .expref
  | ['&', '&'] => some .and
  | ['!'] => some .not
  | ['!', '='] => some (.comparator .ne)
  | ['=', '='] => some (.comparator .eq)
  | ['<'] => some (.comparator .lt)
  | ['<', '='] => some (.comparator .le)
  | ['>'] => some (.comparator .gt)
  | ['>', '='] => some (.comparator .ge)
  | _ => none

def ofSpelling? (first : Char) (rest : List Char) : Option Lexeme :=
  if startsName first then some (.identifier (String.ofList (first :: rest)))
  else if startsNumber first then (Numeral.int64? (first :: rest)).map .number
  else if isQuote first then
    match Text.delimited? first rest with
    | some (body, []) => ofQuoted? first body
    | _ => none
  else ofPunctuation? (first :: rest)

def ofSpelling (first : Char) (rest : List Char) : Lexeme :=
  (ofSpelling? first rest).getD (.unknown (String.ofList (first :: rest)))

end Lexeme

namespace Token

/-- The tokens of a text that starts behind `position` characters, with the one that marks its
end. -/
def scan (position : Nat) : List Char → List Token
  | [] => [⟨.eof, position⟩]
  | c :: rest =>
      if Lexeme.isBlank c then scan (position + 1) rest
      else
        let n := Lexeme.extent c rest
        ⟨Lexeme.ofSpelling c (rest.take n), position⟩ :: scan (position + 1 + n) (rest.drop n)
termination_by text => text.length
decreasing_by all_goals simp only [List.length_cons, List.length_drop]; omega

end Token

def tokenize (text : String) : List Token :=
  Token.scan 0 text.toList

end JsonQuery
