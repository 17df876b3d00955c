import JsonQuery.Error

/-!
# A cursor on tokens

A cursor stands on one token of an expression and moves forward only.  It always has a token to
stand on: moving on from the last one stays there.
-/

set_option autoImplicit false

namespace JsonQuery

structure Cursor where
  /-- The text that the tokens were read from. -/
  text : String
  token : Token
  /-- The tokens behind the current one. -/
  rest : List Token

namespace Cursor

/-- A cursor on the first of some tokens.  Tokens that do not end with an end of text get one. -/
def ofTokens (text : String) (tokens : List Token) : Cursor :=
  let stop : Token := ⟨.eof, text.toList.length⟩
  let complete :=
    match tokens.getLast? with
    | none => tokens ++ [stop]
    | some last => if last.kind = .eof then tokens else tokens ++ [stop]
  match complete with
  | [] => ⟨text, stop, []⟩
  | first :: rest => ⟨text, first, rest⟩

def kind (cursor : Cursor) : TokenKind :=
  cursor.token.kind

/-- The token `n` places ahead, or the last one when there are fewer. -/
def lookahead (cursor : Cursor) (n : Nat) : Token :=
  let tokens := cursor.token :: cursor.rest
  (tokens[n]?).getD (tokens.getLastD cursor.token)

def advance (cursor : Cursor) : Cursor :=
  match cursor.rest with
  | [] => cursor
  | next :: rest => ⟨cursor.text, next, rest⟩

def error (cursor : Cursor) (complaint : Complaint) : Error :=
  .malformed complaint cursor.text cursor.token.position

def expect (cursor : Cursor) (kinds : List TokenKind) : Except Error Token :=
  if cursor.kind ∈ kinds then .ok cursor.token
  else .error (cursor.error (.expectedOneOf kinds cursor.kind))

end Cursor

end JsonQuery
