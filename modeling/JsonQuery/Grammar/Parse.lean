import JsonQuery.Grammar.Step
import JsonQuery.Token.Scan

/-!
# Reading expressions

An expression is read by scanning its text and stepping through the tokens up to the one that marks
the end.  The first rejected token ends the reading with an error at its position.
-/

set_option autoImplicit false

namespace JsonQuery

namespace Grammar

def State.result? (state : State) : Option Query :=
  match state.mode with
  | .done query => some query
  | _ => none

/-- Reads the current token of a cursor and then `rest`, the tokens behind it. -/
def run (lenient : Bool) (state : State) (text : String) (token : Token) :
    List Token → Except Error Query
  | [] =>
      match state.step lenient token.lexeme with
      | .error rejection => .error (rejection.toError ⟨text, token, []⟩)
      | .ok next => next.result?.elim (.error (.malformed .unexpectedEnd text token.position)) .ok
  | following :: rest =>
      match state.step lenient token.lexeme with
      | .error rejection => .error (rejection.toError ⟨text, token, following :: rest⟩)
      | .ok next => run lenient next text following rest

end Grammar

structure Parser where
  /-- Calls in the query answer null where their arguments are refused. -/
  lenient : Bool
  deriving DecidableEq, Repr

def Parser.parse (parser : Parser) (text : String) : Except Error Query :=
  let cursor := Cursor.ofTokens text (tokenize text)
  Grammar.run parser.lenient .start text cursor.token cursor.rest

end JsonQuery
