import JsonQuery.Token.Kind
import JsonQuery.Value.Basic

/-!
# Tokens

A token is a lexeme and the number of characters before it.  A lexeme carries what its spelling
stands for: a name, a number, a decoded literal, a comparator, or the text that could not be read.
-/

set_option autoImplicit false

namespace JsonQuery

inductive Lexeme where
  | identifier (name : String)
  | quotedIdentifier (name : String)
  | number (value : Int64)
  | literal (value : Value)
  | comparator (op : Comparator)
  | dot
  | star
  | flatten
  | filter
  | lbracket
  | rbracket
  | lbrace
  | rbrace
  | lparen
  | rparen
  | comma
  | colon
  | current
  | expref
  | pipe
  | or
  | and
  | not
  | unknown (text : String)
  | eof

namespace Lexeme

def kind : Lexeme → TokenKind
  | .identifier _ => .identifier
  | .quotedIdentifier _ => .quotedIdentifier
  | .number _ => .number
  | .literal _ => .literal
  | .comparator _ => .comparator
  | .dot => .dot
  | .star => .star
  | .flatten => .flatten
  | .filter => .filter
  | .lbracket => .lbracket
  | .rbracket => .rbracket
  | .lbrace => .lbrace
  | .rbrace => .rbrace
  | .lparen => .lparen
  | .rparen => .rparen
  | .comma => .comma
  | .colon => .colon
  | .current => .current
  | .expref => .expref
  | .pipe => .pipe
  | .or => .or
  | .and => .and
  | .not => .not
  | .unknown _ => .unknown
  | .eof => .eof

def power (lexeme : Lexeme) : Nat :=
  lexeme.kind.power

/-- What a lexeme carries, as a value; null for punctuation. -/
def value : Lexeme → Value
  | .identifier name => .string name
  | .quotedIdentifier name => .string name
  | .number n => .int n
  | .literal v => v
  | .comparator op => .string op.symbol
  | .unknown text => .string text
  | _ => .null

/-- How messages speak of a lexeme: by its kind, and for names and unknown text also by these. -/
def describe (lexeme : Lexeme) : String :=
  match lexeme with
  | .identifier text | .quotedIdentifier text | .unknown text =>
      lexeme.kind.name ++ " `" ++ text ++ "`"
  | _ => lexeme.kind.name

end Lexeme

structure Token where
  lexeme : Lexeme
  /-- The number of characters of the text before the token. -/
  position : Nat

namespace Token

def kind (token : Token) : TokenKind :=
  token.lexeme.kind

end Token

end JsonQuery
