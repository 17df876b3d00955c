/-!
# Kinds of tokens

The kinds of tokens, their names, and the power with which a token binds to the expression before
it.  Tokens that cannot continue an expression bind with power zero.
-/

set_option autoImplicit false

namespace JsonQuery

inductive TokenKind where
  | identifier
  | quotedIdentifier
  | number
  | literal
  | comparator
  | dot
  | star
  | flatten
  | filter
  | lbracket
  | rbracket
  | lbrace
  | rbrace
  | lparen
  | rparen
  | comma
  | colon
  | current
  | expref
  | pipe
  | or
  | and
  | not
  | unknown
  | eof
  deriving DecidableEq, Repr

namespace TokenKind

def all : List TokenKind :=
  [.identifier, .quotedIdentifier, .number, .literal, .comparator, .dot, .star, .flatten, .filter,
    .lbracket, .rbracket, .lbrace, .rbrace, .lparen, .rparen, .comma, .colon, .current, .expref,
    .pipe, .or, .and, .not, .unknown, .eof]

def name : TokenKind → String
  | .identifier => "identifier"
  | .quotedIdentifier => "quoted_identifier"
  | .number => "number"
  | .literal => "literal"
  | .comparator => "comparator"
  | .dot => "dot"
  | .star => "star"
  | .flatten => "flatten"
  | .filter => "filter"
  | .lbracket => "lbracket"
  | .rbracket => "rbracket"
  | .lbrace => "lbrace"
  | .rbrace => "rbrace"
  | .lparen => "lparen"
  | .rparen => "rparen"
  | .comma => "comma"
  | .colon => "colon"
  | .current => "current"
  | .expref => "expref"
  | .pipe => "pipe"
  | .or => "or"
  | .and => "and"
  | .not => "not"
  | .unknown => "unknown"
  | .eof => "eof"

def ofName? (name : String) : Option TokenKind :=
  all.find? fun kind => kind.name == name

/-- How strongly a token of this kind binds to the expression before it. -/
def power : TokenKind → Nat
  | .pipe => 1
  | .or => 2
  | .and => 3
  | .comparator => 5
  | .flatten => 9
  | .star => 20
  | .filter => 21
  | .dot => 40
  | .not => 45
  | .lbrace => 50
  | .lbracket => 55
  | .lparen => 60
  | .identifier | .quotedIdentifier | .number | .literal | .rbracket | .rbrace | .rparen
  | .comma | .colon | .current | .expref | .unknown | .eof => 0

/-- The body of a projection goes on only with tokens of at least this power. -/
def projectionPower : Nat :=
  10

end TokenKind

end JsonQuery
