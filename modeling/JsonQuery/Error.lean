import JsonQuery.Builtin.Basic
import JsonQuery.Token.Basic

/-!
# Errors

Why an expression is not read, and why a query that was read is not answered.  An error holds its
causes; the wording of all of them is in the functions named `message`.
-/

set_option autoImplicit false

namespace JsonQuery

inductive Complaint where
  /-- An expression has to start, but the text ends. -/
  | unexpectedEnd
  /-- An expression has to start, but the text cannot be read. -/
  | unknownText (text : String)
  /-- The token cannot stand here. -/
  | unexpected (found : Lexeme)
  /-- The expression is complete, but the text goes on. -/
  | afterExpression (found : Lexeme)
  /-- The token cannot follow a projection. -/
  | afterProjection (found : Lexeme)
  | unclosedGroup
  | unclosedFilter
  /-- Only plain identifiers name functions. -/
  | quotedFunction
  /-- Arguments follow something that is no name. -/
  | misplacedArguments
  | expectedOneOf (kinds : List TokenKind) (found : TokenKind)
  | badArgumentEnd (function : String) (found : Lexeme)
  | badListEnd (found : Lexeme)
  | badHashEnd (found : Lexeme)
  /-- A list ends behind a comma. -/
  | missingItem
  | tooManyColons
  /-- Brackets hold neither an index nor a slice. -/
  | missingIndex
  /-- A complaint in the words of whoever makes it. -/
  | custom (text : String)

def TokenKind.nameList (kinds : List TokenKind) : String :=
  ", ".intercalate (kinds.map TokenKind.name)

def Complaint.message : Complaint → String
  | .unexpectedEnd => "unexpected end of expression"
  | .unknownText text => "unknown token `" ++ text ++ "`"
  | .unexpected found => "unexpected " ++ found.describe
  | .afterExpression found => "unexpected " ++ found.describe ++ " after a complete expression"
  | .afterProjection found => "unexpected " ++ found.describe ++ " after projection"
  | .unclosedGroup => "unclosed `(`"
  | .unclosedFilter => "expected `]` to close the filter expression"
  | .quotedFunction => "quoted identifiers are not allowed for function names"
  | .misplacedArguments => "invalid function invocation"
  | .expectedOneOf kinds found =>
      "expected one of [" ++ TokenKind.nameList kinds ++ "], got " ++ found.name
  | .badArgumentEnd function found =>
      "expected `,` or `)` in arguments to " ++ function ++ "(), got " ++ found.describe
  | .badListEnd found => "expected `,` or `]`, got " ++ found.describe
  | .badHashEnd found => "expected `,` or `\x7d`, got " ++ found.describe
  | .missingItem => "expected an expression, found `]`"
  | .tooManyColons => "invalid slice syntax: too many colons"
  | .missingIndex => "expected an array index"
  | .custom text => text

inductive TypeFault where
  /-- An argument is of a kind that its place does not accept; places count from one. -/
  | argument (function : String) (place : Nat) (accepted : List ArgType) (found : Value.Kind)
  /-- A value is not of the kind that an operation works on. -/
  | operand (expected : String) (found : Value.Kind)
  /-- A reference has no text. -/
  | referenceText (function : String)
  /-- The keys by which items are ordered are neither all numbers nor all strings. -/
  | mixedKeys (function : String)

def TypeFault.message : TypeFault → String
  | .argument function place accepted found =>
      "function " ++ function ++ "() expects argument " ++ toString place ++ " to be " ++
        ArgType.describe accepted ++ ", got " ++ found.name
  | .operand expected found => "expected " ++ expected ++ ", got " ++ found.name
  | .referenceText function => "function " ++ function ++ "() cannot encode an expression"
  | .mixedKeys function =>
      "function " ++ function ++
        "() expects the expression to return only numbers or only strings"

inductive Error where
  /-- The text is not an expression. -/
  | malformed (complaint : Complaint) (text : String) (position : Nat)
  /-- A function is called with the wrong number of arguments. -/
  | arity (function : String) (expected : Arity) (found : Nat)
  /-- A function is called on values that it does not accept. -/
  | mistyped (fault : TypeFault)
  /-- A slice has a step of zero. -/
  | zeroStep
  | unknownFunction (name : String)

namespace Error

def message : Error → String
  | .malformed complaint text position =>
      "syntax error at position " ++ toString position ++ " in `" ++ text ++ "`: " ++
        complaint.message
  | .arity function expected found =>
      "invalid arity: function " ++ function ++ "() expects " ++ expected.describe ++ ", got " ++
        toString found
  | .mistyped fault => "invalid type: " ++ fault.message
  | .zeroStep => "invalid value: slice step cannot be 0"
  | .unknownFunction name => "unknown function: " ++ name ++ "()"

/-- The errors that a lenient call turns into null. -/
def isForgivable : Error → Bool
  | .arity _ _ _ | .mistyped _ => true
  | .malformed _ _ _ | .zeroStep | .unknownFunction _ => false

end Error

def Slice.ofBounds? (start stop step : Option Int64) : Except Error Slice :=
  let s : Slice := ⟨start, stop, step⟩
  if s.Allowed then .ok s else .error .zeroStep

end JsonQuery
