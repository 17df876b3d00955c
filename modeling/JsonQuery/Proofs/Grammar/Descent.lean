import JsonQuery.Grammar.Parse
import JsonQuery.Query.Outcome

/-!
# Reading by recursive descent

An expression is read by procedures that call each other with a cursor on the tokens.  The cursor
stays on the last token, so nothing but the procedures themselves keeps them from calling each other
forever.  They do not: a procedure that succeeds leaves the cursor further on, and a call of another
one at the same place goes down a fixed order.
-/

set_option autoImplicit false

namespace JsonQuery

/-- The text that messages and keys take from a lexeme. -/
def Lexeme.text (lexeme : Lexeme) : String :=
  match lexeme.value with
  | .string text => text
  | .null => lexeme.kind.name
  | v => v.encode

namespace Descent

open Grammar

/-! ## The procedures -/

/-- A loop, with what it has collected. -/
inductive Loop where
  | arguments (function : String) (args : List Query)
  /-- The three bounds of a slice, and the colons before the current one. -/
  | segments (bounds : List (Option Int64)) (colons : Nat)
  | items (items : List Query)
  | members (entries : List (String × Query))

inductive Call where
  /-- An expression that ends before a token of at most the given power. -/
  | expression (power : Nat)
  | operand
  /-- The operators of more than the given power behind an expression. -/
  | operators (power : Nat) (left : Query)
  /-- One operator with its right-hand side. -/
  | operator (left : Query)
  /-- The body of a projection. -/
  | projection (power : Nat)
  | loop (loop : Loop)

/-- A query that has been read, and where reading goes on. -/
abbrev Found : Type :=
  Query × Cursor

/-- How a turn of a loop ends. -/
inductive Turn where
  | again (loop : Loop) (cursor : Cursor)
  | leave (query : Query) (cursor : Cursor)

def fail {α : Type} (cursor : Cursor) (complaint : Complaint) : Outcome α :=
  .failure (cursor.error complaint)

/-- Moves to the next token, which has to be of one of the kinds. -/
def advanceTo (kinds : List TokenKind) (cursor : Cursor) : Outcome Cursor :=
  match cursor.advance.expect kinds with
  | .ok _ => .answer cursor.advance
  | .error e => .failure e

/-- A quoted name, which names no function. -/
def quotedNamed (name : String) (cursor : Cursor) : Outcome Found :=
  if cursor.advance.kind = .lparen then fail cursor.advance .quotedFunction
  else return (.field name, cursor.advance)

section Procedures

variable (lenient : Bool) (recur : Call → Cursor → Outcome Found)

/-- A filter, with the cursor on its bracket. -/
def filter (left : Query) (cursor : Cursor) : Outcome Found := do
  let (test, cursor) ← recur (.expression 0) cursor.advance
  if cursor.kind = .rbracket then
    let (body, cursor) ← recur (.projection TokenKind.filter.power) cursor.advance
    return (.eachItem left (.guard test body), cursor)
  else fail cursor .unclosedFilter

def flatten (left : Query) (cursor : Cursor) : Outcome Found := do
  let (body, cursor) ← recur (.projection TokenKind.flatten.power) cursor.advance
  return (.eachItem (.flatten left) body, cursor)

/-- The projection of all items, with the cursor on its star. -/
def allItems (left : Query) (cursor : Cursor) : Outcome Found := do
  let cursor ← advanceTo [.rbracket] cursor
  let (body, cursor) ← recur (.projection TokenKind.star.power) cursor.advance
  return (.eachItem left body, cursor)

def allMembers (left : Query) (cursor : Cursor) : Outcome Found := do
  let (body, cursor) ← recur (.projection TokenKind.star.power) cursor.advance
  return (.eachMember left body, cursor)

/-- What stands behind a dot: a list, or an expression. -/
def behindDot (power : Nat) (cursor : Cursor) : Outcome Found :=
  if cursor.kind = .lbracket then recur (.loop (.items [])) cursor.advance
  else recur (.expression power) cursor

/-- What stands behind a bracket that opens where an expression starts. -/
def behindBracket (cursor : Cursor) : Outcome Found :=
  match cursor.kind with
  | .number | .colon => recur (.loop (.segments [none, none, none] 0)) cursor
  | .star =>
      if (cursor.lookahead 1).kind = .rbracket then allItems recur .current cursor
      else recur (.loop (.items [])) cursor
  | _ => recur (.loop (.items [])) cursor

/-- An expression in parentheses, with the cursor on the opening one. -/
def group (cursor : Cursor) : Outcome Found := do
  let (query, cursor) ← recur (.expression 0) cursor.advance
  if cursor.kind = .rparen then return (query, cursor.advance)
  else fail cursor .unclosedGroup

/-- A name, or a call of the function of this name. -/
def named (name : String) (cursor : Cursor) : Outcome Found :=
  if cursor.advance.kind = .lparen then
    recur (.loop (.arguments name [])) cursor.advance.advance
  else return (.field name, cursor.advance)

def operand (cursor : Cursor) : Outcome Found :=
  match cursor.token.lexeme with
  | .current => return (.current, cursor.advance)
  | .expref => do
      let (child, cursor) ← recur (.expression TokenKind.expref.power) cursor.advance
      return (.reference none child, cursor)
  | .not => do
      let (child, cursor) ← recur (.expression TokenKind.not.power) cursor.advance
      return (.negate child, cursor)
  | .lparen => group recur cursor
  | .filter => filter recur .current cursor
  | .flatten => flatten recur .current cursor
  | .identifier name => named recur name cursor
  | .quotedIdentifier name => quotedNamed name cursor
  | .literal v => return (.literal v, cursor.advance)
  | .lbrace => do
      let cursor ← advanceTo hashKeys cursor
      recur (.loop (.members [])) cursor
  | .lbracket => behindBracket recur cursor.advance
  | .star => allMembers recur .current cursor
  | .unknown text => fail cursor (.unknownText text)
  | .eof => fail cursor .unexpectedEnd
  | lexeme => fail cursor (.unexpected lexeme)

/-- An operator between two expressions, with the cursor on it. -/
def connective (op : Connective) (left : Query) (cursor : Cursor) : Outcome Found := do
  let (right, cursor) ← recur (.expression op.power) cursor.advance
  return (op.join left right, cursor)

/-- What is taken from the members of an expression, with the cursor on the dot. -/
def member (left : Query) (cursor : Cursor) : Outcome Found := do
  let cursor ← advanceTo afterDot cursor
  if cursor.kind = .star then allMembers recur left cursor
  else
    let (right, cursor) ← behindDot recur TokenKind.dot.power cursor
    return (.chain left right, cursor)

/-- What is taken from the items of an expression, with the cursor on the bracket. -/
def subscript (left : Query) (cursor : Cursor) : Outcome Found := do
  let cursor ← advanceTo afterSubscript cursor
  if cursor.kind = .star then allItems recur left cursor
  else
    let (right, cursor) ← recur (.loop (.segments [none, none, none] 0)) cursor
    return (.chain left right, cursor)

def operator (left : Query) (cursor : Cursor) : Outcome Found :=
  match cursor.token.lexeme with
  | .comparator op => connective recur (.compare op) left cursor
  | .dot => member recur left cursor
  | .filter => filter recur left cursor
  | .flatten => flatten recur left cursor
  | .lbracket => subscript recur left cursor
  | .lparen => fail cursor .misplacedArguments
  | .or => connective recur .either left cursor
  | .and => connective recur .both left cursor
  | .pipe => connective recur .pipe left cursor
  | lexeme => fail cursor (.unexpected lexeme)

def projection (power : Nat) (cursor : Cursor) : Outcome Found :=
  if cursor.token.lexeme.power < TokenKind.projectionPower then return (.current, cursor)
  else
    match cursor.token.lexeme with
    | .dot => do
        let cursor ← advanceTo afterDot cursor
        behindDot recur power cursor
    | .lbracket | .filter => recur (.expression power) cursor
    | lexeme => fail cursor (.afterProjection lexeme)

/-! ### Loops -/

/-- One argument, or the end of the arguments. -/
def argumentsTurn (function : String) (args : List Query) (cursor : Cursor) : Outcome Turn :=
  if cursor.kind = .rparen then
    match Builtin.ofName? function with
    | some _ => return .leave (.call function args lenient) cursor.advance
    | none => .failure (.unknownFunction function)
  else do
    let (arg, cursor) ← recur (.expression 0) cursor
    match cursor.token.lexeme with
    | .comma => return .again (.arguments function (args ++ [arg])) cursor.advance
    | .rparen => return .again (.arguments function (args ++ [arg])) cursor
    | lexeme => fail cursor (.badArgumentEnd function lexeme)

/-- The end of an index or slice, with the cursor behind its bracket. -/
def closeSegments (bounds : List (Option Int64)) (colons : Nat) (cursor : Cursor) : Outcome Turn :=
  if colons = 0 then
    match bounds.getD 0 none with
    | some position => return .leave (.index position) cursor
    | none => fail cursor .missingIndex
  else
    match Slice.ofBounds? (bounds.getD 0 none) (bounds.getD 1 none) (bounds.getD 2 none) with
    | .ok s => do
        let (body, cursor) ← recur (.projection TokenKind.star.power) cursor
        return .leave (.eachItem (.slice s) body) cursor
    | .error e => .failure e

/-- Moves on behind a colon or number inside brackets. -/
def segmentsNext (bounds : List (Option Int64)) (colons : Nat) (expected : List TokenKind)
    (cursor : Cursor) : Outcome Turn := do
  let cursor ← advanceTo expected cursor
  if cursor.kind = .rbracket then closeSegments recur bounds colons cursor.advance
  else return .again (.segments bounds colons) cursor

def segmentsTurn (bounds : List (Option Int64)) (colons : Nat) (cursor : Cursor) : Outcome Turn :=
  match cursor.token.lexeme with
  | .colon =>
      if 2 < colons + 1 then fail cursor .tooManyColons
      else segmentsNext recur bounds (colons + 1) afterColon cursor
  | .number n => segmentsNext recur (bounds.set colons (some n)) colons afterNumber cursor
  | _ => segmentsNext recur bounds colons afterColon cursor

def itemsTurn (items : List Query) (cursor : Cursor) : Outcome Turn := do
  let (item, cursor) ← recur (.expression 0) cursor
  match cursor.token.lexeme with
  | .comma =>
      if cursor.advance.kind = .rbracket then fail cursor.advance .missingItem
      else return .again (.items (items ++ [item])) cursor.advance
  | .rbracket => return .leave (.list (items ++ [item])) cursor.advance
  | lexeme => fail cursor (.badListEnd lexeme)

/-- One member, with the cursor on its key. -/
def membersTurn (entries : List (String × Query)) (cursor : Cursor) : Outcome Turn := do
  let key := cursor.token.lexeme.text
  let cursor ← advanceTo [.colon] cursor
  let (v, cursor) ← recur (.expression 0) cursor.advance
  match cursor.token.lexeme with
  | .comma => do
      let cursor ← advanceTo hashKeys cursor
      return .again (.members (entries ++ [(key, v)])) cursor
  | .rbrace => return .leave (.hash (entries ++ [(key, v)])) cursor.advance
  | lexeme => fail cursor (.badHashEnd lexeme)

def turn : Loop → Cursor → Outcome Turn
  | .arguments function args => argumentsTurn lenient recur function args
  | .segments bounds colons => segmentsTurn recur bounds colons
  | .items items => itemsTurn recur items
  | .members entries => membersTurn recur entries

/-- The next turn, unless the loop has been left. -/
def Turn.resume : Turn → Outcome Found
  | .again loop cursor => recur (.loop loop) cursor
  | .leave query cursor => return (query, cursor)

/-- One call, with the calls that it makes left to `recur`. -/
def perform : Call → Cursor → Outcome Found
  | .expression power, cursor => do
      let (left, cursor) ← recur .operand cursor
      recur (.operators power left) cursor
  | .operand, cursor => operand recur cursor
  | .operators power left, cursor =>
      if power < cursor.token.lexeme.power then do
        let (left, cursor) ← recur (.operator left) cursor
        recur (.operators power left) cursor
      else return (left, cursor)
  | .operator left, cursor => operator recur left cursor
  | .projection power, cursor => projection recur power cursor
  | .loop loop, cursor => do
      let turned ← turn lenient recur loop cursor
      turned.resume recur

end Procedures

/-- Calls within calls, down to a depth at which reading is cut off. -/
def descend (lenient : Bool) : Nat → Call → Cursor → Outcome Found
  | 0, _, _ => .unsettled
  | depth + 1, call, cursor => perform lenient (descend lenient depth) call cursor

end Descent

end JsonQuery
