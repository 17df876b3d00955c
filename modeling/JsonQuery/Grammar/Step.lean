import JsonQuery.Grammar.State

/-!
# Reading one token

Each function reads a token in one mode.  A token is accepted with the state behind it, or it is
rejected with the reason; no other token is looked at.
-/

set_option autoImplicit false

namespace JsonQuery.Grammar

abbrev Step : Type :=
  Except Rejection State

def reject (complaint : Complaint) : Step :=
  .error (.complaint complaint)

def found (context : Context) (query : Query) : Step :=
  .ok ⟨.operator query, context⟩

def afterDot : List TokenKind :=
  [.identifier, .quotedIdentifier, .star, .lbrace, .lbracket, .filter]

def afterSubscript : List TokenKind :=
  [.number, .colon, .star]

def afterColon : List TokenKind :=
  [.number, .colon, .rbracket]

def afterNumber : List TokenKind :=
  [.colon, .rbracket]

def hashKeys : List TokenKind :=
  [.identifier, .quotedIdentifier]

/-! ## Operands -/

def stepOperand (context : Context) (lexeme : Lexeme) : Step :=
  match lexeme with
  | .current => found context .current
  | .literal v => found context (.literal v)
  | .identifier name => .ok ⟨.name name, context⟩
  | .quotedIdentifier name => .ok ⟨.quotedName name, context⟩
  | .expref => .ok ⟨.operand, context.push .reference⟩
  | .not => .ok ⟨.operand, context.push .negation⟩
  | .lparen => .ok ⟨.operand, context.enter .group⟩
  | .filter => .ok ⟨.operand, context.enter (.filter .current)⟩
  | .flatten => .ok ⟨.body (.flattened .current), context⟩
  | .star => .ok ⟨.body (.members .current), context⟩
  | .lbracket => .ok ⟨.bracket, context⟩
  | .lbrace => .ok ⟨.key [], context⟩
  | .unknown text => reject (.unknownText text)
  | .eof => reject .unexpectedEnd
  | _ => reject (.unexpected lexeme)

/-! ## Indexes and slices -/

/-- Closes the brackets around segments.  One segment is an index; two or three make a slice, which
is projected from. -/
def closeSegments (context : Context) (left : Option Query) (segments : Segments) : Step :=
  match segments.complete, segments.current with
  | [], some position =>
      match left with
      | none => found context (.index position)
      | some target => found context (.chain target (.index position))
  | [], none => reject .missingIndex
  | start :: more, last =>
      let bounds :=
        match more with
        | [] => Slice.ofBounds? start last none
        | stop :: _ => Slice.ofBounds? start stop last
      match bounds with
      | .ok s => .ok ⟨.body (.sliced left s), context⟩
      | .error _ => .error .zeroStep

def stepSegments (context : Context) (left : Option Query) (segments : Segments)
    (lexeme : Lexeme) : Step :=
  match lexeme, segments.current with
  | .rbracket, _ => closeSegments context left segments
  | .colon, current =>
      if segments.complete.length < 2 then
        .ok ⟨.segments left ⟨segments.complete ++ [current], none⟩, context⟩
      else reject .tooManyColons
  | .number n, none => .ok ⟨.segments left ⟨segments.complete, some n⟩, context⟩
  | _, none => reject (.expectedOneOf afterColon lexeme.kind)
  | _, some _ => reject (.expectedOneOf afterNumber lexeme.kind)

/-! ## Projections -/

/-- Reads the token behind a dot.  A list there is all of the right-hand side; a star behind the
dot of a member makes the left-hand side the target of its projection. -/
def stepDot (context : Context) (owner : Pending) (lexeme : Lexeme) : Step :=
  if lexeme.kind ∈ afterDot then
    match lexeme, owner with
    | .lbracket, _ => .ok ⟨.operand, context.enter (.list [] (some owner))⟩
    | .star, .member left => .ok ⟨.body (.members left), context⟩
    | _, _ => stepOperand (context.push owner) lexeme
  else reject (.expectedOneOf afterDot lexeme.kind)

/-! ## Operators -/

/-- Completes the waiting operators whose power is at least `power`. -/
def settle (power : Nat) : List Pending → Query → List Pending × Query
  | [], query => ([], query)
  | p :: ps, query =>
      if p.power < power then (p :: ps, query) else settle power ps (p.complete query)

def stepInfix (context : Context) (left : Query) (lexeme : Lexeme) : Step :=
  let join (op : Connective) : Step := .ok ⟨.operand, context.push (.connective op left)⟩
  match lexeme with
  | .pipe => join .pipe
  | .or => join .either
  | .and => join .both
  | .comparator op => join (.compare op)
  | .dot => .ok ⟨.dot (.member left), context⟩
  | .filter => .ok ⟨.operand, context.enter (.filter left)⟩
  | .flatten => .ok ⟨.body (.flattened left), context⟩
  | .lbracket => .ok ⟨.subscript left, context⟩
  | .lparen => reject .misplacedArguments
  | _ => reject (.unexpected lexeme)

def closeArguments (lenient : Bool) (context : Context) (function : String)
    (args : List Query) : Step :=
  match Builtin.ofName? function with
  | some _ => found context (.call function args lenient)
  | none => .error (.unknownFunction function)

def closeList (context : Context) (items : List Query) (owner : Option Pending) : Step :=
  match owner with
  | none => found context (.list items)
  | some pending => found context (pending.complete (.list items))

/-- Reads a token behind an expression that fills its bracket. -/
def stepBracket (lenient : Bool) (levels : List Level) (query : Query) (lexeme : Lexeme) : Step :=
  match levels with
  | [] =>
      match lexeme with
      | .eof => .ok ⟨.done query, .outermost⟩
      | _ => reject (.afterExpression lexeme)
  | ⟨bracket, pending⟩ :: outer =>
      let context : Context := ⟨pending, outer⟩
      match bracket, lexeme with
      | .group, .rparen => found context query
      | .group, _ => reject .unclosedGroup
      | .filter target, .rbracket => .ok ⟨.body (.filtered target query), context⟩
      | .filter _, _ => reject .unclosedFilter
      | .list items owner, .comma => .ok ⟨.item (items ++ [query]) owner, context⟩
      | .list items owner, .rbracket => closeList context (items ++ [query]) owner
      | .list _ _, _ => reject (.badListEnd lexeme)
      | .arguments function args, .comma => .ok ⟨.argument function (args ++ [query]), context⟩
      | .arguments function args, .rparen =>
          closeArguments lenient context function (args ++ [query])
      | .arguments function _, _ => reject (.badArgumentEnd function lexeme)
      | .hash entries key, .comma => .ok ⟨.key (entries ++ [(key, query)]), context⟩
      | .hash entries key, .rbrace => found context (.hash (entries ++ [(key, query)]))
      | .hash _ _, _ => reject (.badHashEnd lexeme)

def stepOperator (lenient : Bool) (context : Context) (query : Query) (lexeme : Lexeme) : Step :=
  let settled := settle lexeme.power context.pending query
  if lexeme.power = 0 then stepBracket lenient context.levels settled.2 lexeme
  else stepInfix ⟨settled.1, context.levels⟩ settled.2 lexeme

/-- Reads the token behind the head of a projection.  Tokens of low power leave the body empty; a
dot or a bracket starts it, and the projection waits for its end. -/
def stepBody (lenient : Bool) (context : Context) (source : Source) (lexeme : Lexeme) : Step :=
  if lexeme.power < TokenKind.projectionPower then
    stepOperator lenient context (source.project .current) lexeme
  else
    match lexeme with
    | .dot => .ok ⟨.dot (.projection source), context⟩
    | .lbracket | .filter => stepOperand (context.push (.projection source)) lexeme
    | _ => reject (.afterProjection lexeme)

/-! ## All modes -/

/-- Reads the token behind a bracket that opened where an expression starts: an index, a slice, the
head of a projection, or the first item of a list. -/
def stepOpened (context : Context) (lexeme : Lexeme) : Step :=
  match lexeme with
  | .number n => .ok ⟨.segments none ⟨[], some n⟩, context⟩
  | .colon => .ok ⟨.segments none ⟨[none], none⟩, context⟩
  | .star => .ok ⟨.bracketStar, context⟩
  | _ => stepOperand (context.enter (.list [] none)) lexeme

def stepSubscript (context : Context) (left : Query) (lexeme : Lexeme) : Step :=
  match lexeme with
  | .number n => .ok ⟨.segments (some left) ⟨[], some n⟩, context⟩
  | .colon => .ok ⟨.segments (some left) ⟨[none], none⟩, context⟩
  | .star => .ok ⟨.subscriptStar left, context⟩
  | _ => reject (.expectedOneOf afterSubscript lexeme.kind)

/-- Reads one token.  Calls are marked lenient or not as given. -/
def State.step (lenient : Bool) (state : State) (lexeme : Lexeme) : Step :=
  let context := state.context
  match state.mode with
  | .operand => stepOperand context lexeme
  | .operator query => stepOperator lenient context query lexeme
  | .name name =>
      match lexeme with
      | .lparen => .ok ⟨.argument name [], context⟩
      | _ => stepOperator lenient context (.field name) lexeme
  | .quotedName name =>
      match lexeme with
      | .lparen => reject .quotedFunction
      | _ => stepOperator lenient context (.field name) lexeme
  | .dot owner => stepDot context owner lexeme
  | .body source => stepBody lenient context source lexeme
  | .bracket => stepOpened context lexeme
  | .bracketStar =>
      match lexeme with
      | .rbracket => .ok ⟨.body (.items .current), context⟩
      | _ => stepBody lenient (context.enter (.list [] none)) (.members .current) lexeme
  | .subscript left => stepSubscript context left lexeme
  | .subscriptStar left =>
      match lexeme with
      | .rbracket => .ok ⟨.body (.items left), context⟩
      | _ => reject (.expectedOneOf [.rbracket] lexeme.kind)
  | .segments left segments => stepSegments context left segments lexeme
  | .argument function args =>
      match lexeme with
      | .rparen => closeArguments lenient context function args
      | _ => stepOperand (context.enter (.arguments function args)) lexeme
  | .item items owner =>
      match lexeme with
      | .rbracket => reject .missingItem
      | _ => stepOperand (context.enter (.list items owner)) lexeme
  | .key entries =>
      match lexeme with
      | .identifier name | .quotedIdentifier name => .ok ⟨.colon entries name, context⟩
      | _ => reject (.expectedOneOf hashKeys lexeme.kind)
  | .colon entries key =>
      match lexeme with
      | .colon => .ok ⟨.operand, context.enter (.hash entries key)⟩
      | _ => reject (.expectedOneOf [.colon] lexeme.kind)
  | .done _ => reject (.afterExpression lexeme)

end JsonQuery.Grammar
