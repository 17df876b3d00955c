import JsonQuery.Token.Cursor

/-!
# States of reading an expression

An expression is read one token at a time.  What has been read so far is a state: what the next
token is read as, the operators that wait for their right-hand side inside the innermost open
bracket, and for each open bracket the same of what surrounds it.  An operator whose power is at
least that of the next token has its right-hand side complete; this alone decides how operators
nest.
-/

set_option autoImplicit false

namespace JsonQuery.Grammar

inductive Connective where
  | pipe
  | either
  | both
  | compare (op : Comparator)

namespace Connective

def power : Connective → Nat
  | .pipe => TokenKind.pipe.power
  | .either => TokenKind.or.power
  | .both => TokenKind.and.power
  | .compare _ => TokenKind.comparator.power

def join : Connective → Query → Query → Query
  | .pipe, left, right => .pipe left right
  | .either, left, right => .either left right
  | .both, left, right => .both left right
  | .compare op, left, right => .compare op left right

end Connective

inductive Source where
  /-- All items of an array. -/
  | items (target : Query)
  /-- All members of an object. -/
  | members (target : Query)
  /-- The items of an array after opening the arrays among them. -/
  | flattened (target : Query)
  /-- The items that pass a test. -/
  | filtered (target test : Query)
  /-- The items that a slice selects, of the answer of a query before it if there is one. -/
  | sliced (target : Option Query) (slice : Slice)

namespace Source

def power : Source → Nat
  | .items _ | .members _ | .sliced _ _ => TokenKind.star.power
  | .flattened _ => TokenKind.flatten.power
  | .filtered _ _ => TokenKind.filter.power

def project : Source → Query → Query
  | .items target, body => .eachItem target body
  | .members target, body => .eachMember target body
  | .flattened target, body => .eachItem (.flatten target) body
  | .filtered target test, body => .eachItem target (.guard test body)
  | .sliced none s, body => .eachItem (.slice s) body
  | .sliced (some target) s, body => .chain target (.eachItem (.slice s) body)

end Source

/-- An operator that waits for the expression to its right. -/
inductive Pending where
  | reference
  | negation
  | connective (op : Connective) (left : Query)
  | member (left : Query)
  | projection (source : Source)

namespace Pending

/-- A token of higher power extends the right-hand side. -/
def power : Pending → Nat
  | .reference => TokenKind.expref.power
  | .negation => TokenKind.not.power
  | .connective op _ => op.power
  | .member _ => TokenKind.dot.power
  | .projection source => source.power

/-- The expression that an operator makes with its right-hand side.  References get no tag: the
literals of an expression hold no undefined numbers, so trees alone tell references apart. -/
def complete : Pending → Query → Query
  | .reference, right => .reference none right
  | .negation, right => .negate right
  | .connective op left, right => op.join left right
  | .member left, right => .chain left right
  | .projection source, right => source.project right

end Pending

inductive Bracket where
  | group
  /-- The test of a filter. -/
  | filter (target : Query)
  /-- A list with the items before the current one.  A list behind a dot is all of the right-hand
  side of the operator there. -/
  | list (items : List Query) (owner : Option Pending)
  /-- The arguments of a function before the current one. -/
  | arguments (function : String) (args : List Query)
  /-- The members of a hash before the current one, and its key. -/
  | hash (entries : List (String × Query)) (key : String)

/-- An open bracket, and the operators that wait outside it. -/
structure Level where
  bracket : Bracket
  pending : List Pending

/-- What surrounds the place where the next token stands. -/
structure Context where
  /-- The waiting operators inside the innermost bracket, innermost first. -/
  pending : List Pending
  /-- The open brackets, innermost first. -/
  levels : List Level

namespace Context

def outermost : Context :=
  ⟨[], []⟩

def push (context : Context) (pending : Pending) : Context :=
  ⟨pending :: context.pending, context.levels⟩

def enter (context : Context) (bracket : Bracket) : Context :=
  ⟨[], ⟨bracket, context.pending⟩ :: context.levels⟩

end Context

/-- The segments of an index or slice between its colons: those that are complete, and the one
being read. -/
structure Segments where
  complete : List (Option Int64)
  current : Option Int64
  deriving DecidableEq

inductive Mode where
  /-- An expression starts. -/
  | operand
  /-- An expression has been read; an operator may follow it. -/
  | operator (left : Query)
  /-- An identifier has been read, which names a function if arguments follow. -/
  | name (name : String)
  /-- A quoted identifier has been read, which names no function. -/
  | quotedName (name : String)
  /-- A dot has been read. -/
  | dot (owner : Pending)
  /-- The body of a projection may start. -/
  | body (source : Source)
  /-- An opening bracket has been read where an expression starts. -/
  | bracket
  /-- An opening bracket and a star have been read where an expression starts. -/
  | bracketStar
  /-- An opening bracket has been read behind an expression. -/
  | subscript (left : Query)
  /-- An opening bracket and a star have been read behind an expression. -/
  | subscriptStar (left : Query)
  /-- The inside of an index or slice is being read. -/
  | segments (left : Option Query) (segments : Segments)
  /-- An argument starts, or the arguments end. -/
  | argument (function : String) (args : List Query)
  /-- An item of a list starts behind a comma. -/
  | item (items : List Query) (owner : Option Pending)
  /-- The key of a member of a hash follows. -/
  | key (entries : List (String × Query))
  /-- The colon behind a key follows. -/
  | colon (entries : List (String × Query)) (key : String)
  /-- The text has ended behind a complete expression. -/
  | done (query : Query)

structure State where
  mode : Mode
  context : Context

def State.start : State :=
  ⟨.operand, .outermost⟩

/-- Why a token is not accepted.  Only complaints say where it stands. -/
inductive Rejection where
  | complaint (complaint : Complaint)
  | unknownFunction (name : String)
  | zeroStep

def Rejection.toError (cursor : Cursor) : Rejection → Error
  | .complaint c => cursor.error c
  | .unknownFunction name => .unknownFunction name
  | .zeroStep => .zeroStep

end JsonQuery.Grammar
