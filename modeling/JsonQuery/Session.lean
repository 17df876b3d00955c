import JsonQuery.Cache
import JsonQuery.Query.Search
import JsonQuery.Query.Simplify

/-!
# Sessions

A session reads expressions, simplifies them and evaluates them on values.  What it remembers from
one expression to the next is a table of expressions, if it is asked to keep one, which changes no
answer.
-/

set_option autoImplicit false

namespace JsonQuery

structure Options where
  /-- Keep a table of expressions. -/
  caching : Bool
  /-- Answer null where the arguments of a function are refused. -/
  lenient : Bool
  /-- The capacity of the table. -/
  capacity : Nat
  deriving DecidableEq, Repr

def Options.standard : Options :=
  ⟨true, false, Cache.defaultCapacity⟩

structure Compiled where
  text : String
  query : Query

def Compiled.search (compiled : Compiled) (v : Value) : Outcome Value :=
  compiled.query.search v

structure Session where
  parser : Parser
  /-- The table of expressions, if one is kept. -/
  cache : Option Cache

namespace Session

def start (options : Options) : Session :=
  let parser : Parser := ⟨options.lenient⟩
  ⟨parser, if options.caching then some (.empty parser options.capacity) else none⟩

def parse (session : Session) (text : String) : Except Error Query × Session :=
  match session.cache with
  | none => (session.parser.parse text, session)
  | some cache => ((cache.parse text).1, { session with cache := (cache.parse text).2 })

def compile (session : Session) (text : String) : Except Error Compiled × Session :=
  let (result, session) := session.parse text
  (result.map fun query => ⟨text, query.simplify⟩, session)

def search (session : Session) (text : String) (v : Value) : Outcome Value × Session :=
  match session.compile text with
  | (.ok compiled, session) => (compiled.search v, session)
  | (.error e, session) => (.failure e, session)

end Session

/-- Evaluates an expression on a value in a session of its own. -/
def searchWith (options : Options) (text : String) (v : Value) : Outcome Value :=
  ((Session.start options).search text v).1

def search (text : String) (v : Value) : Outcome Value :=
  searchWith .standard text v

end JsonQuery
