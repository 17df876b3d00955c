import JsonQuery.Grammar.Parse

/-!
# A table of expressions already read

The table remembers the queries of expressions by their text.  When it has grown past its capacity
it is emptied before the next insertion, so it never holds more than one entry beyond that.
Expressions that cannot be read are never stored.
-/

set_option autoImplicit false

namespace JsonQuery

structure Cache where
  parser : Parser
  capacity : Nat
  table : Entries Query

namespace Cache

def defaultCapacity : Nat :=
  1000

def empty (parser : Parser) (capacity : Nat) : Cache :=
  ⟨parser, capacity, []⟩

def size (cache : Cache) : Nat :=
  cache.table.length

def isEmpty (cache : Cache) : Bool :=
  cache.table.isEmpty

def clear (cache : Cache) : Cache :=
  { cache with table := [] }

def get? (cache : Cache) (text : String) : Option Query :=
  Entries.get? text cache.table

def insert (cache : Cache) (text : String) (query : Query) : Cache :=
  let kept := if cache.capacity < cache.size then [] else cache.table
  { cache with table := Entries.insert text query kept }

/-- The query for a text, from the table or else by reading the text, and the table afterwards. -/
def parseWith (cache : Cache) (read : String → Except Error Query) (text : String) :
    Except Error Query × Cache :=
  match cache.get? text with
  | some query => (.ok query, cache)
  | none =>
      match read text with
      | .ok query => (.ok query, cache.insert text query)
      | .error e => (.error e, cache)

def parse (cache : Cache) (text : String) : Except Error Query × Cache :=
  cache.parseWith cache.parser.parse text

end Cache

end JsonQuery
