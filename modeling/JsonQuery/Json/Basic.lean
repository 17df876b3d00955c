import JsonQuery.Entries

/-!
# JSON documents

A document keeps whole numbers of sixty-four bits apart from all others, which are binary64
numbers, and keeps the members of an object in order.
-/

set_option autoImplicit false

namespace JsonQuery

inductive Json where
  | null
  | bool (b : Bool)
  | int (n : Int64)
  | float (x : Float)
  | string (s : String)
  | array (items : List Json)
  | object (entries : List (String × Json))
  deriving Inhabited

end JsonQuery
