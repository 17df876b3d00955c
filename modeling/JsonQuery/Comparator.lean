/-!
# Comparators

The six comparison operators and their symbols.
-/

set_option autoImplicit false

namespace JsonQuery

inductive Comparator where
  | eq
  | ne
  | lt
  | le
  | gt
  | ge
  deriving DecidableEq, Repr

namespace Comparator

def symbol : Comparator → String
  | .eq => "=="
  | .ne => "!="
  | .lt => "<"
  | .le => "<="
  | .gt => ">"
  | .ge => ">="

def ofSymbol? (s : String) : Option Comparator :=
  if s = "==" then some .eq
  else if s = "!=" then some .ne
  else if s = "<" then some .lt
  else if s = "<=" then some .le
  else if s = ">" then some .gt
  else if s = ">=" then some .ge
  else none

/-- The comparators that order their operands; they apply to numbers only. -/
def isOrdering : Comparator → Bool
  | .eq | .ne => false
  | .lt | .le | .gt | .ge => true

def accepts : Comparator → Ordering → Bool
  | .eq, o => o.isEq
  | .ne, o => !o.isEq
  | .lt, o => o.isLT
  | .le, o => o.isLE
  | .gt, o => o.isGT
  | .ge, o => o.isGE

end Comparator

end JsonQuery
