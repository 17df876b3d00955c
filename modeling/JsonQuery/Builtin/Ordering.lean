import JsonQuery.Builtin.Numeric
import JsonQuery.Query.Outcome
import JsonQuery.Sorting.Stable

/-!
# Functions that order

Sorting and extremes, of values themselves or by the keys that a reference gives them.  Sorting is
stable, but it is aborted where it finds that the order of the keys contradicts itself.  Of several
extreme items the earliest is taken.
-/

set_option autoImplicit false

namespace JsonQuery.Functions

/-! ## Orders on keyed items -/

structure Keyed where
  key : Value
  item : Value

/-- How many of `length` items of some size in bytes there is room for while they are sorted. -/
def sortingRoom (size length : Nat) : Nat :=
  max (length - length / 2) (8000000 / size)

def sortKeyed (size : Nat) (items : List Keyed) : Option (List Keyed) :=
  Sorting.stableSort (fun x y => x.key.isBefore y.key) (sortingRoom size items.length) items

def sorted (size : Nat) (items : List Keyed) : Outcome Value :=
  match sortKeyed size items with
  | some sorted => .answer (.array (sorted.map Keyed.item))
  | none => .aborted

theorem sorted_ne_unsettled (size : Nat) (items : List Keyed) : sorted size items ≠ .unsettled := by
  unfold sorted
  split <;> nofun

def valueSize : Nat :=
  72

/-- The size in bytes of a value that stands beside a reference to an item. -/
def keySize : Nat :=
  80

/-- The earliest item that no later one exceeds in the wanted direction. -/
def extremeKeyed (wanted : Ordering) (best : Keyed) : List Keyed → Keyed
  | [] => best
  | next :: rest =>
      extremeKeyed wanted (if next.key.compare? best.key == some wanted then next else best) rest

def extreme (wanted : Ordering) : List Keyed → Value
  | [] => .null
  | first :: rest => (extremeKeyed wanted first rest).item

def selfKeyed (items : List Value) : List Keyed :=
  items.map fun v => ⟨v, v⟩

/-! ## Keys from references -/

/-- Applies a reference to every item.  The keys have to be all numbers or all strings. -/
def keyed (apply : Query → Value → Outcome Value) (function : String) (key : Query)
    (items : List Value) : Outcome (List Keyed) := do
  let keys ← Outcome.traverse (apply key) items
  if keys.all Value.isNumber || keys.all Value.isString then
    return (keys.zip items).map fun (k, v) => ⟨k, v⟩
  else .failure (.mistyped (.mixedKeys function))

end JsonQuery.Functions
