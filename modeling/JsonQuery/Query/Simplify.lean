import JsonQuery.Value.Basic

/-!
# Simplification

Brings a query into fused forms, from the leaves upwards: chains of members become paths,
projections without a body only drop nulls, guards on comparisons compare directly, and plain
slices between positive bounds become ranges.  Literals are left as they are.
-/

set_option autoImplicit false

namespace JsonQuery

namespace Query

def keys? : Query → Option (List String)
  | .field name => some [name]
  | .path keys => some keys
  | _ => none

/-- Chains two simplified queries.  Keys on both sides become one path, also when those on the left
end a chain themselves. -/
def fuseChain (left right : Query) : Query :=
  match left.keys?, right.keys? with
  | some outer, some inner => .path (outer ++ inner)
  | none, some inner =>
      match left with
      | .chain first last =>
          match last.keys? with
          | some outer => .chain first (.path (outer ++ inner))
          | none => .chain left right
      | _ => .chain left right
  | _, none => .chain left right

/-- Guards a body by a comparison.  Equality with a literal keeps the literal at hand. -/
def fuseCompare (op : Comparator) (left right body : Query) : Query :=
  match op, right with
  | .eq, .literal v => .guardLiteral false left v body
  | .ne, .literal v => .guardLiteral true left v body
  | _, _ => .guardCompare op left right body

def fuseGuard (test body : Query) : Query :=
  match test with
  | .compare op left right => fuseCompare op left right body
  | _ => .guard test body

def fuseItems (target body : Query) : Query :=
  match body with
  | .current => .presentItems target
  | _ => .eachItem target body

def fuseMembers (target body : Query) : Query :=
  match body with
  | .current => .presentMembers target
  | _ => .eachMember target body

/-- A slice as a range, when its bounds are positive, in order, and its step is one. -/
def fuseSlice (s : Slice) : Query :=
  match s.start, s.stop with
  | some start, some stop =>
      if (s.step = none ∨ s.step = some 1) ∧ 0 < start.toInt ∧ start.toInt < stop.toInt then
        .range start.toInt.toNat stop.toInt.toNat
      else .slice s
  | _, _ => .slice s

mutual

def simplify : Query → Query
  | .current => .current
  | .field name => .field name
  | .index position => .index position
  | .chain left right => fuseChain (simplify left) (simplify right)
  | .pipe left right => .pipe (simplify left) (simplify right)
  | .flatten child => .flatten (simplify child)
  | .eachItem target body => fuseItems (simplify target) (simplify body)
  | .eachMember target body => fuseMembers (simplify target) (simplify body)
  | .guard test body => fuseGuard (simplify test) (simplify body)
  | .compare op left right => .compare op (simplify left) (simplify right)
  | .both left right => .both (simplify left) (simplify right)
  | .either left right => .either (simplify left) (simplify right)
  | .negate child => .negate (simplify child)
  | .list items => .list (simplifyList items)
  | .hash entries => .hash (simplifyEntries entries)
  | .literal v => .literal v
  | .reference tag body => .reference tag (simplify body)
  | .slice s => fuseSlice s
  | .call name args lenient => .call name (simplifyList args) lenient
  | .path keys => .path keys
  | .presentItems target => .presentItems (simplify target)
  | .presentMembers target => .presentMembers (simplify target)
  | .guardCompare op left right body =>
      fuseCompare op (simplify left) (simplify right) (simplify body)
  | .guardLiteral negated left v body =>
      .guardLiteral negated (simplify left) v (simplify body)
  | .range start stop => .range start stop
termination_by structural query => query

def simplifyList : List Query → List Query
  | [] => []
  | query :: rest => simplify query :: simplifyList rest
termination_by structural queries => queries

def simplifyEntries : List (String × Query) → List (String × Query)
  | [] => []
  | (key, query) :: rest => (key, simplify query) :: simplifyEntries rest
termination_by structural entries => entries

end

end Query

end JsonQuery
