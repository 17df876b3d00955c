import JsonQuery.Proofs.Coupling.Plain
import JsonQuery.Proofs.Equality.Node

/-!
# Leniency of a query

Marking all calls of a query as lenient or as strict changes nothing else in it.  Simplification and
equality of queries do not look at the marks, as long as these are the same everywhere.
-/

set_option autoImplicit false

namespace JsonQuery

namespace Query

mutual

/-- The query in which every call is marked as given, also inside references. -/
def withLenient (lenient : Bool) : Query → Query
  | .current => .current
  | .field name => .field name
  | .index position => .index position
  | .chain left right => .chain (withLenient lenient left) (withLenient lenient right)
  | .pipe left right => .pipe (withLenient lenient left) (withLenient lenient right)
  | .flatten child => .flatten (withLenient lenient child)
  | .eachItem target body => .eachItem (withLenient lenient target) (withLenient lenient body)
  | .eachMember target body => .eachMember (withLenient lenient target) (withLenient lenient body)
  | .guard test body => .guard (withLenient lenient test) (withLenient lenient body)
  | .compare op left right => .compare op (withLenient lenient left) (withLenient lenient right)
  | .both left right => .both (withLenient lenient left) (withLenient lenient right)
  | .either left right => .either (withLenient lenient left) (withLenient lenient right)
  | .negate child => .negate (withLenient lenient child)
  | .list items => .list (listWithLenient lenient items)
  | .hash entries => .hash (entriesWithLenient lenient entries)
  | .literal v => .literal v
  | .reference tag body => .reference tag (withLenient lenient body)
  | .slice s => .slice s
  | .call name args _ => .call name (listWithLenient lenient args) lenient
  | .path keys => .path keys
  | .presentItems target => .presentItems (withLenient lenient target)
  | .presentMembers target => .presentMembers (withLenient lenient target)
  | .guardCompare op left right body =>
      .guardCompare op (withLenient lenient left) (withLenient lenient right)
        (withLenient lenient body)
  | .guardLiteral negated left v body =>
      .guardLiteral negated (withLenient lenient left) v (withLenient lenient body)
  | .range start stop => .range start stop
termination_by structural query => query

def listWithLenient (lenient : Bool) : List Query → List Query
  | [] => []
  | query :: rest => withLenient lenient query :: listWithLenient lenient rest
termination_by structural queries => queries

def entriesWithLenient (lenient : Bool) : List (String × Query) → List (String × Query)
  | [] => []
  | (key, query) :: rest => (key, withLenient lenient query) :: entriesWithLenient lenient rest
termination_by structural entries => entries

end

mutual

/-- All calls are marked as given and name functions, and literals are plain. -/
def isUniform (lenient : Bool) : Query → Bool
  | .current | .field _ | .index _ | .slice _ | .path _ | .range _ _ => true
  | .literal v => v.isPlain
  | .reference _ child | .flatten child | .negate child | .presentItems child
  | .presentMembers child => isUniform lenient child
  | .chain left right | .pipe left right | .eachItem left right | .eachMember left right
  | .guard left right | .compare _ left right | .both left right | .either left right =>
      isUniform lenient left && isUniform lenient right
  | .guardLiteral _ left v body =>
      isUniform lenient left && v.isPlain && isUniform lenient body
  | .guardCompare _ left right body =>
      isUniform lenient left && isUniform lenient right && isUniform lenient body
  | .list items => listIsUniform lenient items
  | .hash entries => entriesAreUniform lenient entries
  | .call name args marked =>
      (Builtin.ofName? name).isSome && marked == lenient && listIsUniform lenient args
termination_by structural query => query

def listIsUniform (lenient : Bool) : List Query → Bool
  | [] => true
  | query :: rest => isUniform lenient query && listIsUniform lenient rest
termination_by structural queries => queries

def entriesAreUniform (lenient : Bool) : List (String × Query) → Bool
  | [] => true
  | (_, query) :: rest => isUniform lenient query && entriesAreUniform lenient rest
termination_by structural entries => entries

end

mutual

/-- Some call stands in the query, perhaps inside a reference. -/
def hasCall : Query → Bool
  | .current | .field _ | .index _ | .slice _ | .path _ | .range _ _ | .literal _ => false
  | .call _ _ _ => true
  | .reference _ child | .flatten child | .negate child | .presentItems child
  | .presentMembers child => hasCall child
  | .chain left right | .pipe left right | .eachItem left right | .eachMember left right
  | .guard left right | .compare _ left right | .both left right | .either left right
  | .guardLiteral _ left _ right => hasCall left || hasCall right
  | .guardCompare _ left right body => hasCall left || hasCall right || hasCall body
  | .list items => listHasCall items
  | .hash entries => entriesHaveCall entries
termination_by structural query => query

def listHasCall : List Query → Bool
  | [] => false
  | query :: rest => hasCall query || listHasCall rest
termination_by structural queries => queries

def entriesHaveCall : List (String × Query) → Bool
  | [] => false
  | (_, query) :: rest => hasCall query || entriesHaveCall rest
termination_by structural entries => entries

end

/-! ## Marks -/

mutual

theorem isUniform_withLenient {marked lenient : Bool} : ∀ q : Query, q.isUniform marked = true →
    (q.withLenient lenient).isUniform lenient = true
  | .current, _ | .field _, _ | .index _, _ | .slice _, _ | .path _, _ | .range _ _, _ => rfl
  | .literal _, uniform => uniform
  | .reference _ child, uniform | .flatten child, uniform | .negate child, uniform
  | .presentItems child, uniform | .presentMembers child, uniform =>
      isUniform_withLenient child uniform
  | .chain left right, uniform | .pipe left right, uniform | .eachItem left right, uniform
  | .eachMember left right, uniform | .guard left right, uniform | .compare _ left right, uniform
  | .both left right, uniform | .either left right, uniform => by
      simp only [isUniform, Bool.and_eq_true] at uniform
      simp only [withLenient, isUniform, isUniform_withLenient left uniform.1,
        isUniform_withLenient right uniform.2, Bool.and_self]
  | .guardLiteral _ left _ body, uniform => by
      simp only [isUniform, Bool.and_eq_true] at uniform
      simp only [withLenient, isUniform, isUniform_withLenient left uniform.1.1, uniform.1.2,
        isUniform_withLenient body uniform.2, Bool.and_self]
  | .guardCompare _ left right body, uniform => by
      simp only [isUniform, Bool.and_eq_true] at uniform
      simp only [withLenient, isUniform, isUniform_withLenient left uniform.1.1,
        isUniform_withLenient right uniform.1.2, isUniform_withLenient body uniform.2,
        Bool.and_self]
  | .list items, uniform => listIsUniform_withLenient items uniform
  | .hash entries, uniform => entriesAreUniform_withLenient entries uniform
  | .call _ args _, uniform => by
      simp only [isUniform, Bool.and_eq_true] at uniform
      simp only [withLenient, isUniform, uniform.1.1, listIsUniform_withLenient args uniform.2,
        beq_self_eq_true, Bool.and_self]

theorem listIsUniform_withLenient {marked lenient : Bool} : ∀ queries : List Query,
    listIsUniform marked queries = true →
    listIsUniform lenient (listWithLenient lenient queries) = true
  | [], _ => rfl
  | q :: rest, uniform => by
      simp only [listIsUniform, Bool.and_eq_true] at uniform
      simp only [listWithLenient, listIsUniform, isUniform_withLenient q uniform.1,
        listIsUniform_withLenient rest uniform.2, Bool.and_self]

theorem entriesAreUniform_withLenient {marked lenient : Bool} : ∀ entries : Entries Query,
    entriesAreUniform marked entries = true →
    entriesAreUniform lenient (entriesWithLenient lenient entries) = true
  | [], _ => rfl
  | (_, q) :: rest, uniform => by
      simp only [entriesAreUniform, Bool.and_eq_true] at uniform
      simp only [entriesWithLenient, entriesAreUniform, isUniform_withLenient q uniform.1,
        entriesAreUniform_withLenient rest uniform.2, Bool.and_self]

end

/-! ## Simplification -/

section Fusions

variable (lenient : Bool)

theorem keys?_withLenient (q : Query) : (q.withLenient lenient).keys? = q.keys? := by
  cases q <;> rfl

theorem fuseChain_withLenient (left right : Query) :
    fuseChain (left.withLenient lenient) (right.withLenient lenient) =
      (fuseChain left right).withLenient lenient := by
  simp only [fuseChain, keys?_withLenient]
  cases right.keys? with
  | none => cases left.keys? <;> rfl
  | some inner =>
      cases left.keys? with
      | some outer => rfl
      | none =>
          cases left with
          | chain first last =>
              simp only [withLenient, keys?_withLenient]
              cases last.keys? <;> rfl
          | _ => rfl

theorem fuseItems_withLenient (target body : Query) :
    fuseItems (target.withLenient lenient) (body.withLenient lenient) =
      (fuseItems target body).withLenient lenient := by
  cases body <;> rfl

theorem fuseMembers_withLenient (target body : Query) :
    fuseMembers (target.withLenient lenient) (body.withLenient lenient) =
      (fuseMembers target body).withLenient lenient := by
  cases body <;> rfl

theorem fuseCompare_withLenient (op : Comparator) (left right body : Query) :
    fuseCompare op (left.withLenient lenient) (right.withLenient lenient)
        (body.withLenient lenient) =
      (fuseCompare op left right body).withLenient lenient := by
  cases right <;> cases op <;> rfl

theorem fuseGuard_withLenient (test body : Query) :
    fuseGuard (test.withLenient lenient) (body.withLenient lenient) =
      (fuseGuard test body).withLenient lenient := by
  cases test with
  | compare op left right => exact fuseCompare_withLenient lenient op left right body
  | _ => rfl

theorem fuseSlice_withLenient (s : Slice) : (fuseSlice s).withLenient lenient = fuseSlice s := by
  simp only [fuseSlice]
  split
  · split <;> rfl
  · rfl

end Fusions

mutual

/-- Simplification does not look at marks. -/
theorem simplify_withLenient (lenient : Bool) : ∀ q : Query,
    (q.withLenient lenient).simplify = q.simplify.withLenient lenient
  | .current | .field _ | .index _ | .path _ | .range _ _ | .literal _ => rfl
  | .slice s => (fuseSlice_withLenient lenient s).symm
  | .reference _ child | .flatten child | .negate child | .presentItems child
  | .presentMembers child => by
      simp only [withLenient, simplify, simplify_withLenient lenient child]
  | .pipe left right | .compare _ left right | .both left right | .either left right => by
      simp only [withLenient, simplify, simplify_withLenient lenient left,
        simplify_withLenient lenient right]
  | .chain left right | .eachItem left right | .eachMember left right | .guard left right => by
      simp only [withLenient, simplify, simplify_withLenient lenient left,
        simplify_withLenient lenient right, fuseChain_withLenient, fuseItems_withLenient,
        fuseMembers_withLenient, fuseGuard_withLenient]
  | .guardLiteral _ left _ body => by
      simp only [withLenient, simplify, simplify_withLenient lenient left,
        simplify_withLenient lenient body]
  | .guardCompare _ left right body => by
      simp only [withLenient, simplify, simplify_withLenient lenient left,
        simplify_withLenient lenient right, simplify_withLenient lenient body,
        fuseCompare_withLenient]
  | .list items => by
      simp only [withLenient, simplify, simplifyList_withLenient lenient items]
  | .hash entries => by
      simp only [withLenient, simplify, simplifyEntries_withLenient lenient entries]
  | .call _ args _ => by
      simp only [withLenient, simplify, simplifyList_withLenient lenient args]

theorem simplifyList_withLenient (lenient : Bool) : ∀ queries : List Query,
    simplifyList (listWithLenient lenient queries) =
      listWithLenient lenient (simplifyList queries)
  | [] => rfl
  | q :: rest => by
      simp only [listWithLenient, simplifyList, simplify_withLenient lenient q,
        simplifyList_withLenient lenient rest]

theorem simplifyEntries_withLenient (lenient : Bool) : ∀ entries : Entries Query,
    simplifyEntries (entriesWithLenient lenient entries) =
      entriesWithLenient lenient (simplifyEntries entries)
  | [] => rfl
  | (_, q) :: rest => by
      simp only [entriesWithLenient, simplifyEntries, simplify_withLenient lenient q,
        simplifyEntries_withLenient lenient rest]

end

section Fusions

variable {lenient : Bool} {left right body : Query}

theorem isUniform_fuseChain (first : left.isUniform lenient = true)
    (second : right.isUniform lenient = true) :
    (fuseChain left right).isUniform lenient = true := by
  have kept : (chain left right).isUniform lenient = true := by
    simp only [isUniform, first, second, Bool.and_self]
  simp only [fuseChain]
  split
  · rfl
  · split
    · simp only [isUniform, Bool.and_eq_true] at first
      split
      · simp only [isUniform, first.1, Bool.and_self]
      · exact kept
    · exact kept
  · exact kept

theorem isUniform_fuseItems (first : left.isUniform lenient = true)
    (second : body.isUniform lenient = true) :
    (fuseItems left body).isUniform lenient = true := by
  simp only [fuseItems]
  split
  · exact first
  · simp only [isUniform, first, second, Bool.and_self]

theorem isUniform_fuseMembers (first : left.isUniform lenient = true)
    (second : body.isUniform lenient = true) :
    (fuseMembers left body).isUniform lenient = true := by
  simp only [fuseMembers]
  split
  · exact first
  · simp only [isUniform, first, second, Bool.and_self]

theorem isUniform_fuseCompare (op : Comparator) (first : left.isUniform lenient = true)
    (second : right.isUniform lenient = true) (third : body.isUniform lenient = true) :
    (fuseCompare op left right body).isUniform lenient = true := by
  simp only [fuseCompare]
  split
  · simp only [isUniform] at second
    simp only [isUniform, first, second, third, Bool.and_self]
  · simp only [isUniform] at second
    simp only [isUniform, first, second, third, Bool.and_self]
  · simp only [isUniform, first, second, third, Bool.and_self]

theorem isUniform_fuseGuard (first : left.isUniform lenient = true)
    (second : body.isUniform lenient = true) :
    (fuseGuard left body).isUniform lenient = true := by
  simp only [fuseGuard]
  split
  · simp only [isUniform, Bool.and_eq_true] at first
    exact isUniform_fuseCompare _ first.1 first.2 second
  · simp only [isUniform, first, second, Bool.and_self]

theorem isUniform_fuseSlice (s : Slice) : (fuseSlice s).isUniform lenient = true := by
  simp only [fuseSlice]
  split
  · split <;> rfl
  · rfl

end Fusions

mutual

theorem isUniform_simplify {lenient : Bool} : ∀ q : Query, q.isUniform lenient = true →
    q.simplify.isUniform lenient = true
  | .current, _ | .field _, _ | .index _, _ | .path _, _ | .range _ _, _ => rfl
  | .literal _, uniform => uniform
  | .slice s, _ => isUniform_fuseSlice s
  | .reference _ child, uniform | .flatten child, uniform | .negate child, uniform
  | .presentItems child, uniform | .presentMembers child, uniform =>
      isUniform_simplify child uniform
  | .pipe left right, uniform | .compare _ left right, uniform | .both left right, uniform
  | .either left right, uniform => by
      simp only [isUniform, Bool.and_eq_true] at uniform
      simp only [simplify, isUniform, isUniform_simplify left uniform.1,
        isUniform_simplify right uniform.2, Bool.and_self]
  | .chain left right, uniform => by
      simp only [isUniform, Bool.and_eq_true] at uniform
      exact isUniform_fuseChain (isUniform_simplify left uniform.1)
        (isUniform_simplify right uniform.2)
  | .eachItem target body, uniform => by
      simp only [isUniform, Bool.and_eq_true] at uniform
      exact isUniform_fuseItems (isUniform_simplify target uniform.1)
        (isUniform_simplify body uniform.2)
  | .eachMember target body, uniform => by
      simp only [isUniform, Bool.and_eq_true] at uniform
      exact isUniform_fuseMembers (isUniform_simplify target uniform.1)
        (isUniform_simplify body uniform.2)
  | .guard test body, uniform => by
      simp only [isUniform, Bool.and_eq_true] at uniform
      exact isUniform_fuseGuard (isUniform_simplify test uniform.1)
        (isUniform_simplify body uniform.2)
  | .guardLiteral _ left _ body, uniform => by
      simp only [isUniform, Bool.and_eq_true] at uniform
      simp only [simplify, isUniform, isUniform_simplify left uniform.1.1, uniform.1.2,
        isUniform_simplify body uniform.2, Bool.and_self]
  | .guardCompare op left right body, uniform => by
      simp only [isUniform, Bool.and_eq_true] at uniform
      exact isUniform_fuseCompare op (isUniform_simplify left uniform.1.1)
        (isUniform_simplify right uniform.1.2) (isUniform_simplify body uniform.2)
  | .list items, uniform => listIsUniform_simplify items uniform
  | .hash entries, uniform => entriesAreUniform_simplify entries uniform
  | .call _ args _, uniform => by
      simp only [isUniform, Bool.and_eq_true] at uniform
      simp only [simplify, isUniform, uniform.1.1, uniform.1.2,
        listIsUniform_simplify args uniform.2, Bool.and_self]

theorem listIsUniform_simplify {lenient : Bool} : ∀ queries : List Query,
    listIsUniform lenient queries = true → listIsUniform lenient (simplifyList queries) = true
  | [], _ => rfl
  | q :: rest, uniform => by
      simp only [listIsUniform, Bool.and_eq_true] at uniform
      simp only [simplifyList, listIsUniform, isUniform_simplify q uniform.1,
        listIsUniform_simplify rest uniform.2, Bool.and_self]

theorem entriesAreUniform_simplify {lenient : Bool} : ∀ entries : Entries Query,
    entriesAreUniform lenient entries = true →
    entriesAreUniform lenient (simplifyEntries entries) = true
  | [], _ => rfl
  | (_, q) :: rest, uniform => by
      simp only [entriesAreUniform, Bool.and_eq_true] at uniform
      simp only [simplifyEntries, entriesAreUniform, isUniform_simplify q uniform.1,
        entriesAreUniform_simplify rest uniform.2, Bool.and_self]

end

/-! ## Equality -/

theorem listWithLenient_eq_map (lenient : Bool) (queries : List Query) :
    listWithLenient lenient queries = queries.map (withLenient lenient) := by
  induction queries with
  | nil => rfl
  | cons q rest ih => rw [listWithLenient, List.map_cons, ih]

theorem values_entriesWithLenient (lenient : Bool) (entries : Entries Query) :
    Entries.values (entriesWithLenient lenient entries) =
      (Entries.values entries).map (withLenient lenient) := by
  induction entries with
  | nil => rfl
  | cons entry rest ih => exact congrArg (entry.2.withLenient lenient :: ·) ih

theorem literals_withLenient (lenient : Bool) (q : Query) :
    (q.withLenient lenient).literals = q.literals := by
  cases q <;> rfl

theorem children_withLenient (lenient : Bool) (q : Query) :
    (q.withLenient lenient).children = q.children.map (withLenient lenient) := by
  cases q with
  | list items => rw [withLenient, children_list, children_list, listWithLenient_eq_map]
  | call name args marked =>
      rw [withLenient, children_call, children_call, listWithLenient_eq_map]
  | hash entries => rw [withLenient, children_hash, children_hash, values_entriesWithLenient]
  | _ => rfl

theorem head_withLenient (lenient : Bool) (q : Query) :
    (q.withLenient lenient).head = q.head.withLenient lenient := by
  cases q with
  | hash entries =>
      refine congrArg hash ?_
      induction entries with
      | nil => rfl
      | cons entry rest ih => exact congrArg ((entry.1, current) :: ·) ih
  | _ => rfl

/-- Where all marks are the same, they can be put back. -/
theorem head_withLenient_withLenient {marked : Bool} (lenient : Bool) {q : Query}
    (uniform : q.isUniform marked = true) :
    (q.head.withLenient lenient).withLenient marked = q.head := by
  cases q with
  | call name args mark =>
      simp only [isUniform, Bool.and_eq_true, beq_iff_eq] at uniform
      rw [uniform.1.2]
      rfl
  | hash entries =>
      clear uniform
      refine congrArg hash ?_
      induction entries with
      | nil => rfl
      | cons entry rest ih => exact congrArg ((entry.1, current) :: ·) ih
  | _ => rfl

theorem head_withLenient_eq_iff {marked : Bool} (lenient : Bool) {p q : Query}
    (uniform : p.isUniform marked = true) (uniform' : q.isUniform marked = true) :
    (p.withLenient lenient).head = (q.withLenient lenient).head ↔ p.head = q.head := by
  rw [head_withLenient, head_withLenient]
  refine ⟨fun same => ?_, congrArg (withLenient lenient)⟩
  rw [← head_withLenient_withLenient lenient uniform, same,
    head_withLenient_withLenient lenient uniform']

theorem listIsUniform_iff {marked : Bool} {queries : List Query} :
    listIsUniform marked queries = true ↔ ∀ q ∈ queries, q.isUniform marked = true := by
  induction queries with
  | nil => simp [listIsUniform]
  | cons q rest ih => rw [listIsUniform, Bool.and_eq_true, ih, List.forall_mem_cons]

theorem entriesAreUniform_iff {marked : Bool} {entries : Entries Query} :
    entriesAreUniform marked entries = true ↔
      ∀ q ∈ Entries.values entries, q.isUniform marked = true := by
  induction entries with
  | nil => simp [entriesAreUniform, Entries.values]
  | cons entry rest ih =>
      rw [entriesAreUniform, Bool.and_eq_true, ih, Entries.values, Entries.values, List.map_cons,
        List.forall_mem_cons]

theorem isUniform_of_mem_children {marked : Bool} {q child : Query}
    (uniform : q.isUniform marked = true) (inside : child ∈ q.children) :
    child.isUniform marked = true := by
  cases q with
  | current | field | index | literal | slice | path | range => cases inside
  | list items =>
      rw [children_list] at inside
      exact listIsUniform_iff.mp uniform child inside
  | hash entries =>
      rw [children_hash] at inside
      exact entriesAreUniform_iff.mp uniform child inside
  | call name args mark =>
      rw [isUniform, Bool.and_eq_true] at uniform
      rw [children_call] at inside
      exact listIsUniform_iff.mp uniform.2 child inside
  | _ =>
      simp only [children, parts, List.map_cons, List.map_nil, List.mem_cons, List.not_mem_nil,
        or_false, isUniform, Bool.and_eq_true] at inside uniform
      grind

/-- Equality of queries does not look at marks that are the same everywhere. -/
theorem equalsIn_withLenient {marked lenient : Bool} (same : Bool) (p q : Query)
    (uniform : p.isUniform marked = true) (uniform' : q.isUniform marked = true) :
    Query.equalsIn same (p.withLenient lenient) (q.withLenient lenient) =
      Query.equalsIn same p q := by
  have inside (child other : Query) (found : child ∈ p.children) (found' : other ∈ q.children) :
      Query.equalsIn same (child.withLenient lenient) (other.withLenient lenient) =
        Query.equalsIn same child other :=
    equalsIn_withLenient same child other (isUniform_of_mem_children uniform found)
      (isUniform_of_mem_children uniform' found')
  have pieces :
      List.Forall₂ (fun child other => Query.equalsIn same (child.withLenient lenient)
        (other.withLenient lenient) = true) p.children q.children ↔
      List.Forall₂ (fun child other => Query.equalsIn same child other = true)
        p.children q.children :=
    ⟨fun pairs => forall₂_imp_of_mem pairs fun child found other found' equal =>
        (inside child other found found').symm.trans equal,
      fun pairs => forall₂_imp_of_mem pairs fun child found other found' equal =>
        (inside child other found found').trans equal⟩
  rw [Bool.eq_iff_iff, equalsIn_iff, equalsIn_iff, head_withLenient_eq_iff lenient uniform uniform',
    literals_withLenient, literals_withLenient, children_withLenient, children_withLenient,
    List.forall₂_map_left_iff, List.forall₂_map_right_iff, pieces]
termination_by sizeOf p
decreasing_by exact sizeOf_lt_of_mem_children found

end Query

end JsonQuery
