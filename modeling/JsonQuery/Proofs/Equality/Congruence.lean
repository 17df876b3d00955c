import JsonQuery.Query.Simplify
import JsonQuery.Value.Order

/-!
# Rewriting respects equality

A rewriting that treats the parts of a query first takes equal queries to equal ones if it does so
at each node.  Simplification is one: every fusion looks at the shape of a query only, and equal
queries have one shape.
-/

set_option autoImplicit false

namespace JsonQuery.Query

variable {same : Bool} {p q p' q' : Query}

/-! ## Rewriting from the leaves upwards -/

/-- The queries without parts, apart from literals. -/
def isLeaf : Query → Bool
  | .current | .field _ | .index _ | .slice _ | .path _ | .range _ _ => true
  | _ => false

theorem eq_of_isLeaf (leaf : p.isLeaf = true) (equal : equalsIn same p q = true) : p = q := by
  cases p with
  | current => cases q <;> first | rfl | cases equal
  | field name =>
      cases q with
      | field name' => rw [LawfulBEq.eq_of_beq (α := String) equal]
      | _ => cases equal
  | index position =>
      cases q with
      | index position' => rw [LawfulBEq.eq_of_beq (α := Int64) equal]
      | _ => cases equal
  | slice s =>
      cases q with
      | slice s' => rw [LawfulBEq.eq_of_beq (α := Slice) equal]
      | _ => cases equal
  | path keys =>
      cases q with
      | path keys' => rw [LawfulBEq.eq_of_beq (α := List String) equal]
      | _ => cases equal
  | range start stop =>
      cases q with
      | range start' stop' =>
          obtain ⟨starts, stops⟩ := Bool.and_eq_true_iff.mp equal
          rw [LawfulBEq.eq_of_beq (α := Nat) starts, LawfulBEq.eq_of_beq (α := Nat) stops]
      | _ => cases equal
  | _ => cases leaf

theorem equalsIn_self_of_isLeaf (leaf : p.isLeaf = true) : equalsIn same p p = true := by
  cases p with
  | current => rfl
  | field name => exact BEq.rfl (α := String)
  | index position => exact BEq.rfl (α := Int64)
  | slice s => exact BEq.rfl (α := Slice)
  | path keys => exact BEq.rfl (α := List String)
  | range start stop => exact Bool.and_eq_true_iff.mpr ⟨BEq.rfl, BEq.rfl⟩
  | _ => cases leaf

/-- A rewriting of the parts first, which keeps connectives, containers, calls and references and
respects equality wherever else it rewrites. -/
structure Respects (same : Bool) (f : Query → Query) : Prop where
  leaf {p : Query} (leaf : p.isLeaf = true) : equalsIn same (f p) (f p) = true
  literal (v : Value) : f (.literal v) = .literal v
  pipe (p q : Query) : f (.pipe p q) = .pipe (f p) (f q)
  compare (op : Comparator) (p q : Query) : f (.compare op p q) = .compare op (f p) (f q)
  both (p q : Query) : f (.both p q) = .both (f p) (f q)
  either (p q : Query) : f (.either p q) = .either (f p) (f q)
  flatten (p : Query) : f (.flatten p) = .flatten (f p)
  negate (p : Query) : f (.negate p) = .negate (f p)
  reference (tag : Tag) (p : Query) : f (.reference tag p) = .reference tag (f p)
  list (ps : List Query) : f (.list ps) = .list (ps.map f)
  hash (ps : List (String × Query)) : f (.hash ps) = .hash (ps.map fun entry => (entry.1, f entry.2))
  call (name : String) (ps : List Query) (lenient : Bool) :
    f (.call name ps lenient) = .call name (ps.map f) lenient
  chain {p q p' q' : Query} (left : equalsIn same (f p) (f q) = true)
    (right : equalsIn same p' q' = true) (inner : equalsIn same (f p') (f q') = true) :
    equalsIn same (f (.chain p p')) (f (.chain q q')) = true
  eachItem {p q p' q' : Query} (target : equalsIn same (f p) (f q) = true)
    (body : equalsIn same (f p') (f q') = true) :
    equalsIn same (f (.eachItem p p')) (f (.eachItem q q')) = true
  eachMember {p q p' q' : Query} (target : equalsIn same (f p) (f q) = true)
    (body : equalsIn same (f p') (f q') = true) :
    equalsIn same (f (.eachMember p p')) (f (.eachMember q q')) = true
  presentItems {p q : Query} (target : equalsIn same (f p) (f q) = true) :
    equalsIn same (f (.presentItems p)) (f (.presentItems q)) = true
  presentMembers {p q : Query} (target : equalsIn same (f p) (f q) = true) :
    equalsIn same (f (.presentMembers p)) (f (.presentMembers q)) = true
  guard {p q p' q' : Query} (test : equalsIn same (f p) (f q) = true)
    (body : equalsIn same (f p') (f q') = true) :
    equalsIn same (f (.guard p p')) (f (.guard q q')) = true
  guardCompare (op : Comparator) {p q p' q' body body' : Query}
    (left : equalsIn same (f p) (f q) = true) (right : equalsIn same (f p') (f q') = true)
    (bodies : equalsIn same (f body) (f body') = true) :
    equalsIn same (f (.guardCompare op p p' body)) (f (.guardCompare op q q' body')) = true
  guardLiteral (negated : Bool) {p q body body' : Query} {v w : Value}
    (left : equalsIn same (f p) (f q) = true) (literals : Value.equalsIn same v w = true)
    (bodies : equalsIn same (f body) (f body') = true) :
    equalsIn same (f (.guardLiteral negated p v body)) (f (.guardLiteral negated q w body')) = true

section Respects

variable {f : Query → Query}

mutual

theorem Respects.equalsIn (respects : Respects same f) (p q : Query)
    (equal : Query.equalsIn same p q = true) :
    Query.equalsIn same (f p) (f q) = true := by
  cases p with
  | literal v =>
      cases q with
      | literal w =>
          rw [respects.literal, respects.literal]
          exact equal
      | _ => cases equal
  | chain left right =>
      cases q with
      | chain left' right' =>
          obtain ⟨lefts, rights⟩ := Bool.and_eq_true_iff.mp equal
          exact respects.chain (respects.equalsIn left left' lefts) rights
            (respects.equalsIn right right' rights)
      | _ => cases equal
  | eachItem target body =>
      cases q with
      | eachItem target' body' =>
          obtain ⟨targets, bodies⟩ := Bool.and_eq_true_iff.mp equal
          exact respects.eachItem (respects.equalsIn target target' targets)
            (respects.equalsIn body body' bodies)
      | _ => cases equal
  | eachMember target body =>
      cases q with
      | eachMember target' body' =>
          obtain ⟨targets, bodies⟩ := Bool.and_eq_true_iff.mp equal
          exact respects.eachMember (respects.equalsIn target target' targets)
            (respects.equalsIn body body' bodies)
      | _ => cases equal
  | presentItems target =>
      cases q with
      | presentItems target' => exact respects.presentItems (respects.equalsIn target target' equal)
      | _ => cases equal
  | presentMembers target =>
      cases q with
      | presentMembers target' =>
          exact respects.presentMembers (respects.equalsIn target target' equal)
      | _ => cases equal
  | guard test body =>
      cases q with
      | guard test' body' =>
          obtain ⟨tests, bodies⟩ := Bool.and_eq_true_iff.mp equal
          exact respects.guard (respects.equalsIn test test' tests)
            (respects.equalsIn body body' bodies)
      | _ => cases equal
  | guardCompare op left right body =>
      cases q with
      | guardCompare op' left' right' body' =>
          simp only [Query.equalsIn, Bool.and_eq_true] at equal
          obtain ⟨⟨⟨ops, lefts⟩, rights⟩, bodies⟩ := equal
          obtain rfl : op = op' := beq_iff_eq.mp ops
          exact respects.guardCompare op (respects.equalsIn left left' lefts)
            (respects.equalsIn right right' rights) (respects.equalsIn body body' bodies)
      | _ => cases equal
  | guardLiteral negated left v body =>
      cases q with
      | guardLiteral negated' left' v' body' =>
          simp only [Query.equalsIn, Bool.and_eq_true] at equal
          obtain ⟨⟨⟨signs, lefts⟩, literals⟩, bodies⟩ := equal
          obtain rfl : negated = negated' := beq_iff_eq.mp signs
          exact respects.guardLiteral negated (respects.equalsIn left left' lefts) literals
            (respects.equalsIn body body' bodies)
      | _ => cases equal
  | compare op left right =>
      cases q with
      | compare op' left' right' =>
          simp only [respects.compare, Query.equalsIn, Bool.and_eq_true] at equal ⊢
          exact ⟨⟨equal.1.1, respects.equalsIn left left' equal.1.2⟩,
            respects.equalsIn right right' equal.2⟩
      | _ => cases equal
  | pipe left right =>
      cases q with
      | pipe left' right' =>
          simp only [respects.pipe, Query.equalsIn, Bool.and_eq_true] at equal ⊢
          exact ⟨respects.equalsIn left left' equal.1, respects.equalsIn right right' equal.2⟩
      | _ => cases equal
  | both left right =>
      cases q with
      | both left' right' =>
          simp only [respects.both, Query.equalsIn, Bool.and_eq_true] at equal ⊢
          exact ⟨respects.equalsIn left left' equal.1, respects.equalsIn right right' equal.2⟩
      | _ => cases equal
  | either left right =>
      cases q with
      | either left' right' =>
          simp only [respects.either, Query.equalsIn, Bool.and_eq_true] at equal ⊢
          exact ⟨respects.equalsIn left left' equal.1, respects.equalsIn right right' equal.2⟩
      | _ => cases equal
  | flatten child =>
      cases q with
      | flatten child' =>
          rw [respects.flatten, respects.flatten]
          exact respects.equalsIn child child' equal
      | _ => cases equal
  | negate child =>
      cases q with
      | negate child' =>
          rw [respects.negate, respects.negate]
          exact respects.equalsIn child child' equal
      | _ => cases equal
  | reference tag body =>
      cases q with
      | reference tag' body' =>
          rw [respects.reference, respects.reference]
          exact respects.equalsIn body body' equal
      | _ => cases equal
  | list items =>
      cases q with
      | list items' =>
          rw [respects.list, respects.list]
          exact respects.listEqualsIn items items' equal
      | _ => cases equal
  | hash entries =>
      cases q with
      | hash entries' =>
          rw [respects.hash, respects.hash]
          exact respects.entriesEqualIn entries entries' equal
      | _ => cases equal
  | call name args lenient =>
      cases q with
      | call name' args' lenient' =>
          simp only [respects.call, Query.equalsIn, Bool.and_eq_true] at equal ⊢
          exact ⟨⟨equal.1.1, respects.listEqualsIn args args' equal.1.2⟩, equal.2⟩
      | _ => cases equal
  | _ =>
      obtain rfl := eq_of_isLeaf rfl equal
      exact respects.leaf rfl
termination_by structural p

theorem Respects.listEqualsIn (respects : Respects same f) (ps qs : List Query)
    (equal : Query.listEqualsIn same ps qs = true) :
    Query.listEqualsIn same (ps.map f) (qs.map f) = true := by
  cases ps with
  | nil => cases qs <;> first | rfl | cases equal
  | cons p ps =>
      cases qs with
      | cons q qs =>
          obtain ⟨first, others⟩ := Bool.and_eq_true_iff.mp equal
          exact Bool.and_eq_true_iff.mpr ⟨respects.equalsIn p q first,
            respects.listEqualsIn ps qs others⟩
      | nil => cases equal
termination_by structural ps

theorem Respects.entriesEqualIn (respects : Respects same f) (ps qs : List (String × Query))
    (equal : Query.entriesEqualIn same ps qs = true) :
    Query.entriesEqualIn same (ps.map fun entry => (entry.1, f entry.2))
      (qs.map fun entry => (entry.1, f entry.2)) = true := by
  cases ps with
  | nil => cases qs <;> first | rfl | cases equal
  | cons entry ps =>
      cases qs with
      | cons entry' qs =>
          obtain ⟨key, p⟩ := entry
          obtain ⟨key', q⟩ := entry'
          simp only [List.map_cons, Query.entriesEqualIn, Bool.and_eq_true] at equal ⊢
          exact ⟨⟨equal.1.1, respects.equalsIn p q equal.1.2⟩,
            respects.entriesEqualIn ps qs equal.2⟩
      | nil => cases equal
termination_by structural ps

end

end Respects

/-! ## Simplification -/

theorem equalsIn_chain (left : equalsIn same p q = true) (right : equalsIn same p' q' = true) :
    equalsIn same (.chain p p') (.chain q q') = true :=
  Bool.and_eq_true_iff.mpr ⟨left, right⟩

theorem keys?_eq_of_equalsIn (equal : equalsIn same p q = true) : p.keys? = q.keys? := by
  cases p with
  | field name =>
      cases q with
      | field name' => rw [LawfulBEq.eq_of_beq (α := String) equal]
      | _ => cases equal
  | path keys =>
      cases q with
      | path keys' => rw [LawfulBEq.eq_of_beq (α := List String) equal]
      | _ => cases equal
  | _ => cases q <;> first | rfl | cases equal

theorem equalsIn_fuseChain (left : equalsIn same p q = true) (right : equalsIn same p' q' = true) :
    equalsIn same (fuseChain p p') (fuseChain q q') = true := by
  have chained := equalsIn_chain left right
  have inner := keys?_eq_of_equalsIn right
  have outer := keys?_eq_of_equalsIn left
  unfold fuseChain
  rw [← inner, ← outer]
  -- both sides fuse at the same places, since these depend on keys alone
  cases p'.keys? with
  | none => cases p.keys? <;> exact chained
  | some innerKeys =>
      cases p.keys? with
      | some outerKeys => exact equalsIn_self_of_isLeaf rfl
      | none =>
          cases p with
          | chain first last =>
              cases q with
              | chain first' last' =>
                  obtain ⟨firsts, lasts⟩ := Bool.and_eq_true_iff.mp left
                  have middle := keys?_eq_of_equalsIn lasts
                  dsimp only
                  rw [← middle]
                  cases last.keys? with
                  | none => exact chained
                  | some middleKeys => exact equalsIn_chain firsts (equalsIn_self_of_isLeaf rfl)
              | _ => cases left
          | _ => cases q <;> first | exact chained | cases left

theorem equalsIn_fuseItems (target : equalsIn same p q = true) (body : equalsIn same p' q' = true) :
    equalsIn same (fuseItems p p') (fuseItems q q') = true := by
  have projected : equalsIn same (.eachItem p p') (.eachItem q q') = true :=
    Bool.and_eq_true_iff.mpr ⟨target, body⟩
  cases p' with
  | current => cases q' <;> first | exact target | cases body
  | _ => cases q' <;> first | exact projected | cases body

theorem equalsIn_fuseMembers (target : equalsIn same p q = true)
    (body : equalsIn same p' q' = true) :
    equalsIn same (fuseMembers p p') (fuseMembers q q') = true := by
  have projected : equalsIn same (.eachMember p p') (.eachMember q q') = true :=
    Bool.and_eq_true_iff.mpr ⟨target, body⟩
  cases p' with
  | current => cases q' <;> first | exact target | cases body
  | _ => cases q' <;> first | exact projected | cases body

/-- The right-hand sides of equal comparisons are both literals or neither is. -/
theorem equalsIn_fuseCompare (op : Comparator) {body body' : Query}
    (left : equalsIn same p q = true) (right : equalsIn same p' q' = true)
    (bodies : equalsIn same body body' = true) :
    equalsIn same (fuseCompare op p p' body) (fuseCompare op q q' body') = true := by
  have guarded : equalsIn same (.guardCompare op p p' body) (.guardCompare op q q' body') = true := by
    simp only [equalsIn, beq_self_eq_true, left, right, bodies, Bool.and_self]
  cases p' with
  | literal v =>
      cases q' with
      | literal w => cases op <;> exact guarded
      | _ => cases right
  | _ => cases q' <;> first | cases right; done | (cases op <;> exact guarded)

theorem equalsIn_fuseGuard (test : equalsIn same p q = true) (body : equalsIn same p' q' = true) :
    equalsIn same (fuseGuard p p') (fuseGuard q q') = true := by
  have guarded : equalsIn same (.guard p p') (.guard q q') = true :=
    Bool.and_eq_true_iff.mpr ⟨test, body⟩
  cases p with
  | compare op left right =>
      cases q with
      | compare op' left' right' =>
          obtain ⟨first, rights⟩ := Bool.and_eq_true_iff.mp test
          obtain ⟨ops, lefts⟩ := Bool.and_eq_true_iff.mp first
          obtain rfl : op = op' := beq_iff_eq.mp ops
          exact equalsIn_fuseCompare op lefts rights body
      | _ => cases test
  | _ => cases q <;> first | exact guarded | cases test

theorem isLeaf_fuseSlice (s : Slice) : (fuseSlice s).isLeaf = true := by
  unfold fuseSlice
  split
  · split <;> rfl
  · rfl

theorem simplifyList_eq_map (queries : List Query) : simplifyList queries = queries.map simplify := by
  induction queries with
  | nil => rfl
  | cons query rest ih => rw [simplifyList, ih, List.map_cons]

theorem simplifyEntries_eq_map (entries : List (String × Query)) :
    simplifyEntries entries = entries.map fun entry => (entry.1, simplify entry.2) := by
  induction entries with
  | nil => rfl
  | cons entry rest ih => rw [simplifyEntries, ih, List.map_cons]

theorem respects_simplify : Respects same simplify where
  leaf {p} leaf := by
    cases p with
    | slice s => exact equalsIn_self_of_isLeaf (isLeaf_fuseSlice s)
    | _ => first | exact equalsIn_self_of_isLeaf leaf | cases leaf
  literal _ := rfl
  pipe _ _ := rfl
  compare _ _ _ := rfl
  both _ _ := rfl
  either _ _ := rfl
  flatten _ := rfl
  negate _ := rfl
  reference _ _ := rfl
  list ps := by rw [simplify, simplifyList_eq_map]
  hash ps := by rw [simplify, simplifyEntries_eq_map]
  call name ps lenient := by rw [simplify, simplifyList_eq_map]
  chain left _ inner := equalsIn_fuseChain left inner
  eachItem := equalsIn_fuseItems
  eachMember := equalsIn_fuseMembers
  presentItems target := target
  presentMembers target := target
  guard := equalsIn_fuseGuard
  guardCompare op := equalsIn_fuseCompare op
  guardLiteral negated {_ _ _ _ _ _} left literals bodies := by
    simp only [simplify, equalsIn, beq_self_eq_true, left, literals, bodies, Bool.and_self]

/-- Equal queries have equal simplified forms. -/
theorem equalsIn_simplify (equal : equalsIn same p q = true) :
    equalsIn same p.simplify q.simplify = true :=
  respects_simplify.equalsIn p q equal

end JsonQuery.Query
