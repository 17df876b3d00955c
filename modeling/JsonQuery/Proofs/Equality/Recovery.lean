import JsonQuery.Proofs.Equality.Congruence
import JsonQuery.Proofs.Grammar.Shape
import JsonQuery.Query.Eval
import Mathlib

/-!
# What simplification forgets

The tree that was read can be recovered from its simplified form, except for steps of one in slices
that become ranges: a range does not tell whether the step was written.  So simplified forms are
equal exactly when the trees are equal without these steps.
-/

set_option autoImplicit false

namespace JsonQuery

/-- The slice without its step, where that is one and the slice becomes a range. -/
def Slice.omitStep (s : Slice) : Slice :=
  match s.start, s.stop with
  | some start, some stop =>
      if s.step = some 1 ∧ 0 < start.toInt ∧ start.toInt < stop.toInt then
        ⟨some start, some stop, none⟩
      else s
  | _, _ => s

namespace Query

mutual

/-- The query without the steps that simplification forgets. -/
def omitSteps : Query → Query
  | .slice s => .slice s.omitStep
  | .chain left right => .chain (omitSteps left) (omitSteps right)
  | .pipe left right => .pipe (omitSteps left) (omitSteps right)
  | .flatten child => .flatten (omitSteps child)
  | .eachItem target body => .eachItem (omitSteps target) (omitSteps body)
  | .eachMember target body => .eachMember (omitSteps target) (omitSteps body)
  | .guard test body => .guard (omitSteps test) (omitSteps body)
  | .compare op left right => .compare op (omitSteps left) (omitSteps right)
  | .both left right => .both (omitSteps left) (omitSteps right)
  | .either left right => .either (omitSteps left) (omitSteps right)
  | .negate child => .negate (omitSteps child)
  | .list items => .list (listOmitSteps items)
  | .hash entries => .hash (entriesOmitSteps entries)
  | .reference tag body => .reference tag (omitSteps body)
  | .call name args lenient => .call name (listOmitSteps args) lenient
  | .presentItems target => .presentItems (omitSteps target)
  | .presentMembers target => .presentMembers (omitSteps target)
  | .guardCompare op left right body =>
      .guardCompare op (omitSteps left) (omitSteps right) (omitSteps body)
  | .guardLiteral negated left v body =>
      .guardLiteral negated (omitSteps left) v (omitSteps body)
  | .current => .current
  | .field name => .field name
  | .index position => .index position
  | .literal v => .literal v
  | .path keys => .path keys
  | .range start stop => .range start stop
termination_by structural query => query

def listOmitSteps : List Query → List Query
  | [] => []
  | query :: rest => omitSteps query :: listOmitSteps rest
termination_by structural queries => queries

def entriesOmitSteps : List (String × Query) → List (String × Query)
  | [] => []
  | (key, query) :: rest => (key, omitSteps query) :: entriesOmitSteps rest
termination_by structural entries => entries

end

/-! ## Plain trees of fused forms -/

/-- Members behind a query, one after the other. -/
def members (start : Query) (keys : List String) : Query :=
  keys.foldl (fun query key => .chain query (.field key)) start

def expandPath : List String → Query
  | [] => .path []
  | key :: keys => members (.field key) keys

/-- A chain of expanded queries, where a path to the right was fused into it. -/
def expandChain (left right expanded : Query) : Query :=
  match right with
  | .path keys => members left keys
  | _ => .chain left expanded

def rangeSlice (start stop : Nat) : Slice :=
  ⟨some (Int64.ofNat start), some (Int64.ofNat stop), none⟩

mutual

/-- The plain tree that a fused form stands for. -/
def expand : Query → Query
  | .path keys => expandPath keys
  | .range start stop => .slice (rangeSlice start stop)
  | .chain left right => expandChain (expand left) right (expand right)
  | .presentItems target => .eachItem (expand target) .current
  | .presentMembers target => .eachMember (expand target) .current
  | .guardCompare op left right body =>
      .guard (.compare op (expand left) (expand right)) (expand body)
  | .guardLiteral negated left v body =>
      .guard (.compare (if negated then .ne else .eq) (expand left) (.literal v)) (expand body)
  | .pipe left right => .pipe (expand left) (expand right)
  | .flatten child => .flatten (expand child)
  | .eachItem target body => .eachItem (expand target) (expand body)
  | .eachMember target body => .eachMember (expand target) (expand body)
  | .guard test body => .guard (expand test) (expand body)
  | .compare op left right => .compare op (expand left) (expand right)
  | .both left right => .both (expand left) (expand right)
  | .either left right => .either (expand left) (expand right)
  | .negate child => .negate (expand child)
  | .list items => .list (expandList items)
  | .hash entries => .hash (expandEntries entries)
  | .reference tag body => .reference tag (expand body)
  | .call name args lenient => .call name (expandList args) lenient
  | .current => .current
  | .field name => .field name
  | .index position => .index position
  | .literal v => .literal v
  | .slice s => .slice s
termination_by structural query => query

def expandList : List Query → List Query
  | [] => []
  | query :: rest => expand query :: expandList rest
termination_by structural queries => queries

def expandEntries : List (String × Query) → List (String × Query)
  | [] => []
  | (key, query) :: rest => (key, expand query) :: expandEntries rest
termination_by structural entries => entries

end

theorem expandList_eq_map (queries : List Query) : expandList queries = queries.map expand := by
  induction queries with
  | nil => rfl
  | cons query rest ih => rw [expandList, ih, List.map_cons]

theorem expandEntries_eq_map (entries : List (String × Query)) :
    expandEntries entries = entries.map fun entry => (entry.1, expand entry.2) := by
  induction entries with
  | nil => rfl
  | cons entry rest ih => rw [expandEntries, ih, List.map_cons]

variable {same : Bool} {p q p' q' : Query}

theorem equalsIn_members (equal : equalsIn same p q = true) (keys : List String) :
    equalsIn same (members p keys) (members q keys) = true := by
  induction keys generalizing p q with
  | nil => exact equal
  | cons key keys ih => exact ih (equalsIn_chain equal (BEq.rfl (α := String)))

theorem equalsIn_expandPath (keys : List String) :
    equalsIn same (expandPath keys) (expandPath keys) = true := by
  cases keys with
  | nil => exact equalsIn_self_of_isLeaf rfl
  | cons key keys => exact equalsIn_members (BEq.rfl (α := String)) keys

theorem equalsIn_guard {test test' : Query} (tests : equalsIn same test test' = true)
    (bodies : equalsIn same p q = true) : equalsIn same (.guard test p) (.guard test' q) = true :=
  Bool.and_eq_true_iff.mpr ⟨tests, bodies⟩

theorem respects_expand : Respects same expand where
  leaf {p} leaf := by
    cases p with
    | path keys => exact equalsIn_expandPath keys
    | range start stop => exact equalsIn_self_of_isLeaf rfl
    | _ => first | exact equalsIn_self_of_isLeaf leaf | cases leaf
  literal _ := rfl
  pipe _ _ := rfl
  compare _ _ _ := rfl
  both _ _ := rfl
  either _ _ := rfl
  flatten _ := rfl
  negate _ := rfl
  reference _ _ := rfl
  list ps := by rw [expand, expandList_eq_map]
  hash ps := by rw [expand, expandEntries_eq_map]
  call name ps lenient := by rw [expand, expandList_eq_map]
  chain {p q p' q'} left right inner := by
    have chained := equalsIn_chain left inner
    cases p' with
    | path keys =>
        cases q' with
        | path keys' =>
            obtain rfl : keys = keys' := LawfulBEq.eq_of_beq (α := List String) right
            exact equalsIn_members left keys
        | _ => cases right
    | _ => cases q' <;> first | exact chained | cases right
  eachItem target body := Bool.and_eq_true_iff.mpr ⟨target, body⟩
  eachMember target body := Bool.and_eq_true_iff.mpr ⟨target, body⟩
  presentItems target := Bool.and_eq_true_iff.mpr ⟨target, rfl⟩
  presentMembers target := Bool.and_eq_true_iff.mpr ⟨target, rfl⟩
  guard := equalsIn_guard
  guardCompare op {_ _ _ _ _ _} left right bodies := by
    refine equalsIn_guard ?_ bodies
    simp only [equalsIn, beq_self_eq_true, left, right, Bool.and_self]
  guardLiteral negated {_ _ _ _ _ _} left literals bodies := by
    refine equalsIn_guard ?_ bodies
    simp only [equalsIn, beq_self_eq_true, left, literals, Bool.and_self]

/-! ## Recovery -/

theorem expand_fuseItems (target body : Query) :
    expand (fuseItems target body) = .eachItem (expand target) (expand body) := by
  cases body <;> rfl

theorem expand_fuseMembers (target body : Query) :
    expand (fuseMembers target body) = .eachMember (expand target) (expand body) := by
  cases body <;> rfl

theorem expand_fuseGuard (test body : Query) :
    expand (fuseGuard test body) = .guard (expand test) (expand body) := by
  cases test with
  | compare op left right => cases right <;> cases op <;> rfl
  | _ => rfl

theorem ofNat_toNat {n : Int64} (positive : 0 < n.toInt) : Int64.ofNat n.toInt.toNat = n := by
  rw [← Int64.ofInt_eq_ofNat, Int.toNat_of_nonneg (Int.le_of_lt positive), Int64.ofInt_toInt]

theorem expand_fuseSlice (s : Slice) : expand (fuseSlice s) = .slice s.omitStep := by
  obtain ⟨start, stop, step⟩ := s
  cases start with
  | none => rfl
  | some start =>
      cases stop with
      | none => rfl
      | some stop =>
          simp only [fuseSlice, Slice.omitStep]
          by_cases ranged : 0 < start.toInt ∧ start.toInt < stop.toInt
          · obtain ⟨positive, ordered⟩ := ranged
            have recovered : rangeSlice start.toInt.toNat stop.toInt.toNat =
                ⟨some start, some stop, none⟩ := by
              rw [rangeSlice, ofNat_toNat positive, ofNat_toNat (by omega)]
            by_cases one : step = some 1
            · rw [if_pos ⟨.inr one, positive, ordered⟩, if_pos ⟨one, positive, ordered⟩, expand,
                recovered]
            · by_cases omitted : step = none
              · rw [if_pos ⟨.inl omitted, positive, ordered⟩, if_neg fun fused => one fused.1,
                  expand, recovered, omitted]
              · rw [if_neg fun fused => fused.1.elim omitted one, if_neg fun fused => one fused.1]
                rfl
          · rw [if_neg fun fused => ranged fused.2, if_neg fun fused => ranged fused.2]
            rfl

theorem fuseSlice_omitStep (s : Slice) : fuseSlice s.omitStep = fuseSlice s := by
  obtain ⟨start, stop, step⟩ := s
  cases start with
  | none => rfl
  | some start =>
      cases stop with
      | none => rfl
      | some stop =>
          simp only [Slice.omitStep]
          split
          · rename_i fused
            simp [fuseSlice, fused]
          · rfl

theorem members_append (start : Query) (first second : List String) :
    members start (first ++ second) = members (members start first) second :=
  List.foldl_append

theorem expandPath_append {keys : List String} (filled : keys ≠ []) (name : String) :
    expandPath (keys ++ [name]) = .chain (expandPath keys) (.field name) := by
  cases keys with
  | nil => exact absurd rfl filled
  | cons key keys => exact members_append (.field key) keys [name]

theorem expand_fuseChain_field {left : Query} (filled : left.keys? ≠ some []) (name : String) :
    expand (fuseChain left (.field name)) = .chain (expand left) (.field name) := by
  cases left with
  | path keys =>
      have filled' : keys ≠ [] := fun empty => filled (congrArg some empty)
      exact expandPath_append filled' name
  | chain first last =>
      cases last with
      | path keys => exact members_append (expand first) keys [name]
      | _ => rfl
  | _ => rfl

theorem expand_fuseChain {left right : Query} (plain : right.keys? = none) :
    expand (fuseChain left right) = .chain (expand left) (expand right) := by
  have kept : fuseChain left right = .chain left right := by
    unfold fuseChain
    rw [plain]
    cases left.keys? <;> rfl
  rw [kept]
  cases right with
  | path keys => cases plain
  | _ => rfl

theorem keys?_fuseChain {left right : Query} {keys : List String}
    (found : (fuseChain left right).keys? = some keys) :
    ∃ outer inner, right.keys? = some inner ∧ keys = outer ++ inner := by
  unfold fuseChain at found
  split at found
  · rename_i outer inner _ behind
    cases found
    exact ⟨outer, inner, behind, rfl⟩
  · split at found
    · split at found <;> cases found
    · cases found
  · cases found

theorem keys?_fuseItems (target body : Query) : (fuseItems target body).keys? = none := by
  cases body <;> rfl

theorem keys?_fuseMembers (target body : Query) : (fuseMembers target body).keys? = none := by
  cases body <;> rfl

theorem keys?_fuseGuard (test body : Query) : (fuseGuard test body).keys? = none := by
  cases test with
  | compare op left right => cases right <;> cases op <;> rfl
  | _ => rfl

theorem keys?_fuseSlice (s : Slice) : (fuseSlice s).keys? = none := by
  unfold fuseSlice
  split
  · split <;> rfl
  · rfl

/-- What is read simplifies to keys only if it is a member, or a chain with one at its end. -/
theorem keys?_simplify (q : Query) (read : q.isRead = true) {keys : List String}
    (found : q.simplify.keys? = some keys) :
    keys ≠ [] ∧ ((∃ name, q = .field name) ∨ q.endsInMember = true) := by
  cases q with
  | field name =>
      cases found
      exact ⟨List.cons_ne_nil _ _, .inl ⟨name, rfl⟩⟩
  | chain left right =>
      simp only [isRead, Bool.and_eq_true, Bool.not_eq_true'] at read
      obtain ⟨⟨-, second⟩, apart⟩ := read
      obtain ⟨outer, inner, behind, rfl⟩ := keys?_fuseChain found
      obtain ⟨filled, ⟨name, rfl⟩ | ends⟩ := keys?_simplify right second behind
      · exact ⟨List.append_ne_nil_of_right_ne_nil outer filled, .inr rfl⟩
      · rw [apart] at ends
        cases ends
  | eachItem target body =>
      rw [simplify, keys?_fuseItems] at found
      cases found
  | eachMember target body =>
      rw [simplify, keys?_fuseMembers] at found
      cases found
  | guard test body =>
      rw [simplify, keys?_fuseGuard] at found
      cases found
  | slice s =>
      rw [simplify, keys?_fuseSlice] at found
      cases found
  | path keys => cases read
  | guardCompare op left right body => cases read
  | _ => cases found
termination_by structural q

mutual

/-- The plain tree of the simplified form is what was read, up to the forgotten steps. -/
theorem expand_simplify (q : Query) (read : q.isRead = true) :
    expand q.simplify = q.omitSteps := by
  cases q with
  | chain left right =>
      simp only [isRead, Bool.and_eq_true, Bool.not_eq_true'] at read
      obtain ⟨⟨first, second⟩, apart⟩ := read
      have lefts := expand_simplify left first
      have rights := expand_simplify right second
      rw [simplify, omitSteps, ← lefts, ← rights]
      -- only a member is fused: what was read has no chain with a member at its end to the right
      cases found : right.simplify.keys? with
      | none => exact expand_fuseChain found
      | some keys =>
          obtain ⟨-, ⟨name, rfl⟩ | ends⟩ := keys?_simplify right second found
          · refine expand_fuseChain_field (fun empty => ?_) name
            exact (keys?_simplify left first empty).1 rfl
          · rw [apart] at ends
            cases ends
  | eachItem target body =>
      simp only [isRead, Bool.and_eq_true] at read
      rw [simplify, expand_fuseItems, expand_simplify target read.1, expand_simplify body read.2]
      rfl
  | eachMember target body =>
      simp only [isRead, Bool.and_eq_true] at read
      rw [simplify, expand_fuseMembers, expand_simplify target read.1, expand_simplify body read.2]
      rfl
  | guard test body =>
      simp only [isRead, Bool.and_eq_true] at read
      rw [simplify, expand_fuseGuard, expand_simplify test read.1, expand_simplify body read.2]
      rfl
  | slice s => exact expand_fuseSlice s
  | pipe left right =>
      simp only [isRead, Bool.and_eq_true] at read
      rw [simplify, expand, expand_simplify left read.1, expand_simplify right read.2, omitSteps]
  | compare op left right =>
      simp only [isRead, Bool.and_eq_true] at read
      rw [simplify, expand, expand_simplify left read.1, expand_simplify right read.2, omitSteps]
  | both left right =>
      simp only [isRead, Bool.and_eq_true] at read
      rw [simplify, expand, expand_simplify left read.1, expand_simplify right read.2, omitSteps]
  | either left right =>
      simp only [isRead, Bool.and_eq_true] at read
      rw [simplify, expand, expand_simplify left read.1, expand_simplify right read.2, omitSteps]
  | flatten child => rw [simplify, expand, expand_simplify child read, omitSteps]
  | negate child => rw [simplify, expand, expand_simplify child read, omitSteps]
  | reference tag body => rw [simplify, expand, expand_simplify body read, omitSteps]
  | list items => rw [simplify, expand, expandList_simplify items read, omitSteps]
  | hash entries => rw [simplify, expand, expandEntries_simplify entries read, omitSteps]
  | call name args lenient => rw [simplify, expand, expandList_simplify args read, omitSteps]
  | current => rfl
  | field name => rfl
  | index position => rfl
  | literal v => rfl
  | _ => cases read
termination_by structural q

theorem expandList_simplify (queries : List Query) (read : listIsRead queries = true) :
    expandList (simplifyList queries) = listOmitSteps queries := by
  cases queries with
  | nil => rfl
  | cons query rest =>
      simp only [listIsRead, Bool.and_eq_true] at read
      rw [simplifyList, expandList, expand_simplify query read.1, expandList_simplify rest read.2,
        listOmitSteps]
termination_by structural queries

theorem expandEntries_simplify (entries : List (String × Query))
    (read : entriesAreRead entries = true) :
    expandEntries (simplifyEntries entries) = entriesOmitSteps entries := by
  cases entries with
  | nil => rfl
  | cons entry rest =>
      obtain ⟨key, query⟩ := entry
      simp only [entriesAreRead, Bool.and_eq_true] at read
      rw [simplifyEntries, expandEntries, expand_simplify query read.1,
        expandEntries_simplify rest read.2, entriesOmitSteps]
termination_by structural entries

end

mutual

theorem simplify_omitSteps (q : Query) : q.omitSteps.simplify = q.simplify := by
  cases q with
  | slice s => exact fuseSlice_omitStep s
  | chain left right =>
      rw [omitSteps, simplify, simplify_omitSteps left, simplify_omitSteps right, simplify]
  | pipe left right =>
      rw [omitSteps, simplify, simplify_omitSteps left, simplify_omitSteps right, simplify]
  | eachItem target body =>
      rw [omitSteps, simplify, simplify_omitSteps target, simplify_omitSteps body, simplify]
  | eachMember target body =>
      rw [omitSteps, simplify, simplify_omitSteps target, simplify_omitSteps body, simplify]
  | guard test body =>
      rw [omitSteps, simplify, simplify_omitSteps test, simplify_omitSteps body, simplify]
  | compare op left right =>
      rw [omitSteps, simplify, simplify_omitSteps left, simplify_omitSteps right, simplify]
  | both left right =>
      rw [omitSteps, simplify, simplify_omitSteps left, simplify_omitSteps right, simplify]
  | either left right =>
      rw [omitSteps, simplify, simplify_omitSteps left, simplify_omitSteps right, simplify]
  | guardCompare op left right body =>
      rw [omitSteps, simplify, simplify_omitSteps left, simplify_omitSteps right,
        simplify_omitSteps body, simplify]
  | guardLiteral negated left v body =>
      rw [omitSteps, simplify, simplify_omitSteps left, simplify_omitSteps body, simplify]
  | flatten child => rw [omitSteps, simplify, simplify_omitSteps child, simplify]
  | negate child => rw [omitSteps, simplify, simplify_omitSteps child, simplify]
  | presentItems target => rw [omitSteps, simplify, simplify_omitSteps target, simplify]
  | presentMembers target => rw [omitSteps, simplify, simplify_omitSteps target, simplify]
  | reference tag body => rw [omitSteps, simplify, simplify_omitSteps body, simplify]
  | list items => rw [omitSteps, simplify, simplifyList_omitSteps items, simplify]
  | hash entries => rw [omitSteps, simplify, simplifyEntries_omitSteps entries, simplify]
  | call name args lenient => rw [omitSteps, simplify, simplifyList_omitSteps args, simplify]
  | _ => rfl
termination_by structural q

theorem simplifyList_omitSteps (queries : List Query) :
    simplifyList (listOmitSteps queries) = simplifyList queries := by
  cases queries with
  | nil => rfl
  | cons query rest =>
      rw [listOmitSteps, simplifyList, simplify_omitSteps query, simplifyList_omitSteps rest,
        simplifyList]
termination_by structural queries

theorem simplifyEntries_omitSteps (entries : List (String × Query)) :
    simplifyEntries (entriesOmitSteps entries) = simplifyEntries entries := by
  cases entries with
  | nil => rfl
  | cons entry rest =>
      obtain ⟨key, query⟩ := entry
      rw [entriesOmitSteps, simplifyEntries, simplify_omitSteps query,
        simplifyEntries_omitSteps rest, simplifyEntries]
termination_by structural entries

end

/-! ## Equality -/

theorem equalsIn_simplify_iff (first : p.isRead = true) (second : q.isRead = true) :
    equalsIn same p.simplify q.simplify = equalsIn same p.omitSteps q.omitSteps := by
  rw [Bool.eq_iff_iff]
  constructor
  · intro equal
    rw [← expand_simplify p first, ← expand_simplify q second]
    exact respects_expand.equalsIn _ _ equal
  · intro equal
    rw [← simplify_omitSteps p, ← simplify_omitSteps q]
    exact equalsIn_simplify equal

end Query

variable {parser parser' : Parser} {text text' : String} {l r : Query}

/-- Equal expressions stay equal under simplification.  Different ones can become equal, but only by
a step of one that is written in one and left out in the other; comparing references sees the
difference. -/
theorem equals_simplify (first : parser.parse text = .ok l) (second : parser'.parse text' = .ok r) :
    (l.equals r = true → l.simplify.equals r.simplify = true) ∧
      l.simplify.equals r.simplify = l.omitSteps.equals r.omitSteps ∧
      ∀ (apply : Builtin.Apply) (v : Value),
        (Query.compare .eq (.reference none l) (.reference none r)).evalWith apply v =
            .answer (.bool (l.equals r)) ∧
          (Query.compare .eq (.reference none l) (.reference none r)).simplify.evalWith apply v =
            .answer (.bool (l.omitSteps.equals r.omitSteps)) := by
  have characterized : l.simplify.equals r.simplify = l.omitSteps.equals r.omitSteps :=
    Query.equalsIn_simplify_iff (isRead_of_parse first) (isRead_of_parse second)
  refine ⟨Query.equalsIn_simplify, characterized, fun apply v => ⟨rfl, ?_⟩⟩
  rw [← characterized]
  rfl

theorem equals_simplify_step :
    (Parser.mk false).parse "[1:3]" =
        .ok (.eachItem (.slice ⟨some 1, some 3, none⟩) .current) ∧
      (Parser.mk false).parse "[1:3:1]" =
        .ok (.eachItem (.slice ⟨some 1, some 3, some 1⟩) .current) ∧
      Query.equals (.eachItem (.slice ⟨some 1, some 3, none⟩) .current)
        (.eachItem (.slice ⟨some 1, some 3, some 1⟩) .current) = false ∧
      Query.equals (Query.simplify (.eachItem (.slice ⟨some 1, some 3, none⟩) .current))
        (Query.simplify (.eachItem (.slice ⟨some 1, some 3, some 1⟩) .current)) = true := by
  have short : (Parser.mk false).parse "[1:3]" =
      .ok (.eachItem (.slice ⟨some 1, some 3, none⟩) .current) := by cbv
  have long : (Parser.mk false).parse "[1:3:1]" =
      .ok (.eachItem (.slice ⟨some 1, some 3, some 1⟩) .current) := by cbv
  refine ⟨short, long, by decide, ?_⟩
  rw [(equals_simplify short long).2.1]
  decide

end JsonQuery
