import JsonQuery.Proofs.Equality.Congruence
import JsonQuery.Proofs.Tree.Part

/-!
# Normal forms

A query is normal when nothing in it has a shape that simplification replaces.  One pass reaches a
normal form, because each fusion makes a normal query of normal parts, and a normal query stays as
it is.
-/

set_option autoImplicit false

namespace JsonQuery.Query

/-- A member or a path. -/
inductive IsKeys : Query → Prop
  | field (name : String) : IsKeys (.field name)
  | path (keys : List String) : IsKeys (.path keys)

/-- The shapes that simplification replaces. -/
inductive IsRedex : Query → Prop
  | keys {left right : Query} (outer : left.IsKeys) (inner : right.IsKeys) :
      IsRedex (.chain left right)
  /-- The keys on the left end a chain. -/
  | keysBehind (first : Query) {last right : Query} (outer : last.IsKeys) (inner : right.IsKeys) :
      IsRedex (.chain (.chain first last) right)
  | items (target : Query) : IsRedex (.eachItem target .current)
  | members (target : Query) : IsRedex (.eachMember target .current)
  | comparison (op : Comparator) (left right body : Query) :
      IsRedex (.guard (.compare op left right) body)
  | equality (left : Query) (v : Value) (body : Query) :
      IsRedex (.guardCompare .eq left (.literal v) body)
  | inequality (left : Query) (v : Value) (body : Query) :
      IsRedex (.guardCompare .ne left (.literal v) body)
  | slice {start stop : Int64} {step : Option Int64} (one : step = none ∨ step = some 1)
      (positive : 0 < start.toInt) (ordered : start.toInt < stop.toInt) :
      IsRedex (.slice ⟨some start, some stop, step⟩)

/-- Nothing in the query has a shape that simplification replaces. -/
def IsNormal (q : Query) : Prop :=
  Everywhere (fun p => ¬p.IsRedex) q

variable {q left right body target test : Query}

theorem isKeys_iff : q.IsKeys ↔ ∃ keys, q.keys? = some keys := by
  constructor
  · rintro (name | keys)
    · exact ⟨[name], rfl⟩
    · exact ⟨keys, rfl⟩
  · rintro ⟨keys, found⟩
    cases q with
    | field name => exact .field name
    | path keys => exact .path keys
    | _ => cases found

theorem isNormal_path (keys : List String) : (path keys).IsNormal :=
  ⟨nofun, nofun⟩

/-! ## Shapes that are kept -/

theorem fuseChain_eq_chain (kept : ¬IsRedex (.chain left right)) :
    fuseChain left right = .chain left right := by
  have outside : ¬(left.IsKeys ∧ right.IsKeys) := fun both => kept (.keys both.1 both.2)
  have behind (first last : Query) (same : left = .chain first last) :
      ¬(last.IsKeys ∧ right.IsKeys) := by
    rintro ⟨outer, inner⟩
    subst same
    exact kept (.keysBehind first outer inner)
  simp only [isKeys_iff] at outside behind
  unfold fuseChain
  split
  · rename_i outer inner
    exact absurd ⟨⟨_, outer⟩, ⟨_, inner⟩⟩ outside
  · rename_i inner
    split
    · split
      · rename_i outer
        exact absurd ⟨⟨_, outer⟩, ⟨_, inner⟩⟩ (behind _ _ rfl)
      · rfl
    · rfl
  · rfl

theorem fuseItems_eq_eachItem (kept : ¬IsRedex (.eachItem target body)) :
    fuseItems target body = .eachItem target body := by
  cases body with
  | current => exact absurd (.items target) kept
  | _ => rfl

theorem fuseMembers_eq_eachMember (kept : ¬IsRedex (.eachMember target body)) :
    fuseMembers target body = .eachMember target body := by
  cases body with
  | current => exact absurd (.members target) kept
  | _ => rfl

theorem fuseCompare_eq_guardCompare {op : Comparator}
    (kept : ¬IsRedex (.guardCompare op left right body)) :
    fuseCompare op left right body = .guardCompare op left right body := by
  cases right with
  | literal v =>
      cases op with
      | eq => exact absurd (.equality left v body) kept
      | ne => exact absurd (.inequality left v body) kept
      | _ => rfl
  | _ => cases op <;> rfl

theorem fuseGuard_eq_guard (kept : ¬IsRedex (.guard test body)) :
    fuseGuard test body = .guard test body := by
  cases test with
  | compare op left right => exact absurd (.comparison op left right body) kept
  | _ => rfl

theorem fuseSlice_eq_slice {s : Slice} (kept : ¬IsRedex (.slice s)) : fuseSlice s = .slice s := by
  obtain ⟨start, stop, step⟩ := s
  unfold fuseSlice
  split
  · rename_i start stop starts stops
    obtain rfl : _ = some start := starts
    obtain rfl : _ = some stop := stops
    split
    · rename_i plain
      exact absurd (.slice plain.1 plain.2.1 plain.2.2) kept
    · rfl
  · rfl

/-! ## Fusions of normal queries -/

theorem isNormal_fuseChain (first : left.IsNormal) (second : right.IsNormal) :
    (fuseChain left right).IsNormal := by
  by_cases redex : IsRedex (.chain left right)
  · cases redex with
    | keys outer inner =>
        obtain ⟨outer, found⟩ := isKeys_iff.mp outer
        obtain ⟨inner, found'⟩ := isKeys_iff.mp inner
        simp only [fuseChain, found, found']
        exact isNormal_path _
    | @keysBehind before last _ outer inner =>
        -- the keys move one chain inwards, and nothing there has fused with the last of them
        have kept : ¬IsRedex (.chain before last) := first.here
        obtain ⟨keys, found⟩ := isKeys_iff.mp outer
        obtain ⟨keys', found'⟩ := isKeys_iff.mp inner
        have none : (Query.chain before last).keys? = none := rfl
        have fused :
            fuseChain (.chain before last) right = .chain before (.path (keys ++ keys')) := by
          simp only [fuseChain, none, found, found']
        rw [fused]
        refine .pair ?_ rfl (first.inside List.mem_cons_self) (isNormal_path _)
        intro again
        cases again with
        | keys outer' _ => exact kept (.keys outer' outer)
        | keysBehind before outer' _ => exact kept (.keysBehind before outer' outer)
  · rw [fuseChain_eq_chain redex]
    exact .pair redex rfl first second

theorem isNormal_fuseItems (first : target.IsNormal) (second : body.IsNormal) :
    (fuseItems target body).IsNormal := by
  by_cases redex : IsRedex (.eachItem target body)
  · cases redex
    exact .single nofun rfl first
  · rw [fuseItems_eq_eachItem redex]
    exact .pair redex rfl first second

theorem isNormal_fuseMembers (first : target.IsNormal) (second : body.IsNormal) :
    (fuseMembers target body).IsNormal := by
  by_cases redex : IsRedex (.eachMember target body)
  · cases redex
    exact .single nofun rfl first
  · rw [fuseMembers_eq_eachMember redex]
    exact .pair redex rfl first second

theorem isNormal_fuseCompare (op : Comparator) (first : left.IsNormal) (second : right.IsNormal)
    (third : body.IsNormal) : (fuseCompare op left right body).IsNormal := by
  by_cases redex : IsRedex (.guardCompare op left right body)
  · cases redex with
    | equality => exact .pair nofun rfl first third
    | inequality => exact .pair nofun rfl first third
  · rw [fuseCompare_eq_guardCompare redex]
    refine ⟨redex, ?_⟩
    simp only [parts, List.forall_mem_cons]
    exact ⟨first, second, third, List.forall_mem_nil _⟩

theorem isNormal_fuseGuard (first : test.IsNormal) (second : body.IsNormal) :
    (fuseGuard test body).IsNormal := by
  by_cases redex : IsRedex (.guard test body)
  · cases redex with
    | comparison op left right =>
        have left := first.inside List.mem_cons_self
        have right := first.inside (List.mem_cons_of_mem _ List.mem_cons_self)
        exact isNormal_fuseCompare op left right second
  · rw [fuseGuard_eq_guard redex]
    exact .pair redex rfl first second

theorem isNormal_fuseSlice (s : Slice) : (fuseSlice s).IsNormal := by
  by_cases redex : IsRedex (.slice s)
  · cases redex with
    | slice one positive ordered =>
        simp only [fuseSlice, if_pos (And.intro one (And.intro positive ordered))]
        exact ⟨nofun, nofun⟩
  · rw [fuseSlice_eq_slice redex]
    exact ⟨redex, nofun⟩

/-! ## The pass -/

theorem isNormal_simplify (q : Query) : q.simplify.IsNormal := by
  induction q using induct_parts with
  | step q ih =>
      cases q with
      | list items =>
          have listed : (Query.list items).simplify = .list (items.map simplify) := by
            rw [simplify, simplifyList_eq_map]
          simp only [parts, List.forall_mem_map] at ih
          rw [listed]
          exact .list (by rintro ⟨⟩) rfl (List.forall_mem_map.mpr ih)
      | call name args lenient =>
          have listed : (call name args lenient).simplify =
              .call name (args.map simplify) lenient := by
            rw [simplify, simplifyList_eq_map]
          simp only [parts, List.forall_mem_map] at ih
          rw [listed]
          exact .list (by rintro ⟨⟩) rfl (List.forall_mem_map.mpr ih)
      | hash entries =>
          have listed : (hash entries).simplify =
              .hash (entries.map fun entry => (entry.1, simplify entry.2)) := by
            rw [simplify, simplifyEntries_eq_map]
          simp only [parts, List.forall_mem_map] at ih
          rw [listed]
          refine ⟨by rintro ⟨⟩, ?_⟩
          simp only [parts, List.forall_mem_map]
          exact ih
      | current | field | index | literal | path | range =>
          exact ⟨by rintro ⟨⟩, List.forall_mem_nil _⟩
      | slice s => exact isNormal_fuseSlice s
      | chain left right =>
          simp only [parts, List.forall_mem_cons] at ih
          exact isNormal_fuseChain ih.1 ih.2.1
      | eachItem target body =>
          simp only [parts, List.forall_mem_cons] at ih
          exact isNormal_fuseItems ih.1 ih.2.1
      | eachMember target body =>
          simp only [parts, List.forall_mem_cons] at ih
          exact isNormal_fuseMembers ih.1 ih.2.1
      | guard test body =>
          simp only [parts, List.forall_mem_cons] at ih
          exact isNormal_fuseGuard ih.1 ih.2.1
      | guardCompare op left right body =>
          simp only [parts, List.forall_mem_cons] at ih
          exact isNormal_fuseCompare op ih.1 ih.2.1 ih.2.2.1
      | flatten | negate | presentItems | presentMembers | reference =>
          simp only [parts, List.forall_mem_cons] at ih
          exact .single (by rintro ⟨⟩) rfl ih.1
      | pipe | compare | both | either | guardLiteral =>
          simp only [parts, List.forall_mem_cons] at ih
          exact .pair (by rintro ⟨⟩) rfl ih.1 ih.2.1

theorem simplify_eq_self (normal : q.IsNormal) : q.simplify = q := by
  induction normal with
  | @intro q kept _ ih =>
      cases q with
      | list items =>
          simp only [parts, List.forall_mem_map] at ih
          rw [simplify, simplifyList_eq_map, List.map_congr_left ih, List.map_id']
      | call name args lenient =>
          simp only [parts, List.forall_mem_map] at ih
          rw [simplify, simplifyList_eq_map, List.map_congr_left ih, List.map_id']
      | hash entries =>
          simp only [parts, List.forall_mem_map] at ih
          have same : ∀ entry ∈ entries, (entry.1, simplify entry.2) = entry :=
            fun entry found => Prod.ext rfl (ih entry found)
          rw [simplify, simplifyEntries_eq_map, List.map_congr_left same, List.map_id']
      | current | field | index | literal | path | range => rfl
      | slice s => exact fuseSlice_eq_slice kept
      | chain left right =>
          simp only [parts, List.forall_mem_cons] at ih
          rw [simplify, ih.1, ih.2.1, fuseChain_eq_chain kept]
      | eachItem target body =>
          simp only [parts, List.forall_mem_cons] at ih
          rw [simplify, ih.1, ih.2.1, fuseItems_eq_eachItem kept]
      | eachMember target body =>
          simp only [parts, List.forall_mem_cons] at ih
          rw [simplify, ih.1, ih.2.1, fuseMembers_eq_eachMember kept]
      | guard test body =>
          simp only [parts, List.forall_mem_cons] at ih
          rw [simplify, ih.1, ih.2.1, fuseGuard_eq_guard kept]
      | guardCompare op left right body =>
          simp only [parts, List.forall_mem_cons] at ih
          rw [simplify, ih.1, ih.2.1, ih.2.2.1, fuseCompare_eq_guardCompare kept]
      | flatten | negate | presentItems | presentMembers | reference =>
          simp only [parts, List.forall_mem_cons] at ih
          rw [simplify, ih.1]
      | pipe | compare | both | either | guardLiteral =>
          simp only [parts, List.forall_mem_cons] at ih
          rw [simplify, ih.1, ih.2.1]

/-- One pass reaches a normal form, and exactly the normal forms are left as they are. -/
theorem simplify_normal_form (q : Query) :
    q.simplify.IsNormal ∧ (q.simplify = q ↔ q.IsNormal) ∧ q.simplify.simplify = q.simplify := by
  refine ⟨isNormal_simplify q, ⟨?_, simplify_eq_self⟩, simplify_eq_self (isNormal_simplify q)⟩
  intro same
  rw [← same]
  exact isNormal_simplify q

end JsonQuery.Query
