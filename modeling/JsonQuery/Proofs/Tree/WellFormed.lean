import JsonQuery.Proofs.Equality.Congruence
import JsonQuery.Proofs.Grammar.Related
import JsonQuery.Proofs.Grammar.Shape
import JsonQuery.Proofs.Tree.Part

/-!
# Well-formed queries

What evaluation takes for granted of a query: where slices, flattenings and guards stand, that lists
and hashes are filled, that calls name functions, and that literals are documents.  Reading an
expression builds only such queries, without any fused form, and simplification keeps them well
formed.
-/

set_option autoImplicit false

namespace JsonQuery.Query

/-- The forms that only simplification builds. -/
inductive IsFused : Query → Prop
  | path (keys : List String) : IsFused (.path keys)
  | presentItems (target : Query) : IsFused (.presentItems target)
  | presentMembers (target : Query) : IsFused (.presentMembers target)
  | guardCompare (op : Comparator) (left right body : Query) :
      IsFused (.guardCompare op left right body)
  | guardLiteral (negated : Bool) (left : Query) (v : Value) (body : Query) :
      IsFused (.guardLiteral negated left v body)
  | range (start stop : Nat) : IsFused (.range start stop)

/-- Slices and flattenings stand where a projection from an array projects from them, and guards
where it applies them to the items. -/
def StandsAt (place : Place) : Query → Prop
  | .slice _ | .range _ _ | .flatten _ => place = .target
  | .guard _ _ | .guardCompare _ _ _ _ | .guardLiteral _ _ _ _ => place = .body
  | _ => True

/-- What a query requires of everything but its parts. -/
def IsSound (lenient : Bool) : Query → Prop
  | .slice s => s.Allowed
  | .range start stop => 0 < start ∧ start < stop
  | .path keys => 2 ≤ keys.length
  | .list items => items ≠ []
  | .hash entries => entries ≠ []
  | .call name _ mark => (Builtin.ofName? name).isSome = true ∧ mark = lenient
  | .literal v | .guardLiteral _ _ v _ => v.isDocument = true
  | _ => True

inductive WellFormed (lenient : Bool) : Place → Query → Prop
  | intro {place : Place} {q : Query} (stands : q.StandsAt place) (sound : q.IsSound lenient)
      (inside : ∀ part ∈ q.parts, WellFormed lenient part.1 part.2) : WellFormed lenient place q

namespace WellFormed

variable {lenient : Bool} {place : Place} {q child left right body target test : Query}

theorem stands (formed : WellFormed lenient place q) : q.StandsAt place := by
  cases formed with
  | intro stands _ _ => exact stands

theorem sound (formed : WellFormed lenient place q) : q.IsSound lenient := by
  cases formed with
  | intro _ sound _ => exact sound

theorem inside (formed : WellFormed lenient place q) {part : Place × Query}
    (found : part ∈ q.parts) : WellFormed lenient part.1 part.2 := by
  cases formed with
  | intro _ _ inside => exact inside part found

theorem single {inner : Place} (stands : q.StandsAt place) (sound : q.IsSound lenient)
    (only : q.parts = [(inner, child)]) (formed : WellFormed lenient inner child) :
    WellFormed lenient place q := by
  refine ⟨stands, sound, ?_⟩
  rw [only]
  exact List.forall_mem_singleton.mpr formed

theorem pair {outer inner : Place} (stands : q.StandsAt place) (sound : q.IsSound lenient)
    (both : q.parts = [(outer, left), (inner, right)]) (first : WellFormed lenient outer left)
    (second : WellFormed lenient inner right) : WellFormed lenient place q := by
  refine ⟨stands, sound, ?_⟩
  rw [both]
  exact List.forall_mem_cons.mpr ⟨first, List.forall_mem_singleton.mpr second⟩

/-- What needs no particular place can stand at any. -/
theorem anywhere (formed : WellFormed lenient .other q) (place : Place) :
    WellFormed lenient place q := by
  refine ⟨?_, formed.sound, fun part found => formed.inside found⟩
  have stands := formed.stands
  cases q with
  | slice | range | flatten | guard | guardCompare | guardLiteral => cases stands
  | _ => trivial

/-! ## Reading -/

theorem eachItem (source : WellFormed lenient .target target)
    (applied : WellFormed lenient .body body) : WellFormed lenient .other (.eachItem target body) :=
  .pair trivial trivial rfl source applied

theorem project {s t : Grammar.Source}
    (source : Grammar.Source.Related (fun p _ => WellFormed lenient .other p) s t)
    (formed : WellFormed lenient .other body) : WellFormed lenient .other (s.project body) := by
  cases source with
  | items target => exact .eachItem (target.anywhere _) (formed.anywhere _)
  | members target => exact .pair trivial trivial rfl target formed
  | flattened target =>
      have flattened : WellFormed lenient .target (.flatten _) := .single rfl trivial rfl target
      exact .eachItem flattened (formed.anywhere _)
  | filtered target test =>
      have guarded : WellFormed lenient .body (.guard _ body) := .pair rfl trivial rfl test formed
      exact .eachItem (target.anywhere _) guarded
  | @sliced _ _ related s allowed =>
      have selected : WellFormed lenient .target (.slice s) := ⟨rfl, allowed, nofun⟩
      have projected := eachItem selected (formed.anywhere _)
      cases related with
      | none => exact projected
      | some target => exact .pair trivial trivial rfl target projected

theorem join (op : Grammar.Connective) (first : WellFormed lenient .other left)
    (second : WellFormed lenient .other right) :
    WellFormed lenient .other (op.join left right) := by
  cases op <;> exact .pair trivial trivial rfl first second

theorem items {ps qs : List Query}
    (related : List.Forall₂ (fun p _ => WellFormed lenient .other p) ps qs) :
    ∀ part ∈ ps.map fun p => (Place.other, p), WellFormed lenient part.1 part.2 := by
  induction related with
  | nil => nofun
  | cons head _ ih => exact List.forall_mem_cons.mpr ⟨head, ih⟩

theorem entries {ps qs : Entries Query}
    (related : Entries.Coupled (fun p _ => WellFormed lenient .other p) ps qs) :
    ∀ part ∈ ps.map fun entry => (Place.other, entry.2), WellFormed lenient part.1 part.2 := by
  induction related with
  | nil => nofun
  | cons head _ ih => exact List.forall_mem_cons.mpr ⟨head.2, ih⟩

theorem builds : Grammar.Builds (fun p _ => WellFormed lenient .other p) lenient lenient where
  current := ⟨trivial, trivial, nofun⟩
  field _ := ⟨trivial, trivial, nofun⟩
  literal document := ⟨trivial, document, nofun⟩
  index _ := ⟨trivial, trivial, nofun⟩
  member left right := .pair trivial trivial rfl left right
  reference body := .single trivial trivial rfl body
  negation child := .single trivial trivial rfl child
  connective op _ _ _ _ left right := join op left right
  projection source _ _ body := project source body
  list related filled := ⟨trivial, filled, items related⟩
  hash related filled := ⟨trivial, filled, entries related⟩
  call known related := ⟨trivial, ⟨known, rfl⟩, items related⟩

theorem of_parse {text : String} (read : (Parser.mk lenient).parse text = .ok q) :
    WellFormed lenient .other q := by
  have both := Grammar.parse_related (builds : Grammar.Builds _ lenient lenient) text
  rw [read] at both
  cases both with
  | ok related => exact related

end WellFormed

theorem isRead_of_mem_parts {q : Query} (read : q.isRead = true) {part : Place × Query}
    (found : part ∈ q.parts) : part.2.isRead = true := by
  have listed {items : List Query} (all : listIsRead items = true)
      (found : part ∈ items.map fun item => (Place.other, item)) : part.2.isRead = true := by
    induction items with
    | nil => cases found
    | cons item rest ih =>
        simp only [listIsRead, Bool.and_eq_true] at all
        obtain rfl | later := List.mem_cons.mp found
        · exact all.1
        · exact ih all.2 later
  have named {entries : List (String × Query)} (all : entriesAreRead entries = true)
      (found : part ∈ entries.map fun entry => (Place.other, entry.2)) : part.2.isRead = true := by
    induction entries with
    | nil => cases found
    | cons entry rest ih =>
        simp only [entriesAreRead, Bool.and_eq_true] at all
        obtain rfl | later := List.mem_cons.mp found
        · exact all.1
        · exact ih all.2 later
  cases q with
  | list items => exact listed read found
  | call name args lenient => exact listed read found
  | hash entries => exact named read found
  | current | field | index | literal | slice => cases found
  | path | range | presentItems | presentMembers | guardCompare | guardLiteral => cases read
  | flatten | negate | reference =>
      obtain rfl := List.mem_singleton.mp found
      exact read
  | chain | pipe | eachItem | eachMember | guard | compare | both | either =>
      simp only [parts, List.mem_cons, List.not_mem_nil, or_false] at found
      simp only [isRead, Bool.and_eq_true] at read
      grind

theorem unfused_of_isRead {q : Query} (read : q.isRead = true) :
    q.Everywhere fun p => ¬p.IsFused := by
  induction q using induct_parts with
  | step q ih =>
      refine ⟨?_, fun part found => ih part found (isRead_of_mem_parts read found)⟩
      rintro (_ | _ | _ | _ | _ | _) <;> cases read

/-! ## Simplification -/

namespace WellFormed

variable {lenient : Bool} {place : Place} {q left right body target test : Query}

theorem keys_ne_nil (formed : WellFormed lenient place q) {keys : List String}
    (found : q.keys? = some keys) : 0 < keys.length := by
  cases q with
  | field name =>
      cases found
      exact Nat.one_pos
  | path keys' =>
      cases found
      have : 2 ≤ keys.length := formed.sound
      omega
  | _ => cases found

theorem path {outer inner : List String} (first : 0 < outer.length) (second : 0 < inner.length)
    (place : Place) : WellFormed lenient place (.path (outer ++ inner)) := by
  refine ⟨trivial, ?_, nofun⟩
  show 2 ≤ (outer ++ inner).length
  rw [List.length_append]
  omega

theorem fuseChain (first : WellFormed lenient .other left)
    (second : WellFormed lenient .other right) (place : Place) :
    WellFormed lenient place (fuseChain left right) := by
  have kept : WellFormed lenient place (.chain left right) := .pair trivial trivial rfl first second
  unfold Query.fuseChain
  split
  · rename_i outer inner
    exact path (first.keys_ne_nil outer) (second.keys_ne_nil inner) place
  · rename_i inner
    split
    · rename_i before last
      have beforeFormed := first.inside List.mem_cons_self
      have lastFormed := first.inside (List.mem_cons_of_mem _ List.mem_cons_self)
      split
      · rename_i outer
        have fused : WellFormed lenient .other (.path _) :=
          path (lastFormed.keys_ne_nil outer) (second.keys_ne_nil inner) .other
        exact .pair trivial trivial rfl beforeFormed fused
      · exact kept
    · exact kept
  · exact kept

theorem fuseItems (first : WellFormed lenient .target target)
    (second : WellFormed lenient .body body) (place : Place) :
    WellFormed lenient place (fuseItems target body) := by
  unfold Query.fuseItems
  split
  · exact .single trivial trivial rfl first
  · exact .pair trivial trivial rfl first second

theorem fuseMembers (first : WellFormed lenient .other target)
    (second : WellFormed lenient .other body) (place : Place) :
    WellFormed lenient place (fuseMembers target body) := by
  unfold Query.fuseMembers
  split
  · exact .single trivial trivial rfl first
  · exact .pair trivial trivial rfl first second

theorem fuseCompare (op : Comparator) (first : WellFormed lenient .other left)
    (second : WellFormed lenient .other right) (third : WellFormed lenient .other body) :
    WellFormed lenient .body (fuseCompare op left right body) := by
  unfold Query.fuseCompare
  split
  · exact .pair rfl second.sound rfl first third
  · exact .pair rfl second.sound rfl first third
  · refine ⟨rfl, trivial, ?_⟩
    simp only [parts, List.forall_mem_cons]
    exact ⟨first, second, third, List.forall_mem_nil _⟩

theorem fuseGuard (first : WellFormed lenient .other test)
    (second : WellFormed lenient .other body) :
    WellFormed lenient .body (fuseGuard test body) := by
  unfold Query.fuseGuard
  split
  · have left := first.inside List.mem_cons_self
    have right := first.inside (List.mem_cons_of_mem _ List.mem_cons_self)
    exact fuseCompare _ left right second
  · exact .pair rfl trivial rfl first second

theorem fuseSlice {s : Slice} (allowed : s.Allowed) :
    WellFormed lenient .target (fuseSlice s) := by
  have kept : WellFormed lenient .target (.slice s) := ⟨rfl, allowed, nofun⟩
  unfold Query.fuseSlice
  split
  · split
    · rename_i inside
      refine ⟨rfl, ?_, nofun⟩
      show 0 < _ ∧ _ < _
      omega
    · exact kept
  · exact kept

theorem simplify (formed : WellFormed lenient place q) : WellFormed lenient place q.simplify := by
  induction formed with
  | @intro place q stands sound inside ih =>
      cases q with
      | list items =>
          simp only [parts, List.forall_mem_map] at ih
          rw [Query.simplify, simplifyList_eq_map]
          refine ⟨trivial, fun empty => sound (List.map_eq_nil_iff.mp empty), ?_⟩
          simp only [parts, List.forall_mem_map]
          exact ih
      | call name args mark =>
          simp only [parts, List.forall_mem_map] at ih
          rw [Query.simplify, simplifyList_eq_map]
          refine ⟨trivial, sound, ?_⟩
          simp only [parts, List.forall_mem_map]
          exact ih
      | hash entries =>
          simp only [parts, List.forall_mem_map] at ih
          rw [Query.simplify, simplifyEntries_eq_map]
          refine ⟨trivial, fun empty => sound (List.map_eq_nil_iff.mp empty), ?_⟩
          simp only [parts, List.forall_mem_map]
          exact ih
      | current | field | index | literal | path | range =>
          exact ⟨stands, sound, List.forall_mem_nil _⟩
      | slice s =>
          cases stands
          exact fuseSlice sound
      | chain left right =>
          simp only [parts, List.forall_mem_cons] at ih
          exact fuseChain ih.1 ih.2.1 place
      | eachItem target body =>
          simp only [parts, List.forall_mem_cons] at ih
          exact fuseItems ih.1 ih.2.1 place
      | eachMember target body =>
          simp only [parts, List.forall_mem_cons] at ih
          exact fuseMembers ih.1 ih.2.1 place
      | guard test body =>
          cases stands
          simp only [parts, List.forall_mem_cons] at ih
          exact fuseGuard ih.1 ih.2.1
      | guardCompare op left right body =>
          cases stands
          simp only [parts, List.forall_mem_cons] at ih
          exact fuseCompare op ih.1 ih.2.1 ih.2.2.1
      | flatten | negate | presentItems | presentMembers | reference =>
          simp only [parts, List.forall_mem_cons] at ih
          exact .single stands sound rfl ih.1
      | pipe | compare | both | either | guardLiteral =>
          simp only [parts, List.forall_mem_cons] at ih
          exact .pair stands sound rfl ih.1 ih.2.1

end WellFormed

/-- A query that has been read is well formed, without fused forms, and stays well formed when it is
simplified. -/
theorem parse_wellFormed {lenient : Bool} {text : String} {q : Query}
    (read : (Parser.mk lenient).parse text = .ok q) :
    q.WellFormed lenient .other ∧ (q.Everywhere fun p => ¬p.IsFused) ∧
      q.simplify.WellFormed lenient .other :=
  ⟨.of_parse read, unfused_of_isRead (isRead_of_parse read), (WellFormed.of_parse read).simplify⟩

theorem parse_wellFormed_slice :
    (Parser.mk true).parse "abs(a)[1:3]" = .ok
        (.chain (.call "abs" [.field "a"] true)
          (.eachItem (.slice ⟨some 1, some 3, none⟩) .current)) ∧
      WellFormed true .other
        (.chain (.call "abs" [.field "a"] true) (.presentItems (.range 1 3))) := by
  have read : (Parser.mk true).parse "abs(a)[1:3]" = .ok
      (.chain (.call "abs" [.field "a"] true)
        (.eachItem (.slice ⟨some 1, some 3, none⟩) .current)) := by
    cbv
  exact ⟨read, (parse_wellFormed read).2.2⟩

end JsonQuery.Query
