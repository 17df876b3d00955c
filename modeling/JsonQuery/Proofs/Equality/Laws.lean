import JsonQuery.Proofs.Equality.Node
import Mathlib.Data.List.Perm.Subperm

/-!
# The laws of equality

Undefined numbers equal nothing, and of entries under one key only the first is seen.  Without these
equality is reflexive and symmetric, it does not see the order of keys, and what can be observed of
values is the same of equal ones.
-/

set_option autoImplicit false

namespace JsonQuery

open List (Forall₂)

/-! ## Values without undefined numbers and repeated keys -/

mutual

/-- No number in the value is undefined, and no key in it repeats. -/
inductive Value.Proper : Value → Prop
  | null : Value.Proper .null
  | bool (b : Bool) : Value.Proper (.bool b)
  | int (n : Int64) : Value.Proper (.int n)
  | float {x : Float} (defined : Binary64.isNaN x = false) : Value.Proper (.float x)
  | string (s : String) : Value.Proper (.string s)
  | array {items : List Value} (inside : ∀ v ∈ items, v.Proper) : Value.Proper (.array items)
  | object {entries : Entries Value} (distinct : (Entries.keys entries).Nodup)
      (inside : ∀ entry ∈ entries, entry.2.Proper) : Value.Proper (.object entries)
  | reference (tag : Tag) {body : Query} (inside : body.Proper) : Value.Proper (.reference tag body)

/-- The same of the literals in a query. -/
inductive Query.Proper : Query → Prop
  | intro {q : Query} (literals : ∀ v ∈ q.literals, v.Proper)
      (children : ∀ child ∈ q.children, child.Proper) : Query.Proper q

end

mutual

/-- The second value is the first one, but for the order of entries in objects. -/
inductive Value.Rearranged : Value → Value → Prop
  | same (v : Value) : Value.Rearranged v v
  | array {as bs : List Value} (items : Forall₂ Value.Rearranged as bs) :
      Value.Rearranged (.array as) (.array bs)
  | object {as bs cs : Entries Value} (keys : Entries.keys as = Entries.keys bs)
      (members : Forall₂ Value.Rearranged (Entries.values as) (Entries.values bs))
      (order : bs.Perm cs) : Value.Rearranged (.object as) (.object cs)
  | reference {tag tag' : Tag} {p q : Query} (body : p.Rearranged q) :
      Value.Rearranged (.reference tag p) (.reference tag' q)

/-- The same of the literals in two queries that are otherwise alike. -/
inductive Query.Rearranged : Query → Query → Prop
  | same (q : Query) : Query.Rearranged q q
  | intro {p q : Query} (head : p.head = q.head)
      (literals : Forall₂ Value.Rearranged p.literals q.literals)
      (children : Forall₂ Query.Rearranged p.children q.children) : Query.Rearranged p q

end

namespace Value.Proper

theorem of_float {x : Float} (proper : (Value.float x).Proper) : Binary64.isNaN x = false := by
  cases proper with
  | float defined => exact defined

theorem of_array {items : List Value} (proper : (Value.array items).Proper) :
    ∀ v ∈ items, v.Proper := by
  cases proper with
  | array inside => exact inside

theorem of_object {entries : Entries Value} (proper : (Value.object entries).Proper) :
    (Entries.keys entries).Nodup ∧ ∀ entry ∈ entries, entry.2.Proper := by
  cases proper with
  | object distinct inside => exact ⟨distinct, inside⟩

theorem of_reference {tag : Tag} {body : Query} (proper : (Value.reference tag body).Proper) :
    body.Proper := by
  cases proper with
  | reference _ inside => exact inside

end Value.Proper

theorem Query.Proper.pieces {q : Query} (proper : q.Proper) :
    (∀ v ∈ q.literals, v.Proper) ∧ ∀ child ∈ q.children, child.Proper := by
  cases proper with
  | intro literals children => exact ⟨literals, children⟩

/-- What can be observed of two values is the same. -/
structure Value.Alike (a b : Value) : Prop where
  typeName : a.kind.name = b.kind.name
  isTruthy : a.isTruthy = b.isTruthy
  isNull : a.isNull = b.isNull
  isNumber : a.isNumber = b.isNumber
  itemCount : a.items?.map List.length = b.items?.map List.length
  entryCount : a.entries?.map List.length = b.entries?.map List.length
  keys {as bs : Entries Value} : a = .object as → b = .object bs →
    ∀ key, key ∈ Entries.keys as ↔ key ∈ Entries.keys bs
  members {as bs : Entries Value} : a = .object as → b = .object bs →
    ∀ key x y, (key, x) ∈ as → (key, y) ∈ bs → x.equals y = true

/-! ## Numbers and tags -/

theorem Binary64.equals_comm (x y : Float) : equals x y = equals y x := by
  rw [equals, equals, Bool.and_comm (!isNaN x), BEq.comm]

theorem Binary64.equals_self {x : Float} (defined : isNaN x = false) : equals x x = true := by
  simp [equals, defined]

theorem Tag.same_comm (tag tag' : Tag) : Tag.same tag tag' = Tag.same tag' tag := by
  cases tag <;> cases tag' <;> first | rfl | exact BEq.comm

/-! ## Objects -/

namespace Entries

variable {α : Type} {entries as bs : Entries α}

theorem exists_of_mem_keys {key : String} (found : key ∈ keys entries) :
    ∃ a, (key, a) ∈ entries := by
  obtain ⟨⟨key, a⟩, inside, rfl⟩ := List.mem_map.mp found
  exact ⟨a, inside⟩

theorem mem_keys_of_mem {key : String} {a : α} (inside : (key, a) ∈ entries) :
    key ∈ keys entries :=
  List.mem_map_of_mem inside

theorem unique {key : String} {a b : α} (distinct : (keys entries).Nodup)
    (first : (key, a) ∈ entries) (second : (key, b) ∈ entries) : a = b := by
  rw [← get?_eq_some_iff distinct] at first second
  exact Option.some.inj (first.symm.trans second)

/-- If all keys of some entries are found among no more entries, no other keys are there. -/
theorem keys_perm_of_subset (distinct : (keys as).Nodup) (found : keys as ⊆ keys bs)
    (length : as.length = bs.length) : (keys as).Perm (keys bs) := by
  refine (List.subperm_of_subset distinct found).perm_of_length_le ?_
  rw [keys, keys, List.length_map, List.length_map]
  exact Nat.le_of_eq length.symm

theorem length_eq_of_keys_perm (order : (keys as).Perm (keys bs)) : as.length = bs.length := by
  simpa only [keys, List.length_map] using order.length_eq

/-- Under the keys of the first entries stand the related members of the second ones. -/
theorem exists_related {R : α → α → Prop} (same : keys as = keys bs)
    (related : Forall₂ R (values as) (values bs)) {key : String} {a : α} (inside : (key, a) ∈ as) :
    ∃ b, (key, b) ∈ bs ∧ R a b := by
  induction as generalizing bs with
  | nil => cases inside
  | cons entry as ih =>
      cases bs with
      | nil => cases same
      | cons entry' bs =>
          obtain ⟨first, rest⟩ := List.forall₂_cons.mp related
          obtain ⟨firstKey, restKeys⟩ := List.cons.inj same
          rcases List.mem_cons.mp inside with rfl | later
          · refine ⟨entry'.2, ?_, first⟩
            rw [show key = entry'.1 from firstKey]
            exact List.mem_cons_self
          · obtain ⟨b, found, relates⟩ := ih restKeys rest later
            exact ⟨b, List.mem_cons_of_mem _ found, relates⟩

end Entries

/-- Objects are equal if they have the same keys, and equal members under each. -/
theorem Value.equalsIn_object_iff {same : Bool} {as bs : Entries Value}
    (distinct : (Entries.keys as).Nodup) (distinct' : (Entries.keys bs).Nodup) :
    equalsIn same (.object as) (.object bs) = true ↔
      (Entries.keys as).Perm (Entries.keys bs) ∧
        ∀ key a b, (key, a) ∈ as → (key, b) ∈ bs → equalsIn same a b = true := by
  rw [equalsIn, Bool.and_eq_true, beq_iff_eq, entriesWithin_iff]
  constructor
  · rintro ⟨length, within⟩
    refine ⟨Entries.keys_perm_of_subset distinct ?_ length, ?_⟩
    · intro key held
      obtain ⟨a, inside⟩ := Entries.exists_of_mem_keys held
      obtain ⟨b, found, -⟩ := within _ inside
      exact Entries.mem_keys_of_mem ((Entries.get?_eq_some_iff distinct').mp found)
    · intro key a b inside inside'
      obtain ⟨b', found, equal⟩ := within _ inside
      -- no other member of the second object has this key
      rw [(Entries.get?_eq_some_iff distinct').mpr inside'] at found
      cases found
      exact equal
  · rintro ⟨order, equal⟩
    refine ⟨Entries.length_eq_of_keys_perm order, ?_⟩
    rintro ⟨key, a⟩ inside
    have held := order.subset (Entries.mem_keys_of_mem inside)
    obtain ⟨b, inside'⟩ := Entries.exists_of_mem_keys held
    exact ⟨b, (Entries.get?_eq_some_iff distinct').mpr inside', equal key a b inside inside'⟩

/-! ## Reordered entries -/

theorem Value.Rearranged.of_array {as : List Value} {b : Value}
    (rearranged : (Value.array as).Rearranged b) :
    ∃ bs, b = .array bs ∧ Forall₂ Value.Rearranged as bs := by
  cases rearranged with
  | same => exact ⟨as, rfl, List.forall₂_same.mpr fun v _ => .same v⟩
  | @array _ bs items => exact ⟨bs, rfl, items⟩

/-- The members of an object are found under the same keys in the reordered one. -/
theorem Value.Rearranged.of_object {as : Entries Value} {b : Value}
    (rearranged : (Value.object as).Rearranged b) :
    ∃ bs, b = .object bs ∧ (Entries.keys as).Perm (Entries.keys bs) ∧
      ∀ key v, (key, v) ∈ as → ∃ w, (key, w) ∈ bs ∧ v.Rearranged w := by
  cases rearranged with
  | same => exact ⟨as, rfl, .refl _, fun key v inside => ⟨v, inside, .same v⟩⟩
  | @object _ bs cs keys members order =>
      refine ⟨cs, rfl, keys ▸ order.map Prod.fst, ?_⟩
      intro key v inside
      obtain ⟨w, found, rearranged⟩ := Entries.exists_related keys members inside
      exact ⟨w, order.subset found, rearranged⟩

theorem Query.Rearranged.pieces {p q : Query} (rearranged : p.Rearranged q) :
    p.head = q.head ∧ Forall₂ Value.Rearranged p.literals q.literals ∧
      Forall₂ Query.Rearranged p.children q.children := by
  cases rearranged with
  | same =>
      refine ⟨rfl, ?_, ?_⟩
      · exact List.forall₂_same.mpr fun v _ => .same v
      · exact List.forall₂_same.mpr fun child _ => .same child
  | intro head literals children => exact ⟨head, literals, children⟩

/-! ## The laws -/

/-- The value equals what it becomes when entries in it change places. -/
def Value.EqualsRearranged (a : Value) : Prop :=
  ∀ (b : Value) (same : Bool), a.Proper → a.Rearranged b → equalsIn same a b = true

def Query.EqualsRearranged (p : Query) : Prop :=
  ∀ (q : Query) (same : Bool), p.Proper → p.Rearranged q → equalsIn same p q = true

theorem Value.equalsRearranged {a : Value} (inside : ∀ v ∈ a.inside, v.EqualsRearranged)
    (bodies : ∀ p ∈ a.bodies, p.EqualsRearranged) : a.EqualsRearranged := by
  intro b same proper rearranged
  cases a with
  | null =>
      cases rearranged
      rfl
  | bool b =>
      cases rearranged
      exact BEq.rfl
  | int n =>
      cases rearranged
      exact BEq.rfl (α := Int64)
  | float x =>
      cases rearranged
      rw [equalsIn, Binary64.equals_self proper.of_float, Bool.true_or]
  | string s =>
      cases rearranged
      exact BEq.rfl (α := String)
  | array as =>
      obtain ⟨bs, rfl, pairs⟩ := rearranged.of_array
      refine listEqualsIn_iff.mpr (forall₂_imp_of_mem pairs ?_)
      intro v found w _ moved
      exact inside v found w same (proper.of_array v found) moved
  | object as =>
      obtain ⟨bs, rfl, order, members⟩ := rearranged.of_object
      obtain ⟨distinct, proper⟩ := proper.of_object
      have distinct' : (Entries.keys bs).Nodup := order.nodup_iff.mp distinct
      refine (equalsIn_object_iff distinct distinct').mpr ⟨order, ?_⟩
      intro key v w found found'
      obtain ⟨w', found'', moved⟩ := members key v found
      obtain rfl : w' = w := Entries.unique distinct' found'' found'
      exact inside v (List.mem_map_of_mem found) w' same (proper (key, v) found) moved
  | reference tag p =>
      have body := bodies p (List.mem_singleton_self p)
      cases rearranged with
      | same => exact body p _ proper.of_reference (.same p)
      | @reference _ _ _ q moved => exact body q _ proper.of_reference moved

theorem Query.equalsRearranged {p : Query} (literals : ∀ v ∈ p.literals, v.EqualsRearranged)
    (children : ∀ child ∈ p.children, child.EqualsRearranged) : p.EqualsRearranged := by
  intro q same proper rearranged
  obtain ⟨head, movedLiterals, movedChildren⟩ := rearranged.pieces
  obtain ⟨properLiterals, properChildren⟩ := proper.pieces
  refine equalsIn_iff.mpr ⟨head, ?_, ?_⟩
  · refine forall₂_imp_of_mem movedLiterals ?_
    intro v found w _ moved
    exact literals v found w same (properLiterals v found) moved
  · refine forall₂_imp_of_mem movedChildren ?_
    intro child found child' _ moved
    exact children child found child' same (properChildren child found) moved

/-- What equals the value on its right equals it on its left. -/
def Value.EqualsBack (a : Value) : Prop :=
  ∀ (b : Value) (same : Bool), a.Proper → b.Proper → equalsIn same a b = true →
    equalsIn same b a = true

def Query.EqualsBack (p : Query) : Prop :=
  ∀ (q : Query) (same : Bool), p.Proper → q.Proper → equalsIn same p q = true →
    equalsIn same q p = true

theorem Value.equalsBack {a : Value} (inside : ∀ v ∈ a.inside, v.EqualsBack)
    (bodies : ∀ p ∈ a.bodies, p.EqualsBack) : a.EqualsBack := by
  intro b same left right equal
  cases a with
  | null =>
      cases b with
      | null => rfl
      | _ => cases equal
  | bool x =>
      cases b with
      | bool y => exact BEq.symm equal
      | _ => cases equal
  | int m =>
      cases b with
      | int n => exact BEq.symm (α := Int64) equal
      -- both orders of an integer and a binary64 number are compared alike
      | float y => exact equal
      | _ => cases equal
  | float x =>
      cases b with
      | int n => exact equal
      | float y =>
          rw [equalsIn, Binary64.equals_comm, Bool.and_right_comm]
          exact equal
      | _ => cases equal
  | string s =>
      cases b with
      | string t => exact BEq.symm (α := String) equal
      | _ => cases equal
  | array as =>
      cases b with
      | array bs =>
          refine listEqualsIn_iff.mpr (List.Forall₂.flip ?_)
          refine forall₂_imp_of_mem (listEqualsIn_iff.mp equal) ?_
          intro v found w found' equal
          exact inside v found w same (left.of_array v found) (right.of_array w found') equal
      | _ => cases equal
  | object as =>
      cases b with
      | object bs =>
          obtain ⟨distinct, left⟩ := left.of_object
          obtain ⟨distinct', right⟩ := right.of_object
          obtain ⟨order, members⟩ := (equalsIn_object_iff distinct distinct').mp equal
          refine (equalsIn_object_iff distinct' distinct).mpr ⟨order.symm, ?_⟩
          intro key w v found' found
          exact inside v (List.mem_map_of_mem found) w same (left (key, v) found)
            (right (key, w) found') (members key v w found found')
      | _ => cases equal
  | reference tag p =>
      cases b with
      | reference tag' q =>
          rw [equalsIn, Tag.same_comm]
          exact bodies p (List.mem_singleton_self p) q _ left.of_reference right.of_reference equal
      | _ => cases equal

theorem Query.equalsBack {p : Query} (literals : ∀ v ∈ p.literals, v.EqualsBack)
    (children : ∀ child ∈ p.children, child.EqualsBack) : p.EqualsBack := by
  intro q same left right equal
  obtain ⟨head, equalLiterals, equalChildren⟩ := equalsIn_iff.mp equal
  obtain ⟨leftLiterals, leftChildren⟩ := left.pieces
  obtain ⟨rightLiterals, rightChildren⟩ := right.pieces
  refine equalsIn_iff.mpr ⟨head.symm, List.Forall₂.flip ?_, List.Forall₂.flip ?_⟩
  · refine forall₂_imp_of_mem equalLiterals ?_
    intro v found w found' equal
    exact literals v found w same (leftLiterals v found) (rightLiterals w found') equal
  · refine forall₂_imp_of_mem equalChildren ?_
    intro child found child' found' equal
    exact children child found child' same (leftChildren child found)
      (rightChildren child' found') equal

/-! ## Observations -/

namespace Value

variable {a b : Value}

theorem isNull_eq (a : Value) : a.isNull = decide (a.kind = .null) := by
  cases a <;> rfl

theorem isNumber_eq (a : Value) : a.isNumber = decide (a.kind = .number) := by
  cases a <;> rfl

theorem entries?_eq_none (other : a.kind ≠ .object) : a.entries? = none := by
  cases a with
  | object entries => exact absurd rfl other
  | _ => rfl

/-- Values that are no objects look the same if they do so in all other respects. -/
theorem Alike.of_no_object (kind : a.kind = b.kind) (other : a.kind ≠ .object)
    (truthy : a.isTruthy = b.isTruthy)
    (count : a.items?.map List.length = b.items?.map List.length) : a.Alike b where
  typeName := congrArg Kind.name kind
  isTruthy := truthy
  isNull := by rw [isNull_eq, isNull_eq, kind]
  isNumber := by rw [isNumber_eq, isNumber_eq, kind]
  itemCount := count
  entryCount := by rw [entries?_eq_none other, entries?_eq_none (kind ▸ other)]
  keys object := absurd (congrArg Value.kind object) other
  members object := absurd (congrArg Value.kind object) other

theorem isEmpty_eq_of_length {α : Type} {as bs : List α} (length : as.length = bs.length) :
    as.isEmpty = bs.isEmpty := by
  cases as <;> cases bs <;> first | rfl | cases length

/-- Equal values look the same. -/
theorem alike_of_equals (left : a.Proper) (right : b.Proper) (equal : a.equals b = true) :
    a.Alike b := by
  cases a with
  | null =>
      cases b with
      | null => exact .of_no_object rfl nofun rfl rfl
      | _ => cases equal
  | bool x =>
      cases b with
      | bool y =>
          obtain rfl : x = y := eq_of_beq equal
          exact .of_no_object rfl nofun rfl rfl
      | _ => cases equal
  | int m =>
      cases b with
      | int n => exact .of_no_object rfl nofun rfl rfl
      | float y => exact .of_no_object rfl nofun rfl rfl
      | _ => cases equal
  | float x =>
      cases b with
      | int n => exact .of_no_object rfl nofun rfl rfl
      | float y => exact .of_no_object rfl nofun rfl rfl
      | _ => cases equal
  | string s =>
      cases b with
      | string t =>
          obtain rfl : s = t := LawfulBEq.eq_of_beq (α := String) equal
          exact .of_no_object rfl nofun rfl rfl
      | _ => cases equal
  | array as =>
      cases b with
      | array bs =>
          have length : as.length = bs.length := (listEqualsIn_iff.mp equal).length_eq
          refine .of_no_object rfl nofun ?_ (congrArg some length)
          exact congrArg not (isEmpty_eq_of_length length)
      | _ => cases equal
  | object as =>
      cases b with
      | object bs =>
          obtain ⟨order, members⟩ :=
            (equalsIn_object_iff left.of_object.1 right.of_object.1).mp equal
          have length : as.length = bs.length := Entries.length_eq_of_keys_perm order
          refine ⟨rfl, congrArg not (isEmpty_eq_of_length length), rfl, rfl, rfl,
            congrArg some length, ?_, ?_⟩
          · rintro as bs ⟨⟩ ⟨⟩ key
            exact order.mem_iff
          · rintro as bs ⟨⟩ ⟨⟩ key x y found found'
            exact members key x y found found'
      | _ => cases equal
  | reference tag p =>
      cases b with
      | reference tag' q => exact .of_no_object rfl nofun rfl rfl
      | _ => cases equal

end Value

/-- Without undefined numbers and repeated keys, equality is reflexive and symmetric, does not see
the order of entries, and holds only of values that look the same. -/
theorem equality_laws :
    (∀ a : Value, a.Proper → a.equals a = true) ∧
    (∀ a b : Value, a.Proper → b.Proper → a.equals b = true → b.equals a = true) ∧
    (∀ a b : Value, a.Proper → a.Rearranged b → a.equals b = true) ∧
    (∀ a b : Value, a.Proper → b.Proper → a.equals b = true → a.Alike b) ∧
    (∀ p : Query, p.Proper → p.equals p = true) ∧
    ∀ p q : Query, p.Proper → q.Proper → p.equals q = true → q.equals p = true := by
  have moved : CarriesOver Value.EqualsRearranged Query.EqualsRearranged :=
    ⟨fun _ => Value.equalsRearranged, fun _ => Query.equalsRearranged⟩
  have back : CarriesOver Value.EqualsBack Query.EqualsBack :=
    ⟨fun _ => Value.equalsBack, fun _ => Query.equalsBack⟩
  refine ⟨?_, ?_, ?_, ?_, ?_, ?_⟩
  · intro a proper
    exact moved.onValue a a false proper (.same a)
  · intro a b left right equal
    exact back.onValue a b false left right equal
  · intro a b proper rearranged
    exact moved.onValue a b false proper rearranged
  · intro a b left right equal
    exact Value.alike_of_equals left right equal
  · intro p proper
    exact moved.onQuery p p false proper (.same p)
  · intro p q left right equal
    exact back.onQuery p q false left right equal

theorem equality_laws_two_orders :
    let a : Value := .object [("x", .int 1), ("y", .array [.null])]
    let b : Value := .object [("y", .array [.null]), ("x", .int 1)]
    a.equals a = true ∧ a.equals b = true ∧ b.equals a = true ∧ a.Alike b ∧
      (Query.literal a).equals (.literal a) = true ∧
      (Query.literal b).equals (.literal a) = true := by
  intro a b
  have array : (Value.array [.null]).Proper :=
    .array (List.forall_mem_singleton.mpr .null)
  have left : a.Proper := by
    refine .object (by decide) ?_
    exact List.forall_mem_cons.mpr ⟨.int 1, List.forall_mem_singleton.mpr array⟩
  have right : b.Proper := by
    refine .object (by decide) ?_
    exact List.forall_mem_cons.mpr ⟨array, List.forall_mem_singleton.mpr (.int 1)⟩
  have moved : a.Rearranged b :=
    .object rfl (List.forall₂_same.mpr fun v _ => .same v) (.swap _ _ [])
  have literal (v : Value) (proper : v.Proper) : (Query.literal v).Proper :=
    .intro (List.forall_mem_singleton.mpr proper) nofun
  obtain ⟨reflexive, symmetric, reordered, observed, treeReflexive, treeSymmetric⟩ := equality_laws
  have equal : a.equals b = true := reordered a b left moved
  refine ⟨reflexive a left, equal, symmetric a b left right equal, observed a b left right equal,
    treeReflexive _ (literal a left), ?_⟩
  exact treeSymmetric _ _ (literal a left) (literal b right) equal

end JsonQuery
