import JsonQuery.Value.Access
import JsonQuery.Value.Order
import JsonQuery.Value.Json
import Mathlib.Data.List.Forall2

/-!
# Values that differ in their references only

Two values are coupled when they agree everywhere except in the bodies of their references, which
are related pairwise.  Whatever looks at a value without applying a reference sees no difference,
and the parts of coupled values are coupled.  Equality is the exception: it looks into references,
so it needs a relation that equality of queries respects.
-/

set_option autoImplicit false

namespace JsonQuery

/-- Entries with the same keys in the same order, whose values are related. -/
abbrev Entries.Coupled {α β : Type} (rel : α → β → Prop) : Entries α → Entries β → Prop :=
  List.Forall₂ fun x y => x.1 = y.1 ∧ rel x.2 y.2

/-- The same value except for the bodies of references, which `refs` relates. -/
inductive Value.Coupled (refs : Query → Query → Prop) : Value → Value → Prop
  | null : Coupled refs .null .null
  | bool (b : Bool) : Coupled refs (.bool b) (.bool b)
  | int (n : Int64) : Coupled refs (.int n) (.int n)
  | float (x : Float) : Coupled refs (.float x) (.float x)
  | string (s : String) : Coupled refs (.string s) (.string s)
  | array {as bs : List Value} (items : List.Forall₂ (Coupled refs) as bs) :
      Coupled refs (.array as) (.array bs)
  | object {as bs : Entries Value} (keys : Entries.keys as = Entries.keys bs)
      (values : List.Forall₂ (Coupled refs) (Entries.values as) (Entries.values bs)) :
      Coupled refs (.object as) (.object bs)
  | reference (tag : Tag) {p q : Query} (bodies : refs p q) :
      Coupled refs (.reference tag p) (.reference tag q)

/-! ## Coupled entries -/

namespace Entries.Coupled

variable {α β : Type} {rel : α → β → Prop} {as cs : Entries α} {bs ds : Entries β}

theorem iff_keys_values :
    Entries.Coupled rel as bs ↔
      Entries.keys as = Entries.keys bs ∧
        List.Forall₂ rel (Entries.values as) (Entries.values bs) := by
  constructor
  · intro coupled
    induction coupled with
    | nil => exact ⟨rfl, .nil⟩
    | cons head _ ih =>
        simp only [Entries.keys, Entries.values, List.map_cons] at ih ⊢
        exact ⟨by rw [head.1, ih.1], .cons head.2 ih.2⟩
  · rintro ⟨sameKeys, values⟩
    induction as generalizing bs with
    | nil =>
        cases bs with
        | nil => exact .nil
        | cons b bs => simp [Entries.keys] at sameKeys
    | cons a as ih =>
        cases bs with
        | nil => simp [Entries.keys] at sameKeys
        | cons b bs =>
            simp only [Entries.keys, Entries.values, List.map_cons, List.cons.injEq,
              List.forall₂_cons] at sameKeys values ih ⊢
            exact ⟨⟨sameKeys.1, values.1⟩, ih sameKeys.2 values.2⟩

theorem keys (coupled : Entries.Coupled rel as bs) : Entries.keys as = Entries.keys bs :=
  (iff_keys_values.mp coupled).1

theorem values (coupled : Entries.Coupled rel as bs) :
    List.Forall₂ rel (Entries.values as) (Entries.values bs) :=
  (iff_keys_values.mp coupled).2

theorem get? (coupled : Entries.Coupled rel as bs) (key : String) :
    Option.Rel rel (Entries.get? key as) (Entries.get? key bs) := by
  induction coupled with
  | nil => exact .none
  | @cons a b _ _ head _ ih =>
      obtain ⟨k, v⟩ := a
      obtain ⟨l, w⟩ := b
      obtain ⟨rfl, related⟩ := head
      by_cases same : k = key
      · simpa [Entries.get?, same] using Option.Rel.some related
      · simpa [Entries.get?, same] using ih

theorem insert (coupled : Entries.Coupled rel as bs) (key : String) {v : α} {w : β}
    (related : rel v w) :
    Entries.Coupled rel (Entries.insert key v as) (Entries.insert key w bs) := by
  induction coupled with
  | nil => exact .cons ⟨rfl, related⟩ .nil
  | @cons a b _ _ head tail ih =>
      obtain ⟨k, v'⟩ := a
      obtain ⟨l, w'⟩ := b
      obtain ⟨rfl, related'⟩ := head
      by_cases same : k = key
      · simpa [Entries.insert, same] using ⟨related, tail⟩
      · simpa [Entries.insert, same] using ⟨related', ih⟩

theorem insertAll (coupled : Entries.Coupled rel as bs) (new : Entries.Coupled rel cs ds) :
    Entries.Coupled rel (Entries.insertAll as cs) (Entries.insertAll bs ds) := by
  induction new generalizing as bs with
  | nil => exact coupled
  | @cons a b _ _ head _ ih =>
      obtain ⟨k, v⟩ := a
      obtain ⟨l, w⟩ := b
      obtain ⟨rfl, related⟩ := head
      simpa [Entries.insertAll] using ih (coupled.insert k related)

theorem ofList (new : Entries.Coupled rel cs ds) :
    Entries.Coupled rel (Entries.ofList cs) (Entries.ofList ds) :=
  insertAll .nil new

end Entries.Coupled

namespace Value

variable {refs : Query → Query → Prop} {v w : Value}

theorem Coupled.ofEntries {as bs : Entries Value}
    (coupled : Entries.Coupled (Coupled refs) as bs) :
    Coupled refs (.object as) (.object bs) :=
  .object coupled.keys coupled.values

theorem Coupled.entries {as bs : Entries Value}
    (coupled : Coupled refs (.object as) (.object bs)) :
    Entries.Coupled (Coupled refs) as bs := by
  cases coupled with
  | object keys values => exact Entries.Coupled.iff_keys_values.mpr ⟨keys, values⟩

/-! ## What is seen of coupled values -/

namespace Coupled

theorem kind (coupled : Coupled refs v w) : v.kind = w.kind := by
  cases coupled <;> rfl

theorem isNull (coupled : Coupled refs v w) : v.isNull = w.isNull := by
  cases coupled <;> rfl

theorem isNumber (coupled : Coupled refs v w) : v.isNumber = w.isNumber := by
  cases coupled <;> rfl

theorem isString (coupled : Coupled refs v w) : v.isString = w.isString := by
  cases coupled <;> rfl

theorem float? (coupled : Coupled refs v w) : v.float? = w.float? := by
  cases coupled <;> rfl

theorem isTruthy (coupled : Coupled refs v w) : v.isTruthy = w.isTruthy := by
  cases coupled with
  | array items => cases items <;> rfl
  | object keys values =>
      have entries := (Coupled.object keys values).entries
      cases entries <;> rfl
  | _ => rfl

theorem compare? {v' w' : Value} (left : Coupled refs v w) (right : Coupled refs v' w') :
    v.compare? v' = w.compare? w' := by
  cases left <;> cases right <;> rfl

end Coupled

/-! ## Parts of coupled values -/

namespace Coupled

theorem getD {a b : Option Value} (coupled : Option.Rel (Coupled refs) a b) :
    Coupled refs (a.getD .null) (b.getD .null) := by
  cases coupled with
  | some related => exact related
  | none => exact .null

theorem member? (coupled : Coupled refs v w) (key : String) :
    Option.Rel (Coupled refs) (v.member? key) (w.member? key) := by
  cases coupled with
  | object keys values => exact (Coupled.object keys values).entries.get? key
  | _ => exact .none

theorem field (coupled : Coupled refs v w) (name : String) :
    Coupled refs (v.field name) (w.field name) :=
  getD (coupled.member? name)

theorem follow (keys : List String) (coupled : Coupled refs v w) :
    Coupled refs (v.follow keys) (w.follow keys) := by
  induction keys generalizing v w with
  | nil => exact coupled
  | cons key rest ih =>
      have found := coupled.member? key
      simp only [Value.follow]
      generalize v.member? key = left at found
      generalize w.member? key = right at found
      cases found with
      | some related => exact ih related
      | none => exact .null

theorem getElem? {as bs : List Value} (items : List.Forall₂ (Coupled refs) as bs) (i : Nat) :
    Option.Rel (Coupled refs) as[i]? bs[i]? := by
  induction items generalizing i with
  | nil => exact .none
  | cons head _ ih =>
      cases i with
      | zero => exact .some head
      | succ i => simpa using ih i

theorem item (coupled : Coupled refs v w) (position : Int64) :
    Coupled refs (v.item position) (w.item position) := by
  cases coupled with
  | array items =>
      simp only [Value.item, items.length_eq]
      split
      · exact getD (getElem? items _)
      · split
        · exact getD (getElem? items _)
        · exact .null
  | _ => exact .null

theorem flattened (coupled : Coupled refs v w) :
    List.Forall₂ (Coupled refs) v.flattened w.flattened := by
  cases coupled with
  | array items => exact items
  | object keys values => exact .cons (.object keys values) .nil
  | reference tag bodies => exact .cons (.reference tag bodies) .nil
  | null => exact .cons .null .nil
  | bool b => exact .cons (.bool b) .nil
  | int n => exact .cons (.int n) .nil
  | float x => exact .cons (.float x) .nil
  | string s => exact .cons (.string s) .nil

theorem flatten (coupled : Coupled refs v w) : Coupled refs v.flatten w.flatten := by
  cases coupled with
  | array items => exact .array (List.rel_flatMap items fun _ _ => flattened)
  | _ => exact .null

theorem present {as bs : List Value} (items : List.Forall₂ (Coupled refs) as bs) :
    Coupled refs (.present as) (.present bs) := by
  refine .array (List.rel_filter (fun a b coupled => ?_) items)
  simp only [coupled.isNull]

theorem select (s : Slice) {as bs : List Value} (items : List.Forall₂ (Coupled refs) as bs) :
    List.Forall₂ (Coupled refs) (s.select as) (s.select bs) := by
  simp only [Slice.select, items.length_eq, List.getElem?_toArray]
  induction s.positions bs.length with
  | nil => exact .nil
  | cons position rest ih =>
      have found := getElem? items position
      generalize left : as[position]? = a at found
      generalize right : bs[position]? = b at found
      cases found with
      | some related => simpa [List.filterMap_cons, left, right] using ⟨related, ih⟩
      | none => simpa [List.filterMap_cons, left, right] using ih

theorem slice (coupled : Coupled refs v w) (s : Slice) : Coupled refs (v.slice s) (w.slice s) := by
  cases coupled with
  | array items => exact .array (select s items)
  | string text => exact .string _
  | _ => exact .null

theorem range (coupled : Coupled refs v w) (start stop : Nat) :
    Coupled refs (v.range start stop) (w.range start stop) := by
  cases coupled with
  | array items => exact .array (List.forall₂_take _ (List.forall₂_drop _ items))
  | string text => exact .string _
  | _ => exact .null

end Coupled

/-! ## Induction over coupled values -/

/-- Induction over coupled values, with references as leaves. -/
@[elab_as_elim]
theorem Coupled.induct {motive : ∀ v w : Value, Coupled refs v w → Prop} (null : motive _ _ .null)
    (bool : ∀ b, motive _ _ (.bool b)) (int : ∀ n, motive _ _ (.int n))
    (float : ∀ x, motive _ _ (.float x)) (string : ∀ s, motive _ _ (.string s))
    (array : ∀ {as bs} (items : List.Forall₂ (Coupled refs) as bs),
      List.Forall₂ (fun v w => ∃ related, motive v w related) as bs → motive _ _ (.array items))
    (object : ∀ {as bs} (keys : Entries.keys as = Entries.keys bs)
      (values : List.Forall₂ (Coupled refs) (Entries.values as) (Entries.values bs)),
      Entries.Coupled (fun v w => ∃ related, motive v w related) as bs →
        motive _ _ (.object keys values))
    (reference : ∀ (tag : Tag) {p q} (bodies : refs p q), motive _ _ (.reference tag bodies))
    {v w : Value} (coupled : Coupled refs v w) : motive v w coupled := by
  let listed (as bs : List Value) (_ : List.Forall₂ (Coupled refs) as bs) : Prop :=
    List.Forall₂ (fun v w => ∃ related, motive v w related) as bs
  refine @Coupled.rec refs motive listed null bool int float string ?_ ?_ ?_ ?_ ?_ v w coupled
  · exact fun items inside => array items inside
  · exact fun keys values inside =>
      object keys values (Entries.Coupled.iff_keys_values.mpr ⟨keys, inside⟩)
  · exact fun tag _ _ bodies => reference tag bodies
  · exact .nil
  · exact fun head _ related others => .cons ⟨head, related⟩ others

namespace Coupled

theorem eq_of_forall₂ {α : Type} {as bs : List α} (same : List.Forall₂ Eq as bs) : as = bs := by
  rwa [List.forall₂_eq_eq_eq] at same

/-- Coupled values whose references are the same are equal. -/
theorem eq (same : ∀ p q, refs p q → p = q) (coupled : Coupled refs v w) : v = w := by
  induction coupled using Coupled.induct with
  | array items ih => rw [eq_of_forall₂ (ih.imp fun _ _ ⟨_, equal⟩ => equal)]
  | object keys values ih =>
      rw [eq_of_forall₂ (ih.imp fun _ _ ⟨sameKey, _, equal⟩ => Prod.ext sameKey equal)]
  | reference tag bodies => rw [same _ _ bodies]
  | _ => rfl

/-! ## Documents and equality of coupled values -/

theorem toJsonList_eq_map (items : List Value) : Value.toJsonList items = items.map Value.toJson := by
  induction items with
  | nil => rfl
  | cons v rest ih => simp [Value.toJsonList, ih]

theorem toJsonEntries_eq_map (entries : Entries Value) :
    Value.toJsonEntries entries = entries.map fun entry => (entry.1, entry.2.toJson) := by
  induction entries with
  | nil => rfl
  | cons entry rest ih => simp [Value.toJsonEntries, ih]

/-- References leave no trace in documents. -/
theorem toJson (coupled : Coupled refs v w) : v.toJson = w.toJson := by
  induction coupled using Coupled.induct with
  | array items ih =>
      simp only [Value.toJson, toJsonList_eq_map, Json.array.injEq]
      exact eq_of_forall₂ (List.rel_map (fun _ _ ⟨_, equal⟩ => equal) ih)
  | object keys values ih =>
      simp only [Value.toJson, toJsonEntries_eq_map, Json.object.injEq]
      exact eq_of_forall₂
        (List.rel_map (fun _ _ ⟨sameKey, _, equal⟩ => Prod.ext sameKey equal) ih)
  | _ => rfl

end Coupled

end Value

/-- Equality of queries does not tell the two sides of a relation apart. -/
def Query.Respectful (refs : Query → Query → Prop) : Prop :=
  ∀ same p q p' q', refs p q → refs p' q' →
    Query.equalsIn same p p' = Query.equalsIn same q q'

theorem Query.respectful_of_eq {refs : Query → Query → Prop} (same : ∀ p q, refs p q → p = q) :
    Query.Respectful refs := by
  intro _ p q p' q' first second
  rw [same p q first, same p' q' second]

namespace Value.Coupled

variable {refs : Query → Query → Prop} {v w v' w' : Value}

/-- Equality does not tell `v` and `w` apart. -/
def Indistinct (refs : Query → Query → Prop) (v w : Value) : Prop :=
  ∀ same v' w', Coupled refs v' w' → Value.equalsIn same v v' = Value.equalsIn same w w'

theorem listEqualsIn {as bs cs ds : List Value} (left : List.Forall₂ (Indistinct refs) as bs)
    (right : List.Forall₂ (Coupled refs) cs ds) (same : Bool) :
    Value.listEqualsIn same as cs = Value.listEqualsIn same bs ds := by
  induction left generalizing cs ds with
  | nil => cases right <;> rfl
  | cons head _ ih =>
      cases right with
      | nil => rfl
      | cons head' tail' => simp only [Value.listEqualsIn, head same _ _ head', ih tail']

theorem entriesWithin {as bs cs ds : Entries Value}
    (left : Entries.Coupled (Indistinct refs) as bs)
    (right : Entries.Coupled (Coupled refs) cs ds) (same : Bool) :
    Value.entriesWithin same as cs = Value.entriesWithin same bs ds := by
  induction left with
  | nil => rfl
  | @cons a b _ _ head _ ih =>
      obtain ⟨key, v⟩ := a
      obtain ⟨key', w⟩ := b
      obtain ⟨rfl, indistinct⟩ := head
      simp only [Value.entriesWithin, ih]
      have found := right.get? key
      generalize Entries.get? key cs = c at found
      generalize Entries.get? key ds = d at found
      cases found with
      | some related => simp only [indistinct same _ _ related]
      | none => rfl

theorem indistinct (respected : Query.Respectful refs) (coupled : Coupled refs v w) :
    Indistinct refs v w := by
  induction coupled using Coupled.induct with
  | array items ih =>
      intro same v' w' right
      cases right with
      | array items' => exact listEqualsIn (ih.imp fun _ _ ⟨_, h⟩ => h) items' same
      | _ => rfl
  | object keys values ih =>
      intro same v' w' right
      cases right with
      | object keys' values' =>
          have entries' := (Coupled.object keys' values').entries
          have within := entriesWithin (ih.imp fun _ _ ⟨sameKey, _, h⟩ => ⟨sameKey, h⟩) entries' same
          simp only [Value.equalsIn, ih.length_eq, entries'.length_eq, within]
      | _ => rfl
  | reference tag bodies =>
      intro same v' w' right
      cases right with
      | reference tag' bodies' => exact respected _ _ _ _ _ bodies bodies'
      | _ => rfl
  | _ =>
      intro same v' w' right
      cases right <;> rfl

theorem equals (respected : Query.Respectful refs) (left : Coupled refs v w)
    (right : Coupled refs v' w') : v.equals v' = w.equals w' :=
  left.indistinct respected false _ _ right

theorem test? (respected : Query.Respectful refs) (op : Comparator) (left : Coupled refs v w)
    (right : Coupled refs v' w') : op.test? v v' = op.test? w w' := by
  simp only [Comparator.test?, left.equals respected right, left.isNumber, right.isNumber,
    left.compare? right]

end Value.Coupled

end JsonQuery
