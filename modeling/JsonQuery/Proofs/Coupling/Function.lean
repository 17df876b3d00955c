import JsonQuery.Builtin.Collection
import JsonQuery.Proofs.Coupling.Outcome
import JsonQuery.Builtin.Ordering
import JsonQuery.Proofs.Sorting.Natural

/-!
# Functions on coupled values

None of the functions looks into a reference, so on coupled arguments they answer coupled values or
find the same fault.  The one that compares values for equality needs a relation of references that
equality respects.
-/

set_option autoImplicit false

namespace JsonQuery.Functions

variable {refs : Query → Query → Prop} {v w v' w' : Value} {as bs : List Value}

/-- Coupled answers, or the same fault. -/
inductive Answer.Coupled (refs : Query → Query → Prop) : Answer → Answer → Prop
  | ok {v w : Value} (coupled : Value.Coupled refs v w) : Coupled refs (.ok v) (.ok w)
  | error (fault : TypeFault) : Coupled refs (.error fault) (.error fault)

/-! ## Numbers -/

theorem absolute_coupled (coupled : Value.Coupled refs v w) :
    Answer.Coupled refs (absolute v) (absolute w) := by
  cases coupled with
  | int n =>
      simp only [absolute]
      cases Numeral.toInt64? n.toInt.natAbs with
      | some m => exact .ok (.int m)
      | none => exact .ok (.float _)
  | float x => exact .ok (.float _)
  | _ => exact .error _

theorem roundWith_coupled (round : Float → Int) (coupled : Value.Coupled refs v w) :
    Answer.Coupled refs (roundWith round v) (roundWith round w) := by
  cases coupled with
  | int n => exact .ok (.int n)
  | float x =>
      simp only [roundWith]
      by_cases finite : Binary64.isFinite x = true
      · simp only [if_pos finite]
        cases Numeral.toInt64? (round x) with
        | some n => exact .ok (.int n)
        | none => exact .ok (.float x)
      · simp only [if_neg finite]
        exact .ok (.float x)
  | _ => exact .error _

theorem isInteger_coupled (coupled : Value.Coupled refs v w) : isInteger v = isInteger w := by
  cases coupled <;> rfl

theorem all_coupled {test : Value → Bool} (items : List.Forall₂ (Value.Coupled refs) as bs)
    (each : ∀ v w, Value.Coupled refs v w → test v = test w) : as.all test = bs.all test := by
  induction items with
  | nil => rfl
  | cons head _ ih => simp only [List.all_cons, each _ _ head, ih]

theorem decimalTotal?_coupled (items : List.Forall₂ (Value.Coupled refs) as bs) (total : Decimal) :
    decimalTotal? total as = decimalTotal? total bs := by
  induction items generalizing total with
  | nil => rfl
  | cons head _ ih => cases head <;> simp only [decimalTotal?, ih]

theorem floatTotal_coupled (items : List.Forall₂ (Value.Coupled refs) as bs) :
    floatTotal as = floatTotal bs := by
  have same : as.filterMap Value.float? = bs.filterMap Value.float? := by
    induction items with
    | nil => rfl
    | cons head _ ih => simp only [List.filterMap_cons, head.float?, ih]
  simp only [floatTotal, same]

theorem sum_coupled (items : List.Forall₂ (Value.Coupled refs) as bs) :
    Value.Coupled refs (sum as) (sum bs) := by
  simp only [sum, exactSum?, decimalTotal?_coupled items, floatTotal_coupled items,
    all_coupled items fun _ _ => isInteger_coupled]
  cases decimalTotal? .zero bs with
  | none => exact .float _
  | some total =>
      dsimp only
      cases bs.all isInteger with
      | false => exact .float _
      | true =>
          simp only [if_true]
          cases total.toInt?.bind Numeral.toInt64? with
          | none => exact .float _
          | some n => exact .int n

theorem average_coupled (items : List.Forall₂ (Value.Coupled refs) as bs) :
    Value.Coupled refs (average as) (average bs) := by
  have total := decimalTotal?_coupled items
  have float := floatTotal_coupled items
  have length := items.length_eq
  cases items with
  | nil => exact .null
  | @cons _ w _ rest _ _ =>
      simp only [average, exactAverage?, total, float, length]
      cases decimalTotal? .zero (w :: rest) with
      | none => exact .float _
      | some total =>
          dsimp only
          cases total.divNat? (w :: rest).length with
          | none => exact .float _
          | some average => exact .float _

theorem toNumber_coupled (coupled : Value.Coupled refs v w) :
    Value.Coupled refs (toNumber v) (toNumber w) := by
  cases coupled with
  | int n => exact .int n
  | float x => exact .float x
  | string s =>
      simp only [toNumber]
      cases Numeral.int64? s.toList with
      | some n => exact .int n
      | none =>
          cases Numeral.float? s.toList with
          | some x => exact .float x
          | none => exact .null
  | _ => exact .null

/-! ## Strings -/

theorem startsWith_coupled (left : Value.Coupled refs v w) (right : Value.Coupled refs v' w') :
    Answer.Coupled refs (startsWith v v') (startsWith w w') := by
  cases left with
  | string s =>
      cases right with
      | string t => exact .ok (.bool _)
      | _ => exact .error _
  | _ => exact .error _

theorem endsWith_coupled (left : Value.Coupled refs v w) (right : Value.Coupled refs v' w') :
    Answer.Coupled refs (endsWith v v') (endsWith w w') := by
  cases left with
  | string s =>
      cases right with
      | string t => exact .ok (.bool _)
      | _ => exact .error _
  | _ => exact .error _

theorem strings_coupled (items : List.Forall₂ (Value.Coupled refs) as bs) :
    strings as = strings bs := by
  induction items with
  | nil => rfl
  | cons head _ ih => cases head <;> simp only [strings, ih, Value.kind]

theorem join_coupled (left : Value.Coupled refs v w) (right : Value.Coupled refs v' w') :
    Answer.Coupled refs (join v v') (join w w') := by
  cases left with
  | string glue =>
      cases right with
      | array items =>
          simp only [join, strings_coupled items]
          cases strings _ with
          | ok parts => exact .ok (.string _)
          | error fault => exact .error fault
      | _ => exact .error _
  | _ => exact .error _

theorem asText_coupled (coupled : Value.Coupled refs v w) :
    Answer.Coupled refs (asText v) (asText w) := by
  have same : v.encode = w.encode := by simp only [Value.encode, coupled.toJson]
  cases coupled with
  | string s => exact .ok (.string s)
  | reference tag bodies => exact .error _
  | _ =>
      simp only [asText, same]
      exact .ok (.string _)

/-! ## Sequences and objects -/

theorem length_coupled (coupled : Value.Coupled refs v w) :
    Answer.Coupled refs (length v) (length w) := by
  cases coupled with
  | string s => exact .ok (.int _)
  | array items =>
      simp only [length, items.length_eq]
      exact .ok (.int _)
  | object keys values =>
      simp only [length, (Value.Coupled.object keys values).entries.length_eq]
      exact .ok (.int _)
  | _ => exact .error _

theorem contains_coupled (respected : Query.Respectful refs) (left : Value.Coupled refs v w)
    (right : Value.Coupled refs v' w') :
    Answer.Coupled refs (contains v v') (contains w w') := by
  cases left with
  | array items =>
      have same : ∀ {as bs}, List.Forall₂ (Value.Coupled refs) as bs →
          (as.any fun item => item.equals v') = bs.any fun item => item.equals w' := by
        intro as bs items
        induction items with
        | nil => rfl
        | cons head _ ih => simp only [List.any_cons, head.equals respected right, ih]
      simp only [contains, same items]
      exact .ok (.bool _)
  | string s => cases right <;> exact .ok (.bool _)
  | _ => exact .error _

theorem reverse_coupled (coupled : Value.Coupled refs v w) :
    Answer.Coupled refs (reverse v) (reverse w) := by
  cases coupled with
  | string s => exact .ok (.string _)
  | array items => exact .ok (.array (List.rel_reverse items))
  | _ => exact .error _

theorem toArray_coupled (coupled : Value.Coupled refs v w) :
    Value.Coupled refs (toArray v) (toArray w) := by
  cases coupled with
  | array items => exact .array items
  | object keys values => exact .array (.cons (.object keys values) .nil)
  | reference tag bodies => exact .array (.cons (.reference tag bodies) .nil)
  | null => exact .array (.cons .null .nil)
  | bool b => exact .array (.cons (.bool b) .nil)
  | int n => exact .array (.cons (.int n) .nil)
  | float x => exact .array (.cons (.float x) .nil)
  | string s => exact .array (.cons (.string s) .nil)

theorem notNull_coupled (items : List.Forall₂ (Value.Coupled refs) as bs) :
    Value.Coupled refs (notNull as) (notNull bs) := by
  induction items with
  | nil => exact .null
  | @cons v w _ _ head _ ih =>
      simp only [notNull, List.find?_cons, head.isNull] at ih ⊢
      cases w.isNull with
      | false => exact head
      | true => exact ih

theorem keys_coupled (coupled : Value.Coupled refs v w) :
    Answer.Coupled refs (keys v) (keys w) := by
  cases coupled with
  | object same values =>
      simp only [keys, same]
      refine .ok (.array ?_)
      induction Entries.keys _ with
      | nil => exact .nil
      | cons key _ ih => exact .cons (.string key) ih
  | _ => exact .error _

theorem values_coupled (coupled : Value.Coupled refs v w) :
    Answer.Coupled refs (values v) (values w) := by
  cases coupled with
  | object _ related => exact .ok (.array related)
  | _ => exact .error _

theorem mergeInto_coupled {left right : Entries Value}
    (entries : Entries.Coupled (Value.Coupled refs) left right)
    (items : List.Forall₂ (Value.Coupled refs) as bs) :
    Answer.Coupled refs (mergeInto left as) (mergeInto right bs) := by
  induction items generalizing left right with
  | nil => exact .ok (.ofEntries entries)
  | cons head _ ih =>
      cases head with
      | object keys values =>
          exact ih (entries.insertAll (Value.Coupled.object keys values).entries)
      | _ => exact .error _

/-! ## Orders -/

/-- Coupled keys and coupled items. -/
def Keyed.Coupled (refs : Query → Query → Prop) (a b : Keyed) : Prop :=
  Value.Coupled refs a.key b.key ∧ Value.Coupled refs a.item b.item

section Orders

variable {a b : Keyed} {left right : List Keyed}

theorem isBefore_coupled {a' b' : Keyed} (first : Keyed.Coupled refs a b)
    (second : Keyed.Coupled refs a' b') : a.key.isBefore a'.key = b.key.isBefore b'.key := by
  simp only [Value.isBefore, first.1.compare? second.1]

theorem sorted_follows {c : Coupling} (size : Nat)
    (items : List.Forall₂ (Keyed.Coupled c.refs) left right) :
    Outcome.Follows c (Value.Coupled c.refs) (sorted size left) (sorted size right) := by
  have alike (a b a' b' : Keyed) (first : Keyed.Coupled c.refs a b)
      (second : Keyed.Coupled c.refs a' b') : a.key.isBefore a'.key = b.key.isBefore b'.key :=
    isBefore_coupled first second
  have sorts := Sorting.stableSort_related alike (sortingRoom size left.length) items
  have same := items.length_eq
  unfold sorted sortKeyed
  rw [same] at sorts ⊢
  generalize Sorting.stableSort _ _ left = first at sorts ⊢
  generalize Sorting.stableSort _ _ right = second at sorts ⊢
  cases sorts with
  | none => rfl
  | some both =>
      refine .answer (.array (List.rel_map (R := Keyed.Coupled c.refs) ?_ both))
      exact fun _ _ both => both.2

theorem extreme_coupled (wanted : Ordering)
    (items : List.Forall₂ (Keyed.Coupled refs) left right) :
    Value.Coupled refs (extreme wanted left) (extreme wanted right) := by
  cases items with
  | nil => exact .null
  | @cons first first' rest rest' head tail =>
      simp only [extreme]
      induction tail generalizing first first' with
      | nil => exact head.2
      | @cons _ next' _ _ next _ ih =>
          simp only [extremeKeyed, next.1.compare? head.1]
          by_cases exceeds : (next'.key.compare? first'.key == some wanted) = true
          · simpa only [if_pos exceeds] using ih next
          · simpa only [if_neg exceeds] using ih head

theorem selfKeyed_coupled (items : List.Forall₂ (Value.Coupled refs) as bs) :
    List.Forall₂ (Keyed.Coupled refs) (selfKeyed as) (selfKeyed bs) :=
  List.rel_map (fun _ _ coupled => ⟨coupled, coupled⟩) items

theorem zip_coupled {keys keys' : List Value} (coupled : List.Forall₂ (Value.Coupled refs) keys keys')
    (items : List.Forall₂ (Value.Coupled refs) as bs) :
    List.Forall₂ (Keyed.Coupled refs) ((keys.zip as).map fun (k, v) => ⟨k, v⟩)
      ((keys'.zip bs).map fun (k, v) => ⟨k, v⟩) := by
  induction coupled generalizing as bs with
  | nil => exact .nil
  | cons head _ ih =>
      cases items with
      | nil => exact .nil
      | cons item rest => exact .cons ⟨head, item⟩ (ih rest)

/-- Items keyed by references whose applications follow each other. -/
theorem keyed_follows {c : Coupling} (forgivable : ∀ e, e.isForgivable = true → c.admits e)
    {apply apply' : Query → Value → Outcome Value} {p q : Query} (function : String)
    (each : ∀ v w, Value.Coupled c.refs v w →
      Outcome.Follows c (Value.Coupled c.refs) (apply p v) (apply' q w))
    (items : List.Forall₂ (Value.Coupled c.refs) as bs) :
    Outcome.Follows c (List.Forall₂ (Keyed.Coupled c.refs))
      (keyed apply function p as) (keyed apply' function q bs) := by
  refine (Outcome.Follows.traverse items each).bind fun keys keys' coupled => ?_
  simp only [all_coupled coupled fun _ _ => Value.Coupled.isNumber,
    all_coupled coupled fun _ _ => Value.Coupled.isString]
  by_cases uniform : (keys'.all Value.isNumber || keys'.all Value.isString) = true
  · simp only [if_pos uniform]
    exact .answer (zip_coupled coupled items)
  · simp only [if_neg uniform]
    exact .failure (forgivable _ rfl)

end Orders

end JsonQuery.Functions
