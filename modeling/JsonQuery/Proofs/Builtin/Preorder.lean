import JsonQuery.Proofs.Number.Order
import Mathlib.Data.List.Count

/-!
# Total preorders of values

The order of values is partial, but among some values it is a total preorder: among strings and
among integers always, among other numbers unless rounding gets in the way.  There it is the order
of natural numbers, the ranks of the values.
-/

set_option autoImplicit false

namespace JsonQuery.Value

variable {values : List Value}

/-- The first value is not above the second. -/
def AtMost (a b : Value) : Prop :=
  a.compare? b = some .lt ∨ a.compare? b = some .eq

/-- The order is a total preorder on these values. -/
structure Preordered (values : List Value) : Prop where
  total : ∀ a ∈ values, ∀ b ∈ values, (a.compare? b).isSome = true
  trans : ∀ a ∈ values, ∀ b ∈ values, ∀ c ∈ values, a.AtMost b → b.AtMost c → a.AtMost c

theorem atMost_iff {a b : Value} {o : Ordering} (compared : a.compare? b = some o) :
    a.AtMost b ↔ o.isLE = true := by
  rw [AtMost, compared]
  cases o <;> simp

theorem compare?_swap (a b : Value) : b.compare? a = (a.compare? b).map Ordering.swap := by
  have floats (x y : Float) :
      Binary64.compare? y x = (Binary64.compare? x y).map Ordering.swap := by
    simp only [Binary64.compare?, Bool.or_comm (Binary64.isNaN y)]
    split
    · rfl
    · exact congrArg some (Int.compare_swap _ _).symm
  cases a with
  | int m =>
      cases b with
      | int n => exact congrArg some (Int.compare_swap _ _).symm
      | float y => exact floats _ _
      | _ => rfl
  | float x =>
      cases b with
      | int n => exact floats _ _
      | float y => exact floats _ _
      | _ => rfl
  | string s =>
      cases b with
      | string t => exact congrArg some Std.OrientedOrd.eq_swap
      | _ => rfl
  | _ => cases b <;> rfl

/-- Values that are made from other things and compare as those do are totally preordered. -/
theorem Preordered.of_compare {α β : Type} [Ord β] [Std.TransOrd β] {make : α → Value}
    {measure : α → β}
    (same : ∀ x y, (make x).compare? (make y) = some (compare (measure x) (measure y)))
    (made : ∀ a ∈ values, ∃ x, make x = a) : Preordered values where
  total a listed b listed' := by
    obtain ⟨x, rfl⟩ := made a listed
    obtain ⟨y, rfl⟩ := made b listed'
    rw [same]
    rfl
  trans a listedA b listedB c listedC ab bc := by
    obtain ⟨x, rfl⟩ := made a listedA
    obtain ⟨y, rfl⟩ := made b listedB
    obtain ⟨z, rfl⟩ := made c listedC
    rw [atMost_iff (same _ _)] at ab bc ⊢
    exact Std.TransOrd.isLE_trans ab bc

theorem preordered_of_strings (strings : ∀ a ∈ values, a.isString = true) : Preordered values := by
  have same (s t : String) : (Value.string s).compare? (.string t) = some (compare s t) := rfl
  refine .of_compare same fun a listed => ?_
  have isString := strings a listed
  cases a with
  | string s => exact ⟨s, rfl⟩
  | _ => cases isString

theorem preordered_of_integers (integers : ∀ a ∈ values, a.isInteger = true) :
    Preordered values := by
  have same (m n : Int64) : (Value.int m).compare? (.int n) = some (compare m.toInt n.toInt) := rfl
  refine .of_compare same fun a listed => ?_
  have isInteger := integers a listed
  cases a with
  | int n => exact ⟨n, rfl⟩
  | _ => cases isInteger

/-! ## Ranks -/

/-- The values compare as their ranks do. -/
def Ranks (rank : Value → Nat) (values : List Value) : Prop :=
  ∀ a ∈ values, ∀ b ∈ values, a.compare? b = some (compare (rank a) (rank b))

namespace Preordered

variable (preordered : Preordered values) {a b c : Value}

include preordered

theorem isBefore_of_atMost (listedA : a ∈ values) (listedB : b ∈ values) (listedC : c ∈ values)
    (first : c.isBefore a = true) (second : a.AtMost b) : c.isBefore b = true := by
  obtain ⟨o, compared⟩ := Option.isSome_iff_exists.mp (preordered.total b listedB c listedC)
  rw [isBefore, beq_iff_eq] at first ⊢
  cases o with
  | gt =>
      rw [compare?_swap, compared]
      rfl
  | _ =>
      -- otherwise the first value would be at most the one that is before it
      have back : a.AtMost c := preordered.trans a listedA b listedB c listedC second
        ((atMost_iff compared).mpr rfl)
      rw [AtMost, compare?_swap, first] at back
      rcases back with less | equal
      · cases less
      · cases equal

/-- The rank of a value counts the values before it. -/
theorem exists_ranks : ∃ rank, Ranks rank values := by
  refine ⟨fun a => values.countP fun c => c.isBefore a, ?_⟩
  have monotone {a b : Value} (listedA : a ∈ values) (listedB : b ∈ values) (atMost : a.AtMost b)
      {part : List Value} (within : part ⊆ values) :
      part.countP (fun c => c.isBefore a) ≤ part.countP fun c => c.isBefore b :=
    List.countP_mono_left fun c listed before =>
      preordered.isBefore_of_atMost listedA listedB (within listed) before atMost
  have strict {a b : Value} (listedA : a ∈ values) (listedB : b ∈ values)
      (less : a.compare? b = some .lt) :
      values.countP (fun c => c.isBefore a) < values.countP fun c => c.isBefore b := by
    -- the first value itself is counted for the second only
    have itself : a.isBefore a = false := by
      by_contra before
      rw [Bool.not_eq_false, isBefore, beq_iff_eq] at before
      have turned := compare?_swap a a
      rw [before] at turned
      cases turned
    have counted : a.isBefore b = true := by rw [isBefore, less, beq_self_eq_true]
    obtain ⟨front, behind, parts⟩ := List.append_of_mem listedA
    have frontWithin : front ⊆ values := parts ▸ List.subset_append_left _ _
    have behindWithin : behind ⊆ values :=
      parts ▸ List.Subset.trans (List.subset_cons_self _ _) (List.subset_append_right _ _)
    have fronts := monotone listedA listedB (.inl less) frontWithin
    have behinds := monotone listedA listedB (.inl less) behindWithin
    rw [parts, List.countP_append, List.countP_append, List.countP_cons, List.countP_cons, itself,
      counted]
    simp only [Bool.false_eq_true, if_false, if_true]
    omega
  intro a listedA b listedB
  obtain ⟨o, compared⟩ := Option.isSome_iff_exists.mp (preordered.total a listedA b listedB)
  have turned := compare?_swap a b
  rw [compared] at turned ⊢
  congr 1
  cases o with
  | lt => exact (Nat.compare_eq_lt.mpr (strict listedA listedB compared)).symm
  | eq =>
      have le := monotone listedA listedB (.inr compared) (List.Subset.refl values)
      have ge := monotone listedB listedA (.inr turned) (List.Subset.refl values)
      exact (Nat.compare_eq_eq.mpr (Nat.le_antisymm le ge)).symm
  | gt => exact (Nat.compare_eq_gt.mpr (strict listedB listedA turned)).symm

end Preordered

end JsonQuery.Value
