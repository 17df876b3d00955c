import JsonQuery.Sorting.Merge
import Mathlib

/-!
# Sorting by rank

Where items are ordered by their ranks, a list is sorted when the ranks ascend, and the sort is stable
when the items of each rank stay in order.  Both together determine the sorted list.  Insertion sorts
in this sense.
-/

set_option autoImplicit false

namespace JsonQuery.Sorting

variable {α κ : Type} [LinearOrder κ] (rank : α → κ)

def below (x y : α) : Bool :=
  decide (rank x < rank y)

def Ascending (items : List α) : Prop :=
  items.Pairwise fun x y => rank x ≤ rank y

/-- The items of one rank. -/
def ofRank (k : κ) (items : List α) : List α :=
  items.filter fun x => decide (rank x = k)

/-- Both lists have the same items of each rank in the same order. -/
def SameClasses (xs ys : List α) : Prop :=
  ∀ k, ofRank rank k xs = ofRank rank k ys

/-- The second list is the first after a stable sort. -/
structure Sorts (items sorted : List α) : Prop where
  ascending : Ascending rank sorted
  classes : SameClasses rank sorted items

variable {rank} {xs ys zs xs' ys' items sorted : List α} {x y : α} {k : κ}

@[simp]
theorem below_iff : below rank x y = true ↔ rank x < rank y :=
  decide_eq_true_iff

@[simp]
theorem not_below_iff : below rank x y = false ↔ rank y ≤ rank x := by
  rw [below, decide_eq_false_iff_not, not_lt]

/-! ## Classes -/

theorem ofRank_append (k : κ) (xs ys : List α) :
    ofRank rank k (xs ++ ys) = ofRank rank k xs ++ ofRank rank k ys :=
  List.filter_append xs ys

theorem ofRank_reverse (k : κ) (xs : List α) :
    ofRank rank k xs.reverse = (ofRank rank k xs).reverse :=
  List.filter_reverse

theorem ofRank_cons_self (x : α) (xs : List α) :
    ofRank rank (rank x) (x :: xs) = x :: ofRank rank (rank x) xs :=
  List.filter_cons_of_pos (decide_eq_true rfl)

theorem ofRank_cons_ne (other : rank x ≠ k) : ofRank rank k (x :: xs) = ofRank rank k xs :=
  List.filter_cons_of_neg (by simpa using other)

theorem ofRank_eq_nil (others : ∀ x ∈ xs, rank x ≠ k) : ofRank rank k xs = [] :=
  List.filter_eq_nil_iff.mpr fun x listed => by simpa using others x listed

theorem SameClasses.refl (xs : List α) : SameClasses rank xs xs :=
  fun _ => rfl

theorem SameClasses.symm (same : SameClasses rank xs ys) : SameClasses rank ys xs :=
  fun k => (same k).symm

theorem SameClasses.trans (first : SameClasses rank xs ys) (second : SameClasses rank ys zs) :
    SameClasses rank xs zs :=
  fun k => (first k).trans (second k)

theorem SameClasses.append (first : SameClasses rank xs xs') (second : SameClasses rank ys ys') :
    SameClasses rank (xs ++ ys) (xs' ++ ys') := by
  intro k
  rw [ofRank_append, ofRank_append, first k, second k]

theorem SameClasses.perm (same : SameClasses rank xs ys) : xs.Perm ys := by
  classical
  refine List.perm_iff_count.mpr fun x => ?_
  have counted (zs : List α) : (ofRank rank (rank x) zs).count x = zs.count x :=
    List.count_filter (decide_eq_true rfl)
  rw [← counted xs, ← counted ys, same (rank x)]

/-- Taking the items apart by their ranks keeps those of each rank together. -/
theorem sameClasses_partition (p : α → Bool) (byRank : ∀ x y, rank x = rank y → p x = p y)
    (items : List α) :
    SameClasses rank (items.filter p ++ items.filter fun x => !p x) items := by
  intro k
  obtain ⟨chosen, byClass⟩ : ∃ chosen, ∀ x, rank x = k → p x = chosen := by
    by_cases exist : ∃ z, rank z = k
    · obtain ⟨z, rfl⟩ := exist
      exact ⟨p z, fun x tie => byRank x z tie⟩
    · exact ⟨true, fun x tie => absurd ⟨x, tie⟩ exist⟩
  have whole (q : α → Bool) (all : ∀ x, rank x = k → q x = true) :
      ofRank rank k (items.filter q) = ofRank rank k items := by
    rw [ofRank, List.filter_filter]
    refine List.filter_congr fun x _ => ?_
    by_cases ofClass : rank x = k
    · rw [all x ofClass, Bool.and_true]
    · rw [decide_eq_false ofClass, Bool.false_and]
  have empty (q : α → Bool) (none : ∀ x, rank x = k → q x = false) :
      ofRank rank k (items.filter q) = [] := by
    refine ofRank_eq_nil fun x listed ofClass => ?_
    rw [List.mem_filter, none x ofClass] at listed
    cases listed.2
  rw [ofRank_append]
  cases chosen with
  | true =>
      rw [whole p byClass, empty _ fun x ofClass => by rw [byClass x ofClass, Bool.not_true],
        List.append_nil]
  | false =>
      rw [empty p byClass, whole _ fun x ofClass => by rw [byClass x ofClass, Bool.not_false],
        List.nil_append]

/-! ## Sorted lists -/

theorem Sorts.perm (sorts : Sorts rank items sorted) : sorted.Perm items :=
  sorts.classes.perm

theorem Sorts.length_eq (sorts : Sorts rank items sorted) : sorted.length = items.length :=
  sorts.perm.length_eq

theorem Sorts.mem_iff (sorts : Sorts rank items sorted) : x ∈ sorted ↔ x ∈ items :=
  sorts.perm.mem_iff

theorem sorts_self (ascending : Ascending rank xs) : Sorts rank xs xs :=
  ⟨ascending, .refl xs⟩

theorem Sorts.trans (first : Sorts rank xs ys) (classes : SameClasses rank xs items) :
    Sorts rank items ys :=
  ⟨first.ascending, first.classes.trans classes⟩

/-- Ascending lists with the same classes are the same. -/
theorem Ascending.eq (first : Ascending rank xs) (second : Ascending rank ys)
    (same : SameClasses rank xs ys) : xs = ys := by
  induction xs generalizing ys with
  | nil => exact same.perm.nil_eq
  | cons x xs ih =>
      cases ys with
      | nil => exact same.perm.eq_nil
      | cons y ys =>
          obtain ⟨leasts, firsts⟩ := List.pairwise_cons.mp first
          obtain ⟨leasts', seconds⟩ := List.pairwise_cons.mp second
          -- either head is in the other list, so neither is of smaller rank
          have le : rank x ≤ rank y := by
            rcases List.mem_cons.mp (same.perm.mem_iff.mpr List.mem_cons_self) with rfl | later
            · exact le_rfl
            · exact leasts y later
          have ge : rank y ≤ rank x := by
            rcases List.mem_cons.mp (same.perm.mem_iff.mp List.mem_cons_self) with rfl | later
            · exact le_rfl
            · exact leasts' x later
          have tie : rank x = rank y := le_antisymm le ge
          have heads := same (rank x)
          rw [ofRank_cons_self, tie, ofRank_cons_self, List.cons.injEq] at heads
          obtain ⟨rfl, -⟩ := heads
          refine congrArg (x :: ·) (ih firsts seconds fun k => ?_)
          have both := same k
          by_cases ofClass : rank x = k
          · subst ofClass
            rw [ofRank_cons_self, ofRank_cons_self, List.cons.injEq] at both
            exact both.2
          · rwa [ofRank_cons_ne ofClass, ofRank_cons_ne ofClass] at both

/-- Sorted parts are sorted together where the first one is not above the second. -/
theorem Sorts.append (first : Sorts rank xs xs') (second : Sorts rank ys ys')
    (apart : ∀ x ∈ xs, ∀ y ∈ ys, rank x ≤ rank y) : Sorts rank (xs ++ ys) (xs' ++ ys') where
  ascending := List.pairwise_append.mpr ⟨first.ascending, second.ascending, fun x listed y listed' =>
    apart x (first.mem_iff.mp listed) y (second.mem_iff.mp listed')⟩
  classes := first.classes.append second.classes

/-! ## Insertion -/

section Insertion

variable {new : α} {descending : List α}

theorem ofRank_insertLast (k : κ) (new : α) (descending : List α) :
    ofRank rank k (insertLast (below rank) new descending) =
      ofRank rank k (new :: descending) := by
  induction descending with
  | nil => rfl
  | cons last rest ih =>
      rw [insertLast]
      split
      · rename_i passes
        rw [below_iff] at passes
        -- an item passes none of its rank
        by_cases ofClass : rank last = k
        · subst ofClass
          rw [ofRank_cons_self, ih, ofRank_cons_ne (ne_of_lt passes), ofRank_cons_ne (ne_of_lt passes),
            ofRank_cons_self]
        · rw [ofRank_cons_ne ofClass, ih]
          simp only [ofRank, List.filter_cons, ofClass, decide_false, Bool.false_eq_true, if_false]
      · rfl

theorem ascending_insertLast (ascending : Ascending rank descending.reverse) :
    Ascending rank (insertLast (below rank) new descending).reverse := by
  unfold Ascending at ascending ⊢
  rw [List.pairwise_reverse] at ascending ⊢
  induction descending with
  | nil => exact List.pairwise_singleton _ new
  | cons last rest ih =>
      obtain ⟨lasts, others⟩ := List.pairwise_cons.mp ascending
      have same : SameClasses rank (insertLast (below rank) new rest) (new :: rest) :=
        fun k => ofRank_insertLast k new rest
      rw [insertLast]
      split
      · rename_i passes
        rw [below_iff] at passes
        refine List.pairwise_cons.mpr ⟨fun x listed => ?_, ih others⟩
        rcases List.mem_cons.mp (same.perm.mem_iff.mp listed) with rfl | later
        · exact le_of_lt passes
        · exact lasts x later
      · rename_i stays
        rw [below_iff, not_lt] at stays
        refine List.pairwise_cons.mpr ⟨fun x listed => ?_, ascending⟩
        rcases List.mem_cons.mp listed with rfl | later
        · exact stays
        · exact le_trans (lasts x later) stays

theorem Sorts.insertAll (sorts : Sorts rank items descending.reverse) (others : List α) :
    Sorts rank (items ++ others) (insertAll (below rank) descending others).reverse := by
  induction others generalizing items descending with
  | nil => simpa [Sorting.insertAll] using sorts
  | cons new others ih =>
      have inserted : Sorts rank (items ++ [new])
          (insertLast (below rank) new descending).reverse := by
        refine ⟨ascending_insertLast sorts.ascending, fun k => ?_⟩
        rw [ofRank_reverse, ofRank_insertLast, ← ofRank_reverse, List.reverse_cons, ofRank_append,
          sorts.classes k, ← ofRank_append]
      simpa [Sorting.insertAll] using ih inserted

theorem sorts_insertionSort (rank : α → κ) (items : List α) :
    Sorts rank items (insertionSort (below rank) items) := by
  have none : Sorts rank [] [].reverse := sorts_self .nil
  exact none.insertAll items

end Insertion

end JsonQuery.Sorting
