import JsonQuery.Sorting.Stable
import Mathlib.Data.List.Forall2
import Mathlib.Data.Option.Basic

/-!
# Sorting images

Sorting knows items by the answers of the order only.  So it does the same to items and to what a
function makes of them, if these are ordered as their images are, and the same to items of two kinds
that stand for each other.
-/

set_option autoImplicit false

namespace JsonQuery.Sorting

variable {α β : Type} (before : α → α → Bool) (f : β → α)

/-! ## Insertion and merging -/

theorem insertLast_map (new : β) (sorted : List β) :
    insertLast before (f new) (sorted.map f) =
      (insertLast (fun x y => before (f x) (f y)) new sorted).map f := by
  induction sorted with
  | nil => rfl
  | cons last rest ih =>
      rw [List.map_cons, insertLast, insertLast, ih]
      split <;> rfl

theorem insertAll_map (sorted items : List β) :
    insertAll before (sorted.map f) (items.map f) =
      (insertAll (fun x y => before (f x) (f y)) sorted items).map f := by
  induction items generalizing sorted with
  | nil => rfl
  | cons new items ih =>
      have inserted := ih (insertLast (fun x y => before (f x) (f y)) new sorted)
      rw [← insertLast_map] at inserted
      exact inserted

theorem insertionSort_map (items : List β) :
    insertionSort before (items.map f) =
      (insertionSort (fun x y => before (f x) (f y)) items).map f := by
  rw [insertionSort, insertionSort, List.map_reverse, ← insertAll_map]
  rfl

def Merging.map (merging : Merging β) : Merging α :=
  ⟨merging.merged.map f, merging.left.map f, merging.right.map f⟩

theorem mergeFront_map (n : Nat) (left right : List β) :
    mergeFront before n (left.map f) (right.map f) =
      (mergeFront (fun x y => before (f x) (f y)) n left right).map f := by
  fun_induction mergeFront (fun x y => before (f x) (f y)) n left right with
  | case1 left right => rfl
  | case2 n right => rfl
  | case3 n a left => rfl
  | case4 n a left b right passes ih =>
      rw [List.map_cons] at ih
      rw [List.map_cons, List.map_cons, mergeFront, if_pos passes, ih]
      rfl
  | case5 n a left b right stays ih =>
      rw [List.map_cons] at ih
      rw [List.map_cons, List.map_cons, mergeFront, if_neg stays, ih]
      rfl

theorem mergeBack_map (n : Nat) (left right : List β) :
    mergeBack before n (left.map f) (right.map f) =
      (mergeBack (fun x y => before (f x) (f y)) n left right).map f := by
  have turned := mergeFront_map (fun x y => before y x) f n right.reverse left.reverse
  simp only [mergeBack, ← List.map_reverse, turned, Merging.map]

theorem merge_map (left right : List β) :
    merge before (left.map f) (right.map f) =
      (merge (fun x y => before (f x) (f y)) left right).map f := by
  simp only [merge, List.length_map, mergeFront_map, mergeBack_map, Merging.map]
  split <;> simp only [List.map_append]

theorem mergeBoth_map (left right : List β) :
    mergeBoth before (left.map f) (right.map f) =
      (mergeBoth (fun x y => before (f x) (f y)) left right).map (List.map f) := by
  simp only [mergeBoth, List.length_map, mergeFront_map, mergeBack_map, Merging.map]
  split
  · simp only [Option.map_some, List.map_append, List.map_take]
  · rfl

theorem sortTwo_map (a b : β) :
    sortTwo before (f a) (f b) = Prod.map f f (sortTwo (fun x y => before (f x) (f y)) a b) := by
  rw [sortTwo, sortTwo]
  split <;> rfl

theorem mergePairs_map (first second : β × β) :
    mergePairs before (Prod.map f f first) (Prod.map f f second) =
      (mergePairs (fun x y => before (f x) (f y)) first second).map f := by
  simp only [mergePairs, Prod.map]
  grind

theorem sortFour_map (a b c d : β) :
    sortFour before (f a) (f b) (f c) (f d) =
      (sortFour (fun x y => before (f x) (f y)) a b c d).map f := by
  rw [sortFour, sortTwo_map, sortTwo_map, mergePairs_map]
  rfl

theorem sortFromFour_map (items : List β) :
    sortFromFour before (items.map f) =
      (sortFromFour (fun x y => before (f x) (f y)) items).map f := by
  match items with
  | a :: b :: c :: d :: rest =>
      simp only [List.map_cons, sortFromFour, sortFour_map, ← List.map_reverse, insertAll_map]
  | [] => rfl
  | [a] => exact insertionSort_map before f [a]
  | [a, b] => exact insertionSort_map before f [a, b]
  | [a, b, c] => exact insertionSort_map before f [a, b, c]

theorem sortShort_map (items : List β) :
    sortShort before (items.map f) =
      (sortShort (fun x y => before (f x) (f y)) items).map (List.map f) := by
  simp only [sortShort, List.length_map]
  split
  · rfl
  · split <;> simp only [← List.map_take, ← List.map_drop, sortFromFour_map, insertionSort_map,
      mergeBoth_map]

/-! ## Runs -/

def Run.map (run : Run β) : Run α :=
  ⟨run.items.map f, run.sorted⟩

theorem ascent_map (first : β) (items : List β) :
    ascent before (f first) (items.map f) =
      ascent (fun x y => before (f x) (f y)) first items := by
  induction items generalizing first with
  | nil => rfl
  | cons next rest ih => rw [List.map_cons, ascent, ascent, ih]

theorem descent_map (first : β) (items : List β) :
    descent before (f first) (items.map f) =
      descent (fun x y => before (f x) (f y)) first items := by
  induction items generalizing first with
  | nil => rfl
  | cons next rest ih => rw [List.map_cons, descent, descent, ih]

theorem naturalRun_map (items : List β) :
    naturalRun before (items.map f) = naturalRun (fun x y => before (f x) (f y)) items := by
  cases items with
  | nil => rfl
  | cons first rest => rw [List.map_cons, naturalRun, naturalRun, ascent_map, descent_map]

theorem frontLength_map (eager : Bool) (goal : Nat) (items : List β) :
    frontLength before eager goal (items.map f) =
      frontLength (fun x y => before (f x) (f y)) eager goal items := by
  simp only [frontLength, naturalRun_map]

theorem frontRun_map (eager : Bool) (goal : Nat) (items : List β) :
    frontRun before eager goal (items.map f) =
      (frontRun (fun x y => before (f x) (f y)) eager goal items).map (Run.map f) := by
  simp only [frontRun, frontLength_map, naturalRun_map, ← List.map_take, sortShort_map]
  split
  · split <;> simp only [Option.map_some, Run.map, List.map_reverse]
  · split
    · simp only [Option.map_map]
      rfl
    · rfl

theorem runs_map (eager : Bool) (goal : Nat) (items : List β) :
    runs before eager goal (items.map f) =
      (runs (fun x y => before (f x) (f y)) eager goal items).map (List.map (Run.map f)) := by
  fun_induction runs (fun x y => before (f x) (f y)) eager goal items with
  | case1 => rw [List.map_nil, runs]; rfl
  | case2 item items ih =>
      rw [List.map_cons, runs, ← List.map_cons, frontRun_map, frontLength_map, ← List.map_drop, ih]
      cases frontRun (fun x y => before (f x) (f y)) eager goal (item :: items) with
      | none => rfl
      | some first => cases runs (fun x y => before (f x) (f y)) eager goal _ <;> rfl

section Joins

variable {sort : List α → Option (List α)} {sort' : List β → Option (List β)}
  (same : ∀ items, sort (items.map f) = (sort' items).map (List.map f))

include same

theorem sortedItems_map (run : Run β) :
    (run.map f).sortedItems sort = (run.sortedItems sort').map (List.map f) := by
  rw [Run.sortedItems, Run.sortedItems, Run.map]
  split
  · rfl
  · exact same run.items

theorem join_map (room : Nat) (left right : Run β) :
    join before sort room (left.map f) (right.map f) =
      (join (fun x y => before (f x) (f y)) sort' room left right).map (Run.map f) := by
  rw [join, join, sortedItems_map f same, sortedItems_map f same]
  simp only [Run.map, List.length_map]
  split
  · cases left.sortedItems sort' with
    | none => rfl
    | some lefts =>
        cases right.sortedItems sort' with
        | none => rfl
        | some rights =>
            exact congrArg (fun items => some (Run.mk items true)) (merge_map before f lefts rights)
  · simp only [Option.map_some, Run.map, List.map_append]

theorem joinDeeper_map (room depth : Nat) (waiting : List (Run β × Nat)) (run : Run β) :
    joinDeeper before sort room depth (waiting.map (Prod.map (Run.map f) id)) (run.map f) =
      (joinDeeper (fun x y => before (f x) (f y)) sort' room depth waiting run).map
        (Prod.map (List.map (Prod.map (Run.map f) id)) (Run.map f)) := by
  induction waiting generalizing run with
  | nil => rfl
  | cons top waiting ih =>
      obtain ⟨left, deep⟩ := top
      rw [List.map_cons, Prod.map_apply, joinDeeper, joinDeeper, id, join_map before f same]
      split
      · cases join (fun x y => before (f x) (f y)) sort' room left run with
        | none => rfl
        | some joined => exact ih joined
      · rfl

theorem joinAll_map (room total : Nat) (waiting : List (Run β × Nat)) (run : Run β) (stop : Nat)
    (others : List (Run β)) :
    joinAll before sort room total (waiting.map (Prod.map (Run.map f) id)) (run.map f) stop
        (others.map (Run.map f)) =
      (joinAll (fun x y => before (f x) (f y)) sort' room total waiting run stop others).map
        (Run.map f) := by
  induction others generalizing waiting run stop with
  | nil =>
      rw [List.map_nil, joinAll, joinAll, joinDeeper_map before f same, Option.map_map,
        Option.map_map]
      rfl
  | cons next others ih =>
      have lengths (run : Run β) : (run.map f).items.length = run.items.length :=
        List.length_map f
      rw [List.map_cons, joinAll, joinAll, lengths, lengths]
      simp only [joinDeeper_map before f same]
      cases joinDeeper (fun x y => before (f x) (f y)) sort' room _ waiting run with
      | none => rfl
      | some state => exact ih ((state.2, _) :: state.1) next _

theorem sortRuns_map (room : Nat) (eager : Bool) (items : List β) :
    sortRuns before sort room eager (items.map f) =
      (sortRuns (fun x y => before (f x) (f y)) sort' room eager items).map (List.map f) := by
  rw [sortRuns, sortRuns, List.length_map, runs_map]
  cases runs (fun x y => before (f x) (f y)) eager (goalLength items.length) items with
  | none => rfl
  | some taken =>
      cases taken with
      | nil => rfl
      | cons first others =>
          have joined := joinAll_map before f same room items.length [] first first.items.length
            others
          rw [List.map_nil] at joined
          have length : (first.map f).items.length = first.items.length := List.length_map f
          simp only [Option.map_some, Option.bind_eq_bind, Option.bind_some, List.map_cons, length,
            joined]
          cases joinAll (fun x y => before (f x) (f y)) sort' room items.length [] first
            first.items.length others with
          | none => rfl
          | some whole => exact sortedItems_map f same whole

end Joins

/-! ## Partition -/

theorem median_map (a b c : β) :
    median before (f a) (f b) (f c) = f (median (fun x y => before (f x) (f y)) a b c) := by
  simp only [median, apply_ite f]

theorem pivot_map (items : List β) (start length : Nat) :
    pivot before (items.map f) start length =
      (pivot (fun x y => before (f x) (f y)) items start length).map f := by
  fun_induction pivot (fun x y => before (f x) (f y)) items start length with
  | case1 start length few => rw [pivot, if_pos few, List.getElem?_map]
  | case2 start length many ih₁ ih₂ ih₃ =>
      rw [pivot, if_neg many, ih₁, ih₂, ih₃]
      simp only [Option.bind_eq_bind, Option.pure_def, Option.bind_map, Option.map_bind,
        Function.comp_def, Option.map_some, median_map]

theorem sortParts_map {otherwise : List α → Option (List α)}
    {otherwise' : List β → Option (List β)}
    (same : ∀ items, otherwise (items.map f) = (otherwise' items).map (List.map f)) (limit : Nat)
    (floor : Option β) (items : List β) :
    sortParts before otherwise limit (floor.map f) (items.map f) =
      (sortParts (fun x y => before (f x) (f y)) otherwise' limit floor items).map
        (List.map f) := by
  induction limit generalizing floor items with
  | zero =>
      rw [sortParts, sortParts, List.length_map, sortShort_map]
      split
      · rfl
      · exact same items
  | succ limit ih =>
      rw [sortParts, sortParts, List.length_map, sortShort_map]
      split
      · rfl
      · rw [pivot_map]
        cases pivot (fun x y => before (f x) (f y)) items 0 items.length with
        | none => rfl
        | some middle =>
            have greater := ih none
            have upper := ih (some middle)
            rw [Option.map_none] at greater
            rw [Option.map_some] at upper
            simp only [Option.map_some, Option.bind_eq_bind, Option.bind_some, List.filter_map,
              Function.comp_def, List.isEmpty_map, Option.any_map, greater, upper, ih]
            split <;> simp only [Option.pure_def, Option.bind_map, Option.map_bind,
              Function.comp_def, Option.map_some, List.map_append]

theorem sortLong_map (items : List β) :
    sortLong before (items.map f) =
      (sortLong (fun x y => before (f x) (f y)) items).map (List.map f) := by
  have merged (items : List β) : some (items.map f) = (some items).map (List.map f) := rfl
  rw [sortLong, sortLong, List.length_map]
  exact sortParts_map before f (sortRuns_map before f merged items.length true) _ none items

theorem stableSort_map (room : Nat) (items : List β) :
    stableSort before room (items.map f) =
      (stableSort (fun x y => before (f x) (f y)) room items).map (List.map f) := by
  rw [stableSort, stableSort, List.length_map]
  split
  · exact congrArg some (insertionSort_map before f items)
  · exact sortRuns_map before f (sortLong_map before f) room _ items

/-! ## Related items -/

section Related

variable {before} {before' : β → β → Bool} {rel : α → β → Prop}

theorem exists_pairs {lefts : List α} {rights : List β} (related : List.Forall₂ rel lefts rights) :
    ∃ pairs : List { pair : α × β // rel pair.1 pair.2 },
      pairs.map (fun pair => pair.1.1) = lefts ∧ pairs.map (fun pair => pair.1.2) = rights := by
  induction related with
  | nil => exact ⟨[], rfl, rfl⟩
  | @cons a b _ _ head _ ih =>
      obtain ⟨pairs, rfl, rfl⟩ := ih
      exact ⟨⟨(a, b), head⟩ :: pairs, rfl, rfl⟩

/-- Items of two kinds that are ordered alike are sorted alike. -/
theorem stableSort_related
    (alike : ∀ a b a' b', rel a b → rel a' b' → before a a' = before' b b') (room : Nat)
    {lefts : List α} {rights : List β} (related : List.Forall₂ rel lefts rights) :
    Option.Rel (List.Forall₂ rel) (stableSort before room lefts)
      (stableSort before' room rights) := by
  obtain ⟨pairs, rfl, rfl⟩ := exists_pairs related
  have orders : (fun x y : { pair : α × β // rel pair.1 pair.2 } => before x.1.1 y.1.1) =
      fun x y => before' x.1.2 y.1.2 := by
    funext x y
    exact alike _ _ _ _ x.2 y.2
  rw [stableSort_map before, stableSort_map before', orders]
  cases stableSort (fun x y : { pair : α × β // rel pair.1 pair.2 } => before' x.1.2 y.1.2) room
      pairs with
  | none => exact .none
  | some sorted =>
      refine .some ?_
      rw [List.forall₂_map_left_iff, List.forall₂_map_right_iff]
      exact List.forall₂_same.mpr fun pair _ => pair.2

end Related

end JsonQuery.Sorting
