import JsonQuery.Proofs.Sorting.Natural
import JsonQuery.Proofs.Sorting.Rank

/-!
# Merging sorted lists

However far it gets, and from whichever end it starts, a merge has done a part of the one complete
merge.  So where the order is that of ranks, merging from both ends at once never takes an item twice,
and few items are always sorted.
-/

set_option autoImplicit false

namespace JsonQuery.Sorting

variable {α κ : Type}

/-! ## Parts of the complete merge -/

section Front

variable (before : α → α → Bool)

/-- Merges two lists completely. -/
def mergeWhole (left right : List α) : List α :=
  left.merge right fun x y => !before y x

theorem mergeWhole_nil_left (right : List α) : mergeWhole before [] right = right :=
  List.nil_merge right

theorem mergeWhole_nil_right (left : List α) : mergeWhole before left [] = left :=
  List.merge_right left

theorem mergeWhole_cons (a b : α) (left right : List α) :
    mergeWhole before (a :: left) (b :: right) =
      if before b a then b :: mergeWhole before (a :: left) right
      else a :: mergeWhole before left (b :: right) := by
  rw [mergeWhole, List.cons_merge_cons]
  cases before b a <;> rfl

theorem mergeWhole_map {β : Type} (f : β → α) (left right : List β) :
    mergeWhole before (left.map f) (right.map f) =
      (mergeWhole (fun x y => before (f x) (f y)) left right).map f := by
  have merged : (left.merge right fun x y => !before (f y) (f x)).map f =
      (left.map f).merge (right.map f) fun x y => !before y x := List.map_merge fun _ _ _ _ => rfl
  exact merged.symm

theorem length_mergeWhole (left right : List α) :
    (mergeWhole before left right).length = left.length + right.length :=
  List.length_merge _ left right

/-- The merge from the front goes on to the complete one. -/
theorem mergeFront_append (n : Nat) (left right : List α) :
    (mergeFront before n left right).merged ++
        mergeWhole before (mergeFront before n left right).left
          (mergeFront before n left right).right =
      mergeWhole before left right := by
  fun_induction mergeFront before n left right with
  | case1 left right => rfl
  | case2 n right => rfl
  | case3 n a left => rfl
  | case4 n a left b right passes ih =>
      rw [mergeWhole_cons, if_pos passes, ← ih]
      rfl
  | case5 n a left b right stays ih =>
      rw [mergeWhole_cons, if_neg stays, ← ih]
      rfl

theorem suffix_mergeFront (n : Nat) (left right : List α) :
    (mergeFront before n left right).left <:+ left ∧
      (mergeFront before n left right).right <:+ right := by
  fun_induction mergeFront before n left right with
  | case1 left right => exact ⟨List.suffix_rfl, List.suffix_rfl⟩
  | case2 n right => exact ⟨List.suffix_rfl, List.suffix_rfl⟩
  | case3 n a left => exact ⟨List.suffix_rfl, List.suffix_rfl⟩
  | case4 n a left b right passes ih => exact ⟨ih.1, ih.2.trans (List.suffix_cons b right)⟩
  | case5 n a left b right stays ih => exact ⟨ih.1.trans (List.suffix_cons a left), ih.2⟩

theorem length_mergeFront_le (n : Nat) (left right : List α) :
    (mergeFront before n left right).merged.length ≤ n := by
  fun_induction mergeFront before n left right with
  | case1 left right => exact Nat.le_refl 0
  | case2 n right => exact Nat.zero_le _
  | case3 n a left => exact Nat.zero_le _
  | case4 n a left b right passes ih => exact Nat.succ_le_succ ih
  | case5 n a left b right stays ih => exact Nat.succ_le_succ ih

/-- The merge from the front stops when it has enough items or one of the lists is used up. -/
theorem mergeFront_stops (n : Nat) (left right : List α) :
    (mergeFront before n left right).merged.length = n ∨
      (mergeFront before n left right).left = [] ∨
        (mergeFront before n left right).right = [] := by
  fun_induction mergeFront before n left right with
  | case1 left right => exact .inl rfl
  | case2 n right => exact .inr (.inl rfl)
  | case3 n a left => exact .inr (.inr rfl)
  | case4 n a left b right passes ih => exact ih.imp_left (congrArg Nat.succ)
  | case5 n a left b right stays ih => exact ih.imp_left (congrArg Nat.succ)

theorem length_mergeFront (n : Nat) (left right : List α) :
    (mergeFront before n left right).merged.length +
        ((mergeFront before n left right).left.length +
          (mergeFront before n left right).right.length) =
      left.length + right.length := by
  have whole := congrArg List.length (mergeFront_append before n left right)
  rwa [List.length_append, length_mergeWhole, length_mergeWhole] at whole

/-- No list is used up before so many items as either has are merged. -/
theorem length_merged_mergeFront {left right : List α} {n : Nat} (lefts : n ≤ left.length)
    (rights : n ≤ right.length) : (mergeFront before n left right).merged.length = n := by
  have total := length_mergeFront before n left right
  obtain ⟨leftSuffix, rightSuffix⟩ := suffix_mergeFront before n left right
  have leftLength := leftSuffix.length_le
  have rightLength := rightSuffix.length_le
  have most := length_mergeFront_le before n left right
  rcases mergeFront_stops before n left right with enough | used | used
  · exact enough
  · rw [used, List.length_nil] at total
    omega
  · rw [used, List.length_nil] at total
    omega

/-- With enough steps one of the lists is used up. -/
theorem mergeFront_uses {n : Nat} {left right : List α} (enough : left.length + right.length ≤ n) :
    (mergeFront before n left right).left = [] ∨ (mergeFront before n left right).right = [] := by
  have total := length_mergeFront before n left right
  rcases mergeFront_stops before n left right with all | used
  · exact .inl (List.eq_nil_of_length_eq_zero (by omega))
  · exact used

theorem mergeBack_uses {n : Nat} {left right : List α} (enough : left.length + right.length ≤ n) :
    (mergeBack before n left right).left = [] ∨ (mergeBack before n left right).right = [] := by
  have turned : right.reverse.length + left.reverse.length ≤ n := by
    rw [List.length_reverse, List.length_reverse]
    omega
  rcases mergeFront_uses (fun x y => before y x) turned with used | used
  · exact .inr (List.reverse_eq_nil_iff.mpr used)
  · exact .inl (List.reverse_eq_nil_iff.mpr used)

/-- Nothing is left to compare when one of the lists is used up. -/
theorem mergeWhole_of_used {left right : List α} (used : left = [] ∨ right = []) :
    mergeWhole before left right = left ++ right := by
  rcases used with rfl | rfl
  · exact mergeWhole_nil_left before right
  · rw [mergeWhole_nil_right, List.append_nil]

theorem prefix_mergeBack (n : Nat) (left right : List α) :
    (mergeBack before n left right).left <+: left ∧
      (mergeBack before n left right).right <+: right := by
  obtain ⟨rights, lefts⟩ := suffix_mergeFront (fun x y => before y x) n right.reverse left.reverse
  exact ⟨List.reverse_suffix.mp (by simpa [mergeBack] using lefts),
    List.reverse_suffix.mp (by simpa [mergeBack] using rights)⟩

theorem length_merged_mergeBack {left right : List α} {n : Nat} (lefts : n ≤ left.length)
    (rights : n ≤ right.length) : (mergeBack before n left right).merged.length = n := by
  rw [← List.length_reverse] at lefts rights
  have length := length_merged_mergeFront (fun x y => before y x) rights lefts
  rwa [← List.length_reverse] at length

/-- Merging puts the items of neither list out of order. -/
theorem filter_mergeWhole (side : α → Bool) {left right : List α}
    (lefts : ∀ x ∈ left, side x = true) (rights : ∀ x ∈ right, side x = false) :
    (mergeWhole before left right).filter side = left ∧
      (mergeWhole before left right).filter (fun x => !side x) = right := by
  induction left generalizing right with
  | nil =>
      rw [mergeWhole_nil_left]
      exact ⟨List.filter_eq_nil_iff.mpr fun x listed => by simp [rights x listed],
        List.filter_eq_self.mpr fun x listed => by simp [rights x listed]⟩
  | cons a left ih =>
      have leftSide := lefts a List.mem_cons_self
      induction right with
      | nil =>
          rw [mergeWhole_nil_right]
          exact ⟨List.filter_eq_self.mpr lefts,
            List.filter_eq_nil_iff.mpr fun x listed => by simp [lefts x listed]⟩
      | cons b right ih' =>
          have rightSide := rights b List.mem_cons_self
          rw [mergeWhole_cons]
          split
          · obtain ⟨left', right'⟩ := ih' fun x listed => rights x (List.mem_cons_of_mem b listed)
            rw [List.filter_cons_of_neg (by simp [rightSide]),
              List.filter_cons_of_pos (by simp [rightSide])]
            exact ⟨left', congrArg (b :: ·) right'⟩
          · obtain ⟨left', right'⟩ := ih (fun x listed => lefts x (List.mem_cons_of_mem a listed)) rights
            rw [List.filter_cons_of_pos leftSide, List.filter_cons_of_neg (by simp [leftSide])]
            exact ⟨congrArg (a :: ·) left', right'⟩

end Front

/-! ## Merging by rank -/

section Ranked

variable [LinearOrder κ] {rank : α → κ} {xs ys left right : List α}

theorem ascending_mergeWhole (lefts : Ascending rank left) (rights : Ascending rank right) :
    Ascending rank (mergeWhole (below rank) left right) := by
  have le_iff (x y : α) : (!below rank y x) = true ↔ rank x ≤ rank y := by
    rw [Bool.not_eq_true', not_below_iff]
  have merged := @List.pairwise_merge α (fun x y => !below rank y x)
    (fun x y z => by simpa only [le_iff] using le_trans)
    (fun x y => by simpa only [Bool.or_eq_true, le_iff] using le_total (rank x) (rank y)) left right
  simp only [le_iff] at merged
  exact merged lefts rights

theorem classes_mergeWhole (lefts : Ascending rank left) (right : List α) :
    SameClasses rank (mergeWhole (below rank) left right) (left ++ right) := by
  intro k
  induction left generalizing right with
  | nil => rw [mergeWhole_nil_left, List.nil_append]
  | cons a left ih =>
      obtain ⟨leasts, others⟩ := List.pairwise_cons.mp lefts
      induction right with
      | nil => rw [mergeWhole_nil_right, List.append_nil]
      | cons b right ih' =>
          rw [mergeWhole_cons]
          split
          · rename_i passes
            rw [below_iff] at passes
            rw [ofRank_append] at ih' ⊢
            by_cases ofClass : rank b = k
            · -- the item overtakes none of its rank
              subst ofClass
              have apart : ofRank rank (rank b) (a :: left) = [] := by
                refine ofRank_eq_nil fun x listed => ne_of_gt ?_
                rcases List.mem_cons.mp listed with rfl | later
                · exact passes
                · exact lt_of_lt_of_le passes (leasts x later)
              rw [ofRank_cons_self, ofRank_cons_self, ih', apart, List.nil_append, List.nil_append]
            · rw [ofRank_cons_ne ofClass, ofRank_cons_ne ofClass, ih']
          · have rest := ih others (b :: right)
            rw [List.cons_append]
            by_cases ofClass : rank a = k
            · subst ofClass
              rw [ofRank_cons_self, ofRank_cons_self, rest]
            · rw [ofRank_cons_ne ofClass, ofRank_cons_ne ofClass, rest]

theorem Sorts.mergeWhole (lefts : Sorts rank xs left) (rights : Sorts rank ys right) :
    Sorts rank (xs ++ ys) (mergeWhole (below rank) left right) where
  ascending := ascending_mergeWhole lefts.ascending rights.ascending
  classes := (classes_mergeWhole lefts.ascending right).trans (lefts.classes.append rights.classes)

open OrderDual in
/-- The complete merge is the same from behind, with all turned round. -/
theorem reverse_mergeWhole (lefts : Ascending rank left) (rights : Ascending rank right) :
    (mergeWhole (fun x y => below rank y x) right.reverse left.reverse).reverse =
      mergeWhole (below rank) left right := by
  have turned {zs : List α} (ascending : Ascending rank zs) :
      Ascending (toDual ∘ rank) zs.reverse := List.pairwise_reverse.mpr ascending
  have ascends : Ascending rank
      (mergeWhole (fun x y => below rank y x) right.reverse left.reverse).reverse :=
    List.pairwise_reverse.mpr (ascending_mergeWhole (turned rights) (turned lefts))
  refine ascends.eq (ascending_mergeWhole lefts rights) fun k => ?_
  have classes : ofRank rank k (mergeWhole (fun x y => below rank y x) right.reverse left.reverse) =
      ofRank rank k (right.reverse ++ left.reverse) :=
    classes_mergeWhole (turned rights) left.reverse (toDual k)
  rw [ofRank_reverse, classes, ← List.reverse_append, ofRank_reverse, List.reverse_reverse,
    classes_mergeWhole lefts right k]

/-- The merge from the end is what the complete one ends with. -/
theorem append_mergeBack (n : Nat) (lefts : Ascending rank left) (rights : Ascending rank right) :
    mergeWhole (below rank) (mergeBack (below rank) n left right).left
        (mergeBack (below rank) n left right).right ++ (mergeBack (below rank) n left right).merged =
      mergeWhole (below rank) left right := by
  have front := mergeFront_append (fun x y => below rank y x) n right.reverse left.reverse
  obtain ⟨leftPart, rightPart⟩ := prefix_mergeBack (below rank) n left right
  have back := reverse_mergeWhole (lefts.sublist leftPart.sublist) (rights.sublist rightPart.sublist)
  rw [← reverse_mergeWhole lefts rights, ← front, List.reverse_append, ← back]
  simp only [mergeBack, List.reverse_reverse]

theorem merge_eq_mergeWhole (lefts : Ascending rank left) (rights : Ascending rank right) :
    merge (below rank) left right = mergeWhole (below rank) left right := by
  rw [merge]
  split
  · rw [← mergeFront_append _ (left.length + right.length) left right,
      mergeWhole_of_used _ (mergeFront_uses _ (Nat.le_refl _))]
  · rw [← append_mergeBack (left.length + right.length) lefts rights,
      mergeWhole_of_used _ (mergeBack_uses _ (Nat.le_refl _))]

/-- What is between a front and an end that are parts of the same list. -/
theorem exists_middle {front behind before back : List α} (same : front ++ behind = before ++ back)
    (apart : front.length ≤ before.length) :
    ∃ middle, behind = middle ++ back ∧ before = front ++ middle := by
  rcases List.append_eq_append_iff.mp same with ⟨middle, befores, behinds⟩ | ⟨overlap, rfl, rfl⟩
  · exact ⟨middle, behinds, befores⟩
  · rw [List.length_append] at apart
    rw [List.eq_nil_of_length_eq_zero (by omega : overlap.length = 0)]
    exact ⟨[], by simp, by simp⟩

/-- How much of a middle two parts have in common. -/
theorem take_overlap (front middle back : List α) :
    (front ++ (middle ++ back)).length ≤ (middle ++ back).length + (front ++ middle).length ∧
      (middle ++ back).take ((middle ++ back).length + (front ++ middle).length -
        (front ++ (middle ++ back)).length) = middle := by
  have common : (middle ++ back).length + (front ++ middle).length =
      (front ++ (middle ++ back)).length + middle.length := by
    simp only [List.length_append]
    omega
  rw [common, Nat.add_sub_cancel_left]
  exact ⟨Nat.le_add_right _ _, List.take_left⟩

theorem filter_append_filter_not (side : α → Bool) {middle : List α} (few : middle.length ≤ 1) :
    middle.filter side ++ middle.filter (fun x => !side x) = middle := by
  rcases middle with _ | ⟨x, _ | ⟨y, rest⟩⟩
  · rfl
  · cases isLeft : side x <;> simp [isLeft]
  · simp only [List.length_cons] at few
    omega

/-- From both ends at once, no item is taken twice, and at most one is left in the middle. -/
theorem mergeBoth_of_sides (side : α → Bool) (lefts : Ascending rank left)
    (rights : Ascending rank right) (leftSide : ∀ x ∈ left, side x = true)
    (rightSide : ∀ x ∈ right, side x = false) (shorter : left.length ≤ right.length)
    (longer : right.length ≤ left.length + 1) :
    mergeBoth (below rank) left right = some (mergeWhole (below rank) left right) := by
  have halves : (left.length + right.length) / 2 = left.length := by omega
  have frontLength := length_merged_mergeFront (below rank) (Nat.le_refl left.length) shorter
  have backLength := length_merged_mergeBack (below rank) (Nat.le_refl left.length) shorter
  have front := mergeFront_append (below rank) left.length left right
  have back := append_mergeBack left.length lefts rights
  obtain ⟨frontLefts, frontRights⟩ := suffix_mergeFront (below rank) left.length left right
  obtain ⟨backLefts, backRights⟩ := prefix_mergeBack (below rank) left.length left right
  simp only [mergeBoth, halves]
  generalize mergeFront (below rank) left.length left right = m at *
  generalize mergeBack (below rank) left.length left right = m' at *
  have total := congrArg List.length back
  rw [List.length_append, length_mergeWhole _ left right] at total
  obtain ⟨middle, behind, before⟩ := exists_middle (front.trans back.symm) (by omega)
  obtain ⟨leftBehind, rightBehind⟩ := filter_mergeWhole (below rank) side
    (fun x listed => leftSide x (frontLefts.subset listed))
    (fun x listed => rightSide x (frontRights.subset listed))
  obtain ⟨leftBefore, rightBefore⟩ := filter_mergeWhole (below rank) side
    (fun x listed => leftSide x (backLefts.subset listed))
    (fun x listed => rightSide x (backRights.subset listed))
  obtain ⟨leftAll, rightAll⟩ := filter_mergeWhole (below rank) side leftSide rightSide
  rw [behind, List.filter_append] at leftBehind rightBehind
  rw [before, List.filter_append] at leftBefore rightBefore
  rw [← front, behind, List.filter_append, List.filter_append] at leftAll rightAll
  have few : middle.length ≤ 1 := by
    rw [before, List.length_append] at total
    omega
  obtain ⟨leftEnough, leftMiddle⟩ := take_overlap (m.merged.filter side) (middle.filter side)
    (m'.merged.filter side)
  obtain ⟨rightEnough, rightMiddle⟩ := take_overlap (m.merged.filter fun x => !side x)
    (middle.filter fun x => !side x) (m'.merged.filter fun x => !side x)
  rw [leftAll, leftBehind, leftBefore] at leftEnough leftMiddle
  rw [rightAll, rightBehind, rightBefore] at rightEnough rightMiddle
  rw [if_pos ⟨leftEnough, rightEnough⟩]
  rw [leftMiddle, rightMiddle, filter_append_filter_not side few, ← front, behind,
    List.append_assoc]

theorem mergeBoth_eq (lefts : Ascending rank left) (rights : Ascending rank right)
    (shorter : left.length ≤ right.length) (longer : right.length ≤ left.length + 1) :
    mergeBoth (below rank) left right = some (mergeWhole (below rank) left right) := by
  -- marks tell the items of the two lists apart
  have ascending (mark : Bool) {zs : List α} (ascends : Ascending rank zs) :
      Ascending (fun x : α × Bool => rank x.1) (zs.map (·, mark)) := List.pairwise_map.mpr ascends
  have marks (mark : Bool) (zs : List α) : ∀ x ∈ zs.map (·, mark), x.2 = mark := by simp
  have unmarked (mark : Bool) (zs : List α) : (zs.map (·, mark)).map Prod.fst = zs := by
    simp [Function.comp_def]
  have marked := mergeBoth_of_sides Prod.snd (ascending true lefts) (ascending false rights)
    (marks true left) (marks false right) (by simpa using shorter) (by simpa using longer)
  have whole := mergeWhole_map (below rank) Prod.fst (left.map (·, true)) (right.map (·, false))
  have merged := (mergeBoth_map (below rank) Prod.fst (left.map (·, true))
    (right.map (·, false))).trans (congrArg (Option.map (List.map Prod.fst)) marked)
  rw [unmarked, unmarked] at merged whole
  rw [merged, Option.map_some, whole]
  rfl

/-! ## Short lists -/

theorem mergePairs_eq {first second : α × α} (le : rank first.1 ≤ rank first.2)
    (le' : rank second.1 ≤ rank second.2) :
    mergePairs (below rank) first second =
      mergeWhole (below rank) [first.1, first.2] [second.1, second.2] := by
  simp only [mergePairs, mergeWhole_cons, mergeWhole_nil_left, mergeWhole_nil_right, below_iff]
  grind

theorem sorts_sortTwo (rank : α → κ) (a b : α) :
    Sorts rank [a, b] [(sortTwo (below rank) a b).1, (sortTwo (below rank) a b).2] := by
  have inserted := sorts_insertionSort rank [a, b]
  simp only [insertionSort, insertAll, List.foldl_cons, List.foldl_nil, insertLast] at inserted
  rw [sortTwo]
  by_cases passes : below rank b a = true
  · rwa [if_pos passes] at inserted ⊢
  · rwa [if_neg passes] at inserted ⊢

theorem sorts_sortFour (rank : α → κ) (a b c d : α) :
    Sorts rank [a, b, c, d] (sortFour (below rank) a b c d) := by
  have first := sorts_sortTwo rank a b
  have second := sorts_sortTwo rank c d
  rw [sortFour, mergePairs_eq (List.rel_of_pairwise_cons first.ascending List.mem_cons_self)
    (List.rel_of_pairwise_cons second.ascending List.mem_cons_self)]
  exact first.mergeWhole second

theorem sorts_sortFromFour (rank : α → κ) (items : List α) :
    Sorts rank items (sortFromFour (below rank) items) := by
  unfold sortFromFour
  split
  · rename_i a b c d rest
    have four : Sorts rank [a, b, c, d] (sortFour (below rank) a b c d).reverse.reverse := by
      rw [List.reverse_reverse]
      exact sorts_sortFour rank a b c d
    exact four.insertAll rest
  · exact sorts_insertionSort rank items

theorem sorts_sortShort (rank : α → κ) (items : List α) :
    ∃ sorted, sortShort (below rank) items = some sorted ∧ Sorts rank items sorted := by
  have sortHalf (part : List α) : Sorts rank part
      ((if 8 ≤ items.length then sortFromFour (below rank) else insertionSort (below rank)) part) := by
    split
    · exact sorts_sortFromFour rank part
    · exact sorts_insertionSort rank part
  have lefts := sortHalf (items.take (items.length / 2))
  have rights := sortHalf (items.drop (items.length / 2))
  have merged := lefts.mergeWhole rights
  rw [List.take_append_drop] at merged
  simp only [sortShort]
  by_cases few : items.length < 2
  · rw [if_pos few]
    refine ⟨items, rfl, sorts_self ?_⟩
    rcases items with _ | ⟨x, _ | ⟨y, rest⟩⟩
    · exact .nil
    · exact List.pairwise_singleton _ x
    · simp only [List.length_cons] at few
      omega
  · rw [if_neg few]
    refine ⟨_, mergeBoth_eq lefts.ascending rights.ascending ?_ ?_, merged⟩
    · rw [lefts.length_eq, rights.length_eq, List.length_take, List.length_drop]
      omega
    · rw [lefts.length_eq, rights.length_eq, List.length_take, List.length_drop]
      omega

end Ranked

end JsonQuery.Sorting
