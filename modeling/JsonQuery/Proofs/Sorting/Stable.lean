import JsonQuery.Proofs.Sorting.Merge

/-!
# Stable sorting by rank

Where the order is that of ranks, sorting always comes to a result, and this is the stable sort.  Runs
and their joins keep the items of each rank in order, and a partition around any pivot puts each part
where it belongs.
-/

set_option autoImplicit false

namespace JsonQuery.Sorting

variable {α κ : Type} [LinearOrder κ] {rank : α → κ}

/-- A way of sorting that always gives the stable sort. -/
def SortsAll (rank : α → κ) (sort : List α → Option (List α)) : Prop :=
  ∀ items, ∃ sorted, sort items = some sorted ∧ Sorts rank items sorted

/-! ## Natural runs -/

theorem ascending_ascent (first : α) (items : List α) :
    Ascending rank (first :: items.take (ascent (below rank) first items)) := by
  induction items generalizing first with
  | nil => exact List.pairwise_singleton _ first
  | cons next rest ih =>
      rw [ascent]
      split
      · exact List.pairwise_singleton _ first
      · rename_i stays
        rw [below_iff, not_lt] at stays
        refine List.pairwise_cons.mpr ⟨fun x listed => ?_, ih next⟩
        rcases List.mem_cons.mp listed with rfl | later
        · exact stays
        · exact le_trans stays (List.rel_of_pairwise_cons (ih next) later)

theorem descending_descent (first : α) (items : List α) :
    (first :: items.take (descent (below rank) first items)).Pairwise
      fun x y => rank y < rank x := by
  induction items generalizing first with
  | nil => exact List.pairwise_singleton _ first
  | cons next rest ih =>
      rw [descent]
      split
      · rename_i falls
        rw [below_iff] at falls
        refine List.pairwise_cons.mpr ⟨fun x listed => ?_, ih next⟩
        rcases List.mem_cons.mp listed with rfl | later
        · exact falls
        · exact lt_trans (List.rel_of_pairwise_cons (ih next) later) falls
      · exact List.pairwise_singleton _ first

/-- Where all ranks differ, turning the items round is sorting them. -/
theorem sorts_reverse {items : List α} (falls : items.Pairwise fun x y => rank y < rank x) :
    Sorts rank items items.reverse := by
  refine ⟨List.pairwise_reverse.mpr (falls.imp le_of_lt), fun k => ?_⟩
  induction items with
  | nil => rfl
  | cons x rest ih =>
      obtain ⟨others, falls⟩ := List.pairwise_cons.mp falls
      rw [List.reverse_cons, ofRank_append, ih falls]
      by_cases ofClass : rank x = k
      · subst ofClass
        rw [ofRank_cons_self, ofRank_cons_self,
          ofRank_eq_nil fun y listed => ne_of_lt (others y listed)]
        rfl
      · rw [ofRank_cons_ne ofClass, ofRank_cons_ne ofClass]
        exact List.append_nil _

theorem sorts_naturalRun (rank : α → κ) (items : List α) :
    Sorts rank (items.take (naturalRun (below rank) items).1)
      (if (naturalRun (below rank) items).2
        then (items.take (naturalRun (below rank) items).1).reverse
        else items.take (naturalRun (below rank) items).1) := by
  cases items with
  | nil => exact sorts_self .nil
  | cons first rest =>
      rw [naturalRun]
      split
      · exact sorts_self (ascending_ascent first rest)
      · exact sorts_reverse (descending_descent first rest)

/-! ## Joins -/

variable {sort : List α → Option (List α)} {run left right : Run α}

/-- The run is sorted, or there is a way to sort it. -/
def Run.Ready (rank : α → κ) (sort : List α → Option (List α)) (run : Run α) : Prop :=
  if run.sorted then Ascending rank run.items else SortsAll rank sort

theorem Run.Ready.exists_sorts (ready : run.Ready rank sort) :
    ∃ sorted, run.sortedItems sort = some sorted ∧ Sorts rank run.items sorted := by
  unfold Run.Ready at ready
  unfold Run.sortedItems
  split at ready
  · rename_i sorted
    rw [if_pos sorted]
    exact ⟨run.items, rfl, sorts_self ready⟩
  · rename_i unsorted
    rw [if_neg unsorted]
    exact ready run.items

theorem exists_join (room : Nat) (lefts : left.Ready rank sort) (rights : right.Ready rank sort) :
    ∃ joined, join (below rank) sort room left right = some joined ∧ joined.Ready rank sort ∧
      SameClasses rank joined.items (left.items ++ right.items) := by
  rw [join]
  split
  · obtain ⟨first, sortedFirst, sorts⟩ := lefts.exists_sorts
    obtain ⟨second, sortedSecond, sorts'⟩ := rights.exists_sorts
    have merged := sorts.mergeWhole sorts'
    rw [← merge_eq_mergeWhole sorts.ascending sorts'.ascending] at merged
    rw [sortedFirst, sortedSecond]
    exact ⟨_, rfl, merged.ascending, merged.classes⟩
  · rename_i unsorted
    refine ⟨_, rfl, ?_, .refl _⟩
    have way : left.sorted = false := by
      cases sorted : left.sorted
      · rfl
      · simp [sorted] at unsorted
    rwa [Run.Ready, way] at lefts

/-- The items of waiting runs in order. -/
def waitingItems (waiting : List (Run α × Nat)) : List α :=
  waiting.reverse.flatMap fun entry => entry.1.items

theorem waitingItems_cons (entry : Run α × Nat) (waiting : List (Run α × Nat)) :
    waitingItems (entry :: waiting) = waitingItems waiting ++ entry.1.items := by
  simp [waitingItems]

theorem exists_joinDeeper (room depth : Nat) {waiting : List (Run α × Nat)}
    (waits : ∀ entry ∈ waiting, entry.1.Ready rank sort) (ready : run.Ready rank sort) :
    ∃ waiting' run', joinDeeper (below rank) sort room depth waiting run = some (waiting', run') ∧
      (∀ entry ∈ waiting', entry.1.Ready rank sort) ∧ run'.Ready rank sort ∧
        SameClasses rank (waitingItems waiting' ++ run'.items)
          (waitingItems waiting ++ run.items) ∧ (depth = 0 → waiting' = []) := by
  induction waiting generalizing run with
  | nil => exact ⟨[], run, rfl, waits, ready, .refl _, fun _ => rfl⟩
  | cons entry waiting ih =>
      obtain ⟨left, deep⟩ := entry
      obtain ⟨first, others⟩ := List.forall_mem_cons.mp waits
      rw [joinDeeper]
      split
      · obtain ⟨joined, joins, ready, classes⟩ := exists_join room first ready
        obtain ⟨waiting', run', deeper, waits', ready', classes', all⟩ := ih others ready
        refine ⟨waiting', run', ?_, waits', ready', classes'.trans ?_, all⟩
        · rw [joins]
          exact deeper
        · rw [waitingItems_cons, List.append_assoc]
          exact (SameClasses.refl _).append classes
      · rename_i shallow
        exact ⟨_, _, rfl, waits, ready, .refl _, fun zero => absurd (zero ▸ Nat.zero_le deep) shallow⟩

theorem exists_joinAll (room total : Nat) {waiting : List (Run α × Nat)} {others : List (Run α)}
    (stop : Nat) (waits : ∀ entry ∈ waiting, entry.1.Ready rank sort) (ready : run.Ready rank sort)
    (readies : ∀ other ∈ others, other.Ready rank sort) :
    ∃ whole, joinAll (below rank) sort room total waiting run stop others = some whole ∧
      whole.Ready rank sort ∧ SameClasses rank whole.items
        (waitingItems waiting ++ run.items ++ others.flatMap Run.items) := by
  induction others generalizing waiting run stop with
  | nil =>
      obtain ⟨waiting', whole, deeper, -, ready', classes, all⟩ :=
        exists_joinDeeper room 0 waits ready
      rw [all rfl] at classes
      rw [joinAll, deeper, List.flatMap_nil, List.append_nil]
      exact ⟨whole, rfl, ready', classes⟩
  | cons next others ih =>
      obtain ⟨nextReady, othersReady⟩ := List.forall_mem_cons.mp readies
      rw [joinAll]
      generalize joinDepth total (stop - run.items.length) stop (stop + next.items.length) = depth
      obtain ⟨waiting', run', deeper, waits', ready', classes, -⟩ :=
        exists_joinDeeper room depth waits ready
      have waits'' : ∀ entry ∈ (run', depth) :: waiting', entry.1.Ready rank sort :=
        List.forall_mem_cons.mpr ⟨ready', waits'⟩
      obtain ⟨whole, joins, wholeReady, classes'⟩ :=
        ih (stop + next.items.length) waits'' nextReady othersReady
      refine ⟨whole, ?_, wholeReady, classes'.trans ?_⟩
      · simp only [deeper]
        exact joins
      · rw [waitingItems_cons, List.flatMap_cons, List.append_assoc]
        exact classes.append (.refl _)

/-! ## Runs -/

/-- Runs that wait to be sorted are taken only where there is a way to sort them. -/
theorem exists_frontRun {eager : Bool} (later : eager = false → SortsAll rank sort) (goal : Nat)
    (items : List α) : ∃ run, frontRun (below rank) eager goal items = some run ∧
      run.Ready rank sort ∧
        SameClasses rank run.items (items.take (frontLength (below rank) eager goal items)) := by
  simp only [frontRun, frontLength]
  split
  · have natural := sorts_naturalRun rank items
    exact ⟨_, rfl, natural.ascending, natural.classes⟩
  · cases eager with
    | true =>
        obtain ⟨sorted, sorts, sorted'⟩ := sorts_sortShort rank (items.take shortLength)
        rw [if_pos rfl, if_pos rfl, sorts]
        exact ⟨_, rfl, sorted'.ascending, sorted'.classes⟩
    | false => exact ⟨_, rfl, later rfl, .refl _⟩

theorem exists_runs {eager : Bool} (later : eager = false → SortsAll rank sort) (goal : Nat)
    (items : List α) : ∃ taken, runs (below rank) eager goal items = some taken ∧
      (∀ run ∈ taken, run.Ready rank sort) ∧
        SameClasses rank (taken.flatMap Run.items) items := by
  fun_induction runs (below rank) eager goal items with
  | case1 => exact ⟨[], rfl, List.forall_mem_nil _, .refl _⟩
  | case2 item items ih =>
      obtain ⟨taken, takes, readies, classes⟩ := ih
      obtain ⟨first, front, ready, classes'⟩ := exists_frontRun later goal (item :: items)
      refine ⟨first :: taken, ?_, List.forall_mem_cons.mpr ⟨ready, readies⟩, ?_⟩
      · rw [front, takes]
        rfl
      · have whole := classes'.append classes
        rwa [List.take_append_drop] at whole

theorem exists_sortRuns {eager : Bool} (later : eager = false → SortsAll rank sort) (room : Nat) :
    SortsAll rank (sortRuns (below rank) sort room eager) := by
  intro items
  obtain ⟨taken, takes, readies, classes⟩ := exists_runs later (goalLength items.length) items
  rw [sortRuns, takes]
  cases taken with
  | nil => exact ⟨[], rfl, .nil, classes⟩
  | cons first others =>
      obtain ⟨ready, readies⟩ := List.forall_mem_cons.mp readies
      have none : ∀ entry ∈ ([] : List (Run α × Nat)), entry.1.Ready rank sort :=
        List.forall_mem_nil _
      obtain ⟨whole, joins, wholeReady, classes'⟩ :=
        exists_joinAll room items.length first.items.length none ready readies
      obtain ⟨sorted, sorts, sorted'⟩ := wholeReady.exists_sorts
      refine ⟨sorted, ?_, sorted'.trans (classes'.trans classes)⟩
      simp only [Option.bind_eq_bind, Option.bind_some, joins, sorts]

/-! ## Partition -/

theorem exists_pivot (before : α → α → Bool) (items : List α) (start length : Nat)
    (positive : 0 < length) (within : start + length ≤ items.length) :
    ∃ middle, pivot before items start length = some middle := by
  fun_induction pivot before items start length with
  | case1 start length few => exact ⟨_, List.getElem?_eq_getElem (by omega)⟩
  | case2 start length many ih₁ ih₂ ih₃ =>
      obtain ⟨a, first⟩ := ih₁ (by omega) (by omega)
      obtain ⟨b, second⟩ := ih₂ (by omega) (by omega)
      obtain ⟨c, third⟩ := ih₃ (by omega) (by omega)
      rw [first, second, third]
      exact ⟨_, rfl⟩

/-- Parts that are sorted are sorted together where the rank decides between them. -/
theorem Sorts.parts {items lower' upper' : List α} {p : α → Bool}
    (byRank : ∀ x y, rank x = rank y → p x = p y)
    (apart : ∀ x ∈ items, ∀ y ∈ items, p x = true → p y = false → rank x ≤ rank y)
    (lows : Sorts rank (items.filter p) lower')
    (highs : Sorts rank (items.filter fun x => !p x) upper') :
    Sorts rank items (lower' ++ upper') := by
  have both := lows.append highs fun x low y high => by
    rw [List.mem_filter] at low high
    exact apart x low.1 y high.1 low.2 (by simpa using high.2)
  exact both.trans (sameClasses_partition p byRank items)

theorem Sorts.around {items lower upper : List α} {middle : α}
    (lows : Sorts rank (items.filter fun x => below rank x middle) lower)
    (highs : Sorts rank (items.filter fun x => !below rank x middle) upper) :
    Sorts rank items (lower ++ upper) := by
  refine .parts (fun x y tie => ?_) (fun x _ y _ low high => ?_) lows highs
  · rw [below, below, tie]
  · rw [below_iff] at low
    rw [not_below_iff] at high
    exact le_of_lt (lt_of_lt_of_le low high)

theorem Sorts.behind_least {items upper : List α} {middle : α}
    (least : ∀ x ∈ items, rank middle ≤ rank x)
    (highs : Sorts rank (items.filter fun x => below rank middle x) upper) :
    Sorts rank items ((items.filter fun x => !below rank middle x) ++ upper) := by
  refine .parts (p := fun x => !below rank middle x) (fun x y tie => ?_) (fun x _ y _ low high => ?_)
    (sorts_self (List.pairwise_of_forall_mem_list fun x low y low' => ?_)) ?_
  · rw [below, below, tie]
  · rw [Bool.not_eq_true', not_below_iff] at low
    rw [Bool.not_eq_false', below_iff] at high
    exact le_trans low (le_of_lt high)
  · rw [List.mem_filter, Bool.not_eq_true', not_below_iff] at low low'
    exact le_trans low.2 (least y low'.1)
  · simpa only [Bool.not_not] using highs

/-- Nothing is below the pivot if nothing is found there, or if the pivot is as low as the floor. -/
theorem least_of_floor {floor : Option α} {items : List α} {middle : α}
    (above : ∀ least ∈ floor, ∀ x ∈ items, rank least ≤ rank x)
    (low : ((items.filter fun x => below rank x middle).isEmpty ||
      floor.any fun x => !below rank x middle) = true) : ∀ x ∈ items, rank middle ≤ rank x := by
  rw [Bool.or_eq_true, List.isEmpty_iff, List.filter_eq_nil_iff, Option.any_eq_true] at low
  intro x listed
  rcases low with none | ⟨least, given, low⟩
  · exact not_lt.mp fun less => none x listed (below_iff.mpr less)
  · rw [Bool.not_eq_true', not_below_iff] at low
    exact le_trans low (above least given x listed)

theorem none_le (rank : α → κ) (items : List α) :
    ∀ least ∈ (none : Option α), ∀ x ∈ items, rank least ≤ rank x :=
  fun least absent => absurd absent (Option.not_mem_none least)

theorem exists_sortParts {otherwise : List α → Option (List α)}
    (others : SortsAll rank otherwise) (limit : Nat) {floor : Option α} {items : List α}
    (above : ∀ least ∈ floor, ∀ x ∈ items, rank least ≤ rank x) :
    ∃ sorted, sortParts (below rank) otherwise limit floor items = some sorted ∧
      Sorts rank items sorted := by
  induction limit generalizing floor items with
  | zero =>
      rw [sortParts]
      split
      · exact sorts_sortShort rank items
      · exact others items
  | succ limit ih =>
      rw [sortParts]
      split
      · exact sorts_sortShort rank items
      · rename_i long
        rw [shortLength, Nat.not_le] at long
        obtain ⟨middle, chosen⟩ := exists_pivot (below rank) items 0 items.length (by omega) (by omega)
        rw [chosen]
        simp only [Option.bind_eq_bind, Option.bind_some]
        split
        · rename_i low
          obtain ⟨greater, sorts, sorted⟩ := ih (none_le rank _)
          rw [sorts]
          exact ⟨_, rfl, sorted.behind_least (least_of_floor above low)⟩
        · have lows : ∀ least ∈ floor, ∀ x ∈ items.filter fun x => below rank x middle,
              rank least ≤ rank x :=
            fun least given x low => above least given x (List.mem_filter.mp low).1
          have highs : ∀ least ∈ some middle, ∀ x ∈ items.filter fun x => !below rank x middle,
              rank least ≤ rank x := by
            intro least given x high
            obtain rfl := Option.some_inj.mp given
            rw [List.mem_filter, Bool.not_eq_true', not_below_iff] at high
            exact high.2
          obtain ⟨lower, sortsLower, sortedLower⟩ := ih lows
          obtain ⟨upper, sortsUpper, sortedUpper⟩ := ih highs
          rw [sortsUpper, sortsLower]
          exact ⟨_, rfl, sortedLower.around sortedUpper⟩

theorem sortsAll_sortLong (rank : α → κ) : SortsAll rank (sortLong (below rank)) := by
  intro items
  have eagerly : true = false → SortsAll rank some := nofun
  exact exists_sortParts (exists_sortRuns eagerly items.length) _ (none_le rank items)

/-- On items that are ordered by rank, sorting always gives the stable sort. -/
theorem sortsAll_stableSort (rank : α → κ) (room : Nat) :
    SortsAll rank (stableSort (below rank) room) := by
  intro items
  rw [stableSort]
  split
  · exact ⟨_, rfl, sorts_insertionSort rank items⟩
  · exact exists_sortRuns (fun _ => sortsAll_sortLong rank) room items

theorem Sorts.map {β : Type} {f : β → α} {items sorted : List β}
    (sorts : Sorts (fun x => rank (f x)) items sorted) :
    Sorts rank (items.map f) (sorted.map f) where
  ascending := List.pairwise_map.mpr sorts.ascending
  classes k := by
    simp only [ofRank, List.filter_map]
    exact congrArg (List.map f) (sorts.classes k)

/-- It is enough that the order is that of ranks among the items themselves. -/
theorem exists_stableSort {before : α → α → Bool} {items : List α}
    (ranks : ∀ x ∈ items, ∀ y ∈ items, before x y = below rank x y) :
    ∃ sorted, (∀ room, stableSort before room items = some sorted) ∧ Sorts rank items sorted := by
  have agree : (fun x y : { x // x ∈ items } => before x y) =
      below fun x : { x // x ∈ items } => rank x := by
    funext x y
    exact ranks x x.2 y y.2
  have each (room : Nat) :
      ∃ sorted, stableSort before room items = some sorted ∧ Sorts rank items sorted := by
    have images := stableSort_map before Subtype.val room items.attach
    obtain ⟨sorted, sorts, sorted'⟩ :=
      sortsAll_stableSort (fun x : { x // x ∈ items } => rank x) room items.attach
    rw [List.attach_map_subtype_val, agree, sorts] at images
    have whole := Sorts.map (f := Subtype.val) sorted'
    rw [List.attach_map_subtype_val] at whole
    exact ⟨_, images, whole⟩
  obtain ⟨sorted, -, sorts⟩ := each 0
  refine ⟨sorted, fun room => ?_, sorts⟩
  obtain ⟨other, sorted', sorts'⟩ := each room
  have same := sorts'.ascending.eq sorts.ascending (sorts'.classes.trans sorts.classes.symm)
  rw [sorted', same]

/-- Few items are always sorted. -/
theorem length_of_stableSort_eq_none {before : α → α → Bool} {room : Nat} {items : List α}
    (fails : stableSort before room items = none) : 20 < items.length := by
  rw [stableSort] at fails
  split at fails
  · cases fails
  · exact Nat.lt_of_not_le ‹_›

end JsonQuery.Sorting
