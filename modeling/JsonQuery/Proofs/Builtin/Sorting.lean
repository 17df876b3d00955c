import JsonQuery.Builtin.Call
import JsonQuery.Proofs.Builtin.Preorder
import JsonQuery.Proofs.Sorting.Stable

/-!
# Sorting and extremes

Where the order of the keys is a total preorder, sorting by keys is the stable sort: the items
ascend, and those of equal keys stay in order.  The least item is the first of the sorted ones, and
the greatest is the earliest that no other exceeds.
-/

set_option autoImplicit false

namespace JsonQuery

namespace Functions

/-! ## Sorted items -/

namespace Keyed

/-- The key of the item is equal to a given one, as far as the order goes. -/
def ties (key : Value) (x : Keyed) : Bool :=
  x.key.compare? key == some .eq

end Keyed

/-- The second list is the first after a stable sort. -/
structure StablySorted (items sorted : List Keyed) : Prop where
  perm : sorted.Perm items
  ascending : sorted.Pairwise fun x y => x.key.AtMost y.key
  stable : ∀ key ∈ items.map Keyed.key,
    sorted.filter (Keyed.ties key) = items.filter (Keyed.ties key)

/-- The earliest item that no other exceeds in a direction. -/
def IsEarliest (wanted : Ordering) (items : List Keyed) (best : Keyed) : Prop :=
  ∃ before after, items = before ++ best :: after ∧
    (∀ x ∈ before, best.key.compare? x.key = some wanted) ∧
    ∀ x ∈ after, best.key.compare? x.key = some wanted ∨ best.key.compare? x.key = some .eq

/-- The keys compare as their ranks do. -/
def Ranked (rank : Value → Nat) (items : List Keyed) : Prop :=
  ∀ x ∈ items, ∀ y ∈ items, x.key.compare? y.key = some (compare (rank x.key) (rank y.key))

theorem exists_ranked {items : List Keyed} (preordered : Value.Preordered (items.map Keyed.key)) :
    ∃ rank, Ranked rank items := by
  obtain ⟨rank, ranks⟩ := preordered.exists_ranks
  exact ⟨rank, fun x listed y listed' =>
    ranks x.key (List.mem_map_of_mem listed) y.key (List.mem_map_of_mem listed')⟩

section Sorted

variable {rank : Value → Nat} {items : List Keyed} {x y : Keyed}

theorem Ranked.subset (ranked : Ranked rank items) {part : List Keyed} (within : part ⊆ items) :
    Ranked rank part :=
  fun x listed y listed' => ranked x (within listed) y (within listed')

theorem Ranked.isBefore (ranked : Ranked rank items) (listed : x ∈ items) (listed' : y ∈ items) :
    x.key.isBefore y.key = decide (rank x.key < rank y.key) := by
  rw [Value.isBefore, ranked x listed y listed', Bool.eq_iff_iff, beq_iff_eq, Option.some_inj,
    Nat.compare_eq_lt, decide_eq_true_iff]

theorem Ranked.ties (ranked : Ranked rank items) (listed : x ∈ items) (listed' : y ∈ items) :
    Keyed.ties y.key x = decide (rank x.key = rank y.key) := by
  rw [Keyed.ties, ranked x listed y listed', Bool.eq_iff_iff, beq_iff_eq, Option.some_inj,
    Nat.compare_eq_eq, decide_eq_true_iff]

theorem Ranked.atMost (ranked : Ranked rank items) (listed : x ∈ items) (listed' : y ∈ items) :
    x.key.AtMost y.key ↔ rank x.key ≤ rank y.key := by
  rw [Value.atMost_iff (ranked x listed y listed'), Nat.isLE_compare]

/-- Sorting by ranked keys is the stable sort, however much room there is. -/
theorem exists_sortKeyed (ranked : Ranked rank items) :
    ∃ sorted, (∀ size, sortKeyed size items = some sorted) ∧ StablySorted items sorted := by
  have ranks : ∀ x ∈ items, ∀ y ∈ items,
      x.key.isBefore y.key = Sorting.below (fun x : Keyed => rank x.key) x y :=
    fun x listed y listed' => ranked.isBefore listed listed'
  obtain ⟨sorted, sorts, byRank⟩ := Sorting.exists_stableSort ranks
  have listed {x : Keyed} (among : x ∈ sorted) : x ∈ items := byRank.mem_iff.mp among
  refine ⟨sorted, fun size => sorts _, byRank.perm, ?_, fun key keys => ?_⟩
  · refine byRank.ascending.imp_of_mem fun first second le => ?_
    exact (ranked.atMost (listed first) (listed second)).mpr le
  · obtain ⟨z, itself, rfl⟩ := List.mem_map.mp keys
    have classOf {xs : List Keyed} (within : ∀ x ∈ xs, x ∈ items) :
        xs.filter (Keyed.ties z.key) =
          Sorting.ofRank (fun x : Keyed => rank x.key) (rank z.key) xs :=
      List.filter_congr fun x among => ranked.ties (within x among) itself
    rw [classOf fun x among => listed among, classOf fun x among => among]
    exact byRank.classes (rank z.key)

/-- Sorting without a result shows that the keys are not totally preordered. -/
theorem not_preordered_of_sortKeyed {size : Nat} (fails : sortKeyed size items = none) :
    ¬Value.Preordered (items.map Keyed.key) ∧ 20 < items.length := by
  refine ⟨fun preordered => ?_, Sorting.length_of_stableSort_eq_none fails⟩
  obtain ⟨rank, ranked⟩ := exists_ranked preordered
  obtain ⟨sorted, sorts, -⟩ := exists_sortKeyed ranked
  rw [sorts] at fails
  cases fails

theorem sorted_eq_of_preordered (preordered : Value.Preordered (items.map Keyed.key))
    (size size' : Nat) : sorted size items = sorted size' items := by
  obtain ⟨rank, ranked⟩ := exists_ranked preordered
  obtain ⟨sorted, sorts, -⟩ := exists_sortKeyed ranked
  rw [Functions.sorted, Functions.sorted, sorts, sorts]

end Sorted

/-! ## Extreme items -/

section Extremes

variable {rank : Value → Nat} {items sorted : List Keyed} {best next : Keyed} {wanted : Ordering}

theorem exceeds_trans (strict : wanted ≠ .eq) {l m n : Nat} (first : compare l m = wanted)
    (second : compare m n = wanted ∨ compare m n = .eq) : compare l n = wanted := by
  cases wanted with
  | eq => exact absurd rfl strict
  | lt =>
      rw [Nat.compare_eq_lt, Nat.compare_eq_eq] at second
      rw [Nat.compare_eq_lt] at first ⊢
      omega
  | gt =>
      rw [Nat.compare_eq_gt, Nat.compare_eq_eq] at second
      rw [Nat.compare_eq_gt] at first ⊢
      omega

theorem exceeds_or_ties (strict : wanted ≠ .eq) {m n : Nat} (others : compare n m ≠ wanted) :
    compare m n = wanted ∨ compare m n = .eq := by
  cases wanted with
  | eq => exact absurd rfl strict
  | lt =>
      rw [Ne, Nat.compare_eq_lt] at others
      rw [Nat.compare_eq_lt, Nat.compare_eq_eq]
      omega
  | gt =>
      rw [Ne, Nat.compare_eq_gt] at others
      rw [Nat.compare_eq_gt, Nat.compare_eq_eq]
      omega

theorem IsEarliest.mem (earliest : IsEarliest wanted items best) : best ∈ items := by
  obtain ⟨before, after, rfl, -, -⟩ := earliest
  exact List.mem_append_right before List.mem_cons_self

/-- No item exceeds the best one. -/
theorem IsEarliest.reaches (earliest : IsEarliest wanted items best) (ranked : Ranked rank items)
    {x : Keyed} (listed : x ∈ items) :
    best.key.compare? x.key = some wanted ∨ best.key.compare? x.key = some .eq := by
  have itself := ranked best earliest.mem best earliest.mem
  obtain ⟨before, after, rfl, befores, afters⟩ := earliest
  rcases List.mem_append.mp listed with inFront | behind
  · exact .inl (befores x inFront)
  · rcases List.mem_cons.mp behind with rfl | behind
    · rw [itself, Nat.compare_eq_eq.mpr rfl]
      exact .inr rfl
    · exact afters x behind

/-- Another item takes the place of the best one only when it exceeds that. -/
theorem IsEarliest.concat (ranked : Ranked rank (items ++ [next])) (strict : wanted ≠ .eq)
    (earliest : IsEarliest wanted items best) :
    IsEarliest wanted (items ++ [next])
      (if next.key.compare? best.key == some wanted then next else best) := by
  have reached (x : Keyed) (listed : x ∈ items) :=
    earliest.reaches (ranked.subset (List.subset_append_left items [next])) listed
  have listedNext : next ∈ items ++ [next] := List.mem_append_right items List.mem_cons_self
  have listedBest : best ∈ items ++ [next] := List.mem_append_left _ earliest.mem
  by_cases replaces : next.key.compare? best.key = some wanted
  · rw [replaces, beq_self_eq_true, if_pos rfl]
    refine ⟨items, [], rfl, fun x listed => ?_, nofun⟩
    have listed' : x ∈ items ++ [next] := List.mem_append_left _ listed
    have reaches := reached x listed
    rw [ranked next listedNext best listedBest, Option.some_inj] at replaces
    rw [ranked best listedBest x listed', Option.some_inj, Option.some_inj] at reaches
    rw [ranked next listedNext x listed', Option.some_inj]
    exact exceeds_trans strict replaces reaches
  · obtain ⟨before, after, rfl, befores, afters⟩ := earliest
    rw [if_neg (by simpa using replaces)]
    refine ⟨before, after ++ [next], by simp, befores, fun x listed => ?_⟩
    rcases List.mem_append.mp listed with behind | last
    · exact afters x behind
    · rw [List.mem_singleton] at last
      subst last
      rw [ranked x listedNext best listedBest, Option.some_inj] at replaces
      rw [ranked best listedBest x listedNext, Option.some_inj, Option.some_inj]
      exact exceeds_or_ties strict replaces

theorem isEarliest_extremeKeyed {rest : List Keyed} (ranked : Ranked rank (items ++ rest))
    (strict : wanted ≠ .eq) (earliest : IsEarliest wanted items best) :
    IsEarliest wanted (items ++ rest) (extremeKeyed wanted best rest) := by
  -- what has been passed grows by one item with each step
  induction rest generalizing items best with
  | nil => simpa [extremeKeyed] using earliest
  | cons next rest ih =>
      have regrouped : items ++ next :: rest = items ++ [next] ++ rest := by simp
      rw [regrouped] at ranked ⊢
      have one := ranked.subset (List.subset_append_left (items ++ [next]) rest)
      exact ih ranked (earliest.concat one strict)

theorem exists_isEarliest (ranked : Ranked rank items) (strict : wanted ≠ .eq)
    (nonempty : items ≠ []) :
    ∃ best, IsEarliest wanted items best ∧ extreme wanted items = best.item := by
  cases items with
  | nil => exact absurd rfl nonempty
  | cons first rest =>
      have alone : IsEarliest wanted [first] first := ⟨[], [], rfl, nofun, nofun⟩
      exact ⟨_, isEarliest_extremeKeyed ranked strict alone, rfl⟩

/-- The first of the sorted items is the earliest least one. -/
theorem StablySorted.head?_eq (stably : StablySorted items sorted) (ranked : Ranked rank items)
    (earliest : IsEarliest .lt items best) : sorted.head? = some best := by
  have inSorted : best ∈ sorted := stably.perm.mem_iff.mpr earliest.mem
  cases sorted with
  | nil => cases inSorted
  | cons first others =>
      have listed : first ∈ items := stably.perm.mem_iff.mp List.mem_cons_self
      have below : rank first.key ≤ rank best.key := by
        rcases List.mem_cons.mp inSorted with rfl | later
        · exact Nat.le_refl _
        · have ascends := (List.pairwise_cons.mp stably.ascending).1 best later
          exact (ranked.atMost listed earliest.mem).mp ascends
      have above : rank best.key ≤ rank first.key :=
        (ranked.atMost earliest.mem listed).mp (earliest.reaches ranked listed)
      have tie : Keyed.ties best.key first = true := by
        rw [ranked.ties listed earliest.mem, decide_eq_true_iff]
        omega
      have itself : Keyed.ties best.key best = true := by
        rw [ranked.ties earliest.mem earliest.mem, decide_eq_true_iff]
      -- both are the first of their class, which sorting keeps in order
      have stable := stably.stable best.key (List.mem_map_of_mem earliest.mem)
      obtain ⟨before, after, rfl, befores, -⟩ := earliest
      have noneBefore : before.filter (Keyed.ties best.key) = [] := by
        refine List.filter_eq_nil_iff.mpr fun x inFront tied => ?_
        have turned := Value.compare?_swap best.key x.key
        rw [befores x inFront] at turned
        rw [Keyed.ties, turned] at tied
        cases tied
      rw [List.filter_append, noneBefore, List.nil_append, List.filter_cons_of_pos tie,
        List.filter_cons_of_pos itself, List.cons.injEq] at stable
      rw [List.head?_cons, stable.1]

theorem StablySorted.extreme_lt (stably : StablySorted items sorted) (ranked : Ranked rank items) :
    extreme .lt items = (sorted.head?.map Keyed.item).getD .null := by
  cases items with
  | nil =>
      rw [stably.perm.eq_nil]
      rfl
  | cons first rest =>
      have strict : Ordering.lt ≠ .eq := nofun
      obtain ⟨least, earliest, answer⟩ :=
        exists_isEarliest ranked strict (List.cons_ne_nil first rest)
      rw [answer, stably.head?_eq ranked earliest]
      rfl

end Extremes

end Functions

end JsonQuery
