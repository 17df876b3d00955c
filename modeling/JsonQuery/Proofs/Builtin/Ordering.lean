import JsonQuery.Proofs.Builtin.Sorting
import JsonQuery.Query.Eval

/-!
# The functions that order

Sorting and extremes by keys fail with the first key that fails, refuse mixed keys, and answer
otherwise, except that sorting more than twenty items is aborted where it finds that their keys are
not totally preordered.  All of them answer from one stable sort where the keys are, and the functions
without keys are those with the values as their own keys.
-/

set_option autoImplicit false

namespace JsonQuery

open Functions

/-! ## Keys from references -/

namespace Outcome

/-- Why there is no answer. -/
inductive Stop where
  | failure (e : Error)
  | aborted
  | unsettled

variable {α β : Type} {f : α → Outcome β}

def ofStop : Stop → Outcome α
  | .failure e => .failure e
  | .aborted => .aborted
  | .unsettled => .unsettled

@[simp]
theorem ofStop_bind (stop : Stop) (f : α → Outcome β) : (ofStop stop >>= f) = ofStop stop := by
  cases stop <;> rfl

/-- The first item without an answer decides. -/
theorem traverse_stop {before after : List α} {a : α} {stop : Stop}
    (answers : ∀ x ∈ before, ∃ b, f x = .answer b) (stops : f a = ofStop stop) :
    traverse f (before ++ a :: after) = ofStop stop := by
  induction before with
  | nil => rw [List.nil_append, traverse, stops, ofStop_bind]
  | cons x before ih =>
      obtain ⟨b, answered⟩ := answers x List.mem_cons_self
      rw [List.cons_append, traverse, answered, answer_bind,
        ih fun y listed => answers y (List.mem_cons_of_mem x listed), ofStop_bind]

end Outcome

namespace Functions

def Uniform (keys : List Value) : Prop :=
  (∀ key ∈ keys, key.isNumber = true) ∨ ∀ key ∈ keys, key.isString = true

/-- The items are these values, each with the key that it has. -/
structure KeyedBy (keyOf : Value → Outcome Value) (xs : List Value) (items : List Keyed) :
    Prop where
  values : items.map Keyed.item = xs
  answers : ∀ x ∈ items, keyOf x.item = .answer x.key

theorem uniform_iff (keys : List Value) :
    (keys.all Value.isNumber || keys.all Value.isString) = true ↔ Uniform keys := by
  rw [Bool.or_eq_true, List.all_eq_true, List.all_eq_true, Uniform]

variable {apply : Query → Value → Outcome Value} {function : String} {k : Query} {xs : List Value}
  {items : List Keyed}

theorem KeyedBy.traverse {keyOf : Value → Outcome Value} (keyedBy : KeyedBy keyOf xs items) :
    Outcome.traverse keyOf xs = .answer (items.map Keyed.key) := by
  obtain ⟨rfl, answers⟩ := keyedBy
  induction items with
  | nil => rfl
  | cons x items ih =>
      rw [List.map_cons, Outcome.traverse, answers x List.mem_cons_self, Outcome.answer_bind,
        ih fun y listed => answers y (List.mem_cons_of_mem x listed)]
      rfl

/-- Values with their keys beside them. -/
theorem keyedBy_zip {keyOf : Value → Outcome Value} {keys : List Value}
    (answers : List.Forall₂ (fun x key => keyOf x = .answer key) xs keys) :
    KeyedBy keyOf xs ((keys.zip xs).map fun (k, v) => ⟨k, v⟩) ∧
      ((keys.zip xs).map fun (k, v) => Keyed.mk k v).map Keyed.key = keys := by
  induction answers with
  | nil => exact ⟨⟨rfl, nofun⟩, rfl⟩
  | cons head _ ih =>
      obtain ⟨⟨values, answers⟩, keys⟩ := ih
      exact ⟨⟨congrArg (_ :: ·) values, List.forall_mem_cons.mpr ⟨head, answers⟩⟩,
        congrArg (_ :: ·) keys⟩

theorem keyed_of_uniform (keyedBy : KeyedBy (apply k) xs items)
    (uniform : Uniform (items.map Keyed.key)) : keyed apply function k xs = .answer items := by
  rw [keyed, keyedBy.traverse, Outcome.answer_bind, if_pos ((uniform_iff _).mpr uniform),
    ← keyedBy.values, List.zip_map', List.map_map]
  exact congrArg Outcome.answer (List.map_id items)

theorem keyed_of_mixed (keyedBy : KeyedBy (apply k) xs items)
    (mixed : ¬Uniform (items.map Keyed.key)) :
    keyed apply function k xs = .failure (.mistyped (.mixedKeys function)) := by
  rw [keyed, keyedBy.traverse, Outcome.answer_bind,
    if_neg fun uniform => mixed ((uniform_iff _).mp uniform)]

theorem keyed_of_stop {before after : List Value} {x : Value} {stop : Outcome.Stop}
    (answers : ∀ y ∈ before, ∃ key, apply k y = .answer key)
    (stops : apply k x = Outcome.ofStop stop) :
    keyed apply function k (before ++ x :: after) = Outcome.ofStop stop := by
  rw [keyed, Outcome.traverse_stop answers stops, Outcome.ofStop_bind]

theorem keyedBy_selfKeyed {keyOf : Value → Outcome Value} (answers : ∀ x, keyOf x = .answer x)
    (xs : List Value) : KeyedBy keyOf xs (selfKeyed xs) := by
  refine ⟨by simp [selfKeyed, Function.comp_def], fun x listed => ?_⟩
  obtain ⟨v, -, rfl⟩ := List.mem_map.mp listed
  exact answers v

theorem map_key_selfKeyed (xs : List Value) : (selfKeyed xs).map Keyed.key = xs := by
  simp [selfKeyed, Function.comp_def]

end Functions

/-! ## Calls -/

/-- What is asked of ordered items. -/
inductive OrderRequest where
  | sorted
  | least
  | greatest

namespace OrderRequest

def plain : OrderRequest → Builtin
  | .sorted => .sort
  | .least => .min
  | .greatest => .max

def byKey : OrderRequest → Builtin
  | .sorted => .sortBy
  | .least => .minBy
  | .greatest => .maxBy

/-- What is made of keyed items, each of which takes so many bytes. -/
def answer (size : Nat) : OrderRequest → List Keyed → Outcome Value
  | .sorted, items => Functions.sorted size items
  | .least, items => .answer (extreme .lt items)
  | .greatest, items => .answer (extreme .gt items)

theorem invoke_byKey (request : OrderRequest) (apply : Builtin.Apply) (tag : Tag) (k : Query)
    (xs : List Value) :
    request.byKey.invoke apply [.array xs, .reference tag k] =
      keyed apply request.byKey.name k xs >>= request.answer keySize := by
  cases request <;> rfl

/-- Only sorting can be without an answer. -/
theorem answer_cases (request : OrderRequest) (size : Nat) (items : List Keyed) :
    (∃ v, request.answer size items = .answer v) ∨
      request = .sorted ∧ sortKeyed size items = none ∧ request.answer size items = .aborted := by
  cases request with
  | least => exact .inl ⟨_, rfl⟩
  | greatest => exact .inl ⟨_, rfl⟩
  | sorted =>
      rw [answer, Functions.sorted]
      cases sortKeyed size items with
      | some sorted => exact .inl ⟨_, rfl⟩
      | none => exact .inr ⟨rfl, rfl, rfl⟩

theorem uniform_of_check (request : OrderRequest) {xs : List Value}
    (accepted : request.plain.check [.array xs] = .ok ()) : Uniform xs := by
  rw [← uniform_iff]
  by_contra mixed
  rw [Bool.not_eq_true] at mixed
  have refused : request.plain.check [.array xs] =
      .error (.mistyped (.argument request.plain.name 1 [.numbers, .strings]
        (Value.array xs).kind)) := by
    cases request <;>
      simp [plain, Builtin.check, Builtin.checkTypes, Builtin.arity, Arity.accepts,
        Builtin.accepted, Builtin.signature, ArgType.accepts, mixed]
  rw [refused] at accepted
  cases accepted

theorem invoke_plain (request : OrderRequest) (apply : Builtin.Apply) {xs : List Value}
    (accepted : request.plain.check [.array xs] = .ok ()) :
    request.plain.invoke apply [.array xs] = request.answer valueSize (selfKeyed xs) := by
  rw [Builtin.invoke, accepted]
  cases request <;> rfl

/-- The outcome of the function on values and on a reference for their keys. -/
def outcome (request : OrderRequest) (depth : Nat) (tag : Tag) (k : Query) (xs : List Value) :
    Outcome Value :=
  request.byKey.invoke (Query.eval depth) [.array xs, .reference tag k]

section Outcomes

variable (request : OrderRequest) {depth : Nat} (tag : Tag) {k : Query} {xs : List Value}
  {items : List Keyed}

theorem outcome_of_failure {before after : List Value} {x : Value} {e : Error}
    (answers : ∀ y ∈ before, ∃ key, k.eval depth y = .answer key)
    (fails : k.eval depth x = .failure e) :
    request.outcome depth tag k (before ++ x :: after) = .failure e := by
  have stops : k.eval depth x = Outcome.ofStop (.failure e) := fails
  rw [outcome, request.invoke_byKey, keyed_of_stop answers stops, Outcome.ofStop_bind]
  rfl

theorem outcome_of_mixed (keyedBy : KeyedBy (k.eval depth) xs items)
    (mixed : ¬Uniform (items.map Keyed.key)) :
    request.outcome depth tag k xs = .failure (.mistyped (.mixedKeys request.byKey.name)) := by
  rw [outcome, request.invoke_byKey, keyed_of_mixed keyedBy mixed, Outcome.failure_bind]

theorem outcome_of_uniform (keyedBy : KeyedBy (k.eval depth) xs items)
    (uniform : Uniform (items.map Keyed.key)) :
    request.outcome depth tag k xs = request.answer keySize items := by
  rw [outcome, request.invoke_byKey, keyed_of_uniform keyedBy uniform, Outcome.answer_bind]

theorem invoke_plain_eq_outcome (depth : Nat)
    (accepted : request.plain.check [.array xs] = .ok ())
    (preordered : request = .sorted → Value.Preordered xs) :
    request.plain.invoke (Query.eval depth) [.array xs] =
      request.outcome depth tag .current xs := by
  have answers (v : Value) : Query.eval depth .current v = .answer v := by cases depth <;> rfl
  have uniform : Uniform ((selfKeyed xs).map Keyed.key) := by
    rw [map_key_selfKeyed]
    exact request.uniform_of_check accepted
  rw [request.invoke_plain _ accepted,
    request.outcome_of_uniform tag (keyedBy_selfKeyed answers xs) uniform]
  cases request with
  | least => rfl
  | greatest => rfl
  | sorted =>
      rw [← map_key_selfKeyed xs] at preordered
      exact sorted_eq_of_preordered (preordered rfl) valueSize keySize

end Outcomes

section Ordered

variable {depth : Nat} (tag : Tag) {k : Query} {xs : List Value} {items : List Keyed}
  (keyedBy : KeyedBy (k.eval depth) xs items) (uniform : Uniform (items.map Keyed.key))
  (preordered : Value.Preordered (items.map Keyed.key))

include keyedBy uniform preordered

theorem exists_stablySorted : ∃ sorted, StablySorted items sorted ∧
    OrderRequest.sorted.outcome depth tag k xs = .answer (.array (sorted.map Keyed.item)) ∧
    least.outcome depth tag k xs = .answer ((sorted.head?.map Keyed.item).getD .null) := by
  obtain ⟨rank, ranked⟩ := exists_ranked preordered
  obtain ⟨sorted, sorts, stably⟩ := exists_sortKeyed ranked
  refine ⟨sorted, stably, ?_, ?_⟩
  · rw [outcome_of_uniform .sorted tag keyedBy uniform, answer, Functions.sorted, sorts]
  · rw [outcome_of_uniform .least tag keyedBy uniform, ← stably.extreme_lt ranked]
    rfl

theorem exists_extremes (nonempty : xs ≠ []) : ∃ first last,
    IsEarliest .lt items first ∧ least.outcome depth tag k xs = .answer first.item ∧
      IsEarliest .gt items last ∧ greatest.outcome depth tag k xs = .answer last.item := by
  obtain ⟨rank, ranked⟩ := exists_ranked preordered
  have listed : items ≠ [] := by
    rintro rfl
    exact nonempty keyedBy.values.symm
  have below : Ordering.lt ≠ .eq := nofun
  have above : Ordering.gt ≠ .eq := nofun
  obtain ⟨first, lowest, answer⟩ := exists_isEarliest ranked below listed
  obtain ⟨last, highest, answer'⟩ := exists_isEarliest ranked above listed
  refine ⟨first, last, lowest, ?_, highest, ?_⟩
  · rw [outcome_of_uniform .least tag keyedBy uniform, ← answer]
    rfl
  · rw [outcome_of_uniform .greatest tag keyedBy uniform, ← answer']
    rfl

end Ordered

end OrderRequest

/-- Sorting and extremes by keys fail with the first failing key, refuse keys that are not all
numbers or all strings, and answer otherwise; only sorting may be aborted instead, and only on more
than twenty keys that are not totally preordered.  On totally preordered keys, as all strings and all
integers are, sorting is the stable sort, the least item is the first sorted one, and both extreme
items are the earliest ones.  Without keys, values are their own keys. -/
theorem ordering_functions (depth : Nat) (tag : Tag) (k : Query) (xs : List Value) :
    (∀ request : OrderRequest,
      (∀ before x after e, xs = before ++ x :: after →
        (∀ y ∈ before, ∃ key, k.eval depth y = .answer key) → k.eval depth x = .failure e →
          request.outcome depth tag k xs = .failure e) ∧
      (∀ items, KeyedBy (k.eval depth) xs items → ¬Uniform (items.map Keyed.key) →
        request.outcome depth tag k xs =
          .failure (.mistyped (.mixedKeys request.byKey.name))) ∧
      (∀ items, KeyedBy (k.eval depth) xs items → Uniform (items.map Keyed.key) →
        (∃ v, request.outcome depth tag k xs = .answer v) ∨
          request = .sorted ∧ request.outcome depth tag k xs = .aborted ∧
            ¬Value.Preordered (items.map Keyed.key) ∧ 20 < xs.length) ∧
      (request.plain.check [.array xs] = .ok () → (request = .sorted → Value.Preordered xs) →
        request.plain.invoke (Query.eval depth) [.array xs] =
          request.outcome depth tag .current xs)) ∧
    (∀ items, KeyedBy (k.eval depth) xs items → Uniform (items.map Keyed.key) →
      Value.Preordered (items.map Keyed.key) →
        (∃ sorted, StablySorted items sorted ∧
          OrderRequest.sorted.outcome depth tag k xs =
            .answer (.array (sorted.map Keyed.item)) ∧
          OrderRequest.least.outcome depth tag k xs =
            .answer ((sorted.head?.map Keyed.item).getD .null)) ∧
        (xs ≠ [] → ∃ first last,
          IsEarliest .lt items first ∧
            OrderRequest.least.outcome depth tag k xs = .answer first.item ∧
          IsEarliest .gt items last ∧
            OrderRequest.greatest.outcome depth tag k xs = .answer last.item)) ∧
    (OrderRequest.least.outcome depth tag k [] = .answer .null ∧
      OrderRequest.greatest.outcome depth tag k [] = .answer .null) ∧
    ∀ values : List Value,
      (∀ a ∈ values, a.isString = true) ∨ (∀ a ∈ values, a.isInteger = true) →
        Value.Preordered values := by
  refine ⟨fun request => ⟨?_, ?_, ?_, ?_⟩, ?_, ⟨rfl, rfl⟩, ?_⟩
  · rintro before x after e rfl answers fails
    exact request.outcome_of_failure tag answers fails
  · intro items keyedBy mixed
    exact request.outcome_of_mixed tag keyedBy mixed
  · intro items keyedBy uniform
    rw [request.outcome_of_uniform tag keyedBy uniform, ← keyedBy.values, List.length_map]
    refine (request.answer_cases keySize items).imp_right ?_
    rintro ⟨sorts, fails, aborts⟩
    exact ⟨sorts, aborts, not_preordered_of_sortKeyed fails⟩
  · exact request.invoke_plain_eq_outcome tag depth
  · intro items keyedBy uniform preordered
    exact ⟨OrderRequest.exists_stablySorted tag keyedBy uniform preordered,
      OrderRequest.exists_extremes tag keyedBy uniform preordered⟩
  · rintro values (strings | integers)
    · exact Value.preordered_of_strings strings
    · exact Value.preordered_of_integers integers

theorem ordering_functions_ties :
    (∃ items sorted, KeyedBy (Query.eval 0 (.index 0))
        [.array [.int 1, .string "a"], .array [.int 0], .array [.int 1, .string "b"]] items ∧
      Uniform (items.map Keyed.key) ∧ Value.Preordered (items.map Keyed.key) ∧
      StablySorted items sorted ∧ sorted.map Keyed.item =
        [.array [.int 0], .array [.int 1, .string "a"], .array [.int 1, .string "b"]]) ∧
      OrderRequest.least.outcome 0 none .current [.int 1, .string "a"] =
        .failure (.mistyped (.mixedKeys "min_by")) ∧
      (∃ e, OrderRequest.greatest.outcome 0 none (.call "abs" [.current] false)
        [.int 1, .string "a"] = .failure e) ∧
      Builtin.sort.invoke (Query.eval 0) [.array [.int 2, .int 1]] =
        OrderRequest.sorted.outcome 0 none .current [.int 2, .int 1] := by
  refine ⟨?_, ?_, ?_, ?_⟩
  · have ordered := ordering_functions 0 none (.index 0)
      [.array [.int 1, .string "a"], .array [.int 0], .array [.int 1, .string "b"]]
    have keyedBy : KeyedBy (Query.eval 0 (.index 0))
        [.array [.int 1, .string "a"], .array [.int 0], .array [.int 1, .string "b"]]
        [⟨.int 1, .array [.int 1, .string "a"]⟩, ⟨.int 0, .array [.int 0]⟩,
          ⟨.int 1, .array [.int 1, .string "b"]⟩] := by
      refine ⟨rfl, ?_⟩
      simp only [List.forall_mem_cons]
      exact ⟨rfl, rfl, rfl, nofun⟩
    have uniform : Uniform [.int 1, .int 0, .int 1] := .inl (by decide)
    have preordered := ordered.2.2.2 [.int 1, .int 0, .int 1] (.inr (by decide))
    obtain ⟨⟨sorted, stably, sort, -⟩, -⟩ := ordered.2.1 _ keyedBy uniform preordered
    refine ⟨_, sorted, keyedBy, uniform, preordered, stably, ?_⟩
    have evaluated : OrderRequest.sorted.outcome 0 none (.index 0)
        [.array [.int 1, .string "a"], .array [.int 0], .array [.int 1, .string "b"]] =
          .answer (.array [.array [.int 0], .array [.int 1, .string "a"],
            .array [.int 1, .string "b"]]) := rfl
    rw [evaluated, Outcome.answer.injEq, Value.array.injEq] at sort
    exact sort.symm
  · have keyedBy : KeyedBy (Query.eval 0 .current) [.int 1, .string "a"]
        [⟨.int 1, .int 1⟩, ⟨.string "a", .string "a"⟩] := by
      refine ⟨rfl, ?_⟩
      simp only [List.forall_mem_cons]
      exact ⟨rfl, rfl, nofun⟩
    have mixed : ¬Uniform [.int 1, .string "a"] := by
      rw [← uniform_iff]
      decide
    have refused := (ordering_functions 0 none .current [.int 1, .string "a"]).1 .least
    exact refused.2.1 _ keyedBy mixed
  · have answers : ∀ y ∈ [Value.int 1],
        ∃ key, Query.eval 0 (.call "abs" [.current] false) y = .answer key := by
      simp only [List.forall_mem_cons]
      exact ⟨⟨.int 1, rfl⟩, nofun⟩
    have failing := (ordering_functions 0 none (.call "abs" [.current] false)
      [.int 1, .string "a"]).1 .greatest
    exact ⟨_, failing.1 [.int 1] (.string "a") [] _ rfl answers rfl⟩
  · have ordered := ordering_functions 0 none .current [.int 2, .int 1]
    have preordered := ordered.2.2.2 [.int 2, .int 1] (.inr (by decide))
    exact (ordered.1 .sorted).2.2.2 rfl fun _ => preordered

/-! ## Keys without an order -/

/-- Integers around 2⁵³ with a number between them that all but the greatest are equal to. -/
def tangled : List Value :=
  .int 9007199254740994 :: List.replicate 4 (.int 9007199254740993) ++
    .float (.ofBits 0x4340000000000000) :: List.replicate 15 (.int 9007199254740992)

theorem tangled_uniform : Uniform tangled := by
  rw [← uniform_iff]
  decide +kernel

theorem ordering_functions_tangled :
    ∃ items, KeyedBy (Query.eval 0 .current) tangled items ∧ Uniform (items.map Keyed.key) ∧
      OrderRequest.sorted.outcome 0 none .current tangled = .aborted := by
  have keyedBy : KeyedBy (Query.eval 0 .current) tangled (selfKeyed tangled) :=
    keyedBy_selfKeyed (fun _ => rfl) tangled
  have uniform : Uniform ((selfKeyed tangled).map Keyed.key) := by
    rw [map_key_selfKeyed]
    exact tangled_uniform
  have fails : sortKeyed keySize (selfKeyed tangled) = none :=
    Option.isNone_iff_eq_none.mp (by decide +kernel)
  refine ⟨_, keyedBy, uniform, ?_⟩
  rw [OrderRequest.outcome_of_uniform .sorted none keyedBy uniform, OrderRequest.answer, sorted,
    fails]

end JsonQuery
