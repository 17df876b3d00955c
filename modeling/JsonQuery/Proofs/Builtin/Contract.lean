import JsonQuery.Proofs.Builtin.Ordering
import JsonQuery.Proofs.Coupling.Call
import JsonQuery.Query.Application

/-!
# The contracts of the functions

A call is refused for the number of its arguments first, and then for the first argument that its
place does not accept.  What passes is enough for every body: it answers, except that a reference
has no text, that keys have to be of one kind and in an order, and that an application that does not
answer ends the call with it.
-/

set_option autoImplicit false

namespace JsonQuery

/-! ## Applications in a row -/

namespace Outcome

variable {α β : Type} {f : α → Outcome β}

theorem traverse_answer {items : List α} {answers : List β}
    (each : List.Forall₂ (fun a b => f a = .answer b) items answers) :
    traverse f items = .answer answers := by
  induction each with
  | nil => rfl
  | cons head _ ih => rw [traverse, head, answer_bind, ih, answer_bind, pure_eq]

/-- Either every item has an answer, or the first one that has none decides. -/
theorem traverse_cases (f : α → Outcome β) (items : List α) :
    (∃ answers, List.Forall₂ (fun a b => f a = .answer b) items answers) ∨
      ∃ before a after stop, items = before ++ a :: after ∧
        (∀ x ∈ before, ∃ b, f x = .answer b) ∧ f a = ofStop stop := by
  induction items with
  | nil => exact .inl ⟨[], .nil⟩
  | cons a rest ih =>
      cases first : f a with
      | answer b =>
          rcases ih with ⟨answers, each⟩ | ⟨before, a', after, stop, rfl, answered, decides⟩
          · exact .inl ⟨b :: answers, .cons first each⟩
          · refine .inr ⟨a :: before, a', after, stop, rfl, ?_, decides⟩
            exact List.forall_mem_cons.mpr ⟨⟨b, first⟩, answered⟩
      | failure e => exact .inr ⟨[], a, rest, .failure e, rfl, List.forall_mem_nil _, first⟩
      | aborted => exact .inr ⟨[], a, rest, .aborted, rfl, List.forall_mem_nil _, first⟩
      | unsettled => exact .inr ⟨[], a, rest, .unsettled, rfl, List.forall_mem_nil _, first⟩

end Outcome

namespace Builtin

/-! ## Checks -/

/-- The value has one of the types that the signature lists for a place.  The last types listed are
those of all places beyond. -/
def Admits (builtin : Builtin) (place : Nat) (v : Value) : Prop :=
  ∃ types, (builtin.signature[place]?).or builtin.signature.getLast? = some types ∧
    ∃ t ∈ types, t.accepts v = true

section Checks

variable {builtin : Builtin} {place start : Nat} {v : Value} {args before after : List Value}

theorem signature_ne_nil (builtin : Builtin) : builtin.signature ≠ [] := by
  cases builtin <;> exact List.cons_ne_nil _ _

theorem accepted_eq (builtin : Builtin) (place : Nat) :
    (builtin.signature[place]?).or builtin.signature.getLast? = some (builtin.accepted place) := by
  unfold accepted
  cases builtin.signature[place]? with
  | some types => rfl
  | none =>
      obtain ⟨types, last⟩ : ∃ types, builtin.signature.getLast? = some types :=
        ⟨_, List.getLast?_eq_some_getLast builtin.signature_ne_nil⟩
      rw [Option.none_or, Option.getD_none, List.getLastD_eq_getLast?, last, Option.getD_some]

theorem admits_iff :
    builtin.Admits place v ↔ ((builtin.accepted place).any fun t => t.accepts v) = true := by
  simp only [Admits, accepted_eq, Option.some_inj, exists_eq_left', List.any_eq_true]

theorem checkTypes_eq_ok_iff :
    builtin.checkTypes start args = .ok () ↔
      ∀ i v, args[i]? = some v → builtin.Admits (start + i) v := by
  induction args generalizing start with
  | nil => exact ⟨fun _ i v found => by simp at found, fun _ => rfl⟩
  | cons v rest ih =>
      have next (i : Nat) : start + (i + 1) = start + 1 + i := by omega
      constructor
      · intro checked i w found
        rw [checkTypes] at checked
        split at checked
        · rename_i here
          cases i with
          | zero =>
              cases found
              exact admits_iff.mpr here
          | succ i =>
              rw [next]
              exact ih.mp checked i w found
        · cases checked
      · intro admitted
        have here : ((builtin.accepted start).any fun t => t.accepts v) = true :=
          admits_iff.mp (admitted 0 v rfl)
        rw [checkTypes, if_pos here]
        refine ih.mpr fun i w found => ?_
        rw [← next]
        exact admitted (i + 1) w found

/-- The check of types from the first place on. -/
theorem checkTypes_zero :
    builtin.checkTypes 0 args = .ok () ↔ ∀ i v, args[i]? = some v → builtin.Admits i v := by
  rw [checkTypes_eq_ok_iff]
  simp only [Nat.zero_add]

theorem checkTypes_of_refused (admitted : builtin.checkTypes start before = .ok ())
    (refused : ¬builtin.Admits (start + before.length) v) :
    builtin.checkTypes start (before ++ v :: after) =
      .error (.mistyped (.argument builtin.name (start + before.length + 1)
        (builtin.accepted (start + before.length)) v.kind)) := by
  induction before generalizing start with
  | nil =>
      rw [admits_iff] at refused
      rw [List.nil_append, checkTypes]
      exact if_neg refused
  | cons w before ih =>
      have shifted : start + (w :: before).length = start + 1 + before.length := by
        rw [List.length_cons]
        omega
      rw [shifted] at refused ⊢
      rw [checkTypes] at admitted
      split at admitted
      · rename_i here
        rw [List.cons_append, checkTypes, if_pos here]
        exact ih admitted refused
      · cases admitted

end Checks

end Builtin

/-! ## Bodies

A body looks at the kinds of its arguments only, except that the items of a joined array have to be
strings.
-/

/-- The kinds of the values that a type accepts. -/
def ArgType.kinds : ArgType → List Value.Kind
  | .any => [.null, .boolean, .number, .string, .array, .object, .expression]
  | .number => [.number]
  | .string => [.string]
  | .array | .numbers | .strings => [.array]
  | .object => [.object]
  | .expression => [.expression]

theorem ArgType.kind_mem_kinds {t : ArgType} {v : Value} (accepted : t.accepts v = true) :
    v.kind ∈ t.kinds := by
  cases t <;> cases v <;> first | cases accepted; done | simp [kinds, Value.kind]

namespace Value

variable {v : Value}

theorem exists_string (typed : v.kind ∈ [Kind.string]) : ∃ s, v = .string s := by
  cases v with
  | string s => exact ⟨s, rfl⟩
  | _ => simp [kind] at typed

theorem exists_array (typed : v.kind ∈ [Kind.array]) : ∃ items, v = .array items := by
  cases v with
  | array items => exact ⟨items, rfl⟩
  | _ => simp [kind] at typed

theorem exists_object (typed : v.kind ∈ [Kind.object]) : ∃ entries, v = .object entries := by
  cases v with
  | object entries => exact ⟨entries, rfl⟩
  | _ => simp [kind] at typed

theorem exists_reference (typed : v.kind ∈ [Kind.expression]) :
    ∃ tag query, v = .reference tag query := by
  cases v with
  | reference tag query => exact ⟨tag, query, rfl⟩
  | _ => simp [kind] at typed

end Value

namespace Functions

variable {v w : Value} {items : List Value}

theorem absolute_answers (typed : v.kind ∈ [Value.Kind.number]) : ∃ a, absolute v = .ok a := by
  cases v with
  | int n =>
      rw [absolute]
      split <;> exact ⟨_, rfl⟩
  | float x => exact ⟨_, rfl⟩
  | _ => simp [Value.kind] at typed

theorem roundWith_answers (round : Float → Int) (typed : v.kind ∈ [Value.Kind.number]) :
    ∃ a, roundWith round v = .ok a := by
  cases v with
  | int n => exact ⟨_, rfl⟩
  | float x =>
      rw [roundWith]
      split
      · split <;> exact ⟨_, rfl⟩
      · exact ⟨_, rfl⟩
  | _ => simp [Value.kind] at typed

theorem contains_answers (typed : v.kind ∈ [Value.Kind.array, .string]) :
    ∃ a, contains v w = .ok a := by
  cases v with
  | array items => exact ⟨_, rfl⟩
  | string s => cases w <;> exact ⟨_, rfl⟩
  | _ => simp [Value.kind] at typed

theorem length_answers (typed : v.kind ∈ [Value.Kind.string, .array, .object]) :
    ∃ a, length v = .ok a := by
  cases v <;> first | exact ⟨_, rfl⟩ | simp [Value.kind] at typed

theorem reverse_answers (typed : v.kind ∈ [Value.Kind.string, .array]) :
    ∃ a, reverse v = .ok a := by
  cases v <;> first | exact ⟨_, rfl⟩ | simp [Value.kind] at typed

theorem asText_answers (text : v.kind ≠ .expression) : ∃ a, asText v = .ok a := by
  cases v with
  | reference tag query => exact absurd rfl text
  | _ => exact ⟨_, rfl⟩

theorem strings_answers (all : ∀ x ∈ items, x.isString = true) :
    ∃ parts, strings items = .ok parts := by
  induction items with
  | nil => exact ⟨[], rfl⟩
  | cons x rest ih =>
      obtain ⟨first, others⟩ := List.forall_mem_cons.mp all
      cases x with
      | string s =>
          obtain ⟨parts, found⟩ := ih others
          exact ⟨s :: parts, by rw [strings, found]⟩
      | _ => cases first

theorem join_answers (glue : v.kind ∈ [Value.Kind.string])
    (parts : ArgType.strings.accepts w = true) : ∃ a, join v w = .ok a := by
  obtain ⟨s, rfl⟩ := Value.exists_string glue
  cases w with
  | array items =>
      obtain ⟨found, read⟩ := strings_answers (List.all_eq_true.mp parts)
      exact ⟨_, by rw [join, read]⟩
  | _ => cases parts

theorem mergeInto_answers {args : List Value} (typed : ∀ x ∈ args, x.kind ∈ [Value.Kind.object])
    (entries : Entries Value) : ∃ a, mergeInto entries args = .ok a := by
  induction args generalizing entries with
  | nil => exact ⟨_, rfl⟩
  | cons x rest ih =>
      obtain ⟨first, others⟩ := List.forall_mem_cons.mp typed
      obtain ⟨more, rfl⟩ := Value.exists_object first
      exact ih others _

end Functions

namespace Builtin

/-- The function sorts these items, each of which takes so many bytes. -/
inductive SortsItems (apply : Apply) : Builtin → List Value → Nat → List Functions.Keyed → Prop
  | values (xs : List Value) :
      SortsItems apply .sort [.array xs] Functions.valueSize (Functions.selfKeyed xs)
  | byKey {args xs : List Value} {query : Query} {items : List Functions.Keyed}
      (applied : Builtin.sortBy.applied? args = some (query, xs))
      (keyedBy : Functions.KeyedBy (apply query) xs items)
      (uniform : Functions.Uniform (items.map Functions.Keyed.key)) :
      SortsItems apply .sortBy args Functions.keySize items

section Bodies

variable {builtin : Builtin} {args : List Value}

theorem kind_mem_of_admits {place : Nat} {v : Value} (admitted : builtin.Admits place v) :
    v.kind ∈ (builtin.accepted place).flatMap ArgType.kinds := by
  obtain ⟨t, listed, accepted⟩ := List.any_eq_true.mp (admits_iff.mp admitted)
  exact List.mem_flatMap.mpr ⟨t, listed, ArgType.kind_mem_kinds accepted⟩

theorem ofAnswer_answers {answer : Functions.Answer} (answers : ∃ a, answer = .ok a) :
    ∃ a, ofAnswer answer = .answer a := by
  obtain ⟨a, rfl⟩ := answers
  exact ⟨a, rfl⟩

theorem withItems_answers {v : Value} (finish : List Value → Value)
    (typed : v.kind ∈ [Value.Kind.array]) :
    ∃ a, withItems v (fun items => .answer (finish items)) = .answer a := by
  obtain ⟨items, rfl⟩ := Value.exists_array typed
  exact ⟨_, rfl⟩

/-- A function that is not about to apply a reference answers, unless it is asked for the text of
one, or for the order of items that have none. -/
theorem run_answers (apply : Apply) (counted : builtin.arity.accepts args.length = true)
    (admitted : ∀ i v, args[i]? = some v → builtin.Admits i v)
    (idle : builtin.applied? args = none)
    (written : ∀ tag query, builtin = .toString → args ≠ [.reference tag query])
    (ordered : ∀ size items, builtin.SortsItems apply args size items →
      Functions.sortKeyed size items ≠ none) :
    ∃ a, builtin.run apply args = .answer a := by
  have one : builtin.arity = .exactly 1 → ∃ v, args = [v] := by
    intro arity
    rw [arity] at counted
    exact List.length_eq_one_iff.mp (beq_iff_eq.mp counted)
  have two : builtin.arity = .exactly 2 → ∃ v w, args = [v, w] := by
    intro arity
    rw [arity] at counted
    exact List.length_eq_two.mp (beq_iff_eq.mp counted)
  have typed (i : Nat) (v : Value) (found : args[i]? = some v) :
      v.kind ∈ (builtin.accepted i).flatMap ArgType.kinds :=
    kind_mem_of_admits (admitted i v found)
  cases builtin with
  | abs =>
      obtain ⟨v, rfl⟩ := one rfl
      exact ofAnswer_answers (Functions.absolute_answers (typed 0 v rfl))
  | ceil | floor =>
      obtain ⟨v, rfl⟩ := one rfl
      exact ofAnswer_answers (Functions.roundWith_answers _ (typed 0 v rfl))
  | avg | sum =>
      obtain ⟨v, rfl⟩ := one rfl
      exact withItems_answers _ (typed 0 v rfl)
  | contains =>
      obtain ⟨v, w, rfl⟩ := two rfl
      exact ofAnswer_answers (Functions.contains_answers (typed 0 v rfl))
  | startsWith | endsWith =>
      obtain ⟨v, w, rfl⟩ := two rfl
      obtain ⟨s, rfl⟩ := Value.exists_string (typed 0 v rfl)
      obtain ⟨t, rfl⟩ := Value.exists_string (typed 1 w rfl)
      exact ⟨_, rfl⟩
  | join =>
      obtain ⟨glue, v, rfl⟩ := two rfl
      obtain ⟨t, listed, strings⟩ := List.any_eq_true.mp (admits_iff.mp (admitted 1 v rfl))
      obtain rfl : t = .strings := List.mem_singleton.mp listed
      exact ofAnswer_answers (Functions.join_answers (typed 0 glue rfl) strings)
  | keys | values =>
      obtain ⟨v, rfl⟩ := one rfl
      obtain ⟨entries, rfl⟩ := Value.exists_object (typed 0 v rfl)
      exact ⟨_, rfl⟩
  | merge =>
      refine ofAnswer_answers (Functions.mergeInto_answers (fun v listed => ?_) [])
      obtain ⟨i, found⟩ := List.mem_iff_getElem?.mp listed
      have kind := typed i v found
      have objects : (accepted .merge i).flatMap ArgType.kinds = [Value.Kind.object] := by
        cases i <;> rfl
      rwa [objects] at kind
  | length =>
      obtain ⟨v, rfl⟩ := one rfl
      exact ofAnswer_answers (Functions.length_answers (typed 0 v rfl))
  | reverse =>
      cases args with
      | nil => cases counted
      | cons v rest => exact ofAnswer_answers (Functions.reverse_answers (typed 0 v rfl))
  | max | min =>
      obtain ⟨v, rfl⟩ := one rfl
      have kind : v.kind ∈ [Value.Kind.array, .array] := typed 0 v rfl
      exact withItems_answers _ (by simpa using kind)
  | sort =>
      obtain ⟨v, rfl⟩ := one rfl
      have kind : v.kind ∈ [Value.Kind.array, .array] := typed 0 v rfl
      obtain ⟨xs, rfl⟩ := Value.exists_array (by simpa using kind)
      obtain ⟨sorted, sorts⟩ := Option.ne_none_iff_exists'.mp (ordered _ _ (.values xs))
      exact ⟨.array (sorted.map Functions.Keyed.item),
        by simp only [run, withItems, Functions.sorted, sorts]⟩
  | notNull => exact ⟨_, rfl⟩
  | toArray | toNumber | type =>
      obtain ⟨v, rfl⟩ := one rfl
      exact ⟨_, rfl⟩
  | toString =>
      obtain ⟨v, rfl⟩ := one rfl
      refine ofAnswer_answers (Functions.asText_answers fun kind => ?_)
      obtain ⟨tag, query, rfl⟩ := Value.exists_reference (List.mem_singleton.mpr kind)
      exact written tag query rfl rfl
  | map =>
      obtain ⟨r, v, rfl⟩ := two rfl
      obtain ⟨tag, query, rfl⟩ := Value.exists_reference (typed 0 r rfl)
      obtain ⟨items, rfl⟩ := Value.exists_array (typed 1 v rfl)
      cases idle
  | sortBy | maxBy | minBy =>
      obtain ⟨v, r, rfl⟩ := two rfl
      obtain ⟨items, rfl⟩ := Value.exists_array (typed 0 v rfl)
      obtain ⟨tag, query, rfl⟩ := Value.exists_reference (typed 1 r rfl)
      cases idle

end Bodies

/-! ## Outcomes without an answer -/

/-- The outcomes other than an answer that a function has on arguments that pass its check. -/
inductive Fails (apply : Apply) (builtin : Builtin) (args : List Value) : Outcome Value → Prop
  /-- The text of a reference is asked for. -/
  | text {tag : Tag} {query : Query} (asked : builtin = .toString)
      (unwritten : args = [.reference tag query]) :
      Fails apply builtin args (.failure (.mistyped (.referenceText builtin.name)))
  /-- An application does not answer, and is the first such. -/
  | application {query : Query} {before after : List Value} {x : Value} {stop : Outcome.Stop}
      (applied : builtin.applied? args = some (query, before ++ x :: after))
      (answers : ∀ y ∈ before, ∃ a, apply query y = .answer a)
      (stops : apply query x = Outcome.ofStop stop) :
      Fails apply builtin args (Outcome.ofStop stop)
  /-- The keys of the items are neither all numbers nor all strings. -/
  | mixedKeys {query : Query} {items keys : List Value}
      (applied : builtin.applied? args = some (query, items)) (byKey : builtin ≠ .map)
      (answers : List.Forall₂ (fun x key => apply query x = .answer key) items keys)
      (mixed : ¬Functions.Uniform keys) :
      Fails apply builtin args (.failure (.mistyped (.mixedKeys builtin.name)))
  /-- Sorting finds that the order of the keys contradicts itself. -/
  | disordered {size : Nat} {items : List Functions.Keyed}
      (sorts : builtin.SortsItems apply args size items)
      (fails : Functions.sortKeyed size items = none) : Fails apply builtin args .aborted

section Outcomes

variable {apply : Apply} {builtin : Builtin} {args : List Value} {outcome : Outcome Value}

/-- A function that applies a reference collects the answers, or uses them as keys. -/
theorem run_of_applied? (apply : Apply) {query : Query} {items : List Value}
    (applied : builtin.applied? args = some (query, items)) :
    (builtin = .map ∧ builtin.run apply args =
        Outcome.traverse (apply query) items >>= fun answers => .answer (.array answers)) ∨
      ∃ request : OrderRequest, builtin = request.byKey ∧ builtin.run apply args =
        Functions.keyed apply builtin.name query items >>= request.answer Functions.keySize := by
  simp only [applied?] at applied
  split at applied
  · cases applied
    exact .inl ⟨rfl, rfl⟩
  · cases applied
    exact .inr ⟨.sorted, rfl, rfl⟩
  · cases applied
    exact .inr ⟨.greatest, rfl, rfl⟩
  · cases applied
    exact .inr ⟨.least, rfl, rfl⟩
  · cases applied

theorem run_of_sortsItems {size : Nat} {items : List Functions.Keyed}
    (sorts : builtin.SortsItems apply args size items) :
    builtin.run apply args = Functions.sorted size items := by
  cases sorts with
  | values xs => rfl
  | byKey applied keyedBy uniform =>
      rcases run_of_applied? apply applied with ⟨collects, -⟩ | ⟨request, sorts, runs⟩
      · cases collects
      · obtain rfl : request = .sorted := by cases request <;> first | rfl | cases sorts
        rw [runs, Functions.keyed_of_uniform keyedBy uniform, Outcome.answer_bind]
        rfl

theorem run_eq_of_fails (fails : builtin.Fails apply args outcome) :
    builtin.run apply args = outcome := by
  cases fails with
  | text asked unwritten =>
      subst asked unwritten
      rfl
  | application applied answers stops =>
      rcases run_of_applied? apply applied with ⟨-, runs⟩ | ⟨request, -, runs⟩
      · rw [runs, Outcome.traverse_stop answers stops, Outcome.ofStop_bind]
      · rw [runs, Functions.keyed_of_stop answers stops, Outcome.ofStop_bind]
  | mixedKeys applied byKey answers mixed =>
      rcases run_of_applied? apply applied with ⟨collects, -⟩ | ⟨request, -, runs⟩
      · exact absurd collects byKey
      · rw [runs, Functions.keyed, Outcome.traverse_answer answers, Outcome.answer_bind,
          if_neg fun uniform => mixed ((Functions.uniform_iff _).mp uniform), Outcome.failure_bind]
  | disordered sorts fails => rw [run_of_sortsItems sorts, Functions.sorted, fails]

theorem run_answers_or_fails (apply : Apply)
    (counted : builtin.arity.accepts args.length = true)
    (admitted : ∀ i v, args[i]? = some v → builtin.Admits i v) :
    (∃ a, builtin.run apply args = .answer a) ∨
      builtin.Fails apply args (builtin.run apply args) := by
  have ends {outcome : Outcome Value} (fails : builtin.Fails apply args outcome) :
      builtin.Fails apply args (builtin.run apply args) := (run_eq_of_fails fails).symm ▸ fails
  by_cases disordered : ∃ size items, builtin.SortsItems apply args size items ∧
      Functions.sortKeyed size items = none
  · obtain ⟨size, items, sorts, fails⟩ := disordered
    exact .inr (ends (.disordered sorts fails))
  have ordered (size : Nat) (items : List Functions.Keyed)
      (sorts : builtin.SortsItems apply args size items) :
      Functions.sortKeyed size items ≠ none := fun fails => disordered ⟨size, items, sorts, fails⟩
  cases applied : builtin.applied? args with
  | none =>
      by_cases asked : ∃ tag query, builtin = .toString ∧ args = [.reference tag query]
      · obtain ⟨tag, query, asked, unwritten⟩ := asked
        exact .inr (ends (.text asked unwritten))
      · refine .inl (run_answers apply counted admitted applied ?_ ordered)
        intro tag query text unwritten
        exact asked ⟨tag, query, text, unwritten⟩
  | some application =>
      obtain ⟨query, items⟩ := application
      rcases Outcome.traverse_cases (apply query) items with
        ⟨answers, each⟩ | ⟨before, x, after, stop, rfl, answered, stops⟩
      · rcases run_of_applied? apply applied with ⟨-, runs⟩ | ⟨request, rfl, runs⟩
        · rw [Outcome.traverse_answer each] at runs
          exact .inl ⟨_, runs⟩
        · by_cases uniform : Functions.Uniform answers
          · obtain ⟨keyedBy, keys⟩ := Functions.keyedBy_zip each
            rw [← keys] at uniform
            rw [Functions.keyed_of_uniform keyedBy uniform, Outcome.answer_bind] at runs
            rw [runs]
            refine (request.answer_cases Functions.keySize _).imp_right ?_
            rintro ⟨rfl, fails, aborts⟩
            rw [aborts]
            exact .disordered (.byKey applied keyedBy uniform) fails
          · refine .inr (ends (.mixedKeys applied ?_ each uniform))
            cases request <;> decide
      · exact .inr (ends (.application applied answered stops))

/-- The faults of operands are never those of the body itself. -/
theorem Fails.operand {expected : String} {found : Value.Kind}
    (fails : builtin.Fails apply args (.failure (.mistyped (.operand expected found)))) :
    ∃ query items, builtin.applied? args = some (query, items) ∧
      ∃ x ∈ items, apply query x = .failure (.mistyped (.operand expected found)) := by
  generalize failed : Outcome.failure (.mistyped (.operand expected found)) = outcome at fails
  cases fails with
  | application applied _ stops =>
      exact ⟨_, _, applied, _, List.mem_append_right _ List.mem_cons_self, stops⟩
  | _ => cases failed

theorem call_name (apply : Apply) (builtin : Builtin) (args : List Value) :
    call apply builtin.name args = builtin.invoke apply args := by
  rw [call, ofName?_name]

end Outcomes

/-- A call with a wrong number of arguments is refused for that, whatever their types.  Otherwise it
is refused for the first argument that its place does not admit.  Otherwise it answers, except in
the listed cases, and no fault of an operand is that of a body.  Sorting is without a result only on
more than twenty keys that are not totally preordered. -/
theorem calls_keep_contracts (apply : Apply) (builtin : Builtin) (args : List Value) :
    (builtin.arity.accepts args.length = false →
      call apply builtin.name args =
        .failure (.arity builtin.name builtin.arity args.length)) ∧
    (builtin.arity.accepts args.length = true →
      (∀ before v after, args = before ++ v :: after →
        (∀ i w, before[i]? = some w → builtin.Admits i w) → ¬builtin.Admits before.length v →
          call apply builtin.name args = .failure (.mistyped (.argument builtin.name
            (before.length + 1) (builtin.accepted before.length) v.kind))) ∧
      ((∀ i v, args[i]? = some v → builtin.Admits i v) →
        (∀ outcome, builtin.Fails apply args outcome →
          call apply builtin.name args = outcome) ∧
        ((∃ a, call apply builtin.name args = .answer a) ∨
          builtin.Fails apply args (call apply builtin.name args)) ∧
        ∀ expected found,
          call apply builtin.name args = .failure (.mistyped (.operand expected found)) →
            ∃ query items, builtin.applied? args = some (query, items) ∧
              ∃ x ∈ items, apply query x = .failure (.mistyped (.operand expected found)))) ∧
    ∀ size items, builtin.SortsItems apply args size items →
      Functions.sortKeyed size items = none →
        ¬Value.Preordered (items.map Functions.Keyed.key) ∧ 20 < items.length := by
  rw [call_name]
  refine ⟨fun miscounted => ?_, fun counted => ⟨?_, fun admitted => ?_⟩,
    fun size items _ fails => Functions.not_preordered_of_sortKeyed fails⟩
  · rw [invoke, check, miscounted]
    rfl
  · rintro before v after rfl admitted refused
    have refused : ¬builtin.Admits (0 + before.length) v := by rwa [Nat.zero_add]
    rw [invoke, check, if_pos counted,
      checkTypes_of_refused (checkTypes_zero.mpr admitted) refused, Nat.zero_add]
  · have checked : builtin.check args = .ok () := by
      rw [check, if_pos counted, checkTypes_zero.mpr admitted]
    have runs : builtin.invoke apply args = builtin.run apply args := by
      rw [invoke, checked]
    have ends := run_answers_or_fails apply counted admitted
    rw [runs]
    refine ⟨fun outcome fails => run_eq_of_fails fails, ends, ?_⟩
    intro expected found failed
    rcases ends with ⟨a, answered⟩ | fails
    · rw [answered] at failed
      cases failed
    · exact Fails.operand (failed ▸ fails)

theorem calls_keep_contracts_merge :
    call (Query.eval 0) "merge" [] = .failure (.arity "merge" (.atLeast 1) 0) ∧
      call (Query.eval 0) "merge" [.object [], .object [], .int 7] =
        .failure (.mistyped (.argument "merge" 3 [.object] .number)) ∧
      call (Query.eval 0) "sort_by" [.array [.int 1, .string "a"], .reference none .current] =
        .failure (.mistyped (.mixedKeys "sort_by")) := by
  refine ⟨?_, ?_, ?_⟩
  · exact (calls_keep_contracts (Query.eval 0) .merge []).1 rfl
  · have refused := (calls_keep_contracts (Query.eval 0) .merge
      [.object [], .object [], .int 7]).2.1 rfl
    refine refused.1 [.object [], .object []] (.int 7) [] rfl (checkTypes_zero.mp rfl) ?_
    rw [admits_iff]
    decide
  · have kept := (calls_keep_contracts (Query.eval 0) .sortBy
      [.array [.int 1, .string "a"], .reference none .current]).2.1 rfl
    refine (kept.2 (checkTypes_zero.mp rfl)).1 _ ?_
    have keys : List.Forall₂ (fun x key => Query.eval 0 .current x = .answer key)
        [.int 1, .string "a"] [.int 1, .string "a"] := .cons rfl (.cons rfl .nil)
    refine .mixedKeys rfl nofun keys ?_
    rw [← Functions.uniform_iff]
    decide

theorem calls_keep_contracts_tangled :
    sort.arity.accepts 1 = true ∧ sort.Admits 0 (.array tangled) ∧
      call (Query.eval 0) "sort" [.array tangled] = .aborted := by
  have accepted : sort.Admits 0 (.array tangled) := admits_iff.mpr (by decide +kernel)
  have fails : Functions.sortKeyed Functions.valueSize (Functions.selfKeyed tangled) = none :=
    Option.isNone_iff_eq_none.mp (by decide +kernel)
  have counted : sort.arity.accepts [Value.array tangled].length = true := rfl
  have checked : sort.check [.array tangled] = .ok () := by
    rw [check, if_pos counted]
    refine checkTypes_zero.mpr fun i v found => ?_
    cases i with
    | zero =>
        cases found
        exact accepted
    | succ i => simp at found
  refine ⟨counted, accepted, ?_⟩
  have named := call_name (Query.eval 0) sort [.array tangled]
  rw [invoke, checked] at named
  refine named.trans ?_
  exact run_eq_of_fails (.disordered (.values tangled) fails)

end Builtin

end JsonQuery
