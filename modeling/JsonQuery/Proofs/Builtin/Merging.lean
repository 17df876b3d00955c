import JsonQuery.Proofs.Builtin.Contract
import JsonQuery.Proofs.Evaluation.Nesting
import JsonQuery.Proofs.Value.Insertion

/-!
# Merging objects

Objects are built by inserting entries in turn.  A key stays where it came first and has the value
that it got last, so building from a list and merging are the same thing: a merged object is built
from the entries of its parts in a row, and a hash merges its members one by one.
-/

set_option autoImplicit false

namespace JsonQuery

/-! ## Merging -/

namespace Functions

open Entries

theorem mergeInto_objects (entries : Entries Value) (objects : List (Entries Value)) :
    mergeInto entries (objects.map .object) =
      .ok (.object (insertAll entries objects.flatten)) := by
  induction objects generalizing entries with
  | nil => rfl
  | cons o rest ih =>
      rw [List.map_cons, mergeInto, ih, List.flatten_cons, insertAll_append]

end Functions

namespace Builtin

/-- A merged object is built from the entries of its parts in a row. -/
theorem call_merge (apply : Apply) {objects : List (Entries Value)} (some : objects ≠ []) :
    call apply merge.name (objects.map .object) =
      .answer (.object (Entries.ofList objects.flatten)) := by
  have counted : merge.arity.accepts (objects.map Value.object).length = true := by
    rw [List.length_map]
    exact decide_eq_true (List.length_pos_iff.mpr some)
  have admitted : merge.checkTypes 0 (objects.map .object) = .ok () := by
    refine checkTypes_zero.mpr fun i v found => ?_
    rw [List.getElem?_map, Option.map_eq_some_iff] at found
    obtain ⟨o, -, rfl⟩ := found
    rw [admits_iff]
    cases i <;> rfl
  have runs : merge.run apply (objects.map .object) =
      ofAnswer (Functions.mergeInto [] (objects.map .object)) := rfl
  rw [call_name, invoke, check, if_pos counted, admitted]
  dsimp only
  rw [runs, Functions.mergeInto_objects]
  rfl

end Builtin

/-! ## Hashes -/

namespace Query

variable {apply : Builtin.Apply} {v : Value} {q : Query} {outcome : Outcome Value}

/-- What evaluation settles on, where references are applied by search. -/
theorem settles_iff_evalWith :
    q.Settles v outcome ↔ outcome ≠ .unsettled ∧ evalWith search q v = outcome := by
  rw [settles_iff_search, search_eq]

theorem evalEntries_answer {entries : Entries Query} {values : Entries Value}
    (each : Entries.Coupled (fun q a => evalWith apply q v = .answer a) entries values) :
    evalEntries apply entries v = .answer values := by
  induction each with
  | nil => rfl
  | @cons x y _ _ head _ ih =>
      obtain ⟨k, q⟩ := x
      obtain ⟨l, a⟩ := y
      obtain ⟨rfl, answered⟩ := head
      rw [evalEntries, answered, Outcome.answer_bind, ih, Outcome.answer_bind, Outcome.pure_eq]

theorem evalEntries_failure {before after : Entries Query} {k : String} {e : Error}
    (answers : ∀ x ∈ before, ∃ a, evalWith apply x.2 v = .answer a)
    (fails : evalWith apply q v = .failure e) :
    evalEntries apply (before ++ (k, q) :: after) v = .failure e := by
  induction before with
  | nil => rw [List.nil_append, evalEntries, fails, Outcome.failure_bind]
  | cons x before ih =>
      obtain ⟨l, p⟩ := x
      obtain ⟨⟨a, answered⟩, others⟩ := List.forall_mem_cons.mp answers
      rw [List.cons_append, evalEntries, answered, Outcome.answer_bind, ih others,
        Outcome.failure_bind]

theorem settles_hash {entries : Entries Query} {values : Entries Value}
    (present : v.isNull = false)
    (each : Entries.Coupled (fun q a => q.Settles v (.answer a)) entries values) :
    (hash entries).Settles v (.answer (.object (Entries.ofList values))) := by
  have answered : evalEntries search entries v = .answer values := by
    refine evalEntries_answer (each.imp fun _ _ entry => ?_)
    exact ⟨entry.1, (settles_iff_evalWith.mp entry.2).2⟩
  refine settles_iff_evalWith.mpr ⟨nofun, ?_⟩
  rw [evalWith, present, answered]
  rfl

theorem settles_hash_failure {before after : Entries Query} {k : String} {e : Error}
    (present : v.isNull = false)
    (answers : ∀ x ∈ before, ∃ a, x.2.Settles v (.answer a)) (fails : q.Settles v (.failure e)) :
    (hash (before ++ (k, q) :: after)).Settles v (.failure e) := by
  have failed : evalEntries search (before ++ (k, q) :: after) v = .failure e := by
    refine evalEntries_failure (fun x found => ?_) (settles_iff_evalWith.mp fails).2
    obtain ⟨a, settles⟩ := answers x found
    exact ⟨a, (settles_iff_evalWith.mp settles).2⟩
  refine settles_iff_evalWith.mpr ⟨nofun, ?_⟩
  rw [evalWith, present, failed]
  rfl

end Query

/-- A merged object has the keys of its parts in the order in which they come first, each with the
value of the last part that has it.  Merging is associative and idempotent, and empty objects make no
difference.  A hash answers what its members merge to, and fails with the first member that fails. -/
theorem merging_laws (apply : Builtin.Apply) :
    (∀ objects : List (Entries Value), objects ≠ [] → (∀ o ∈ objects, (Entries.keys o).Nodup) →
      ∃ merged, Builtin.call apply Builtin.merge.name (objects.map .object) =
          .answer (.object merged) ∧
        (Entries.keys merged).Nodup ∧
        Entries.keys merged = (objects.flatMap Entries.keys).eraseDups ∧
        ∀ key, Entries.get? key merged = objects.reverse.findSome? (Entries.get? key)) ∧
      (∀ a b c : Entries Value,
        (Builtin.call apply Builtin.merge.name [.object a, .object b] >>= fun ab =>
            Builtin.call apply Builtin.merge.name [ab, .object c]) =
          Builtin.call apply Builtin.merge.name [.object a, .object b, .object c] ∧
        (Builtin.call apply Builtin.merge.name [.object b, .object c] >>= fun bc =>
            Builtin.call apply Builtin.merge.name [.object a, bc]) =
          Builtin.call apply Builtin.merge.name [.object a, .object b, .object c]) ∧
      (∀ a : Entries Value, (Entries.keys a).Nodup →
        Builtin.call apply Builtin.merge.name [.object [], .object a] = .answer (.object a) ∧
        Builtin.call apply Builtin.merge.name [.object a, .object []] = .answer (.object a) ∧
        Builtin.call apply Builtin.merge.name [.object a, .object a] = .answer (.object a)) ∧
      ∀ v : Value, v.isNull = false →
        (∀ (members : Entries Query) (values : Entries Value), members ≠ [] →
          Entries.Coupled (fun q a => q.Settles v (.answer a)) members values →
            ∃ merged, Builtin.call apply Builtin.merge.name
                (values.map fun entry => .object [entry]) = .answer (.object merged) ∧
              (Query.hash members).Settles v (.answer (.object merged))) ∧
        ∀ (before : Entries Query) (key : String) (q : Query) (after : Entries Query) (e : Error),
          (∀ member ∈ before, ∃ a, member.2.Settles v (.answer a)) → q.Settles v (.failure e) →
            (Query.hash (before ++ (key, q) :: after)).Settles v (.failure e) := by
  have merge {objects : List (Entries Value)} (some : objects ≠ []) :=
    Builtin.call_merge apply some
  have two (a b : Entries Value) :
      Builtin.call apply Builtin.merge.name [.object a, .object b] =
        .answer (.object (Entries.ofList (a ++ b))) := by
    simpa using merge (List.cons_ne_nil a [b])
  have three (a b c : Entries Value) :
      Builtin.call apply Builtin.merge.name [.object a, .object b, .object c] =
        .answer (.object (Entries.ofList (a ++ (b ++ c)))) := by
    simpa using merge (List.cons_ne_nil a [b, c])
  refine ⟨fun objects some nodup => ?_, fun a b c => ⟨?_, ?_⟩, fun a nodup => ⟨?_, ?_, ?_⟩,
    fun v present => ⟨fun members values some each => ?_, fun before key q after e => ?_⟩⟩
  · refine ⟨_, merge some, Entries.nodup_keys_ofList _, ?_, fun key => ?_⟩
    · rw [Entries.keys_ofList, Entries.keys_flatten]
    · rw [Entries.get?_ofList, Entries.get?_flatten_reverse nodup]
  · rw [two, Outcome.answer_bind, two, three, Entries.ofList_append_left, List.append_assoc]
  · rw [two, Outcome.answer_bind, two, three, Entries.ofList_append_right]
  · rw [two, List.nil_append, Entries.ofList_eq_self nodup]
  · rw [two, List.append_nil, Entries.ofList_eq_self nodup]
  · rw [two, Entries.ofList_append_self nodup]
  · have parts : (values.map fun entry => [entry]) ≠ [] := by
      rintro none
      obtain rfl := List.map_eq_nil_iff.mp none
      cases each
      exact some rfl
    have merged := merge parts
    rw [List.map_map, ← List.flatMap_def, List.flatMap_singleton'] at merged
    exact ⟨_, merged, Query.settles_hash present each⟩
  · exact Query.settles_hash_failure present

/-- A repeated key stands first, with its last value. -/
theorem merging_laws_repeated :
    let refused : Query := .call "abs" [.literal .null] false
    (∃ merged, Builtin.call (Query.eval 0) "merge"
        [.object [("a", .int 1), ("b", .int 2)], .object [("c", .int 3), ("a", .null)]] =
          .answer (.object merged) ∧
      Entries.keys merged = ["a", "b", "c"] ∧ Entries.get? "a" merged = some .null) ∧
      Builtin.call (Query.eval 0) "merge" [.object [("a", .int 1)], .object [("a", .int 1)]] =
        .answer (.object [("a", .int 1)]) ∧
      (Query.hash [("b", .field "x"), ("a", .current), ("b", .literal (.int 2))]).Settles (.int 7)
        (.answer (.object [("b", .int 2), ("a", .int 7)])) ∧
      (Query.hash [("a", .current), ("b", refused), ("b", .current)]).Settles (.int 7)
        (.failure (.mistyped (.argument "abs" 1 [.number] .null))) := by
  intro refused
  obtain ⟨merges, -, units, hashes⟩ := merging_laws (Query.eval 0)
  obtain ⟨answers, fails⟩ := hashes (.int 7) rfl
  refine ⟨?_, ?_, ?_, ?_⟩
  · obtain ⟨merged, called, -, order, last⟩ := merges
      [[("a", .int 1), ("b", .int 2)], [("c", .int 3), ("a", .null)]] (List.cons_ne_nil _ _)
      (by decide)
    exact ⟨merged, called, order.trans (by decide), last "a"⟩
  · exact (units [("a", .int 1)] (List.nodup_singleton _)).2.2
  · have each : Entries.Coupled (fun (q : Query) a => q.Settles (.int 7) (.answer a))
        [("b", .field "x"), ("a", .current), ("b", .literal (.int 2))]
        [("b", .null), ("a", .int 7), ("b", .int 2)] :=
      .cons ⟨rfl, nofun, 0, rfl⟩ (.cons ⟨rfl, nofun, 0, rfl⟩ (.cons ⟨rfl, nofun, 0, rfl⟩ .nil))
    obtain ⟨merged, called, settles⟩ := answers _ _ (List.cons_ne_nil _ _) each
    have evaluated : Builtin.call (Query.eval 0) "merge"
        [.object [("b", .null)], .object [("a", .int 7)], .object [("b", .int 2)]] =
          .answer (.object [("b", .int 2), ("a", .int 7)]) := rfl
    rw [← called.symm.trans evaluated]
    exact settles
  · exact fails [("a", .current)] "b" refused [("b", .current)] _
      (List.forall_mem_singleton.mpr ⟨.int 7, nofun, 0, rfl⟩) ⟨nofun, 0, rfl⟩

end JsonQuery
