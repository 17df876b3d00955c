import JsonQuery.Proofs.Evaluation.Simplify
import JsonQuery.Proofs.Json.Printing

/-!
# Answers as documents

A disciplined query answers a plain value with a plain value.  A plain value with finite numbers is
a document: as a JSON tree and as printed text it keeps every part, the two kinds of numbers and the
order of keys.
-/

set_option autoImplicit false

namespace JsonQuery

namespace Value

mutual

/-- All numbers are finite, at every depth. -/
def isFinite : Value → Bool
  | .float x => Binary64.isFinite x
  | .array items => listIsFinite items
  | .object entries => entriesAreFinite entries
  | _ => true
termination_by structural v => v

def listIsFinite : List Value → Bool
  | [] => true
  | v :: rest => isFinite v && listIsFinite rest
termination_by structural items => items

def entriesAreFinite : List (String × Value) → Bool
  | [] => true
  | (_, v) :: rest => isFinite v && entriesAreFinite rest
termination_by structural entries => entries

end

mutual

/-- A JSON tree has no numbers but finite ones. -/
theorem isFinite_toJson : ∀ v : Value, v.toJson.isFinite = true
  | .null | .bool _ | .int _ | .string _ | .reference _ _ => rfl
  | .float x => by
      rw [toJson]
      split
      · assumption
      · rfl
  | .array items => listIsFinite_toJsonList items
  | .object entries => entriesAreFinite_toJsonEntries entries
termination_by structural v => v

theorem listIsFinite_toJsonList : ∀ items : List Value,
    Json.listIsFinite (toJsonList items) = true
  | [] => rfl
  | v :: rest => by
      rw [toJsonList, Json.listIsFinite, isFinite_toJson v, listIsFinite_toJsonList rest,
        Bool.and_self]
termination_by structural items => items

theorem entriesAreFinite_toJsonEntries : ∀ entries : List (String × Value),
    Json.entriesAreFinite (toJsonEntries entries) = true
  | [] => rfl
  | (_, v) :: rest => by
      rw [toJsonEntries, Json.entriesAreFinite, isFinite_toJson v,
        entriesAreFinite_toJsonEntries rest, Bool.and_self]
termination_by structural entries => entries

end

mutual

/-- Nothing is lost in the JSON tree of a plain value with finite numbers. -/
theorem ofJson_toJson : ∀ {v : Value}, v.isPlain = true → v.isFinite = true →
    ofJson v.toJson = v
  | .null, _, _ | .bool _, _, _ | .int _, _, _ | .string _, _, _ => rfl
  | .float x, _, finite => by
      rw [isFinite] at finite
      rw [toJson, if_pos finite, ofJson]
  | .array items, plain, finite => congrArg Value.array (ofJsonList_toJsonList plain finite)
  | .object entries, plain, finite =>
      congrArg Value.object (ofJsonEntries_toJsonEntries plain finite)

theorem ofJsonList_toJsonList : ∀ {items : List Value}, listIsPlain items = true →
    listIsFinite items = true → ofJsonList (toJsonList items) = items
  | [], _, _ => rfl
  | v :: rest, plain, finite => by
      rw [listIsPlain, Bool.and_eq_true] at plain
      rw [listIsFinite, Bool.and_eq_true] at finite
      rw [toJsonList, ofJsonList, ofJson_toJson plain.1 finite.1,
        ofJsonList_toJsonList plain.2 finite.2]

theorem ofJsonEntries_toJsonEntries : ∀ {entries : Entries Value},
    entriesArePlain entries = true → entriesAreFinite entries = true →
      ofJsonEntries (toJsonEntries entries) = entries
  | [], _, _ => rfl
  | (_, v) :: rest, plain, finite => by
      rw [entriesArePlain, Bool.and_eq_true] at plain
      rw [entriesAreFinite, Bool.and_eq_true] at finite
      rw [toJsonEntries, ofJsonEntries, ofJson_toJson plain.1 finite.1,
        ofJsonEntries_toJsonEntries plain.2 finite.2]

end

/-- Nothing is lost in the text of a plain value with finite numbers. -/
theorem eq_of_printed {v w : Value} (plain : v.isPlain = true) (finite : v.isFinite = true)
    (plain' : w.isPlain = true) (finite' : w.isFinite = true)
    (same : v.toJson.encode = w.toJson.encode ∨
      v.toJson.encodeIndented = w.toJson.encodeIndented) : v = w := by
  have trees := Json.eq_of_encode v.isFinite_toJson w.isFinite_toJson same
  rw [← ofJson_toJson plain finite, trees, ofJson_toJson plain' finite']

end Value

namespace Query

variable {q : Query} {v a : Value}

/-- No reference gets into the answer to a plain value. -/
theorem Settles.isPlain (settles : q.Settles v (.answer a)) (disciplined : q.isDisciplined = true)
    (plain : v.isPlain = true) : a.isPlain = true := by
  have follows := eval_simplify disciplined (Nat.le_refl _) plain
  have reached : eval q.references.length q v = .answer a := by
    have settled : eval q.references.length q v ≠ .unsettled := by
      intro unsettled
      rw [unsettled] at follows
      exact follows
    exact (settles_of_eval settled).unique settles
  rw [reached] at follows
  obtain ⟨b, -, coupled⟩ := follows
  exact coupled.isPlain

/-- A disciplined query answers a plain value with a plain value.  When the numbers in the answer
are finite, its JSON tree reads back as the same value, and no other such value has its compact or
its indented text. -/
theorem answers_lossless (settles : q.Settles v (.answer a)) (disciplined : q.isDisciplined = true)
    (plain : v.isPlain = true) :
    a.isPlain = true ∧ (a.isFinite = true →
      Value.ofJson a.toJson = a ∧
        ∀ b : Value, b.isPlain = true → b.isFinite = true →
          b.toJson.encode = a.toJson.encode ∨
              b.toJson.encodeIndented = a.toJson.encodeIndented →
            b = a) := by
  have answerPlain := settles.isPlain disciplined plain
  refine ⟨answerPlain, fun finite => ⟨Value.ofJson_toJson answerPlain finite, ?_⟩⟩
  intro b otherPlain otherFinite same
  exact Value.eq_of_printed otherPlain otherFinite answerPlain finite same

theorem answers_lossless_sort_by :
    let q : Query := .call "sort_by" [.current, .reference none (.field "k")] false
    let x : Value := .object [("k", .int 2), ("v", .float 2)]
    let y : Value := .object [("v", .array [.float 0.5, .null]), ("k", .int 1)]
    q.Settles (.array [x, y]) (.answer (.array [y, x])) ∧
      Value.ofJson (Value.array [y, x]).toJson = .array [y, x] ∧
        ∀ b : Value, b.isPlain = true → b.isFinite = true →
          b.toJson.encode = (Value.array [y, x]).toJson.encode ∨
              b.toJson.encodeIndented = (Value.array [y, x]).toJson.encodeIndented →
            b = .array [y, x] := by
  intro q x y
  have settles : q.Settles (.array [x, y]) (.answer (.array [y, x])) := ⟨nofun, 1, rfl⟩
  exact ⟨settles, (answers_lossless settles rfl rfl).2 (by decide +kernel)⟩

end Query

end JsonQuery
