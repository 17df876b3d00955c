import JsonQuery.Proofs.Coupling.Reference

/-!
# Plain values

A value without references is plain, and so is whatever is coupled without any reference.
-/

set_option autoImplicit false

namespace JsonQuery

namespace Value

mutual

/-- There is no reference at any depth. -/
def isPlain : Value → Bool
  | .array items => listIsPlain items
  | .object entries => entriesArePlain entries
  | .reference _ _ => false
  | _ => true
termination_by structural v => v

def listIsPlain : List Value → Bool
  | [] => true
  | v :: rest => isPlain v && listIsPlain rest
termination_by structural items => items

def entriesArePlain : List (String × Value) → Bool
  | [] => true
  | (_, v) :: rest => isPlain v && entriesArePlain rest
termination_by structural entries => entries

end

/-- Nothing stands for anything else. -/
abbrev NoReference (_ _ : Query) : Prop :=
  False

theorem noReference_respectful : Query.Respectful NoReference :=
  fun _ _ _ _ _ impossible _ => impossible.elim

variable {v w : Value}

theorem Coupled.eq_of_noReference (coupled : Coupled NoReference v w) : v = w :=
  coupled.eq fun _ _ => False.elim

mutual

theorem references_of_isPlain : ∀ {v : Value}, v.isPlain = true → v.references = []
  | .null, _ | .bool _, _ | .int _, _ | .float _, _ | .string _, _ => rfl
  | .array _, plain => listReferences_of_isPlain plain
  | .object _, plain => entriesReferences_of_isPlain plain

theorem listReferences_of_isPlain : ∀ {items : List Value}, listIsPlain items = true →
    listReferences items = []
  | [], _ => rfl
  | v :: rest, plain => by
      simp only [listIsPlain, Bool.and_eq_true] at plain
      simp only [listReferences, references_of_isPlain plain.1,
        listReferences_of_isPlain plain.2, List.append_nil]

theorem entriesReferences_of_isPlain : ∀ {entries : Entries Value},
    entriesArePlain entries = true → entriesReferences entries = []
  | [], _ => rfl
  | (_, v) :: rest, plain => by
      simp only [entriesArePlain, Bool.and_eq_true] at plain
      simp only [entriesReferences, references_of_isPlain plain.1,
        entriesReferences_of_isPlain plain.2, List.append_nil]

end

/-- A plain value is coupled with itself, whatever is known of references. -/
theorem coupled_of_isPlain {refs : Query → Query → Prop} (plain : v.isPlain = true) :
    Coupled refs v v := by
  refine v.coupled_self fun body found => ?_
  rw [references_of_isPlain plain] at found
  cases found

theorem Coupled.isPlain (coupled : Coupled NoReference v w) : v.isPlain = true := by
  induction coupled using Coupled.induct with
  | array items ih =>
      simp only [Value.isPlain]
      clear items
      induction ih with
      | nil => rfl
      | cons head _ ih => simp only [listIsPlain, head.elim fun _ plain => plain, ih, Bool.and_self]
  | object keys values ih =>
      simp only [Value.isPlain]
      clear keys values
      induction ih with
      | nil => rfl
      | cons head _ ih =>
          simp only [entriesArePlain, head.2.elim fun _ plain => plain, ih, Bool.and_self]
  | reference _ impossible => exact impossible.elim
  | _ => rfl

end Value

end JsonQuery
