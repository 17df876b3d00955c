import JsonQuery.Proofs.Builtin.Contract
import JsonQuery.Proofs.Safety.Slice

/-!
# What slices select

The elements that a slice selects stand at its start, one stride further, two strides further and so
on, as long as these places are strictly before its stop in the direction of the walk.  A negative
bound counts from the end, bounds are moved into the sequence, and omitted bounds are its borders.
-/

set_option autoImplicit false

namespace JsonQuery

namespace Slice

/-! ## Bounds -/

/-- The place that a given bound names; a negative one counts from the end. -/
def named (length : Nat) (bound : Int) : Int :=
  if bound < 0 then bound + length else bound

/-- The nearest place at which a walk over the sequence can start or stop. -/
def clamped (length : Nat) (stride place : Int) : Int :=
  if 0 < stride then max 0 (min place length) else max (-1) (min place (length - 1))

/-- The place where the walk starts. -/
def startPlace (s : Slice) (length : Nat) : Int :=
  match s.start with
  | some bound => clamped length s.stride (named length bound.toInt)
  | none => if 0 < s.stride then 0 else length - 1

/-- The place that the walk stops before. -/
def stopPlace (s : Slice) (length : Nat) : Int :=
  match s.stop with
  | some bound => clamped length s.stride (named length bound.toInt)
  | none => if 0 < s.stride then length else -1

section Bounds

variable {s : Slice}

theorem place_eq_clamped {stride : Int} (moves : stride ≠ 0) (length : Nat) (bound : Int) :
    place length stride bound = clamped length stride (named length bound) := by
  unfold place clamped named
  by_cases up : 0 < stride
  · have noDescent : ¬stride < 0 := by omega
    simp only [up, noDescent, if_true, if_false]
    split <;> omega
  · have down : stride < 0 := by omega
    simp only [up, down, if_true, if_false]
    split <;> omega

theorem first_eq_startPlace (allowed : s.Allowed) (length : Nat) :
    s.first length = s.startPlace length := by
  have moves := stride_ne_zero allowed
  unfold first startPlace
  cases s.start with
  | some bound => exact place_eq_clamped moves length bound.toInt
  | none =>
      dsimp only
      split <;> split <;> omega

theorem limit_eq_stopPlace (allowed : s.Allowed) (length : Nat) :
    s.limit length = s.stopPlace length := by
  have moves := stride_ne_zero allowed
  unfold limit stopPlace
  cases s.stop with
  | some bound => exact place_eq_clamped moves length bound.toInt
  | none =>
      dsimp only
      split <;> split <;> omega

end Bounds

/-! ## Selected elements -/

/-- The element of a list at a place, if the place is inside. -/
def elementAt? {α : Type} (items : List α) (place : Int) : Option α :=
  if 0 ≤ place then items[place.toNat]? else none

/-- The elements at `first` and at each further stride before `limit`, in the order of the walk. -/
structure Selects {α : Type} (items : List α) (first limit stride : Int) (selected : List α) :
    Prop where
  /-- As long as the walk is not at its limit, it meets elements. -/
  meets : ∀ n : Nat, Ahead limit stride (first + n * stride) →
    ∃ a, elementAt? items (first + n * stride) = some a ∧ selected[n]? = some a
  /-- Nothing is selected from the limit on. -/
  ends : ∀ n : Nat, ¬Ahead limit stride (first + n * stride) → selected[n]? = none

/-- The walk leaves no choice. -/
theorem Selects.unique {α : Type} {items selected selected' : List α} {first limit stride : Int}
    (selects : Selects items first limit stride selected)
    (selects' : Selects items first limit stride selected') : selected = selected' := by
  apply List.ext_getElem?
  intro n
  by_cases ahead : Ahead limit stride (first + n * stride)
  · obtain ⟨a, met, found⟩ := selects.meets n ahead
    obtain ⟨b, met', found'⟩ := selects'.meets n ahead
    rw [found, found', ← met, ← met']
  · rw [selects.ends n ahead, selects'.ends n ahead]

section Selected

variable {α : Type} {s : Slice}

/-- Every position selects one element. -/
theorem getElem?_select (s : Slice) (items : List α) (n : Nat) :
    (s.select items)[n]? =
      (s.positions items.length)[n]?.bind fun position => items[position]? := by
  have inside := s.positions_lt items.length
  unfold select
  simp only [List.getElem?_toArray]
  generalize s.positions items.length = positions at inside ⊢
  induction positions generalizing n with
  | nil => rfl
  | cons position rest ih =>
      obtain ⟨here, later⟩ := List.forall_mem_cons.mp inside
      rw [List.filterMap_cons, List.getElem?_eq_getElem here]
      cases n with
      | zero => simp [List.getElem?_eq_getElem here]
      | succ n => simpa using ih n later

theorem select_selects (allowed : s.Allowed) (items : List α) :
    Selects items (s.startPlace items.length) (s.stopPlace items.length) s.stride
      (s.select items) := by
  have starts := s.first_inside items.length
  have stops := s.limit_inside items.length
  rw [← first_eq_startPlace allowed, ← limit_eq_stopPlace allowed]
  constructor
  · intro n ahead
    have counted := (lt_stepCount_iff n).mpr ahead
    obtain ⟨front, back⟩ := inside_of_ahead starts stops ahead
    have inside : (s.first items.length + n * s.stride).toNat < items.length := by omega
    refine ⟨items[(s.first items.length + n * s.stride).toNat], ?_, ?_⟩
    · rw [elementAt?, if_pos front, List.getElem?_eq_getElem inside]
    · rw [getElem?_select, positions, List.getElem?_map, List.getElem?_range counted]
      exact List.getElem?_eq_getElem inside
  · intro n stopped
    have uncounted : ¬n < stepCount (s.first items.length) (s.limit items.length) s.stride :=
      fun counted => stopped ((lt_stepCount_iff n).mp counted)
    rw [getElem?_select, positions, List.getElem?_map,
      List.getElem?_eq_none (by simpa using uncounted)]
    rfl

/-- A walk from the last element back to the first one reverses the sequence. -/
theorem select_backwards (items : List α) :
    (Slice.mk none none (some (-1))).select items = items.reverse := by
  have allowed : (Slice.mk none none (some (-1))).Allowed := by decide
  have selects : Selects items (items.length - 1) (-1) (-1)
      ((Slice.mk none none (some (-1))).select items) := select_selects allowed items
  refine selects.unique ⟨?_, ?_⟩
  · intro n ahead
    unfold Ahead at ahead
    have before : n < items.length := by omega
    have mirrored : ((items.length : Int) - 1 + n * -1).toNat = items.length - 1 - n := by omega
    have inside : items.length - 1 - n < items.length := by omega
    refine ⟨items[items.length - 1 - n], ?_, ?_⟩
    · rw [elementAt?, if_pos (by omega), mirrored, List.getElem?_eq_getElem inside]
    · rw [List.getElem?_reverse before, List.getElem?_eq_getElem inside]
  · intro n stopped
    unfold Ahead at stopped
    exact List.getElem?_eq_none (by rw [List.length_reverse]; omega)

end Selected

theorem ofBounds?_eq (start stop step : Option Int64) :
    Slice.ofBounds? start stop step =
      if step = some 0 then .error .zeroStep else .ok ⟨start, stop, step⟩ := by
  unfold ofBounds? Allowed
  by_cases zero : step = some 0
  · simp [zero]
  · simp [zero]

end Slice

/-- An array or a string is reversed, whatever arguments follow it. -/
theorem Builtin.call_reverse (apply : Apply) {v : Value}
    (sequence : v.kind = .array ∨ v.kind = .string)
    (more : List Value) :
    call apply reverse.name (v :: more) = ofAnswer (Functions.reverse v) := by
  have admitted : ∀ i w, (v :: more)[i]? = some w → reverse.Admits i w := by
    intro i w found
    rw [admits_iff]
    cases i with
    | zero =>
        cases found
        rcases sequence with array | string
        · obtain ⟨items, rfl⟩ := Value.exists_array (List.mem_singleton.mpr array)
          rfl
        · obtain ⟨text, rfl⟩ := Value.exists_string (List.mem_singleton.mpr string)
          rfl
    | succ i => cases i <;> rfl
  have counted : reverse.arity.accepts (v :: more).length = true := by
    simp [arity, Arity.accepts]
  rw [call_name, invoke, check, if_pos counted, checkTypes_zero.mpr admitted]
  rfl

open Slice

/-- A slice with a step of zero is refused, and every other one selects from arrays and strings the
elements at its start and at each further step before its stop; of anything else the answer is null.
In words, no operation leaves its domain.  The slice that walks back from the last element does what
the function that reverses does. -/
theorem slices_select (start stop step : Option Int64) :
    (step = some 0 → Slice.ofBounds? start stop step = .error .zeroStep) ∧
    (step ≠ some 0 → ∃ s : Slice, s = ⟨start, stop, step⟩ ∧
      Slice.ofBounds? start stop step = .ok s ∧
      (∀ items : List Value, ∃ selected, (Value.array items).slice s = .array selected ∧
        Selects items (s.startPlace items.length) (s.stopPlace items.length) s.stride selected) ∧
      (∀ text : String, ∃ selected,
        (Value.string text).slice s = .string (String.ofList selected) ∧
          Selects text.toList (s.startPlace text.toList.length) (s.stopPlace text.toList.length)
            s.stride selected) ∧
      (∀ v : Value, v.kind ≠ .array → v.kind ≠ .string → v.slice s = .null) ∧
      ∀ v : Value, v.size < 2 ^ 63 → v.slice? s = some (v.slice s)) ∧
    ∀ (apply : Builtin.Apply) (v : Value) (more : List Value), v.kind = .array ∨ v.kind = .string →
      Builtin.call apply Builtin.reverse.name (v :: more) =
        .answer (v.slice ⟨none, none, some (-1)⟩) := by
  refine ⟨?_, ?_, ?_⟩
  · intro zero
    rw [ofBounds?_eq, if_pos zero]
  · intro nonzero
    have allowed : (Slice.mk start stop step).Allowed := nonzero
    refine ⟨⟨start, stop, step⟩, rfl, ?_, ?_, ?_, ?_, ?_⟩
    · rw [ofBounds?_eq, if_neg nonzero]
    · intro items
      exact ⟨_, rfl, select_selects allowed items⟩
    · intro text
      exact ⟨_, rfl, select_selects allowed text.toList⟩
    · intro v noArray noString
      cases v with
      | array items => exact absurd rfl noArray
      | string text => exact absurd rfl noString
      | _ => rfl
    · intro v short
      exact Value.slice?_eq allowed short
  · intro apply v more sequence
    rw [Builtin.call_reverse apply sequence]
    rcases sequence with array | string
    · obtain ⟨items, rfl⟩ := Value.exists_array (List.mem_singleton.mpr array)
      rw [Value.slice, select_backwards]
      rfl
    · obtain ⟨text, rfl⟩ := Value.exists_string (List.mem_singleton.mpr string)
      rw [Value.slice, select_backwards]
      rfl

theorem slices_select_backwards :
    Slice.ofBounds? none none (some 0) = .error .zeroStep ∧
      (∃ selected, (Value.array [.int 0, .int 1, .int 2, .int 3]).slice
          ⟨some 9, some (-9223372036854775808), some (-2)⟩ = .array selected ∧
        Selects [.int 0, .int 1, .int 2, .int 3] 3 (-1) (-2) selected ∧
        selected = [.int 3, .int 1]) ∧
      (Value.int 7).slice ⟨some 1, none, some 1⟩ = .null ∧
      (Value.string "abc").slice? ⟨some 1, none, some 9223372036854775807⟩ =
        some (.string "b") ∧
      Builtin.call (Query.eval 0) "reverse" [.string "abc", .null] = .answer (.string "cba") := by
  refine ⟨?_, ?_, ?_, ?_, ?_⟩
  · exact (slices_select none none (some 0)).1 rfl
  · obtain ⟨s, rfl, -, arrays, -⟩ :=
      (slices_select (some 9) (some (-9223372036854775808)) (some (-2))).2.1 (by decide)
    obtain ⟨selected, sliced, selects⟩ := arrays [.int 0, .int 1, .int 2, .int 3]
    have evaluated : (Value.array [.int 0, .int 1, .int 2, .int 3]).slice
        ⟨some 9, some (-9223372036854775808), some (-2)⟩ = .array [.int 3, .int 1] := rfl
    rw [evaluated, Value.array.injEq] at sliced
    subst sliced
    exact ⟨_, evaluated, selects, rfl⟩
  · obtain ⟨s, rfl, -, -, -, others, -⟩ := (slices_select (some 1) none (some 1)).2.1 (by decide)
    exact others (.int 7) nofun nofun
  · obtain ⟨s, rfl, -, -, -, -, words⟩ :=
      (slices_select (some 1) none (some 9223372036854775807)).2.1 (by decide)
    exact words (.string "abc") (by decide)
  · exact (slices_select none none none).2.2 (Query.eval 0) (.string "abc") [.null] (.inr rfl)

end JsonQuery
