import JsonQuery.Proofs.Builtin.Contract
import Mathlib

/-!
# Totals of integers

Integers are decimals without a fraction, whose sums stay exact while they fit ninety-six bits.  An
array of fewer than `2 ^ 33` integers never gets that far, so its total is exact whatever its partial
totals are, and the order of its items does not matter.
-/

set_option autoImplicit false

namespace JsonQuery

/-! ## Sums of whole decimals -/

theorem Binary64.divHalfEven_one (n : Nat) : divHalfEven n 1 = n := by
  simp [divHalfEven, Nat.mod_one]

namespace Decimal

variable {m n : Int}

@[simp] theorem scale_ofInt (n : Int) : (ofInt n).scale = 0 :=
  rfl

@[simp] theorem mantissa_ofInt (n : Int) : (ofInt n).mantissa = n.natAbs :=
  rfl

@[simp] theorem signed_ofInt (n : Int) : (ofInt n).signed = n := by
  simp only [signed, ofInt, decide_eq_true_eq]
  split <;> omega

theorem ofParts_whole (n : Int) : ofParts (decide (n < 0)) n.natAbs 0 = ofInt n := by
  by_cases zero : n = 0
  · subst zero
    rfl
  · have positive : (n.natAbs != 0) = true := by simpa using zero
    rw [ofParts, positive, Bool.and_true, ofInt]

theorem fit?_whole (fits : n.natAbs < mantissaBound) :
    fit? (decide (n < 0)) n.natAbs 0 = some (ofInt n) := by
  have kept : Binary64.divHalfEven n.natAbs (tenPow 0) = n.natAbs := Binary64.divHalfEven_one _
  have only : List.range (0 + 1) = [0] := rfl
  rw [fit?, only, List.findSome?_cons, kept, if_pos fits, Nat.sub_zero, ofParts_whole]

theorem add?_ofInt (fits : (m + n).natAbs < mantissaBound) :
    (ofInt m).add? (ofInt n) = some (ofInt (m + n)) := by
  -- beside a zero the other operand is taken as it stands, which is the exact sum as well
  by_cases left : m.natAbs = 0
  · rw [add?, mantissa_ofInt, if_pos left, Int.natAbs_eq_zero.mp left, Int.zero_add]
  by_cases right : n.natAbs = 0
  · rw [add?, mantissa_ofInt, mantissa_ofInt, if_neg left, if_pos right,
      Int.natAbs_eq_zero.mp right, Int.add_zero]
  have unit : ((tenPow 0 : Nat) : Int) = 1 := rfl
  rw [add?, mantissa_ofInt, mantissa_ofInt, if_neg left, if_neg right]
  simp only [scale_ofInt, signed_ofInt, Nat.max_self, Nat.sub_self, unit, Int.mul_one]
  exact fit?_whole fits

theorem toInt?_ofInt (n : Int) : (ofInt n).toInt? = some n := by
  rw [toInt?, scale_ofInt, if_pos rfl, signed_ofInt]

end Decimal

/-! ## Words -/

namespace Numeral

theorem toInt64?_toInt (t : Int64) : toInt64? t.toInt = some t := by
  rw [toInt64?, Int64.ofInt_toInt, if_pos rfl]

theorem toInt64?_eq_none {n : Int} (outside : ¬(-2 ^ 63 ≤ n ∧ n < 2 ^ 63)) :
    toInt64? n = none := by
  rw [toInt64?, if_neg]
  intro same
  have lower := Int64.le_toInt (Int64.ofInt n)
  have upper := Int64.toInt_lt (Int64.ofInt n)
  omega

end Numeral

/-! ## Totals -/

namespace Functions

theorem all_isNumber_ints (ns : List Int64) : (ns.map Value.int).all Value.isNumber = true := by
  rw [List.all_map]
  exact List.all_eq_true.mpr fun _ _ => rfl

theorem all_isInteger_ints (ns : List Int64) : (ns.map Value.int).all isInteger = true := by
  rw [List.all_map]
  exact List.all_eq_true.mpr fun _ _ => rfl

theorem decimalTotal?_ints (ns : List Int64) {total : Int}
    (room : total.natAbs + ns.length * 2 ^ 63 < Decimal.mantissaBound) :
    decimalTotal? (.ofInt total) (ns.map .int) =
      some (.ofInt (total + (ns.map Int64.toInt).sum)) := by
  -- every word takes at most `2 ^ 63` of the room that is left
  induction ns generalizing total with
  | nil => rw [List.map_nil, List.map_nil, List.sum_nil, Int.add_zero, decimalTotal?]
  | cons n rest ih =>
      have lower := n.le_toInt
      have upper := n.toInt_lt
      rw [List.length_cons] at room
      have next : (total + n.toInt).natAbs + rest.length * 2 ^ 63 < Decimal.mantissaBound := by
        omega
      have fits : (total + n.toInt).natAbs < Decimal.mantissaBound := by omega
      rw [List.map_cons, decimalTotal?, Decimal.add?_ofInt fits]
      simp only [ih next, List.map_cons, List.sum_cons, Int.add_assoc]

theorem sum_ints {ns : List Int64} (short : ns.length < 2 ^ 33) :
    sum (ns.map .int) = ((Numeral.toInt64? (ns.map Int64.toInt).sum).map Value.int).getD
      (.float (floatTotal (ns.map .int))) := by
  have bound : Decimal.mantissaBound = 2 ^ 96 := rfl
  have room : (0 : Int).natAbs + ns.length * 2 ^ 63 < Decimal.mantissaBound := by omega
  have total : decimalTotal? .zero (ns.map .int) = some (.ofInt (0 + (ns.map Int64.toInt).sum)) :=
    decimalTotal?_ints ns room
  rw [sum, exactSum?, total]
  simp only [all_isInteger_ints, if_true, Decimal.toInt?_ofInt, Option.bind_some, Int.zero_add]
  cases Numeral.toInt64? (ns.map Int64.toInt).sum <;> rfl

end Functions

theorem Builtin.call_sum (apply : Apply) (ns : List Int64) :
    call apply sum.name [.array (ns.map .int)] = .answer (Functions.sum (ns.map .int)) := by
  have accepted : ((sum.accepted 0).any fun t => t.accepts (.array (ns.map .int))) = true :=
    (Bool.or_false _).trans (Functions.all_isNumber_ints ns)
  have admitted : sum.checkTypes 0 [.array (ns.map .int)] = .ok () := by
    rw [checkTypes, if_pos accepted, checkTypes]
  have counted : sum.arity.accepts [Value.array (ns.map .int)].length = true := rfl
  rw [call_name, invoke, check, if_pos counted, admitted]
  rfl

/-- The total of integers is an integer wherever it fits a word, whatever the partial totals are, and
it is the same in every order.  A total beyond all words is a binary64 number. -/
theorem totals_exact (apply : Builtin.Apply) (ns : List Int64) (short : ns.length < 2 ^ 33) :
    (-2 ^ 63 ≤ (ns.map Int64.toInt).sum → (ns.map Int64.toInt).sum < 2 ^ 63 →
      ∃ t : Int64, t.toInt = (ns.map Int64.toInt).sum ∧
        ∀ ms : List Int64, ms.Perm ns →
          Builtin.call apply Builtin.sum.name [.array (ms.map .int)] = .answer (.int t)) ∧
      (¬(-2 ^ 63 ≤ (ns.map Int64.toInt).sum ∧ (ns.map Int64.toInt).sum < 2 ^ 63) →
        ∃ x, Builtin.call apply Builtin.sum.name [.array (ns.map .int)] = .answer (.float x)) := by
  constructor
  · intro lower upper
    have fits := Int64.toInt_ofInt_of_le lower upper
    refine ⟨Int64.ofInt (ns.map Int64.toInt).sum, fits, fun ms perm => ?_⟩
    have permuted : (ms.map Int64.toInt).sum = (ns.map Int64.toInt).sum :=
      (perm.map Int64.toInt).sum_eq
    have word := Numeral.toInt64?_toInt (Int64.ofInt (ns.map Int64.toInt).sum)
    rw [fits] at word
    rw [Builtin.call_sum, Functions.sum_ints (perm.length_eq ▸ short), permuted, word]
    rfl
  · intro outside
    have none := Numeral.toInt64?_eq_none outside
    rw [Builtin.call_sum, Functions.sum_ints short, none]
    exact ⟨_, rfl⟩

/-- The partial totals leave the words on both sides. -/
theorem totals_exact_cancelling :
    Builtin.call (Query.eval 0) "sum"
        [.array [.int Int64.maxValue, .int 5, .int Int64.minValue, .int Int64.minValue, .int 0,
          .int Int64.maxValue]] = .answer (.int 3) ∧
      Builtin.call (Query.eval 0) "sum"
        [.array [.int Int64.minValue, .int Int64.minValue, .int 5, .int Int64.maxValue,
          .int Int64.maxValue, .int 0]] = .answer (.int 3) ∧
      ∃ x, Builtin.call (Query.eval 0) "sum" [.array [.int Int64.minValue, .int (-1)]] =
        .answer (.float x) := by
  obtain ⟨t, same, sums⟩ := (totals_exact (Query.eval 0)
    [Int64.maxValue, 5, Int64.minValue, Int64.minValue, 0, Int64.maxValue] (by decide)).1
      (by decide) (by decide)
  have three : t = 3 := Int64.toInt_inj.mp (same.trans (by decide))
  subst three
  exact ⟨sums _ (.refl _), sums
    [Int64.minValue, Int64.minValue, 5, Int64.maxValue, Int64.maxValue, 0] (by decide),
    (totals_exact (Query.eval 0) [Int64.minValue, -1] (by decide)).2 (by decide)⟩

end JsonQuery
