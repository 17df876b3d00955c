import JsonQuery.Number.Numeral
import JsonQuery.Proofs.Number.Shortest

/-!
# What a written number tells

The text of a number is split into the parts that it was put together from.  Those parts have a
value, which rounds to the number, so two finite numbers with one text are the same number.
-/

set_option autoImplicit false

namespace JsonQuery

theorem Binary64.eq_of_magnitude {x y : Float}
    (signs : Binary64.isNegative x = Binary64.isNegative y)
    (magnitudes : Binary64.magnitude x = Binary64.magnitude y) : x = y := by
  have bits : x.toBits = y.toBits := by
    apply UInt64.toNat_inj.mp
    have small := x.toBits.toNat_lt
    have small' := y.toBits.toNat_lt
    rw [Binary64.isNegative, Binary64.isNegative, decide_eq_decide, Binary64.twoPow_eq] at signs
    rw [Binary64.magnitude, Binary64.magnitude, Binary64.twoPow_eq] at magnitudes
    omega
  rw [← Float.ofBits_toBits x, ← Float.ofBits_toBits y, bits]

namespace Numeral

/-! ## Digits -/

theorem natOfDigits_eq (ds : List Char) : natOfDigits ds = Nat.ofDigitChars 10 ds 0 :=
  rfl

theorem natOfDigits_append (ds es : List Char) :
    natOfDigits (ds ++ es) = natOfDigits ds * 10 ^ es.length + natOfDigits es := by
  rw [natOfDigits_eq, Nat.ofDigitChars_append, Nat.ofDigitChars_eq_ofDigitChars_zero,
    ← natOfDigits_eq, ← natOfDigits_eq, Nat.mul_comm]

theorem natOfDigits_zeros (n : Nat) : natOfDigits (List.replicate n '0') = 0 := by
  rw [natOfDigits_eq, Nat.ofDigitChars_replicate_zero, Nat.mul_zero]

theorem natOfDigits_zeros_append (n : Nat) (ds : List Char) :
    natOfDigits (List.replicate n '0' ++ ds) = natOfDigits ds := by
  rw [natOfDigits_append, natOfDigits_zeros, Nat.zero_mul, Nat.zero_add]

theorem natOfDigits_append_zeros (ds : List Char) (n : Nat) :
    natOfDigits (ds ++ List.replicate n '0') = natOfDigits ds * 10 ^ n := by
  rw [natOfDigits_append, natOfDigits_zeros, List.length_replicate, Nat.add_zero]

theorem all_isDigit_zeros (n : Nat) : (List.replicate n '0').all isDigit = true := by
  rw [List.all_replicate]
  exact ite_eq_left_iff.mpr fun _ => by decide

theorem natOfDigits_digitChars (n : Nat) : natOfDigits (Shortest.digitChars n) = n :=
  Nat.ofDigitChars_ten_toDigits

theorem all_isDigit_digitChars (n : Nat) : (Shortest.digitChars n).all isDigit = true :=
  List.all_eq_true.mpr fun _ => Nat.isDigit_of_mem_toDigits (by decide) (by decide)

theorem isDigits_iff {ds : List Char} :
    isDigits ds = true ↔ ds ≠ [] ∧ ds.all isDigit = true := by
  rw [isDigits, Bool.and_eq_true, Bool.not_eq_true', List.isEmpty_eq_false_iff]

theorem isDigits_digitChars (n : Nat) : isDigits (Shortest.digitChars n) = true :=
  isDigits_iff.mpr ⟨Nat.toDigits_ne_nil, all_isDigit_digitChars n⟩

/-- Digits are cut off before a character that is none. -/
theorem span_digits {ds tail : List Char} (digits : ds.all isDigit = true)
    (stops : ∀ c ∈ tail.head?, isDigit c = false) :
    (ds ++ tail).takeWhile isDigit = ds ∧ (ds ++ tail).dropWhile isDigit = tail := by
  rw [List.all_eq_true] at digits
  rw [List.takeWhile_append_of_pos digits, List.dropWhile_append_of_pos digits]
  cases tail with
  | nil => exact ⟨List.append_nil ds, rfl⟩
  | cons c rest =>
      have other : ¬isDigit c = true := Bool.eq_false_iff.mp (stops c rfl)
      rw [List.takeWhile_cons_of_neg other, List.dropWhile_cons_of_neg other]
      exact ⟨List.append_nil ds, rfl⟩

/-! ## Parts of numerals -/

namespace Parts

/-- The parts consist of digits, with at least one of them before the point and in the exponent. -/
structure IsNumeral (parts : Parts) : Prop where
  whole : isDigits parts.whole = true
  fraction : ∀ ds ∈ parts.fraction, ds.all isDigit = true
  exponent : ∀ e ∈ parts.exponent, isDigits e.2 = true

/-- There is neither a point nor an exponent. -/
def isWhole (parts : Parts) : Bool :=
  parts.fraction.isNone && parts.exponent.isNone

def fractionText : Option (List Char) → List Char
  | none => []
  | some ds => '.' :: ds

def exponentText : Option (Bool × List Char) → List Char
  | none => []
  | some (down, ds) => 'e' :: (if down then '-' else '+') :: ds

/-- The numeral with the given parts. -/
def text (parts : Parts) : List Char :=
  parts.whole ++ (fractionText parts.fraction ++ exponentText parts.exponent)

def exponentValue : Option (Bool × List Char) → Int
  | none => 0
  | some (true, ds) => -natOfDigits ds
  | some (false, ds) => natOfDigits ds

/-- The value of a numeral. -/
def value (parts : Parts) : ℚ :=
  natOfDigits (parts.whole ++ parts.fraction.getD []) *
    10 ^ (exponentValue parts.exponent - (parts.fraction.getD []).length)

variable {parts parts' : Parts}

theorem exponentText_stops (exponent : Option (Bool × List Char)) :
    ∀ c ∈ (exponentText exponent).head?, isDigit c = false := by
  cases exponent with
  | none => nofun
  | some e => rintro _ ⟨⟩; decide

theorem fractionText_stops (fraction : Option (List Char)) (exponent : Option (Bool × List Char)) :
    ∀ c ∈ (fractionText fraction ++ exponentText exponent).head?, isDigit c = false := by
  cases fraction with
  | none => exact exponentText_stops exponent
  | some ds => rintro _ ⟨⟩; decide

/-- A numeral is split into the parts that it was put together from. -/
theorem split?_text (numeral : parts.IsNumeral) : split? parts.text = some parts := by
  obtain ⟨whole, fraction, exponent⟩ := parts
  obtain ⟨wholeDigits, fractionDigits, exponentDigits⟩ := numeral
  obtain ⟨taken, left⟩ := span_digits (isDigits_iff.mp wholeDigits).2
    (fractionText_stops fraction exponent)
  have digits : ∀ down ds, exponent = some (down, ds) → isDigits ds = true :=
    fun down ds same => exponentDigits (down, ds) same
  simp only [split?, text, taken, left]
  cases fraction with
  | none =>
      rcases exponent with _ | ⟨_ | _, ds⟩
      · rfl
      · simp [fractionText, exponentText, splitSign, digits false ds rfl]
      · simp [fractionText, exponentText, splitSign, digits true ds rfl]
  | some fs =>
      obtain ⟨taken, left⟩ := span_digits (fractionDigits fs rfl) (exponentText_stops exponent)
      simp only [fractionText, List.cons_append, taken, left]
      rcases exponent with _ | ⟨_ | _, ds⟩
      · rfl
      · simp [exponentText, splitSign, digits false ds rfl]
      · simp [exponentText, splitSign, digits true ds rfl]

theorem text_head (numeral : parts.IsNumeral) :
    ∃ c rest, parts.text = c :: rest ∧ isDigit c = true := by
  obtain ⟨nonempty, digits⟩ := isDigits_iff.mp numeral.whole
  obtain ⟨c, rest, same⟩ := List.exists_cons_of_ne_nil nonempty
  rw [same, List.all_cons, Bool.and_eq_true] at digits
  exact ⟨c, _, by rw [text, same, List.cons_append], digits.1⟩

/-- The numeral behind a minus, or without a sign. -/
def signed (negative : Bool) (parts : Parts) : List Char :=
  if negative then '-' :: parts.text else parts.text

/-- Sign and parts can be told from the text. -/
theorem signed_inj {negative negative' : Bool} (numeral : parts.IsNumeral)
    (numeral' : parts'.IsNumeral) (same : signed negative parts = signed negative' parts') :
    negative = negative' ∧ parts = parts' := by
  have unsigned {parts : Parts} (numeral : parts.IsNumeral) (rest : List Char) :
      parts.text ≠ '-' :: rest := by
    obtain ⟨c, behind, spelled, digit⟩ := text_head numeral
    intro minus
    rw [spelled] at minus
    obtain ⟨rfl, -⟩ := List.cons.inj minus
    exact absurd digit (by decide)
  have texts : negative = negative' ∧ parts.text = parts'.text := by
    cases negative <;> cases negative'
    · exact ⟨rfl, same⟩
    · exact absurd same (unsigned numeral _)
    · exact absurd same.symm (unsigned numeral' _)
    · exact ⟨rfl, (List.cons.inj same).2⟩
  have read := split?_text numeral
  rw [texts.2, split?_text numeral'] at read
  exact ⟨texts.1, (Option.some.inj read).symm⟩

end Parts

end Numeral

namespace Shortest

open Numeral Binary64

/-- The text is a numeral with a point or an exponent, and has the value of the digits `ds` times
`10 ^ p`. -/
def Spells (text ds : List Char) (p : Int) : Prop :=
  ∃ parts : Parts, parts.IsNumeral ∧ parts.isWhole = false ∧ text = parts.text ∧
    parts.value = natOfDigits ds * 10 ^ p

section Layout

variable {ds : List Char} {p : Int}

theorem spells_point (whole : List Char) {fraction : List Char} (k : Nat)
    (wholeDigits : isDigits whole = true) (fractionDigits : fraction.all isDigit = true)
    (value : natOfDigits (whole ++ fraction) = natOfDigits ds * 10 ^ k)
    (place : p = k - fraction.length) : Spells (whole ++ '.' :: fraction) ds p := by
  refine ⟨⟨whole, some fraction, none⟩, ⟨wholeDigits, ?_, nofun⟩, rfl, ?_, ?_⟩
  · rintro _ ⟨⟩
    exact fractionDigits
  · rw [Parts.text, Parts.fractionText, Parts.exponentText, List.append_nil]
  · rw [Parts.value, Option.getD_some, value, Parts.exponentValue, place, Nat.cast_mul,
      Nat.cast_pow, Nat.cast_ofNat, mul_assoc, ← zpow_natCast, ← zpow_add₀ (by norm_num)]
    congr 2
    omega

theorem spells_exponent {d : Char} (fraction : Option (List Char)) {e : Int}
    (first : isDigit d = true) (rest : ∀ ds ∈ fraction, ds.all isDigit = true)
    (place : p = e - (fraction.getD []).length) :
    Spells (d :: (Parts.fractionText fraction ++ exponentText e)) (d :: fraction.getD []) p := by
  have written : exponentText e =
      Parts.exponentText (some (decide (e < 0), digitChars e.natAbs)) := by
    simp only [exponentText, Parts.exponentText, decide_eq_true_eq]
  have value : Parts.exponentValue (some (decide (e < 0), digitChars e.natAbs)) = e := by
    by_cases negative : e < 0
    · rw [decide_eq_true negative, Parts.exponentValue, natOfDigits_digitChars]
      omega
    · rw [decide_eq_false negative, Parts.exponentValue, natOfDigits_digitChars]
      omega
  refine ⟨⟨[d], fraction, some (decide (e < 0), digitChars e.natAbs)⟩, ⟨?_, rest, ?_⟩, ?_, ?_, ?_⟩
  · refine isDigits_iff.mpr ⟨List.cons_ne_nil d [], ?_⟩
    rw [List.all_cons, first, List.all_nil, Bool.and_self]
  · rintro _ ⟨⟩
    exact isDigits_digitChars _
  · exact Bool.and_false _
  · rw [Parts.text, written]
    rfl
  · rw [Parts.value, value, place]
    rfl

end Layout

variable (style : Style) (decimal : Decimal)

/-- What is written for a decimal is a numeral with a point or an exponent, and has its value. -/
theorem Decimal.spells_write :
    Spells (decimal.write style) (digitChars decimal.digits) decimal.exponent := by
  have digits := isDigits_digitChars decimal.digits
  obtain ⟨nonempty, all⟩ := isDigits_iff.mp digits
  simp only [Decimal.write]
  generalize digitChars decimal.digits = ds at digits nonempty all ⊢
  generalize decimal.exponent = p
  split_ifs with positional small short
  · -- zeros stand between the point and the digits
    refine spells_point ['0'] 0 rfl ?_ ?_ ?_
    · rw [List.all_append, all_isDigit_zeros, all, Bool.and_self]
    · rw [pow_zero, Nat.mul_one, natOfDigits_append, natOfDigits_zeros_append]
      exact (congrArg (· + _) (Nat.zero_mul _)).trans (Nat.zero_add _)
    · rw [List.length_append, List.length_replicate]
      omega
  · -- zeros stand between the digits and the point
    generalize count : (p + ds.length - 1).toNat + 1 - ds.length = n
    refine spells_point (ds ++ List.replicate n '0') (n + 1) ?_ rfl ?_ ?_
    · exact isDigits_iff.mpr ⟨List.append_ne_nil_of_left_ne_nil nonempty _,
        by rw [List.all_append, all, all_isDigit_zeros, Bool.and_self]⟩
    · rw [List.append_assoc, ← List.replicate_succ', natOfDigits_append_zeros]
    · rw [List.length_singleton]
      omega
  · -- the point stands between digits
    rw [List.all_eq_true] at all
    refine spells_point (ds.take ((p + ds.length - 1).toNat + 1)) 0 ?_ ?_ ?_ ?_
    · refine isDigits_iff.mpr ⟨?_, List.all_eq_true.mpr fun c found => ?_⟩
      · rwa [ne_eq, List.take_eq_nil_iff, not_or, and_iff_right (Nat.succ_ne_zero _)]
      · exact all c (List.mem_of_mem_take found)
    · exact List.all_eq_true.mpr fun c found => all c (List.mem_of_mem_drop found)
    · rw [List.take_append_drop, pow_zero, Nat.mul_one]
    · rw [List.length_drop]
      omega
  · cases ds with
    | nil => exact absurd rfl nonempty
    | cons d rest =>
        rw [List.all_cons, Bool.and_eq_true] at all
        cases rest with
        | nil =>
            refine spells_exponent none all.1 nofun ?_
            rw [Option.getD_none, List.length_singleton, List.length_nil]
            omega
        | cons d' rest =>
            refine spells_exponent (some (d' :: rest)) all.1 ?_ ?_
            · rintro _ ⟨⟩
              exact all.2
            · rw [Option.getD_some, List.length_cons, List.length_cons]
              omega

/-- What is written for a finite number has parts that tell its sign, and whose value rounds to
it. -/
theorem write_parts {x : Float} (finite : isFinite x = true) :
    ∃ parts : Parts, parts.IsNumeral ∧ parts.isWhole = false ∧
      write style x = parts.signed (isNegative x) ∧
      Rounds (magnitude x) (2 * unitsPerOne * parts.value) := by
  rw [isFinite, decide_eq_true_eq] at finite
  by_cases zero : magnitude x = 0
  · refine ⟨⟨['0'], some ['0'], none⟩, ⟨rfl, ?_, nofun⟩, rfl, ?_, ?_⟩
    · rintro _ ⟨⟩
      rfl
    · simp only [write, if_pos zero]
      rfl
    · have value : Parts.value ⟨['0'], some ['0'], none⟩ = 0 := by
        rw [Parts.value, show natOfDigits (['0'] ++ (some ['0']).getD []) = 0 from rfl,
          Nat.cast_zero, zero_mul]
      rw [zero, value, mul_zero]
      exact rounds_zero
  · obtain ⟨parts, numeral, notWhole, text, value⟩ :=
      (ofMagnitude (magnitude x)).spells_write style
    refine ⟨parts, numeral, notWhole, ?_, ?_⟩
    · simp only [write, if_neg zero, text, Parts.signed]
    · rw [value, natOfDigits_digitChars]
      exact Decimal.hits_iff.mp (ofMagnitude_hits (Nat.pos_of_ne_zero zero) finite)

/-- Two finite numbers with one text are the same number. -/
theorem write_injective {x y : Float} (finite : isFinite x = true) (finite' : isFinite y = true)
    (same : write style x = write style y) : x = y := by
  obtain ⟨parts, numeral, -, text, rounds⟩ := write_parts style finite
  obtain ⟨parts', numeral', -, text', rounds'⟩ := write_parts style finite'
  rw [text, text'] at same
  obtain ⟨signs, rfl⟩ := Parts.signed_inj numeral numeral' same
  exact eq_of_magnitude signs (rounds.unique rounds')

end Shortest

end JsonQuery
