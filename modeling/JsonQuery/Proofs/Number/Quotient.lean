import JsonQuery.Proofs.Number.Rounding
import Mathlib

/-!
# Quotients and signs of finite numbers

A finite number stays finite when its sign changes, and when it is divided by a finite number of at
least two.  Rounding a quotient can carry it to the next power of two, and two leaves room for that.
-/

set_option autoImplicit false

namespace JsonQuery.Binary64

open Float.Model Float.Model.UnpackedFloat

/-! ## Bits of finite numbers -/

theorem unpackExponent_toNat (b : BitVec Format.binary64.numBits) :
    (unpackExponent b).toNat = b.toNat / 2 ^ 52 % 2 ^ 11 := by
  simp only [unpackExponent, BitVec.toNat_cast, BitVec.extractLsb_toNat,
    Nat.shiftRight_eq_div_pow]

theorem magnitude_eq (x : Float) : magnitude x = x.toBits.toBitVec.toNat % 2 ^ 63 := by
  rw [magnitude, twoPow_eq, UInt64.toNat_toBitVec]

theorem isFinite_iff_unpackExponent (x : Float) :
    isFinite x = true ↔
      @unpackExponent Format.binary64 x.toBits.toBitVec ≠ -1#_ := by
  have field := unpackExponent_toNat x.toBits.toBitVec
  rw [isFinite, decide_eq_true_eq, magnitude_eq, infinity, twoPow_eq, ne_eq, ← BitVec.toNat_inj,
    field]
  have ones : (-1#11 : BitVec 11).toNat = 2047 := rfl
  rw [ones]
  omega

/-- The unpacked numbers whose exponent the format has room for. -/
def Fits : UnpackedFloat → Prop
  | .zero _ => True
  | .finite _ _ e _ => e ≤ 971
  | _ => False

theorem isFinite_of_fits {u : UnpackedFloat} (fits : Fits u) :
    isFinite (.ofModel (Float.Model.pack u)) = true := by
  rw [isFinite_iff_unpackExponent]
  simp only [Float.toBits, Float.Model.pack]
  cases u with
  | zero s =>
      simp only [UnpackedFloat.pack, packedZero, unpackExponent_packComponents]
      decide
  | finite s m e positive =>
      rw [Fits] at fits
      have room : ¬ 2 ^ Format.binary64.exponentBits ≤ (e + Format.binary64.exponentBias +
          Format.binary64.mantissaBitsWithoutImplicit).toNat + 1 := by
        change ¬ 2048 ≤ (e + 1023 + 52).toNat + 1
        omega
      simp only [UnpackedFloat.pack]
      rw [if_neg room]
      split
      · rw [unpackExponent_packComponents]
        intro full
        have same := congrArg BitVec.toNat full
        rw [BitVec.toNat_ofNat] at same
        change (e + 1023 + 52).toNat % 2048 = 2047 at same
        omega
      · rw [unpackExponent_packComponents]
        decide
  | _ => exact fits.elim

/-- What a finite number of the given magnitude unpacks to: a zero, or a mantissa of at most
fifty-three bits.  From the least normal number on the mantissa is full, and the exponent follows
from the magnitude. -/
def Measures (size : Nat) : UnpackedFloat → Prop
  | .zero _ => size < 2 ^ 52
  | .finite _ m e _ => m < 2 ^ 53 ∧ e ≤ 971 ∧
      (2 ^ 52 ≤ size → 2 ^ 52 ≤ m ∧ e = (size / 2 ^ 52 : Nat) - (1075 : Int))
  | _ => False

theorem measures_unpack {x : Float} (finite : isFinite x = true) :
    Measures (magnitude x) x.toModel.unpack := by
  have notFull := (isFinite_iff_unpackExponent x).mp finite
  have field := unpackExponent_toNat x.toBits.toBitVec
  have size := magnitude_eq x
  have below : magnitude x < 2047 * 2 ^ 52 := by
    rwa [isFinite, decide_eq_true_eq, infinity, twoPow_eq] at finite
  change Measures (magnitude x) (UnpackedFloat.unpack Format.binary64 x.toBits.toBitVec)
  generalize (x.toBits.toBitVec : BitVec Format.binary64.numBits) = b at notFull field size ⊢
  have mantissa : (@unpackMantissa Format.binary64 b).toNat < 2 ^ 52 :=
    BitVec.isLt _
  unfold UnpackedFloat.unpack
  rw [if_neg notFull]
  split
  · rename_i empty
    have exponent : (@unpackExponent Format.binary64 b).toNat = 0 := by rw [empty]; rfl
    split
    · simp only [Measures]
      omega
    · simp only [Measures, Format.exponentBias]
      omega
  · simp only [Measures, Format.exponentBias]
    have full : (1#1 ++ @unpackMantissa Format.binary64 b).toNat =
        2 ^ 52 + (@unpackMantissa Format.binary64 b).toNat := by
      have joined := Nat.two_pow_add_eq_or_of_lt mantissa 1
      rw [BitVec.toNat_append, BitVec.toNat_ofNat, Nat.shiftLeft_eq]
      exact joined.symm
    omega

/-! ## Rounding -/

theorem mantissa_shiftRight (em : ExtendedMantissa) (k : Nat) :
    (em >>> k).mantissa = em.mantissa / 2 ^ k := by
  induction k with
  | zero => exact (Nat.div_one _).symm
  | succ k ih =>
      change (em >>> k).mantissa / 2 = _
      rw [ih, Nat.div_div_eq_div_mul, Nat.pow_succ]

theorem roundedMantissa_le (em : ExtendedMantissa) : em.roundedMantissa ≤ em.mantissa + 1 := by
  obtain ⟨m, round, sticky⟩ := em
  cases round <;> cases sticky <;>
    simp only [ExtendedMantissa.roundedMantissa, ExtendedMantissa.accuracy,
      Accuracy.roundToNearestEven] <;> omega

theorem mantissa_ofMantissaAndAccuracy (m : Nat) (acc : Accuracy) :
    (ExtendedMantissa.ofMantissaAndAccuracy m acc).mantissa = m := by
  cases acc with
  | exact => rfl
  | inexact place => cases place <;> rfl

theorem targetExponent_totalExponent (m : Nat) (e : Int) :
    Format.binary64.targetExponent (totalExponent m e) = max (m.log2 + e - 52) (-1074) := by
  change max ((m.log2 : Int) + 1 + e - 53) (-1074) = _
  omega

/-- A shift to the target exponent cuts the mantissa to fifty-three bits. -/
theorem shiftToTargetExponent_bounds (m : Nat) (e : Int) (acc : Accuracy) :
    (shiftToTargetExponent Format.binary64 m e acc).1.mantissa < 2 ^ 53 ∧
      (shiftToTargetExponent Format.binary64 m e acc).2 =
        max e (max (m.log2 + e - 52) (-1074)) := by
  simp only [shiftToTargetExponent, shiftToExponent, targetExponent_totalExponent,
    mantissa_shiftRight, mantissa_ofMantissaAndAccuracy]
  refine ⟨?_, by omega⟩
  rw [Nat.div_lt_iff_lt_mul (Nat.two_pow_pos _), ← Nat.pow_add]
  refine Nat.lt_of_lt_of_le Nat.lt_log2_self (Nat.pow_le_pow_right (by decide) ?_)
  omega

/-- Below a half of the first number that is too large, rounding does not get there. -/
theorem fits_roundWithAccuracy (s : Sign) {m : Nat} {e : Int} (acc : Accuracy)
    (total : m.log2 + e ≤ 1022) (small : e ≤ 970) :
    Fits (roundWithAccuracy Format.binary64 s m e acc) := by
  have first := shiftToTargetExponent_bounds m e acc
  have rounded := roundedMantissa_le (shiftToTargetExponent Format.binary64 m e acc).1
  have second := shiftToTargetExponent_bounds
    (shiftToTargetExponent Format.binary64 m e acc).1.roundedMantissa
    (shiftToTargetExponent Format.binary64 m e acc).2 .exact
  simp only [roundWithAccuracy]
  split
  · exact trivial
  · rename_i filled
    -- the mantissa may have been rounded up to the next power of two
    have carried : (shiftToTargetExponent Format.binary64 m e acc).1.roundedMantissa.log2 < 54 := by
      by_cases zero : (shiftToTargetExponent Format.binary64 m e acc).1.roundedMantissa = 0
      · rw [zero]
        decide
      · rw [Nat.log2_lt zero]
        omega
    rw [Fits]
    omega

/-! ## Quotients -/

theorem log2_quotient_le {m n k : Nat} (filled : m * 2 ^ k / n ≠ 0) :
    (m * 2 ^ k / n).log2 + n.log2 ≤ m.log2 + k := by
  have divisor : n ≠ 0 := by
    rintro rfl
    exact filled (Nat.div_zero _)
  have below : 2 ^ ((m * 2 ^ k / n).log2 + n.log2) < 2 ^ (m.log2 + 1 + k) :=
    calc 2 ^ ((m * 2 ^ k / n).log2 + n.log2)
        = 2 ^ (m * 2 ^ k / n).log2 * 2 ^ n.log2 := Nat.pow_add _ _ _
      _ ≤ m * 2 ^ k / n * n :=
          Nat.mul_le_mul (Nat.log2_self_le filled) (Nat.log2_self_le divisor)
      _ ≤ m * 2 ^ k := Nat.div_mul_le_self _ _
      _ < 2 ^ (m.log2 + 1) * 2 ^ k :=
          Nat.mul_lt_mul_of_pos_right Nat.lt_log2_self (Nat.two_pow_pos k)
      _ = 2 ^ (m.log2 + 1 + k) := (Nat.pow_add _ _ _).symm
  have := (Nat.pow_lt_pow_iff_right (by decide)).mp below
  omega

variable {x y : Float}

theorem isFinite_neg (finite : isFinite x = true) : isFinite (-x) = true := by
  have measures := measures_unpack finite
  change isFinite (.ofModel (Float.Model.pack x.toModel.unpack.neg)) = true
  refine isFinite_of_fits ?_
  cases opened : x.toModel.unpack with
  | zero s => exact trivial
  | finite s m e positive =>
      rw [opened, Measures] at measures
      exact measures.2.1
  | _ =>
      rw [opened] at measures
      exact measures.elim

/-- Dividing by a number of at least two, which has magnitude `1024 * 2 ^ 52`. -/
theorem isFinite_div (finite : isFinite x = true) (divisor : isFinite y = true)
    (large : 1024 * 2 ^ 52 ≤ magnitude y) : isFinite (x / y) = true := by
  have left := measures_unpack finite
  have right := measures_unpack divisor
  change isFinite (.ofModel (Float.Model.pack
    (UnpackedFloat.div Format.binary64 x.toModel.unpack y.toModel.unpack))) = true
  refine isFinite_of_fits ?_
  generalize x.toModel.unpack = u at left
  generalize y.toModel.unpack = w at right
  cases w with
  | zero s =>
      rw [Measures] at right
      omega
  | finite s n f divisorPositive =>
      obtain ⟨-, -, place⟩ := right
      obtain ⟨filled, place⟩ := place (by omega)
      have logDivisor : 52 ≤ n.log2 := (Nat.le_log2 (by omega)).mpr filled
      cases u with
      | zero s' => exact trivial
      | finite s' m e positive =>
          obtain ⟨short, small, -⟩ := left
          have log : m.log2 < 53 := (Nat.log2_lt (by omega)).mpr short
          have target : Format.binary64.targetExponent (totalExponent m e - totalExponent n f) =
              max (m.log2 + e - (n.log2 + f) - 53) (-1074) := by
            change max ((m.log2 : Int) + 1 + e - (n.log2 + 1 + f) - 53) (-1074) = _
            omega
          simp only [UnpackedFloat.div, divCore, Nat.shiftLeft_eq, target]
          generalize exponent : min (e - f) (max (m.log2 + e - (n.log2 + f) - 53) (-1074)) = t
          refine fits_roundWithAccuracy _ _ ?_ (by omega)
          by_cases zero : m * 2 ^ (e - f - t).toNat / n = 0
          · rw [zero, show Nat.log2 0 = 0 from rfl]
            omega
          · have quotient := log2_quotient_le zero
            omega
      | _ => exact left.elim
  | _ => exact right.elim

end JsonQuery.Binary64
