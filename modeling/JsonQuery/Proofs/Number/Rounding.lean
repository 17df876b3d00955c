import JsonQuery.Number.Binary64
import Mathlib

/-!
# Rounding integers to binary64 numbers

Rounding keeps the order: a greater integer never becomes a smaller number.  Between two powers of
two the significand grows with the integer, and it never gets past the next power.
-/

set_option autoImplicit false

namespace JsonQuery.Binary64

/-! ## Sign and magnitude -/

section Format

open Float.Model
open Float.Model.UnpackedFloat (unpackExponent unpackMantissa)

/-- The largest exponent belongs to the infinities and the undefined numbers; below the latter a
pattern is valid. -/
theorem valid_of_le {b : BitVec Format.binary64.numBits} (le : b.toNat % 2 ^ 63 ≤ 2047 * 2 ^ 52) :
    Format.binary64.Valid b := by
  refine ⟨fun full filled => ?_⟩
  have exponent : b.toNat / 2 ^ 52 % 2 ^ 11 = 2047 := by
    have same := congrArg BitVec.toNat full
    simp only [unpackExponent, BitVec.toNat_cast, BitVec.extractLsb_toNat,
      Nat.shiftRight_eq_div_pow] at same
    exact same
  have mantissa : b.toNat % 2 ^ 52 ≠ 0 := by
    intro zero
    refine filled (BitVec.eq_of_toNat_eq ?_)
    simp only [unpackMantissa, BitVec.toNat_cast, BitVec.extractLsb_toNat, Nat.shiftRight_zero]
    exact zero
  omega

theorem toBits_ofBits {bits : UInt64} (valid : Format.binary64.Valid bits.toBitVec) :
    (Float.ofBits bits).toBits = bits := by
  have packed := UnpackedFloat.pack_unpack_of_valid valid
  simp only [Float.toBits, Float.ofBits, Float.Model.ofBits, Float.Model.pack, packed]

end Format

theorem twoPow_eq (e : Nat) : twoPow e = 2 ^ e := by
  rw [twoPow, Nat.shiftLeft_eq, Nat.one_mul]

theorem tenPow_eq (e : Nat) : tenPow e = 10 ^ e := by
  induction e with
  | zero => rfl
  | succ e ih => rw [tenPow, ih, Nat.pow_succ, Nat.mul_comm]

theorem tenPow_mono {d e : Nat} (le : d ≤ e) : tenPow d ≤ tenPow e := by
  rw [tenPow_eq, tenPow_eq]
  exact Nat.pow_le_pow_right (by decide) le

variable {negative : Bool} {m : Nat}

variable (negative) in
theorem toNat_toBits_ofMagnitude (le : m ≤ infinity) :
    (ofMagnitude negative m).toBits.toNat = if negative then 2 ^ 63 + m else m := by
  rw [infinity, twoPow_eq] at le
  have range : (if negative then 2 ^ 63 + m else m) < 2 ^ 64 := by
    split <;> omega
  rw [ofMagnitude, twoPow_eq, toBits_ofBits]
  · rw [UInt64.toNat_ofNat', Nat.mod_eq_of_lt range]
  · apply valid_of_le
    have bits : (UInt64.ofNat (if negative then 2 ^ 63 + m else m)).toBitVec.toNat =
        if negative then 2 ^ 63 + m else m := by
      rw [UInt64.toNat_toBitVec, UInt64.toNat_ofNat', Nat.mod_eq_of_lt range]
    rw [bits]
    split <;> omega

theorem magnitude_ofMagnitude (le : m ≤ infinity) : magnitude (ofMagnitude negative m) = m := by
  have bits := toNat_toBits_ofMagnitude negative le
  rw [infinity, twoPow_eq] at le
  rw [magnitude, bits, twoPow_eq]
  split <;> omega

theorem isNegative_ofMagnitude (le : m ≤ infinity) :
    isNegative (ofMagnitude negative m) = negative := by
  have bits := toNat_toBits_ofMagnitude negative le
  rw [infinity, twoPow_eq] at le
  rw [isNegative, bits, twoPow_eq]
  cases negative with
  | false => simp; omega
  | true => simp

theorem isNaN_ofMagnitude (le : m ≤ infinity) : isNaN (ofMagnitude negative m) = false := by
  rw [isNaN, magnitude_ofMagnitude le]
  exact decide_eq_false (Nat.not_lt.mpr le)

theorem rank_ofMagnitude (le : m ≤ infinity) :
    rank (ofMagnitude negative m) = if negative then -(m : Int) else m := by
  rw [rank, isNegative_ofMagnitude le, magnitude_ofMagnitude le]

/-! ## Nearest quotients -/

theorem divHalfEven_bounds (n d : Nat) : n / d ≤ divHalfEven n d ∧ divHalfEven n d ≤ n / d + 1 := by
  simp only [divHalfEven]
  split <;> omega

theorem divHalfEven_mono {n n' d : Nat} (le : n ≤ n') : divHalfEven n d ≤ divHalfEven n' d := by
  have lower := divHalfEven_bounds n d
  have upper := divHalfEven_bounds n' d
  have quotients : n / d ≤ n' / d := Nat.div_le_div_right le
  by_cases same : n / d = n' / d
  · have remainders : n % d ≤ n' % d := by
      have first := Nat.div_add_mod n d
      have second := Nat.div_add_mod n' d
      rw [same] at first
      omega
    simp only [divHalfEven, same]
    split <;> split <;> omega
  · omega

/-! ## Integers -/

/-- The significand of a positive natural number, with fifty-three bits. -/
def significand (n : Nat) : Nat :=
  divHalfEven (n * 2 ^ (52 - n.log2)) (2 ^ (n.log2 - 52))

variable {n n' : Nat}

theorem nearestMagnitude_one (positive : n ≠ 0) :
    nearestMagnitude n 1 = min ((n.log2 + 1022) * 2 ^ 52 + significand n) infinity := by
  have power : powerLe ((n.log2 : Int) - (Nat.log2 1 : Nat)) n 1 = true := by
    have exact : ((n.log2 : Int) - (Nat.log2 1 : Nat)).toNat = n.log2 := by
      rw [show Nat.log2 1 = 0 from rfl]
      omega
    have none : (-((n.log2 : Int) - (Nat.log2 1 : Nat))).toNat = 0 := by
      rw [show Nat.log2 1 = 0 from rfl]
      omega
    rw [powerLe, exact, none, twoPow_eq, twoPow_eq, Nat.one_mul, Nat.pow_zero, Nat.mul_one]
    exact decide_eq_true (Nat.log2_self_le positive)
  have shift : max ((n.log2 : Int) - (Nat.log2 1 : Nat) - 52) (-1074) = (n.log2 : Int) - 52 := by
    rw [show Nat.log2 1 = 0 from rfl]
    omega
  have left : (-((n.log2 : Int) - 52)).toNat = 52 - n.log2 := by omega
  have right : ((n.log2 : Int) - 52).toNat = n.log2 - 52 := by omega
  have exponent : ((n.log2 : Int) - 52 + 1074).toNat = n.log2 + 1022 := by omega
  simp only [nearestMagnitude, if_neg positive, if_pos power, shift, left, right, exponent,
    twoPow_eq, Nat.one_mul, significand]

theorem significand_bounds (positive : n ≠ 0) :
    2 ^ 52 ≤ significand n ∧ significand n ≤ 2 ^ 53 := by
  have rounded := divHalfEven_bounds (n * 2 ^ (52 - n.log2)) (2 ^ (n.log2 - 52))
  have unit : 0 < 2 ^ (n.log2 - 52) := Nat.two_pow_pos _
  have scaled (k : Nat) : 2 ^ (n.log2 + k) * 2 ^ (52 - n.log2) =
      2 ^ (52 + k) * 2 ^ (n.log2 - 52) := by
    rw [← Nat.pow_add, ← Nat.pow_add]
    congr 1
    omega
  have least : 2 ^ 52 ≤ n * 2 ^ (52 - n.log2) / 2 ^ (n.log2 - 52) := by
    rw [Nat.le_div_iff_mul_le unit, ← scaled 0]
    exact Nat.mul_le_mul_right _ (Nat.log2_self_le positive)
  have most : n * 2 ^ (52 - n.log2) / 2 ^ (n.log2 - 52) < 2 ^ 53 := by
    rw [Nat.div_lt_iff_lt_mul unit, ← scaled 1]
    exact Nat.mul_lt_mul_of_pos_right Nat.lt_log2_self (Nat.two_pow_pos _)
  rw [significand]
  omega

theorem nearestMagnitude_mono (le : n ≤ n') : nearestMagnitude n 1 ≤ nearestMagnitude n' 1 := by
  by_cases zero : n = 0
  · have least : nearestMagnitude n 1 = 0 := by rw [nearestMagnitude, if_pos zero]
    omega
  have positive : n' ≠ 0 := by omega
  have lower := significand_bounds zero
  have upper := significand_bounds positive
  have order : n.log2 ≤ n'.log2 :=
    (Nat.le_log2 positive).mpr (Nat.le_trans (Nat.log2_self_le zero) le)
  have inner : (n.log2 + 1022) * 2 ^ 52 + significand n ≤
      (n'.log2 + 1022) * 2 ^ 52 + significand n' := by
    by_cases same : n.log2 = n'.log2
    · have grows : significand n ≤ significand n' := by
        rw [significand, significand, same]
        exact divHalfEven_mono (Nat.mul_le_mul_right _ le)
      omega
    · omega
  rw [nearestMagnitude_one zero, nearestMagnitude_one positive]
  omega

theorem nearestMagnitude_le (n : Nat) : nearestMagnitude n 1 ≤ infinity := by
  by_cases zero : n = 0
  · rw [nearestMagnitude, if_pos zero]
    exact Nat.zero_le _
  · rw [nearestMagnitude_one zero]
    exact Nat.min_le_right _ _

theorem isNaN_ofInt (n : Int) : isNaN (ofInt n) = false :=
  isNaN_ofMagnitude (nearestMagnitude_le _)

theorem rank_ofInt (n : Int) : rank (ofInt n) =
    if n < 0 then -(nearestMagnitude n.natAbs 1 : Int) else nearestMagnitude n.natAbs 1 := by
  rw [ofInt, rank_ofMagnitude (nearestMagnitude_le _)]
  simp only [decide_eq_true_eq]

theorem rank_ofInt_mono {m n : Int} (le : m ≤ n) : rank (ofInt m) ≤ rank (ofInt n) := by
  rw [rank_ofInt, rank_ofInt]
  by_cases negative : n < 0
  · have grows := nearestMagnitude_mono (show n.natAbs ≤ m.natAbs by omega)
    rw [if_pos (by omega), if_pos negative]
    omega
  · rw [if_neg negative]
    by_cases below : m < 0
    · rw [if_pos below]
      omega
    · have grows := nearestMagnitude_mono (show m.natAbs ≤ n.natAbs by omega)
      rw [if_neg below]
      omega

/-! ## Comparing defined numbers -/

theorem compare?_of_defined {x y : Float} (left : isNaN x = false) (right : isNaN y = false) :
    compare? x y = some (compare (rank x) (rank y)) := by
  simp only [compare?, left, right, Bool.or_self, Bool.false_eq_true, if_false]

theorem equals_of_defined {x y : Float} (left : isNaN x = false) (right : isNaN y = false) :
    equals x y = (rank x == rank y) := by
  simp only [equals, left, right, Bool.not_false, Bool.true_and]

end JsonQuery.Binary64
