import JsonQuery.Json.Basic
import JsonQuery.Number.Numeral

/-!
# Numbers in JSON text

A numeral without fraction and exponent is an integer while it fits sixty-four bits.  Any other
numeral is computed in binary64 from at most sixty-four bits of its digits and one power of ten,
so the last bit may differ from the nearest number.
-/

set_option autoImplicit false

namespace JsonQuery.Json

open Numeral

/-- The digits taken into a significand, and how many were taken and left. -/
structure Accumulated where
  significand : Nat
  taken : Nat
  left : Nat

/-- Takes digits while the significand stays below `2 ^ 64`. -/
def accumulate (significand taken : Nat) : List Char → Accumulated
  | [] => ⟨significand, taken, 0⟩
  | d :: ds =>
      if 10 * significand + digit d < twoPow 64 then
        accumulate (10 * significand + digit d) (taken + 1) ds
      else ⟨significand, taken, (d :: ds).length⟩

def tenPower (e : Nat) : Float :=
  Binary64.ofNat (tenPow e)

/-- Scales by a power of ten, at most three hundred and eight places at a time on the way down.
Results beyond the finite numbers are refused. -/
def scale? (f : Float) (e : Int) : Option Float :=
  if Binary64.magnitude f = 0 ∧ 308 < e.natAbs then some f
  else if 308 < e then none
  else if e < -308 then scale? (f / tenPower 308) (e + 308)
  else if 0 ≤ e then
    let scaled := f * tenPower e.toNat
    if Binary64.isFinite scaled then some scaled else none
  else some (f / tenPower (-e).toNat)
termination_by e.natAbs
decreasing_by omega

def withSign (negative : Bool) (f : Float) : Float :=
  if negative then -f else f

/-- The least exponent that is too large to be kept as a word of thirty-two bits. -/
def exponentBound : Nat :=
  twoPow 31

def clampExponent (e : Int) : Int :=
  if e < -(twoPow 31 : Int) then -(twoPow 31 : Int)
  else if e < twoPow 31 then e
  else twoPow 31 - 1

def scaledNumber? (negative : Bool) (significand : Nat) (shift : Int)
    (exponent : Option (Bool × List Char)) : Option Float :=
  match exponent with
  | none => (scale? (Binary64.ofNat significand) shift).map (withSign negative)
  | some (down, ds) =>
      let e := natOfDigits ds
      if exponentBound ≤ e then
        if significand ≠ 0 ∧ !down then none else some (withSign negative (Binary64.ofNat 0))
      else
        let total := clampExponent (if down then shift - e else shift + e)
        (scale? (Binary64.ofNat significand) total).map (withSign negative)

/-- A whole numeral: an integer when it fits, else the nearest number.  Minus zero is a number,
because integers have no such value. -/
def whole (negative : Bool) (significand : Nat) : Json :=
  if negative then
    if significand = 0 ∨ twoPow 63 < significand then .float (-(Binary64.ofNat significand))
    else .int (Int64.ofInt (-(significand : Int)))
  else if significand < twoPow 63 then .int (Int64.ofInt significand)
  else .float (Binary64.ofNat significand)

/-- A whole part has no leading zero, unless it is zero. -/
def isWholePart : List Char → Bool
  | [] => false
  | ['0'] => true
  | d :: ds => decide (d ≠ '0') && (d :: ds).all isDigit

def number? (text : List Char) : Option Json :=
  let (negative, rest) : Bool × List Char :=
    match text with
    | '-' :: rest => (true, rest)
    | rest => (false, rest)
  match split? rest with
  | none => none
  | some parts =>
      if isWholePart parts.whole && parts.fraction.all isDigits then
        let left := accumulate 0 0 parts.whole
        let right := accumulate left.significand 0 (parts.fraction.getD [])
        if parts.fraction.isNone && parts.exponent.isNone && left.left == 0 then
          some (whole negative left.significand)
        else
          let shift : Int := left.left - right.taken
          (scaledNumber? negative right.significand shift parts.exponent).map .float
      else none

end JsonQuery.Json
