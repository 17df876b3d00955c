import JsonQuery.Number.Binary64

/-!
# Reading numerals

Two kinds of numerals in ASCII digits: signed integers of sixty-four bits, and decimal numerals
with an optional fraction and exponent, read as the nearest binary64 number.
-/

set_option autoImplicit false

namespace JsonQuery.Numeral

def isDigit (c : Char) : Bool :=
  decide ('0' ≤ c) && decide (c ≤ '9')

def digit (c : Char) : Nat :=
  c.toNat - '0'.toNat

def natOfDigits (ds : List Char) : Nat :=
  ds.foldl (fun n c => 10 * n + digit c) 0

def isDigits (ds : List Char) : Bool :=
  !ds.isEmpty && ds.all isDigit

/-- Splits off a leading sign; the first component says whether it is a minus. -/
def splitSign : List Char → Bool × List Char
  | '-' :: rest => (true, rest)
  | '+' :: rest => (false, rest)
  | rest => (false, rest)

def toInt64? (n : Int) : Option Int64 :=
  if (Int64.ofInt n).toInt = n then some (Int64.ofInt n) else none

def dropFirstZeros (ds : List Char) : List Char :=
  ds.dropWhile fun c => c == '0'

/-- Integers of sixty-four bits have at most so many digits. -/
def int64Digits : Nat :=
  19

/-- Reads an integer: an optional sign and digits, within sixty-four bits. -/
def int64? (text : List Char) : Option Int64 :=
  let (negative, ds) := splitSign text
  if isDigits ds && decide ((dropFirstZeros ds).length ≤ int64Digits) then
    toInt64? (if negative then -(natOfDigits ds : Int) else natOfDigits ds)
  else none

/-- Exponents are read digit by digit until they have reached this bound; digits behind that do not
count. -/
def exponentLimit : Nat :=
  twoPow 16

def exponentOfDigits (ds : List Char) : Nat :=
  ds.foldl (fun e c => if e < exponentLimit then 10 * e + digit c else e) 0

structure Parts where
  whole : List Char
  /-- The digits behind the point; `none` without a point. -/
  fraction : Option (List Char)
  /-- Sign and digits of the exponent; `none` without an exponent. -/
  exponent : Option (Bool × List Char)
  deriving DecidableEq, Repr

/-- Splits a numeral at its point and its exponent mark.  Nothing may follow the exponent's digits,
and there is at least one of them. -/
def split? (text : List Char) : Option Parts :=
  let whole := text.takeWhile isDigit
  let rest := text.dropWhile isDigit
  let (fraction, rest) : Option (List Char) × List Char :=
    match rest with
    | '.' :: behind => (some (behind.takeWhile isDigit), behind.dropWhile isDigit)
    | _ => (none, rest)
  match rest with
  | [] => some ⟨whole, fraction, none⟩
  | mark :: behind =>
      if mark = 'e' ∨ mark = 'E' then
        let (negative, ds) := splitSign behind
        if isDigits ds then some ⟨whole, fraction, some (negative, ds)⟩ else none
      else none

def dropLastZeros (ds : List Char) : List Char :=
  (dropFirstZeros ds.reverse).reverse

/-- The binary64 magnitude nearest to the number with the digits `ds`, scaled by `10 ^ e`.  Zeros at
both ends only move the point, and far beyond the range of the format no power is computed. -/
def scaledMagnitude (ds : List Char) (e : Int) : Nat :=
  let ds := dropFirstZeros ds
  let significant := dropLastZeros ds
  let leading : Int := ds.length + e
  if significant.isEmpty || decide (leading < -400) then 0
  else if 400 < leading then Binary64.infinity
  else
    let e := leading - significant.length
    Binary64.nearestMagnitude (natOfDigits significant * tenPow e.toNat) (tenPow (-e).toNat)

/-- Reads a decimal numeral as the nearest binary64 number.  It has at least one digit before its
exponent, and it must not be beyond the finite numbers. -/
def float? (text : List Char) : Option Float :=
  let (negative, rest) := splitSign text
  match split? rest with
  | none => none
  | some parts =>
      let fraction := parts.fraction.getD []
      let ds := parts.whole ++ fraction
      if ds.isEmpty then none
      else
        let written : Int :=
          match parts.exponent with
          | none => 0
          | some (true, es) => -(exponentOfDigits es : Int)
          | some (false, es) => exponentOfDigits es
        let m := scaledMagnitude ds (written - fraction.length)
        if m < Binary64.infinity then some (Binary64.ofMagnitude negative m) else none

end JsonQuery.Numeral
