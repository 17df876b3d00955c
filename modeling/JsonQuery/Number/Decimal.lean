import JsonQuery.Number.Binary64

/-!
# Decimals of ninety-six bits

A decimal is a sign, a mantissa below `2 ^ 96` and a scale from `0` to `28`; its value is the
mantissa divided by `10 ^ scale`.  Zero has no sign, whatever the signs it arose from.  Sums of
decimals are exact while they fit, so adding integers never rounds.  A conversion or an operation
whose result does not fit answers `none`.
-/

set_option autoImplicit false

namespace JsonQuery

structure Decimal where
  negative : Bool
  mantissa : Nat
  scale : Nat
  deriving DecidableEq, Repr

namespace Decimal

def mantissaBound : Nat :=
  twoPow 96

def maxScale : Nat :=
  28

def zero : Decimal :=
  ⟨false, 0, 0⟩

def signed (d : Decimal) : Int :=
  if d.negative then -(d.mantissa : Int) else d.mantissa

/-- The decimal with a sign, a mantissa and a scale; a sign of zero is dropped. -/
def ofParts (negative : Bool) (mantissa scale : Nat) : Decimal :=
  ⟨negative && mantissa != 0, mantissa, scale⟩

def ofInt (n : Int) : Decimal :=
  ⟨decide (n < 0), n.natAbs, 0⟩

/-! ## From binary64

The significand is carried from a power of two to a power of ten one factor at a time: a factor of
two is either cancelled, or exchanged for a factor of five while the mantissa has room, or given
up together with the last bit.
-/

/-- Clears `count` factors of one half; the scale starts at `count` and drops with each factor that
is not exchanged for a fifth and a tenth. -/
def clearHalves : (count mantissa scale : Nat) → Nat × Nat
  | 0, m, scale => (m, scale)
  | count + 1, m, scale =>
      if m % 2 = 0 then clearHalves count (m / 2) (scale - 1)
      else if 5 * m < mantissaBound then clearHalves count (5 * m) scale
      else clearHalves count (m / 2) (scale - 1)

/-- Clears `count` factors of two, each exchanged for a ten and a fifth when there is no room to
double; `tens` counts the tens that are left. -/
def clearDoubles : (count mantissa : Nat) → (tens : Int) → Option (Nat × Int)
  | 0, m, tens => some (m, tens)
  | count + 1, m, tens =>
      if m < twoPow 95 then clearDoubles count (2 * m) (tens - 1)
      else if (count : Int) + 1 < 2 * tens then none
      else clearDoubles count (m / 5) tens

/-- Multiplies by ten `count` times, as long as the mantissa has room. -/
def liftTens : (count mantissa : Nat) → Option Nat
  | 0, m => some m
  | count + 1, m => if 10 * m < mantissaBound then liftTens count (10 * m) else none

/-- Drops the last digit, rounding a half up. -/
def dropDigit (m : Nat) : Nat :=
  if 5 ≤ m % 10 then m / 10 + 1 else m / 10

/-- Drops `count` digits, each rounded by itself.  A mantissa that runs out of digits is zero. -/
def dropExcess : (count mantissa scale : Nat) → Nat × Nat
  | 0, m, scale => (m, scale)
  | count + 1, m, scale =>
      if m / 10 = 0 then (0, 0) else dropExcess count (dropDigit m) (scale - 1)

/-- Drops digits after the point until the mantissa is below `2 ^ 52`. -/
def dropImprecise : (mantissa scale : Nat) → Nat × Nat
  | m, 0 => (m, 0)
  | m, scale + 1 =>
      if twoPow 52 ≤ m then dropImprecise (dropDigit m) scale else (m, scale + 1)

def dropZeros : (mantissa scale : Nat) → Nat × Nat
  | m, 0 => (m, 0)
  | m, scale + 1 => if m % 10 = 0 then dropZeros (m / 10) scale else (m, scale + 1)

def ofFactors (m : Nat) (e : Int) : Option (Nat × Nat) :=
  let cleared : Option (Nat × Nat) :=
    if e < 0 then
      let count := (-e).toNat
      some (clearHalves count m count)
    else
      match clearDoubles e.toNat m e with
      | none => none
      | some (m', tens) => (liftTens tens.toNat m').map fun lifted => (lifted, (-tens).toNat)
  match cleared with
  | none => none
  | some (m', scale) =>
      let (m', scale) := dropExcess (scale - maxScale) m' scale
      let (m', scale) := dropImprecise m' scale
      some (dropZeros m' scale)

/-- The decimal for a binary64 number: at most fifty-two bits after rounding, unless it is an
integer.  Numbers that are not finite or too large have none. -/
def ofFloat? (x : Float) : Option Decimal :=
  if !Binary64.isFinite x then none
  else if Binary64.magnitude x = 0 then some zero
  else
    let (m, e) := Binary64.factors x
    (ofFactors m e).map fun (m', scale) => ofParts (Binary64.isNegative x) m' scale

/-! ## Arithmetic -/

/-- Fits an exact value `total / 10 ^ scale` into the mantissa by dropping as few digits as
possible, rounded once with halves to even. -/
def fit? (negative : Bool) (total scale : Nat) : Option Decimal :=
  (List.range (scale + 1)).findSome? fun dropped =>
    let m := Binary64.divHalfEven total (tenPow dropped)
    if m < mantissaBound then some (ofParts negative m (scale - dropped)) else none

/-- Adds two decimals.  Beside a zero the other operand is the answer as it stands. -/
def add? (a b : Decimal) : Option Decimal :=
  if a.mantissa = 0 then some b
  else if b.mantissa = 0 then some a
  else
    let scale := max a.scale b.scale
    let total := a.signed * tenPow (scale - a.scale) + b.signed * tenPow (scale - b.scale)
    fit? (decide (total < 0)) total.natAbs scale

/-- How many more quotient digits, nine at most, leave room in scale and mantissa. -/
def digitsWithRoom (q scale : Nat) : Nat :=
  (((List.range 10).reverse).find? fun p =>
    decide (p ≤ maxScale - scale) && decide (q * tenPow p < mantissaBound)).getD 0

/-- A quotient, unless it has outgrown the mantissa; then it gives up its last digit behind the
point, rounded with halves to even.  What is known to be left behind that digit makes a half more
than a half. -/
def fitQuotient? (more : Bool) : (q scale : Nat) → Option (Nat × Nat)
  | q, 0 => if q < mantissaBound then some (q, 0) else none
  | q, scale + 1 =>
      if q < mantissaBound then some (q, scale + 1)
      else if 5 < q % 10 ∨ (q % 10 = 5 ∧ (more ∨ q / 10 % 2 = 1)) then some (q / 10 + 1, scale)
      else some (q / 10, scale)

/-- Extends a quotient by digits of the remainder until there is none or no room is left; then the
remainder rounds it, with halves to even. -/
def extendQuotient (n q r scale : Nat) : Option (Nat × Nat) :=
  if r = 0 then some (q, scale)
  else
    let p := digitsWithRoom q scale
    if p = 0 ∨ maxScale ≤ scale then
      fitQuotient? true (if n < 2 * r ∨ (2 * r = n ∧ q % 2 = 1) then q + 1 else q) scale
    else
      let q' := q * tenPow p + r * tenPow p / n
      let r' := r * tenPow p % n
      if q' < mantissaBound then extendQuotient n q' r' (scale + p)
      else fitQuotient? (r' != 0) q' (scale + p)
termination_by maxScale - scale
decreasing_by omega

/-- Strips `k` zeros when the low bits of the mantissa allow them and the scale has them. -/
def stripZeros (mask k : Nat) (value : Nat × Nat) : Nat × Nat :=
  if value.1 % mask = 0 ∧ k ≤ value.2 ∧ value.1 % tenPow k = 0 then
    (value.1 / tenPow k, value.2 - k)
  else value

/-- Strips the zeros of a quotient by eights, then by four, two and one.  Three rounds of eight
exhaust a scale of twenty-eight. -/
def stripQuotient (value : Nat × Nat) : Nat × Nat :=
  let eights := stripZeros (twoPow 32) 8 (stripZeros (twoPow 32) 8 (stripZeros (twoPow 32) 8 value))
  stripZeros 2 1 (stripZeros 4 2 (stripZeros 16 4 eights))

def divNat? (d : Decimal) (n : Nat) : Option Decimal :=
  if d.mantissa = 0 then some zero
  else
    let q := d.mantissa / n
    let r := d.mantissa % n
    let value :=
      if r = 0 then some (q, d.scale) else (extendQuotient n q r d.scale).map stripQuotient
    value.map fun (m, scale) => ofParts d.negative m scale

def toInt? (d : Decimal) : Option Int :=
  if d.scale = 0 then some d.signed else none

/-! ## To binary64 -/

/-- The power `a ^ n` by squaring, rounded at each product; `n` has at most `bits` bits. -/
def powerBySquaring : (bits n : Nat) → (a acc : Float) → Float
  | 0, _, _, acc => acc
  | bits + 1, n, a, acc =>
      let acc := if n % 2 = 1 then acc * a else acc
      if n / 2 = 0 then acc else powerBySquaring bits (n / 2) (a * a) acc

/-- The absolute value of a decimal with a fraction: integer and fraction are converted apart, and
the sum is rounded to the places of the scale. -/
def fractionToFloat (m scale : Nat) : Float :=
  let whole := Binary64.ofNat (m / tenPow scale)
  let fraction := Binary64.ofNat (m % tenPow scale) / Binary64.ofNat (tenPow scale)
  if Binary64.magnitude fraction = 0 then whole
  else
    let places := powerBySquaring 5 scale (Binary64.ofNat 10) (Binary64.ofNat 1)
    Binary64.ofNat (Binary64.roundHalfUp ((whole + fraction) * places)) / places

def toFloat (d : Decimal) : Float :=
  let size := if d.scale = 0 then Binary64.ofNat d.mantissa else fractionToFloat d.mantissa d.scale
  Binary64.ofMagnitude d.negative (Binary64.magnitude size)

end Decimal

end JsonQuery
