import JsonQuery.Number.Power

/-!
# Binary64 numbers, exactly

Order, rounding and integer parts of binary64 numbers, worked out on their bits with exact
natural numbers.  The sixty-three bits below the sign, read as a natural number, grow with the
absolute value; that number is the *magnitude* here, and with the sign put back it is the *rank*,
which orders all numbers and both infinities.  Everything but `+`, `*` and `/` of the machine is
defined through it.
-/

set_option autoImplicit false

namespace JsonQuery.Binary64

def magnitude (x : Float) : Nat :=
  x.toBits.toNat % twoPow 63

/-- The sign bit; it is set for `-0.0`. -/
def isNegative (x : Float) : Bool :=
  decide (twoPow 63 ≤ x.toBits.toNat)

/-- The magnitude of the infinities.  Finite numbers lie below it and the undefined one above. -/
def infinity : Nat :=
  2047 * twoPow 52

def isNaN (x : Float) : Bool :=
  decide (infinity < magnitude x)

def isFinite (x : Float) : Bool :=
  decide (magnitude x < infinity)

def ofMagnitude (negative : Bool) (m : Nat) : Float :=
  Float.ofBits (UInt64.ofNat (if negative then twoPow 63 + m else m))

/-! ## Order -/

/-- The place of a number in the order of all numbers.  The two zeros share one place. -/
def rank (x : Float) : Int :=
  if isNegative x then -(magnitude x : Int) else magnitude x

/-- Compares two numbers; nothing compares with the undefined one. -/
def compare? (x y : Float) : Option Ordering :=
  if isNaN x || isNaN y then none else some (compare (rank x) (rank y))

/-- Equality of numbers: the zeros are equal, and the undefined one differs from itself. -/
def equals (x y : Float) : Bool :=
  !isNaN x && !isNaN y && rank x == rank y

/-! ## Exact values -/

/-- The value of a magnitude, counted in units of `2 ^ -1074`. -/
def units (m : Nat) : Nat :=
  if m < twoPow 52 then m
  else (twoPow 52 + m % twoPow 52) * twoPow (m / twoPow 52 - 1)

def unitsPerOne : Nat :=
  twoPow 1074

def exact (x : Float) : Int :=
  if isNegative x then -(units (magnitude x) : Int) else units (magnitude x)

def floor (x : Float) : Int :=
  exact x / unitsPerOne

def ceil (x : Float) : Int :=
  -(-exact x / unitsPerOne)

/-- The integer nearest to the absolute value of a finite number; a half goes up. -/
def roundHalfUp (x : Float) : Nat :=
  (2 * units (magnitude x) + unitsPerOne) / (2 * unitsPerOne)

/-- The factors of a finite number: `significand * 2 ^ exponent` is its absolute value, and the
significand has fifty-three bits unless the exponent is the least one. -/
def factors (x : Float) : Nat × Int :=
  let m := magnitude x
  if m < twoPow 52 then (m, -1074)
  else (twoPow 52 + m % twoPow 52, ((m / twoPow 52 : Nat) : Int) - 1075)

/-! ## Rounding -/

/-- The natural number nearest to `n / d`; a half goes to the even neighbour. -/
def divHalfEven (n d : Nat) : Nat :=
  let q := n / d
  let r := n % d
  if d < 2 * r ∨ (2 * r = d ∧ q % 2 = 1) then q + 1 else q

def powerLe (e : Int) (n d : Nat) : Bool :=
  decide (d * twoPow e.toNat ≤ n * twoPow (-e).toNat)

/-- The magnitude nearest to the positive ratio `n / d`, with halves to the even neighbour and
infinity beyond the greatest finite number.  The step between neighbours is `2 ^ shift`, and since
magnitudes are consecutive across a power of two, a significand that rounds up to the next power
carries into the exponent by itself. -/
def nearestMagnitude (n d : Nat) : Nat :=
  if n = 0 then 0
  else
    let guess : Int := (n.log2 : Int) - d.log2
    let e := if powerLe guess n d then guess else guess - 1
    let shift := max (e - 52) (-1074)
    let m := divHalfEven (n * twoPow (-shift).toNat) (d * twoPow shift.toNat)
    min ((shift + 1074).toNat * twoPow 52 + m) infinity

def ofInt (n : Int) : Float :=
  ofMagnitude (decide (n < 0)) (nearestMagnitude n.natAbs 1)

def ofNat (n : Nat) : Float :=
  ofMagnitude false (nearestMagnitude n 1)

end JsonQuery.Binary64
