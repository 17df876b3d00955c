import JsonQuery.Number.Binary64

/-!
# The fewest digits that read back

Every positive binary64 number has a decimal with fewest digits among those that round to it, and
of those the one nearest to it.  The reals that round to a magnitude `m` lie between the midpoints
to its neighbours, and the midpoints themselves belong to it when `m` is even.  A decimal grid is
tried for one digit, two digits and so on; on each grid only the two neighbours of the number can
be in that interval.
-/

set_option autoImplicit false

namespace JsonQuery.Shortest

open Binary64

/-- A positive decimal, `digits * 10 ^ exponent`. -/
structure Decimal where
  digits : Nat
  exponent : Int
  deriving DecidableEq, Repr

/-- How a decimal is written: positional where the exponent of its first digit lies between the
two bounds, with an exponent elsewhere. -/
structure Style where
  leastPositional : Int
  greatestPositional : Int

/-- Twice the value of a magnitude in units, so that midpoints are whole. -/
def double (m : Nat) : Nat :=
  2 * units m

/-- Does `n / d`, in half units, round to the magnitude `m`? -/
def roundsTo (m n d : Nat) : Bool :=
  let low := (units (m - 1) + units m) * d
  let high := (units m + units (m + 1)) * d
  if m % 2 = 0 then decide (low ≤ n ∧ n ≤ high) else decide (low < n ∧ n < high)

def tenPowerLe (e : Int) (m : Nat) : Bool :=
  decide (tenPow e.toNat * unitsPerOne ≤ units m * tenPow (-e).toNat)

def leadingExponent (m : Nat) : Int :=
  let bits : Int := (units m).log2 - 1074
  let guess := bits * 30103 / 100000
  if tenPowerLe (guess + 1) m then guess + 1
  else if tenPowerLe guess m then guess
  else guess - 1

/-- Half units in `10 ^ p`, as a ratio that keeps both parts whole. -/
def gridStep (p : Int) : Nat × Nat :=
  (2 * unitsPerOne * tenPow p.toNat, tenPow (-p).toNat)

/-- The two multiples of `10 ^ p` beside the magnitude `m`, the nearer one first.  Of two equally
near ones the even one is first. -/
def neighbours (m : Nat) (p : Int) : Decimal × Decimal :=
  let n := double m * (gridStep p).2
  let d := (gridStep p).1
  let below := n / d
  let r := n % d
  if d < 2 * r ∨ (2 * r = d ∧ below % 2 = 1) then (⟨below + 1, p⟩, ⟨below, p⟩)
  else (⟨below, p⟩, ⟨below + 1, p⟩)

def Decimal.hits (m : Nat) (decimal : Decimal) : Bool :=
  let step := gridStep decimal.exponent
  roundsTo m (decimal.digits * step.1) step.2

/-- The first hit on the grids of the given exponents.  When none of them has one, the answer is
the nearest point of the grid with seventeen digits. -/
def search (m : Nat) : List Int → Decimal
  | [] => (neighbours m (leadingExponent m - 16)).1
  | p :: finer =>
      let (nearer, farther) := neighbours m p
      if nearer.hits m then nearer
      else if farther.hits m then farther
      else search m finer

/-- The shortest decimal that rounds to the positive magnitude `m`.  The first grid is that of the
next power of ten, which may itself round to `m`. -/
def ofMagnitude (m : Nat) : Decimal :=
  let leading := leadingExponent m
  search m ((List.range 18).map fun (k : Nat) => leading + 1 - k)

/-! ## Writing -/

def digitChars (n : Nat) : List Char :=
  Nat.toDigits 10 n

/-- An exponent is written with its sign and without leading zeros. -/
def exponentText (e : Int) : List Char :=
  'e' :: (if e < 0 then '-' else '+') :: digitChars e.natAbs

/-- Writes a positive decimal; positional text always has a digit after the point. -/
def Decimal.write (style : Style) (decimal : Decimal) : List Char :=
  let ds := digitChars decimal.digits
  let e := decimal.exponent + ds.length - 1
  if style.leastPositional ≤ e ∧ e ≤ style.greatestPositional then
    if e < 0 then
      '0' :: '.' :: (List.replicate (-e - 1).toNat '0' ++ ds)
    else if ds.length ≤ e.toNat + 1 then
      ds ++ List.replicate (e.toNat + 1 - ds.length) '0' ++ ['.', '0']
    else
      ds.take (e.toNat + 1) ++ '.' :: ds.drop (e.toNat + 1)
  else
    match ds with
    | [d] => d :: exponentText e
    | d :: rest => d :: '.' :: (rest ++ exponentText e)
    | [] => []

/-- Writes a finite number with the fewest digits that read back. -/
def write (style : Style) (x : Float) : List Char :=
  let m := magnitude x
  let text := if m = 0 then ['0', '.', '0'] else (ofMagnitude m).write style
  if isNegative x then '-' :: text else text

end JsonQuery.Shortest
