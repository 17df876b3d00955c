import JsonQuery.Error
import JsonQuery.Number.Decimal
import JsonQuery.Number.Numeral
import JsonQuery.Value.Order

/-!
# Functions on numbers

Absolute values, rounding, totals and averages, and reading numbers from text.  Totals are decimal
as long as every step fits a decimal, and binary64 otherwise.
-/

set_option autoImplicit false

namespace JsonQuery.Functions

abbrev Answer : Type :=
  Except TypeFault Value

/-- The least integer has no positive counterpart and becomes a binary64 number. -/
def absolute : Value → Answer
  | .int n =>
      match Numeral.toInt64? n.toInt.natAbs with
      | some m => .ok (.int m)
      | none => .ok (.float (Binary64.ofInt n.toInt.natAbs))
  | .float x => .ok (.float (Binary64.ofMagnitude false (Binary64.magnitude x)))
  | v => .error (.operand "number" v.kind)

/-- Rounds to an integer, where the number is finite and the integer fits sixty-four bits. -/
def roundWith (round : Float → Int) : Value → Answer
  | .int n => .ok (.int n)
  | .float x =>
      if Binary64.isFinite x then
        match Numeral.toInt64? (round x) with
        | some n => .ok (.int n)
        | none => .ok (.float x)
      else .ok (.float x)
  | v => .error (.operand "number" v.kind)

/-- The total of numbers as a decimal, while all numbers and all partial totals have one. -/
def decimalTotal? (total : Decimal) : List Value → Option Decimal
  | [] => some total
  | .int n :: rest =>
      match total.add? (.ofInt n.toInt) with
      | some next => decimalTotal? next rest
      | none => none
  | .float x :: rest =>
      match Decimal.ofFloat? x with
      | some d =>
          match total.add? d with
          | some next => decimalTotal? next rest
          | none => none
      | none => none
  | _ :: _ => none

/-- The total of numbers in binary64, from left to right.  It starts from minus zero, which is
neutral for every number. -/
def floatTotal (items : List Value) : Float :=
  (items.filterMap Value.float?).foldl (fun total x => total + x) (Binary64.ofMagnitude true 0)

def isInteger : Value → Bool
  | .int _ => true
  | _ => false

/-- The total of numbers without rounding errors on the way, if there is one: of integers an integer
that fits, and of any other numbers a binary64 number. -/
def exactSum? (items : List Value) : Option Value :=
  match decimalTotal? .zero items with
  | none => none
  | some total =>
      if items.all isInteger then (total.toInt?.bind Numeral.toInt64?).map .int
      else some (.float total.toFloat)

def sum (items : List Value) : Value :=
  match exactSum? items with
  | some total => total
  | none => .float (floatTotal items)

def exactAverage? (items : List Value) : Option Decimal :=
  match decimalTotal? .zero items with
  | some total => total.divNat? items.length
  | none => none

/-- The average is a binary64 number; there is none of no numbers. -/
def average (items : List Value) : Value :=
  match items with
  | [] => .null
  | _ =>
      match exactAverage? items with
      | some average => .float average.toFloat
      | none => .float (floatTotal items / Binary64.ofNat items.length)

/-- Reads a number from a string; numbers stay as they are and all else becomes null. -/
def toNumber : Value → Value
  | .int n => .int n
  | .float x => .float x
  | .string s =>
      match Numeral.int64? s.toList with
      | some n => .int n
      | none =>
          match Numeral.float? s.toList with
          | some x => .float x
          | none => .null
  | _ => .null

end JsonQuery.Functions
