/-!
# Slices

A slice selects positions of a sequence by a start, a stop and a step, each of which may be
omitted.  Negative bounds count from the end, bounds outside the sequence are moved to its border,
and a negative step walks backwards.
-/

set_option autoImplicit false

namespace JsonQuery

structure Slice where
  start : Option Int64
  stop : Option Int64
  step : Option Int64
  deriving DecidableEq

namespace Slice

/-- The step, which is one when omitted. -/
def stride (s : Slice) : Int :=
  match s.step with
  | none => 1
  | some k => k.toInt

/-- A slice with a step of zero selects nothing sensible and is not allowed. -/
def Allowed (s : Slice) : Prop :=
  s.step ≠ some 0

instance (s : Slice) : Decidable s.Allowed :=
  inferInstanceAs (Decidable (s.step ≠ some 0))

/-- The place of a given bound in a sequence of `length` elements: from the end when negative, and
no further out than the border that a walk in direction of `stride` can start or stop at. -/
def place (length stride bound : Int) : Int :=
  if bound < 0 then
    if 0 ≤ bound + length then bound + length
    else if stride < 0 then -1
    else 0
  else if length ≤ bound then
    if stride < 0 then length - 1 else length
  else bound

def first (s : Slice) (length : Nat) : Int :=
  match s.start with
  | some bound => place length s.stride bound.toInt
  | none => if s.stride < 0 then (length : Int) - 1 else 0

/-- The place that the walk has to stop before. -/
def limit (s : Slice) (length : Nat) : Int :=
  match s.stop with
  | some bound => place length s.stride bound.toInt
  | none => if s.stride < 0 then -1 else length

/-- How many steps of `stride` lead from `first` to before `limit`. -/
def stepCount (first limit stride : Int) : Nat :=
  if 0 < stride then ((limit - first + stride - 1) / stride).toNat
  else if stride < 0 then ((first - limit - stride - 1) / -stride).toNat
  else 0

def positions (s : Slice) (length : Nat) : List Nat :=
  let first := s.first length
  (List.range (stepCount first (s.limit length) s.stride)).map fun (k : Nat) =>
    (first + k * s.stride).toNat

def select {α : Type} (s : Slice) (items : List α) : List α :=
  let table := items.toArray
  (s.positions items.length).filterMap fun position => table[position]?

end Slice

end JsonQuery
