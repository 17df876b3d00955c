/-!
# Powers of two and ten

The scales of binary and of decimal numbers, as natural numbers.
-/

set_option autoImplicit false

namespace JsonQuery

/-- Two to the power of `e`: the number whose only bit is the one at place `e`. -/
def twoPow (e : Nat) : Nat :=
  1 <<< e

def tenPow : (e : Nat) → Nat
  | 0 => 1
  | e + 1 => 10 * tenPow e

theorem twoPow_succ (e : Nat) : twoPow (e + 1) = 2 * twoPow e := by
  simp only [twoPow, Nat.shiftLeft_succ]

theorem twoPow_pos (e : Nat) : 0 < twoPow e := by
  induction e with
  | zero => decide
  | succ e ih => rw [twoPow_succ]; omega

theorem tenPow_pos (e : Nat) : 0 < tenPow e := by
  induction e with
  | zero => decide
  | succ e ih => rw [tenPow]; omega

end JsonQuery
