import Mathlib.Algebra.Order.Field.Rat

/-!
# Lib.PyFloat

Floating-point numbers as Python compares and subtracts them. The signs of zeros are not told apart,
and the rounding of a difference of two finite numbers is a parameter.
-/

namespace PyClaw

inductive PyFloat where
  | finite (q : Rat)
  | inf
  | negInf
  | nan
  deriving DecidableEq, Repr

namespace PyFloat

/-- `x <= y`. -/
def le : PyFloat → PyFloat → Bool
  | .nan, _ => false
  | _, .nan => false
  | .negInf, _ => true
  | _, .inf => true
  | .finite a, .finite b => a ≤ b
  | _, _ => false

/-- `x < y`. -/
def lt (x y : PyFloat) : Bool := le x y && !le y x

/-- `x - y`. -/
def sub (round : Rat → PyFloat) : PyFloat → PyFloat → PyFloat
  | .nan, _ => .nan
  | _, .nan => .nan
  | .finite a, .finite b => round (a - b)
  | .inf, .inf => .nan
  | .negInf, .negInf => .nan
  | .inf, _ => .inf
  | .negInf, _ => .negInf
  | _, .inf => .negInf
  | _, .negInf => .inf

variable {round : Rat → PyFloat} {x y : PyFloat}

/-- Nothing but infinity bounds what lies infinitely far back. -/
theorem le_of_sub_negInf (h : le (sub round x .negInf) y = true) : y = .inf := by
  cases x with
  | finite a => cases y <;> simp [sub, le] at h ⊢
  | inf => cases y <;> simp [sub, le] at h ⊢
  | negInf => cases y <;> simp [sub, le] at h
  | nan => cases y <;> simp [sub, le] at h

end PyFloat
end PyClaw
