/-!
# Weights of powers

A sum of powers either counts every power in full, or divides the power of index `i` by the
factorial of `i`.
-/

namespace CurveFormula

/-- The product of the numbers from one to `n`. -/
def factorial : Nat → Nat
  | 0 => 1
  | n + 1 => (n + 1) * factorial n

/-- How the powers in a sum of powers are weighted. -/
inductive Weights where
  /-- Every power counts in full: a polynomial. -/
  | plain
  /-- The power of index `i` is divided by the factorial of `i`: an exponential series. -/
  | factorial
  deriving DecidableEq, Repr

namespace Weights

/-- The power of index `i` has a divisor that is written out. The factorials of nought and one are
one and change nothing. -/
def divides (w : Weights) (i : Nat) : Bool :=
  w = .factorial && 2 ≤ i

@[simp] theorem divides_plain (i : Nat) : divides .plain i = false := rfl

@[simp] theorem divides_factorial (i : Nat) : divides .factorial i = decide (2 ≤ i) := by
  simp [divides]

end Weights

end CurveFormula
