import CurveFormula.Text.Basic

/-!
# Numerals

How the constants of a formula are read and written. A constant with a negative sign is written
between brackets, so that its sign is never taken for an operator.
-/

namespace CurveFormula

universe u

/-- The reading and writing of constants. -/
structure Numerals (α : Type u) where
  /-- The constant a text denotes, if it is a number text. -/
  read : Text → Option α
  /-- The text of a constant, with a minus sign in front if it is negative. -/
  write : α → Text
  /-- The constant has a negative sign; nought may have one. -/
  negative : α → Bool
  /-- The constant is the exponent of a square. -/
  isTwo : α → Bool

namespace Numerals

variable {α : Type u} (N : Numerals α)

/-- The text of a constant inside a formula. -/
def format (c : α) : Text :=
  if N.negative c then '(' :: N.write c ++ [')'] else N.write c

theorem format_of_negative {c : α} (h : N.negative c = true) :
    N.format c = '(' :: N.write c ++ [')'] := by
  simp [format, h]

theorem format_of_not_negative {c : α} (h : N.negative c = false) : N.format c = N.write c := by
  simp [format, h]

end Numerals

end CurveFormula
