import CurveFormula.Binary64.Text
import CurveFormula.Kernel
import CurveFormula.Numerals

/-!
# Formulas over binary64 numbers

The arithmetic kernel of binary64 numbers and the way they are written inside formulas.
-/

namespace CurveFormula.Binary64

/-- A function of one binary64 number. -/
def unary : UnaryOp → Float → Float
  | .neg, x => -x
  | .exp, x => x.exp
  | .ln, x => x.log
  | .sqrt, x => x.sqrt
  | .square, x => x * x
  | .sin, x => x.sin
  | .cos, x => x.cos
  | .tan, x => x.tan

/-- An operator between two binary64 numbers. A power with the exponent one half is a square root,
which differs from the general power at negative infinity and at negative nought: there it gives
not-a-number and negative nought. -/
def binary : BinaryOp → Float → Float → Float
  | .add, x, y => x + y
  | .sub, x, y => x - y
  | .mul, x, y => x * y
  | .div, x, y => x / y
  | .pow, x, y => if y == 0.5 then x.sqrt else x.pow y

/-- Arithmetic on binary64 numbers. Nothing is undefined: the results include the infinities and
not-a-number. -/
def kernel : Kernel Float where
  zero := 0.0
  one := 1.0
  natural := Float.ofNat
  unary := unary
  binary := binary
  power := fun x n => x.pow (Float.ofNat n)

/-- An operator between a binary64 number and an entry of a column. Every power is the general
one. -/
def entrywise : BinaryOp → Float → Float → Float
  | .pow, x, y => x.pow y
  | op, x, y => binary op x y

/-- Arithmetic on columns of binary64 numbers. -/
def columnKernel : ColumnKernel Float :=
  { kernel with entrywise := entrywise }

/-- Binary64 numbers inside formulas are written positionally. -/
def numerals : Numerals Float where
  read := read?
  write := positional
  negative := negative
  isTwo := fun x => x == 2.0

/-- The value `n / d` of the way from one number to another. -/
def along (low high : Float) (n d : Nat) : Float :=
  low + (high - low) * (Float.ofNat n / Float.ofNat d)

end CurveFormula.Binary64
