import CurveFormula.Operator
import CurveFormula.Weights

/-!
# Arithmetic kernels

A kernel says how to compute with one kind of value: binary64 numbers, the elements of a field, or
values that may be undefined. Formulas are evaluated, and constants are folded, over any kernel.

A column kernel also says how an operator treats the entries of a column on its right. A single
operand on the right may allow a shorter way of computing, with other results at the edges of the
number range; a pointwise kernel makes no such difference.
-/

namespace CurveFormula

universe u

/-- The operations a formula needs on its values. -/
structure Kernel (α : Type u) where
  zero : α
  one : α
  natural : Nat → α
  unary : UnaryOp → α → α
  binary : BinaryOp → α → α → α
  power : α → Nat → α

/-- The operations a formula needs on columns of values. -/
structure ColumnKernel (α : Type u) extends Kernel α where
  /-- The operators of two operands, the right one being an entry of a column. -/
  entrywise : BinaryOp → α → α → α

namespace Kernel

variable {α : Type u} (K : Kernel α)

/-- The rest of a weighted sum of powers, from the power of index `i` on. The divisor so far is `d`
and the sum so far is `sum`; the divisor grows by one factor for each power that has one. -/
def seriesFrom (w : Weights) (x : α) (i : Nat) (d sum : α) : List α → α
  | [] => sum
  | c :: cs =>
    let d' := if w.divides i then K.binary .mul d (K.natural i) else d
    let term := K.binary .div (K.binary .mul c (K.power x i)) d'
    seriesFrom w x (i + 1) d' (K.binary .add sum term) cs

/-- The weighted sum of powers of `x` with the given coefficients, lowest power first, added from
left to right. -/
def series (w : Weights) (x : α) : List α → α
  | [] => K.zero
  | c :: cs => K.seriesFrom w x 1 K.one (K.binary .mul c (K.power x 0)) cs

/-- The column kernel that treats an entry of a column like a single value. -/
def pointwise : ColumnKernel α :=
  { K with entrywise := K.binary }

@[simp] theorem seriesFrom_nil (w : Weights) (x : α) (i : Nat) (d sum : α) :
    K.seriesFrom w x i d sum [] = sum := rfl

end Kernel

end CurveFormula
