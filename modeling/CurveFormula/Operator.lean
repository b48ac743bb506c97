import CurveFormula.Text.Basic

/-!
# Operators

The eight functions of one operand and the five operators of two operands that a formula is built
from. Their order is the order in which random formulas draw them: first the functions, then the
operators.
-/

namespace CurveFormula

/-- A function of one operand. -/
inductive UnaryOp where
  | neg
  | exp
  | ln
  | sqrt
  | square
  | sin
  | cos
  | tan
  deriving DecidableEq, Repr

/-- An operator between two operands. -/
inductive BinaryOp where
  | add
  | sub
  | mul
  | div
  | pow
  deriving DecidableEq, Repr

namespace UnaryOp

/-- The functions in drawing order. -/
def all : List UnaryOp :=
  [neg, exp, ln, sqrt, square, sin, cos, tan]

/-- The name of a function. -/
def name : UnaryOp → Text
  | neg => ['n', 'e', 'g']
  | exp => ['e', 'x', 'p']
  | ln => ['l', 'n']
  | sqrt => ['s', 'q', 'r', 't']
  | square => ['s', 'q', 'u', 'a', 'r', 'e']
  | sin => ['s', 'i', 'n']
  | cos => ['c', 'o', 's']
  | tan => ['t', 'a', 'n']

/-- The function of a given name, if there is one. -/
def ofName? (s : Text) : Option UnaryOp :=
  all.find? fun op => op.name == s

@[simp] theorem ofName?_name (op : UnaryOp) : ofName? op.name = some op := by
  cases op <;> rfl

theorem mem_all (op : UnaryOp) : op ∈ all := by
  cases op <;> simp [all]

end UnaryOp

namespace BinaryOp

/-- The operators in drawing order. -/
def all : List BinaryOp :=
  [add, sub, mul, div, pow]

/-- The sign of an operator. -/
def sign : BinaryOp → Char
  | add => '+'
  | sub => '-'
  | mul => '*'
  | div => '/'
  | pow => '^'

/-- The operator of a given sign, if there is one. -/
def ofSign? : Text → Option BinaryOp
  | [c] => all.find? fun op => op.sign == c
  | _ => none

@[simp] theorem ofSign?_sign (op : BinaryOp) : ofSign? [op.sign] = some op := by
  cases op <;> rfl

theorem mem_all (op : BinaryOp) : op ∈ all := by
  cases op <;> simp [all]

end BinaryOp

/-- An operator of either arity. -/
inductive Operator where
  | unary (op : UnaryOp)
  | binary (op : BinaryOp)
  deriving DecidableEq, Repr

namespace Operator

/-- Every operator in drawing order: the functions, then the operators of two operands. -/
def all : List Operator :=
  UnaryOp.all.map unary ++ BinaryOp.all.map binary

/-- The operator a text names: a function by its name, an operator of two operands by its sign. -/
def ofText? (s : Text) : Option Operator :=
  match UnaryOp.ofName? s with
  | some op => some (unary op)
  | none => (BinaryOp.ofSign? s).map binary

@[simp] theorem length_all : all.length = 13 := rfl

theorem mem_all (op : Operator) : op ∈ all := by
  cases op with
  | unary op => simp [all, UnaryOp.mem_all]
  | binary op => simp [all, BinaryOp.mem_all]

end Operator

end CurveFormula
