import CurveFormula.Expr.Basic

/-!
# Algebraic forms

Computer algebra systems know sums, products and powers, but no differences, quotients or roots. A
formula becomes such a form node by node, with nothing simplified: a difference adds a product with
minus one, a quotient multiplies by a power of minus one, and a square root is a power of one half.
A number is negated in place.
-/

namespace CurveFormula

universe u

/-- The functions that a form keeps. -/
inductive FormFunction where
  | exp
  | log
  | sin
  | cos
  | tan
  | factorial
  deriving DecidableEq, Repr

/-- A form: sums, products and powers of symbols, numbers and functions. -/
inductive Form (α : Type u) where
  | symbol (name : Text)
  | rational (num : Int) (den : Nat)
  | number (value : α)
  | sum (terms : List (Form α))
  | product (left right : Form α)
  | power (base exponent : Form α)
  | function (f : FormFunction) (argument : Form α)

namespace FormFunction

/-- The name of a function. -/
def name : FormFunction → Text
  | exp => "exp".toList
  | log => "log".toList
  | sin => "sin".toList
  | cos => "cos".toList
  | tan => "tan".toList
  | factorial => "factorial".toList

end FormFunction

namespace Form

variable {α : Type u}

/-- An integer. -/
def integer (n : Int) : Form α :=
  rational n 1

/-- The variable. -/
def variableSymbol : Form α :=
  symbol ['x']

/-- A form times minus one; a number is negated in place. -/
def negated (negate : α → α) : Form α → Form α
  | rational num den => rational (-num) den
  | number v => number (negate v)
  | f => product (integer (-1)) f

/-- One over a form. -/
def inverse (f : Form α) : Form α :=
  power f (integer (-1))

/-- The power of index `i` of the variable with a coefficient and its weight. -/
def weighted (w : Weights) (i : Nat) (p : Letter) : Form α :=
  let term := product (symbol p.text) (power variableSymbol (integer i))
  match w with
  | .plain => term
  | .factorial => product term (inverse (function .factorial (integer i)))

/-- The weighted powers from index `i` on. -/
def weightedFrom (w : Weights) (i : Nat) : List Letter → List (Form α)
  | [] => []
  | p :: ps => weighted w i p :: weightedFrom w (i + 1) ps

/-- A sum; a sum of one term is that term. -/
def sumOf : List (Form α) → Form α
  | [f] => f
  | fs => sum fs

/-- A function of a form. -/
def ofUnary (negate : α → α) (op : UnaryOp) (f : Form α) : Form α :=
  match op with
  | .neg => negated negate f
  | .exp => function .exp f
  | .ln => function .log f
  | .sqrt => power f (rational 1 2)
  | .square => power f (integer 2)
  | .sin => function .sin f
  | .cos => function .cos f
  | .tan => function .tan f

/-- An operator between two forms. -/
def ofBinary (op : BinaryOp) (f g : Form α) : Form α :=
  match op with
  | .add => sum [f, g]
  | .sub => sum [f, product (integer (-1)) g]
  | .mul => product f g
  | .div => product f (inverse g)
  | .pow => power f g

end Form

namespace Expr

variable {α : Type u}

/-- The form of a formula. -/
def form (negate : α → α) : Expr α → Form α
  | var => .variableSymbol
  | const c => .number c
  | zero => .integer 0
  | one => .integer 1
  | param p => .symbol p.text
  | unary op e => .ofUnary negate op (e.form negate)
  | binary op l r => .ofBinary op (l.form negate) (r.form negate)
  | poly w n => .sumOf (Form.weightedFrom w 0 (Letter.upTo n))

end Expr

end CurveFormula
