import CurveFormula.Expr.Render
import CurveFormula.Text.Quoted

/-!
# Kinds of nodes

Every node of a formula is of one of nine kinds. A kind has a name, under which nodes are shown and
searched.
-/

namespace CurveFormula

universe u

/-- The kind of a node. -/
inductive Kind where
  | var
  | const
  | zero
  | one
  | param
  | unary
  | binary
  | polynomial
  | series
  deriving DecidableEq, Repr

namespace Kind

/-- Every kind. -/
def all : List Kind :=
  [var, const, zero, one, param, unary, binary, polynomial, series]

/-- The name of a kind. -/
def name : Kind → Text
  | var => "VariableNode".toList
  | const => "ConstantNode".toList
  | zero => "ZeroNode".toList
  | one => "OneNode".toList
  | param => "ParameterNode".toList
  | unary => "UnaryOpNode".toList
  | binary => "BinaryOpNode".toList
  | polynomial => "PolynomialNode".toList
  | series => "ExpSeriesNode".toList

/-- The kinds a name stands for in a search. The general name stands for all of them, and the name
of polynomials for every sum of powers. -/
def ofName (s : Text) : List Kind :=
  if s = "Node".toList then all
  else if s = polynomial.name then [polynomial, series]
  else all.filter fun k => k.name = s

end Kind

namespace Expr

variable {α : Type u}

/-- The kind of the root. -/
def kind : Expr α → Kind
  | var => .var
  | const _ => .const
  | zero => .zero
  | one => .one
  | param _ => .param
  | unary _ _ => .unary
  | binary _ _ _ => .binary
  | poly .plain _ => .polynomial
  | poly .factorial _ => .series

/-- The operator at the root. -/
def operator? : Expr α → Option Operator
  | unary op _ => some (.unary op)
  | binary op _ _ => some (.binary op)
  | _ => none

/-- A formula shown as a node: its kind around its quoted text. -/
def nodeText (N : Numerals α) (e : Expr α) : Text :=
  e.kind.name ++ '(' :: (Text.quoted (e.display N) ++ [')'])

/-- A formula shown as a whole: its quoted text. -/
def wholeText (N : Numerals α) (e : Expr α) : Text :=
  "Expression(".toList ++ Text.quoted (e.display N) ++ [')']

end Expr

end CurveFormula
