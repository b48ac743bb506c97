import CurveFormula.Expr.Basic
import CurveFormula.Text.Quoted

/-!
# Building formulas from names

Formulas built from the outside name their parameters and operators by text and give degrees as
integers. A name that means nothing or a degree out of range is reported.
-/

namespace CurveFormula

universe u

/-- Why a formula cannot be built. -/
inductive BuildError where
  | unknownParameter (name : Text)
  | unknownUnary (name : Text)
  | unknownBinary (name : Text)
  | degreeOutOfRange (degree : Int)
  deriving DecidableEq, Repr

/-- The report of a formula that cannot be built. -/
def BuildError.message : BuildError → Text
  | .unknownParameter name => "Unknown parameter name: ".toList ++ Text.quoted name
  | .unknownUnary name => "Unknown unary operator: ".toList ++ Text.quoted name
  | .unknownBinary name => "Unknown binary operator: ".toList ++ Text.quoted name
  | .degreeOutOfRange degree => "Polynomial degree out of range: ".toList ++ Text.ofInt degree

namespace Expr

variable {α : Type u}

/-- The parameter of a name. -/
def ofName (name : Text) : Except BuildError (Expr α) :=
  match Letter.ofText? name with
  | some p => .ok (.param p)
  | none => .error (.unknownParameter name)

/-- The function of a name applied to a formula. -/
def ofUnary (name : Text) (e : Expr α) : Except BuildError (Expr α) :=
  match UnaryOp.ofName? name with
  | some op => .ok (.unary op e)
  | none => .error (.unknownUnary name)

/-- The operator of a name between two formulas. -/
def ofBinary (name : Text) (l r : Expr α) : Except BuildError (Expr α) :=
  match BinaryOp.ofSign? name with
  | some op => .ok (.binary op l r)
  | none => .error (.unknownBinary name)

/-- The sum of powers of a degree. There are as many degrees as letters. -/
def ofDegree (w : Weights) (degree : Int) : Except BuildError (Expr α) :=
  if h : 0 ≤ degree ∧ degree < 24 then .ok (.poly w ⟨degree.toNat, by omega⟩)
  else .error (.degreeOutOfRange degree)

end Expr

end CurveFormula
