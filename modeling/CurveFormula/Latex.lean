import CurveFormula.Form
import CurveFormula.Params

/-!
# LaTeX texts

The LaTeX text of a formula is left to a computer algebra system. It is given the form of the
formula, then the values of symbols, if there are any, and may be asked to simplify what it has
before it writes it.
-/

namespace CurveFormula

universe u v

/-- A computer algebra system with terms of its own. -/
structure AlgebraSystem (α : Type u) (S : Type v) where
  read : Form α → S
  /-- Puts values in place of symbols, all of them at once. -/
  substitute : List (Text × α) → S → S
  simplify : S → S
  latex : S → Text

namespace Expr

variable {α : Type u} {S : Type v} (A : AlgebraSystem α S) (negate : α → α)

/-- The term of a formula. Nothing is substituted where there are no values. -/
def term (params : Option (Params α)) (simplified : Bool) (e : Expr α) : S :=
  let t := A.read (e.form negate)
  let t := match params with
    | some ⟨v :: values, _⟩ => A.substitute (v :: values) t
    | _ => t
  if simplified then A.simplify t else t

/-- The LaTeX text of a formula. -/
def latex (params : Option (Params α)) (simplified : Bool) (e : Expr α) : Text :=
  A.latex (e.term A negate params simplified)

end Expr

end CurveFormula
