import CurveFormula.Binding
import CurveFormula.Expr.Render

/-!
# Plot texts

The text of a formula for a plotting program. Without a binding the parameters keep their letters;
with one every parameter is written as its value, and a missing value is reported.
-/

namespace CurveFormula.Expr

universe u

variable {α : Type u} (N : Numerals α)

/-- The plot text with every parameter written as its value. -/
def plotWith (b : Binding α) : Expr α → Except Unbound Text
  | var => .ok ['x']
  | const c => .ok (N.format c)
  | zero => .ok ['0']
  | one => .ok ['1']
  | param p => (b.lookup p).map N.format
  | unary op e => do
    let t ← e.plotWith b
    return Dialect.plot.unary op t
  | binary op l r => do
    let s ← l.plotWith b
    let t ← r.plotWith b
    return Dialect.plot.binary op s t
  | poly w n => (b.lookupAll (Letter.upTo n)).map fun cs => Dialect.plot.series w (cs.map N.format)

/-- The plot text, with the values of a binding if there is one. -/
def plot (b : Option (Binding α)) (e : Expr α) : Except Unbound Text :=
  match b with
  | none => .ok (e.render N .plot)
  | some b => e.plotWith N b

end CurveFormula.Expr
