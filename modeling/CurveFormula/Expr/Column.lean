import CurveFormula.Binding
import CurveFormula.Expr.Basic
import CurveFormula.Kernel

/-!
# Evaluation over a column of points

A formula is evaluated over many values of the variable in one walk. A part that does not depend
on the variable stays a single value, and an operator between a single value and a column repeats
the single value. Two columns meet entry by entry and have to be equally long. Whether the right
operand is a single value or a column decides which operators of the column kernel apply.
-/

namespace CurveFormula

universe u

/-- A single value, or a column of values. -/
inductive Block (α : Type u) where
  | single (value : α)
  | column (values : List α)
  deriving Repr

/-- Why a walk over a column fails. -/
inductive ColumnFault where
  | unbound (cause : Unbound)
  | lengths (left right : Nat)
  deriving DecidableEq, Repr

namespace Block

variable {α : Type u}

/-- A function applied to every entry. -/
def map (f : α → α) : Block α → Block α
  | single v => single (f v)
  | column vs => column (vs.map f)

/-- An operator applied to the entries of two blocks: `f` if the right block is a single value, `g`
if it is a column. -/
def combine (f g : α → α → α) : Block α → Block α → Except ColumnFault (Block α)
  | single v, single w => .ok (single (f v w))
  | single v, column ws => .ok (column (ws.map (g v)))
  | column vs, single w => .ok (column (vs.map fun v => f v w))
  | column vs, column ws =>
    if vs.length = ws.length then .ok (column (List.zipWith g vs ws))
    else .error (.lengths vs.length ws.length)

/-- The block as a column of a given length. -/
def spread (n : Nat) : Block α → List α
  | single v => List.replicate n v
  | column vs => vs

end Block

namespace Expr

variable {α : Type u} (K : ColumnKernel α)

/-- A look-up inside a walk over a column. -/
def orFault {β : Type u} : Except Unbound β → Except ColumnFault β
  | .ok v => .ok v
  | .error e => .error (.unbound e)

/-- The value of a formula for a block of values of the variable. -/
def evalBlock (x : Block α) (b : Binding α) : Expr α → Except ColumnFault (Block α)
  | var => .ok x
  | const c => .ok (.single c)
  | zero => .ok (.single K.zero)
  | one => .ok (.single K.one)
  | param p => do
    let v ← orFault (b.lookup p)
    return .single v
  | unary op e => do
    let v ← e.evalBlock x b
    return v.map (K.unary op)
  | binary op l r => do
    let v ← l.evalBlock x b
    let w ← r.evalBlock x b
    v.combine (K.binary op) (K.entrywise op) w
  | poly w n => do
    let cs ← orFault (b.lookupAll (Letter.upTo n))
    return x.map fun v => K.series w v cs

/-- The values of a formula at every point of a column. -/
def evalMany (xs : List α) (b : Binding α) (e : Expr α) : Except ColumnFault (List α) := do
  let v ← e.evalBlock K (.column xs) b
  return v.spread xs.length

end Expr

end CurveFormula
