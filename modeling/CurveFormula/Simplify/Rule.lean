import CurveFormula.Expr.Eval

/-!
# Simplification rules

A rule looks at the root of a formula and a few nodes below it, and gives a simpler formula or
nothing.

* A free parameter takes up a function of it, or an operator between it and a parameter or number:
  it may have any value anyway.
* A division by a parameter becomes a multiplication by one.
* An operator between numbers is computed.
* `x - x`, a product with nought and a power of nought are nought; `x / x`, a power of one and a
  power with the exponent nought are one.
* Two functions that undo each other vanish, and so do operators with a neutral operand.
* A difference from nought becomes a negation, and the square of a negation loses it.

Only the exact numbers `zero` and `one` count as nought and one here, not constants of equal value.
-/

namespace CurveFormula

universe u

/-- The simplification rules, in the order of the standard table. -/
inductive Rule where
  | absorbParameter
  | divideByParameter
  | foldConstants
  | zeroIdentity
  | oneIdentity
  | inverseCancellation
  | identityElision
  | signNormalization
  deriving DecidableEq, Repr

namespace Rule

/-- The standard table. -/
def standard : List Rule :=
  [absorbParameter, divideByParameter, foldConstants, zeroIdentity, oneIdentity,
    inverseCancellation, identityElision, signNormalization]

/-- The name of a rule. -/
def name : Rule → Text
  | absorbParameter => "absorb_parameter".toList
  | divideByParameter => "divide_by_parameter".toList
  | foldConstants => "fold_constants".toList
  | zeroIdentity => "zero_identity".toList
  | oneIdentity => "one_identity".toList
  | inverseCancellation => "inverse_cancellation".toList
  | identityElision => "identity_elision".toList
  | signNormalization => "sign_normalization".toList

/-- The rule of a name. -/
def ofName? (s : Text) : Option Rule :=
  standard.find? fun r => r.name = s

theorem mem_standard (r : Rule) : r ∈ standard := by
  cases r <;> simp [standard]

variable {α : Type u}

/-- A parameter or a single number: what a parameter takes up as a right operand. -/
def isAbsorbed : Expr α → Bool
  | .param _ => true
  | .const _ => true
  | .zero => true
  | .one => true
  | _ => false

/-- A parameter takes up a function of it, or a parameter or number to its right. -/
def absorb? : Expr α → Option (Expr α)
  | .unary _ (.param p) => some (.param p)
  | .binary _ (.param p) r => if isAbsorbed r then some (.param p) else none
  | _ => none

/-- A division by a parameter becomes a multiplication. -/
def divide? : Expr α → Option (Expr α)
  | .binary .div l (.param p) => some (.binary .mul l (.param p))
  | _ => none

/-- A function or operator with numbers as operands is computed. -/
def fold? (K : Kernel α) : Expr α → Option (Expr α)
  | .unary op e => (e.constant? K).map fun v => .const (K.unary op v)
  | .binary op l r =>
    match l.constant? K, r.constant? K with
    | some v, some w => some (.const (K.binary op v w))
    | _, _ => none
  | _ => none

theorem fold?_unary {K : Kernel α} {op : UnaryOp} {e : Expr α} {v : α}
    (h : e.constant? K = some v) : fold? K (.unary op e) = some (.const (K.unary op v)) := by
  simp only [fold?, h, Option.map_some]

theorem fold?_binary {K : Kernel α} {op : BinaryOp} {l r : Expr α} {v w : α}
    (hl : l.constant? K = some v) (hr : r.constant? K = some w) :
    fold? K (.binary op l r) = some (.const (K.binary op v w)) := by
  simp only [fold?, hl, hr]

/-- Formulas whose value is nought, mostly. -/
def zero? : Expr α → Option (Expr α)
  | .binary .sub .var .var => some .zero
  | .binary .add .var (.unary .neg .var) => some .zero
  | .binary .add (.unary .neg .var) .var => some .zero
  | .binary .mul .zero _ => some .zero
  | .binary .mul _ .zero => some .zero
  | .binary .pow .zero _ => some .zero
  | _ => none

/-- Formulas whose value is one, up to the sign. -/
def one? : Expr α → Option (Expr α)
  | .binary .div .var .var => some .one
  | .binary .div .var (.unary .neg .var) => some .one
  | .binary .div (.unary .neg .var) .var => some .one
  | .binary .pow .one _ => some .one
  | .binary .pow _ .zero => some .one
  | _ => none

/-- The first function undoes the second. -/
def undoes : UnaryOp → UnaryOp → Bool
  | .neg, .neg => true
  | .ln, .exp => true
  | .exp, .ln => true
  | .sqrt, .square => true
  | .square, .sqrt => true
  | _, _ => false

/-- Two functions that undo each other vanish. -/
def cancel? : Expr α → Option (Expr α)
  | .unary f (.unary g e) => if undoes f g then some e else none
  | _ => none

/-- An operator with a neutral operand vanishes. -/
def elide? : Expr α → Option (Expr α)
  | .binary .add l .zero => some l
  | .binary .add .zero r => some r
  | .binary .sub l .zero => some l
  | .binary .mul l .one => some l
  | .binary .mul .one r => some r
  | .binary .div l .one => some l
  | .binary .pow l .one => some l
  | _ => none

/-- A difference from nought becomes a negation; the square of a negation loses it. -/
def sign? : Expr α → Option (Expr α)
  | .binary .sub .zero r => some (.unary .neg r)
  | .unary .square (.unary .neg e) => some (.unary .square e)
  | _ => none

/-- What a rule makes of a formula, looking at its root alone. -/
def result? (K : Kernel α) : Rule → Expr α → Option (Expr α)
  | absorbParameter, e => absorb? e
  | divideByParameter, e => divide? e
  | foldConstants, e => fold? K e
  | zeroIdentity, e => zero? e
  | oneIdentity, e => one? e
  | inverseCancellation, e => cancel? e
  | identityElision, e => elide? e
  | signNormalization, e => sign? e

end Rule

end CurveFormula
