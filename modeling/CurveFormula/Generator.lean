import CurveFormula.Expr.Build
import CurveFormula.Params.Draw
import CurveFormula.Simplify.Pass

/-!
# Random formulas

A formula is grown from a budget of operators. A budget of nought gives a leaf: the variable, or a
parameter with a drawn name. Otherwise one operator is drawn and the rest of the budget goes to its
operands; an operator of two operands shares it at a split point. The split point is drawn before
the operator, and functions do not use it.

A candidate is a grown formula after one simplification pass, with a drawn value for each of its
parameters. Draws made before an error stay made.
-/

namespace CurveFormula

universe u v w

/-- What random formulas are made from: names, which need not be letters, and the ends of the budgets
and of the values. -/
structure Generator (α : Type u) where
  names : List Text
  names_ne_nil : names ≠ []
  budgets : Int × Int
  values : α × α

/-- Why a generator draws nothing. -/
inductive GenerateError where
  | negativeBudget (budget : Int)
  | emptyRange (range : Source.EmptyRange)
  | badName (cause : BuildError)
  deriving DecidableEq, Repr

/-- The report of a generator that draws nothing. -/
def GenerateError.message : GenerateError → Text
  | .negativeBudget n => "Complexity must be non-negative, got ".toList ++ Text.ofInt n
  | .emptyRange r =>
    "empty range for randrange() (".toList ++
      Text.join [',', ' ']
        [Text.ofInt r.low, Text.ofInt (r.high + 1), Text.ofInt (r.high + 1 - r.low)] ++
      [')']
  | .badName e => e.message

/-- A simplified random formula with values for its parameters, beside the formula as it was grown
from its budget. -/
structure Candidate (α : Type u) where
  budget : Int
  grown : Expr α
  expr : Expr α
  params : Params α

namespace Generator

variable {α : Type u} {σ : Type v} (S : Source α σ)

/-- Goes on with the value of a draw. A failure ends the draws and keeps those made. -/
def andThen {ε : Type} {β : Type w} {γ : Type u} (r : Except ε β × σ)
    (next : β → σ → Except ε γ × σ) : Except ε γ × σ :=
  match r.1 with
  | .ok v => next v r.2
  | .error e => (.error e, r.2)

@[simp] theorem andThen_ok {ε : Type} {β : Type w} {γ : Type u} (v : β) (s : σ)
    (next : β → σ → Except ε γ × σ) : andThen (.ok v, s) next = next v s := rfl

@[simp] theorem andThen_error {ε : Type} {β : Type w} {γ : Type u} (e : ε) (s : σ)
    (next : β → σ → Except ε γ × σ) : andThen (.error e, s) next = (.error e, s) := rfl

/-- Grows a formula with so many operators. -/
def grow (names : List Text) (h : names ≠ []) : Nat → σ → Except BuildError (Expr α) × σ
  | 0, s =>
    let coin := S.below 2 (by decide) s
    if coin.1.val = 0 then (.ok .var, coin.2)
    else
      let name := S.choice names h coin.2
      (Expr.ofName name.1, name.2)
  | n + 1, s =>
    let split := S.below (n + 1) (Nat.succ_pos n) s
    let op := S.choice Operator.all (by decide) split.2
    match op.1 with
    | .unary f => andThen (grow names h n op.2) fun e s => (.ok (.unary f e), s)
    | .binary f =>
      andThen (grow names h split.1.val op.2) fun l s =>
        andThen (grow names h (n - split.1.val) s) fun r s => (.ok (.binary f l r), s)
termination_by n => n

variable (g : Generator α)

/-- A random formula with so many operators. -/
def generate (budget : Int) (s : σ) : Except GenerateError (Expr α) × σ :=
  if budget < 0 then (.error (.negativeBudget budget), s)
  else
    let r := grow S g.names g.names_ne_nil budget.toNat s
    (r.1.mapError .badName, r.2)

/-- A budget that is not negative is grown. -/
theorem generate_natCast (n : Nat) (s : σ) :
    g.generate S n s = ((grow S g.names g.names_ne_nil n s).1.mapError .badName,
      (grow S g.names g.names_ne_nil n s).2) := by
  have hn : ¬(n : Int) < 0 := by omega
  simp only [generate, hn, if_false, Int.toNat_natCast]

/-- A random budget. -/
def budget (s : σ) : Except GenerateError Int × σ :=
  let r := S.integer g.budgets.1 g.budgets.2 s
  (r.1.mapError .emptyRange, r.2)

/-- A random value for every distinct name. -/
def params (names : List Text) (s : σ) : Params α × σ :=
  Params.draw S g.values.1 g.values.2 names s

/-- A simplified random formula with values, of a given budget. -/
def candidateOf (K : Kernel α) (n : Int) (s : σ) : Except GenerateError (Candidate α) × σ :=
  andThen (g.generate S n s) fun e s =>
    let simple := e.simplify K Rule.standard
    let p := g.params S (simple.letters.map Letter.text) s
    (.ok ⟨n, e, simple, p.1⟩, p.2)

/-- A simplified random formula with values. Without a given budget one is drawn. -/
def candidate (K : Kernel α) (n : Option Int) (s : σ) : Except GenerateError (Candidate α) × σ :=
  match n with
  | some n => g.candidateOf S K n s
  | none => andThen (g.budget S s) fun n s => g.candidateOf S K n s

end Generator

end CurveFormula
