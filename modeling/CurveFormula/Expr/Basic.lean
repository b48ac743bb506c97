import CurveFormula.Letter
import CurveFormula.Operator
import CurveFormula.Weights

/-!
# Formulas

A formula is a tree over one variable, constants of some value type, parameter letters, the
operators, and two compact leaves: a polynomial and an exponential series, given by their degree
alone because their coefficients are the first letters of the alphabet.

`zero` and `one` are the exact numbers nought and one. They differ from constants that happen to
have the same value: the simplification rules treat them specially.
-/

namespace CurveFormula

universe u

/-- A formula with constants in `α`. -/
inductive Expr (α : Type u) where
  | var
  | const (value : α)
  /-- The exact nought. -/
  | zero
  /-- The exact one. -/
  | one
  | param (letter : Letter)
  | unary (op : UnaryOp) (operand : Expr α)
  | binary (op : BinaryOp) (left right : Expr α)
  /-- A sum of powers of the variable, with the first letters as coefficients. -/
  | poly (weights : Weights) (degree : Fin 24)
  deriving DecidableEq

namespace Expr

variable {α : Type u}

/-- The direct parts of a formula, left to right. -/
def children : Expr α → List (Expr α)
  | unary _ e => [e]
  | binary _ l r => [l, r]
  | _ => []

/-- The number of nodes. -/
def size : Expr α → Nat
  | unary _ e => 1 + e.size
  | binary _ l r => 1 + l.size + r.size
  | _ => 1

/-- The number of nodes of several formulas. -/
def sizes : List (Expr α) → Nat
  | [] => 0
  | e :: rest => e.size + sizes rest

/-- The number of nodes on a longest path from the root to a leaf. -/
def depth : Expr α → Nat
  | unary _ e => 1 + e.depth
  | binary _ l r => 1 + max l.depth r.depth
  | _ => 1

/-- The parameters in the order they are written, repetitions included. -/
def letters : Expr α → List Letter
  | param p => [p]
  | unary _ e => e.letters
  | binary _ l r => l.letters ++ r.letters
  | poly _ n => Letter.upTo n
  | _ => []

/-- Some constant of the formula satisfies the test. -/
def anyConst (test : α → Bool) : Expr α → Bool
  | const c => test c
  | unary _ e => e.anyConst test
  | binary _ l r => l.anyConst test || r.anyConst test
  | _ => false

/-- The formula of the same kind over new parts; `none` if their number does not fit. A leaf has
no parts to replace and stays as it is. -/
def withChildren? : Expr α → List (Expr α) → Option (Expr α)
  | unary op _, [e] => some (unary op e)
  | binary op _ _, [l, r] => some (binary op l r)
  | unary _ _, _ => none
  | binary _ _ _, _ => none
  | leaf, _ => some leaf

@[simp] theorem children_unary (op : UnaryOp) (e : Expr α) : (unary op e).children = [e] := rfl

@[simp] theorem children_binary (op : BinaryOp) (l r : Expr α) :
    (binary op l r).children = [l, r] := rfl

@[simp] theorem size_unary (op : UnaryOp) (e : Expr α) : (unary op e).size = 1 + e.size := rfl

@[simp] theorem size_binary (op : BinaryOp) (l r : Expr α) :
    (binary op l r).size = 1 + l.size + r.size := rfl

@[simp] theorem depth_unary (op : UnaryOp) (e : Expr α) : (unary op e).depth = 1 + e.depth := rfl

@[simp] theorem depth_binary (op : BinaryOp) (l r : Expr α) :
    (binary op l r).depth = 1 + max l.depth r.depth := rfl

@[simp] theorem letters_unary (op : UnaryOp) (e : Expr α) : (unary op e).letters = e.letters := rfl

@[simp] theorem letters_binary (op : BinaryOp) (l r : Expr α) :
    (binary op l r).letters = l.letters ++ r.letters := rfl

theorem size_pos (e : Expr α) : 0 < e.size := by
  cases e <;> simp only [size] <;> omega

theorem depth_pos (e : Expr α) : 0 < e.depth := by
  cases e <;> simp only [depth] <;> omega

theorem sizes_append (l l' : List (Expr α)) : sizes (l ++ l') = sizes l + sizes l' := by
  induction l with
  | nil => simp [sizes]
  | cons e rest ih =>
    simp only [List.cons_append, sizes, ih]
    omega

theorem size_eq_children (e : Expr α) : e.size = 1 + sizes e.children := by
  cases e <;> simp [size, sizes, children]
  omega

@[simp] theorem withChildren?_children (e : Expr α) : e.withChildren? e.children = some e := by
  cases e <;> rfl

end Expr

end CurveFormula
