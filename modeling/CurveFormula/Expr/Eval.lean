import CurveFormula.Binding
import CurveFormula.Expr.Basic
import CurveFormula.Kernel

/-!
# Evaluation at a point

The value of a formula over a kernel, at a value of the variable and under a binding. Operands are
evaluated from left to right, all of them, so the first letter without a value in reading order is
the one reported.
-/

namespace CurveFormula.Expr

universe u

variable {α : Type u} (K : Kernel α)

/-- The value of a formula. -/
def eval (x : α) (b : Binding α) : Expr α → Except Unbound α
  | var => .ok x
  | const c => .ok c
  | zero => .ok K.zero
  | one => .ok K.one
  | param p => b.lookup p
  | unary op e => do
    let v ← e.eval x b
    return K.unary op v
  | binary op l r => do
    let v ← l.eval x b
    let w ← r.eval x b
    return K.binary op v w
  | poly w n => do
    let cs ← b.lookupAll (Letter.upTo n)
    return K.series w x cs

@[simp] theorem eval_var (x : α) (b : Binding α) : (var : Expr α).eval K x b = .ok x := rfl

@[simp] theorem eval_const (x c : α) (b : Binding α) : (const c).eval K x b = .ok c := rfl

@[simp] theorem eval_zero (x : α) (b : Binding α) : (zero : Expr α).eval K x b = .ok K.zero := rfl

@[simp] theorem eval_one (x : α) (b : Binding α) : (one : Expr α).eval K x b = .ok K.one := rfl

@[simp] theorem eval_param (x : α) (b : Binding α) (p : Letter) :
    (param p).eval K x b = b.lookup p := rfl

theorem eval_unary_of_ok {op : UnaryOp} {e : Expr α} {x v : α} {b : Binding α}
    (h : e.eval K x b = .ok v) : (unary op e).eval K x b = .ok (K.unary op v) := by
  simp only [eval, h]
  rfl

theorem eval_unary_of_error {op : UnaryOp} {e : Expr α} {x : α} {b : Binding α} {u : Unbound}
    (h : e.eval K x b = .error u) : (unary op e).eval K x b = .error u := by
  simp only [eval, h]
  rfl

theorem eval_binary_of_ok {op : BinaryOp} {l r : Expr α} {x v w : α} {b : Binding α}
    (hl : l.eval K x b = .ok v) (hr : r.eval K x b = .ok w) :
    (binary op l r).eval K x b = .ok (K.binary op v w) := by
  simp only [eval, hl, hr]
  rfl

theorem eval_binary_of_error_left {op : BinaryOp} {l r : Expr α} {x : α} {b : Binding α}
    {u : Unbound} (h : l.eval K x b = .error u) : (binary op l r).eval K x b = .error u := by
  simp only [eval, h]
  rfl

theorem eval_binary_of_error_right {op : BinaryOp} {l r : Expr α} {x v : α} {b : Binding α}
    {u : Unbound} (hl : l.eval K x b = .ok v) (hr : r.eval K x b = .error u) :
    (binary op l r).eval K x b = .error u := by
  simp only [eval, hl, hr]
  rfl

/-- The value of a formula that is a single number. -/
def constant? : Expr α → Option α
  | const c => some c
  | zero => some K.zero
  | one => some K.one
  | _ => none

theorem eval_of_constant? {e : Expr α} {v : α} (h : e.constant? K = some v) (x : α)
    (b : Binding α) : e.eval K x b = .ok v := by
  cases e <;> simp_all [constant?, eval]

end CurveFormula.Expr
