import CurveFormula.Expr.Basic

/-!
# Equality of formulas

Two formulas are the same if they have the same shape and their constants agree. How constants
agree is up to the value type; a value need not agree with itself.

A formula that was built once does equal itself, even so. `Occurrence` tells apart formulas that
were built at different places.
-/

namespace CurveFormula

universe u

namespace Expr

variable {α : Type u} (agree : α → α → Bool)

/-- The formulas have the same shape, and constants at the same place agree. -/
def same : Expr α → Expr α → Bool
  | var, var => true
  | const c, const d => agree c d
  | zero, zero => true
  | one, one => true
  | param p, param q => p = q
  | unary op e, unary op' e' => op = op' && same e e'
  | binary op l r, binary op' l' r' => op = op' && same l l' && same r r'
  | poly w n, poly w' n' => w = w' && n = n'
  | _, _ => false

theorem same_self (h : ∀ c, agree c c = true) (e : Expr α) : e.same agree e = true := by
  induction e <;> simp_all [same]

end Expr

/-- A formula together with the place where it was built. -/
structure Occurrence (α : Type u) where
  place : Nat
  expr : Expr α

namespace Occurrence

variable {α : Type u} (agree : α → α → Bool)

/-- The occurrences are equal: built at one place, or the same formulas. -/
def equals (a b : Occurrence α) : Bool :=
  a.place = b.place || a.expr.same agree b.expr

@[simp] theorem equals_self (a : Occurrence α) : a.equals agree a = true := by
  simp [equals]

/-- Keeps the occurrences that equal none of those kept before. -/
def distinctFrom (kept : List (Occurrence α)) : List (Occurrence α) → List (Occurrence α)
  | [] => []
  | a :: rest =>
    if kept.any fun k => k.equals agree a then distinctFrom kept rest
    else a :: distinctFrom (kept ++ [a]) rest

/-- The first occurrence of each distinct formula. -/
def distinct (l : List (Occurrence α)) : List (Occurrence α) :=
  distinctFrom agree [] l

end Occurrence

end CurveFormula
