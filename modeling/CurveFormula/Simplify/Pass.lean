import CurveFormula.Simplify.Rule

/-!
# One simplification pass

A pass goes through a formula from the leaves to the root. At every node, its parts being simplified
already, the first rule of the table that applies is applied once. The result of a rule is not
looked at again, so a second pass may find more to do.

`hits` lists the rules that a pass applies, in the order it applies them.
-/

namespace CurveFormula

universe u

/-- A rule applied at a node. -/
structure Hit (α : Type u) where
  rule : Rule
  /-- The formula at the node, its parts simplified. -/
  before : Expr α
  after : Expr α

namespace Expr

variable {α : Type u} (K : Kernel α) (rules : List Rule)

/-- The first rule that applies at the root. -/
def hit? (e : Expr α) : Option (Hit α) :=
  rules.findSome? fun r => (r.result? K e).map fun e' => ⟨r, e, e'⟩

/-- The formula after the first rule that applies at the root. -/
def reduceRoot (e : Expr α) : Expr α :=
  match e.hit? K rules with
  | some h => h.after
  | none => e

/-- One simplification pass. -/
def simplify : Expr α → Expr α
  | unary op e => (unary op e.simplify).reduceRoot K rules
  | binary op l r => (binary op l.simplify r.simplify).reduceRoot K rules
  | leaf => leaf.reduceRoot K rules

/-- The rules that a pass applies, in the order it applies them. -/
def hits : Expr α → List (Hit α)
  | unary op e => e.hits ++ ((unary op (e.simplify K rules)).hit? K rules).toList
  | binary op l r =>
    l.hits ++ r.hits ++
      ((binary op (l.simplify K rules) (r.simplify K rules)).hit? K rules).toList
  | leaf => (leaf.hit? K rules).toList

@[simp] theorem simplify_unary (op : UnaryOp) (e : Expr α) :
    (unary op e).simplify K rules = (unary op (e.simplify K rules)).reduceRoot K rules := rfl

@[simp] theorem simplify_binary (op : BinaryOp) (l r : Expr α) :
    (binary op l r).simplify K rules =
      (binary op (l.simplify K rules) (r.simplify K rules)).reduceRoot K rules := rfl

theorem reduceRoot_of_hit? {e : Expr α} {h : Hit α} (hh : e.hit? K rules = some h) :
    e.reduceRoot K rules = h.after := by
  simp [reduceRoot, hh]

theorem reduceRoot_of_hit?_eq_none {e : Expr α} (h : e.hit? K rules = none) :
    e.reduceRoot K rules = e := by
  simp [reduceRoot, h]

/-- A hit comes from a rule of the table and says what the rule makes of the formula. -/
theorem mem_of_hit? {e : Expr α} {h : Hit α} (hh : e.hit? K rules = some h) :
    h.rule ∈ rules ∧ h.before = e ∧ h.rule.result? K e = some h.after := by
  obtain ⟨r, hr, hs⟩ := List.exists_of_findSome?_eq_some hh
  obtain ⟨e', he, rfl⟩ := Option.map_eq_some_iff.1 hs
  exact ⟨hr, rfl, he⟩

/-- The rules before the one that is applied do not apply. -/
theorem eq_none_of_hit? {rules : List Rule} {e : Expr α} {h : Hit α}
    (hh : e.hit? K rules = some h) :
    ∀ rule ∈ rules.takeWhile (· ≠ h.rule), rule.result? K e = none := by
  induction rules with
  | nil => cases hh
  | cons first rest ih =>
    rw [hit?, List.findSome?_cons] at hh
    cases hfirst : first.result? K e with
    | some e' =>
      rw [hfirst] at hh
      cases hh
      simp
    | none =>
      rw [hfirst] at hh
      intro rule hrule
      by_cases hne : first ≠ h.rule
      · rw [List.takeWhile_cons_of_pos (by simpa using hne)] at hrule
        rcases List.mem_cons.1 hrule with rfl | hrule
        · exact hfirst
        · exact ih hh rule hrule
      · rw [List.takeWhile_cons_of_neg (by simpa using hne)] at hrule
        cases hrule

/-- Nothing is hit exactly when no rule of the table applies. -/
theorem hit?_eq_none_iff {e : Expr α} :
    e.hit? K rules = none ↔ ∀ r ∈ rules, r.result? K e = none := by
  simp [hit?]

/-- The results of so many successive passes. -/
def passes (e : Expr α) : Nat → List (Expr α)
  | 0 => []
  | n + 1 => e.simplify K rules :: passes (e.simplify K rules) n

end Expr

end CurveFormula
