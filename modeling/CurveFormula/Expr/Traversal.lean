import CurveFormula.Expr.Kind

/-!
# Traversals

The nodes of a formula in one of two orders. Depth first, a node comes before its parts and a part
before the next one; breadth first, the nodes come level by level. Each order is computed with a
list of nodes still to visit: the parts of a node go to its front or to its end.

`preorder` and `level` describe the two orders by recursion on the formula.
-/

namespace CurveFormula

universe u

namespace Expr

variable {α : Type u}

/-- The nodes of the formulas still to visit, the parts of a node being visited next. -/
def visitDeep : List (Expr α) → List (Expr α)
  | [] => []
  | e :: rest => e :: visitDeep (e.children ++ rest)
termination_by pending => sizes pending
decreasing_by
  have := size_eq_children e
  simp only [sizes_append, sizes]
  omega

/-- The nodes of the formulas still to visit, the parts of a node being visited last. -/
def visitWide : List (Expr α) → List (Expr α)
  | [] => []
  | e :: rest => e :: visitWide (rest ++ e.children)
termination_by pending => sizes pending
decreasing_by
  have := size_eq_children e
  simp only [sizes_append, sizes]
  omega

@[simp] theorem visitDeep_nil : visitDeep ([] : List (Expr α)) = [] := by
  rw [visitDeep]

theorem visitDeep_cons (e : Expr α) (rest : List (Expr α)) :
    visitDeep (e :: rest) = e :: visitDeep (e.children ++ rest) := by
  rw [visitDeep]

@[simp] theorem visitWide_nil : visitWide ([] : List (Expr α)) = [] := by
  rw [visitWide]

theorem visitWide_cons (e : Expr α) (rest : List (Expr α)) :
    visitWide (e :: rest) = e :: visitWide (rest ++ e.children) := by
  rw [visitWide]

/-- The nodes, each before its parts, left to right. -/
def preorder : Expr α → List (Expr α)
  | unary op e => unary op e :: e.preorder
  | binary op l r => binary op l r :: (l.preorder ++ r.preorder)
  | leaf => [leaf]

theorem preorder_of_leaf {e : Expr α} (h : e.children = []) : e.preorder = [e] := by
  cases e with
  | unary _ _ | binary _ _ _ => cases h
  | var | const _ | zero | one | param _ | poly _ _ => rfl

theorem preorder_eq_cons (e : Expr α) : e.preorder = e :: e.children.flatMap preorder := by
  cases e <;> simp [preorder, children]

/-- Visiting the parts of a node next gives the nodes of one formula after those of the other. -/
theorem visitDeep_eq_flatMap (pending : List (Expr α)) :
    visitDeep pending = pending.flatMap preorder := by
  induction pending using visitDeep.induct with
  | case1 => rw [visitDeep_nil, List.flatMap_nil]
  | case2 e rest ih =>
    rw [visitDeep_cons, ih, List.flatMap_append, List.flatMap_cons, preorder_eq_cons e]
    rfl

/-- The nodes that many steps below the root, left to right. -/
def level : Nat → Expr α → List (Expr α)
  | 0, e => [e]
  | n + 1, unary _ e => e.level n
  | n + 1, binary _ l r => l.level n ++ r.level n
  | _ + 1, _ => []

end Expr

/-- The order of a traversal. -/
inductive Order where
  | breadthFirst
  | depthFirst
  deriving DecidableEq, Repr

/-- The text names no order. -/
structure UnknownOrder where
  text : Text

/-- The report of a text that names no order. -/
def UnknownOrder.message (e : UnknownOrder) : Text :=
  "Invalid traversal_order: ".toList ++ e.text

/-- The order that a text names. -/
def Order.ofText (s : Text) : Except UnknownOrder Order :=
  if s = "breadth_first".toList then .ok .breadthFirst
  else if s = "depth_first".toList then .ok .depthFirst
  else .error ⟨s⟩

namespace Expr

variable {α : Type u}

/-- The nodes of a formula in an order, breadth first unless another order is asked for. -/
def nodes (e : Expr α) (order : Order := .breadthFirst) : List (Expr α) :=
  match order with
  | .breadthFirst => visitWide [e]
  | .depthFirst => visitDeep [e]

theorem nodes_depthFirst (e : Expr α) : e.nodes .depthFirst = e.preorder := by
  show visitDeep [e] = e.preorder
  rw [visitDeep_eq_flatMap, List.flatMap_singleton]

/-- The nodes of the kinds a name stands for, depth first. -/
def ofKind (name : Text) (e : Expr α) : List (Expr α) :=
  (e.nodes .depthFirst).filter fun n => n.kind ∈ Kind.ofName name

/-- The nodes of the operator a text names, depth first. -/
def withOperator (s : Text) (e : Expr α) : List (Expr α) :=
  match Operator.ofText? s with
  | some op => (e.nodes .depthFirst).filter fun n => n.operator? = some op
  | none => []

/-- The constants of a formula, left to right. -/
def constants (e : Expr α) : List α :=
  (e.nodes .depthFirst).filterMap fun
    | const c => some c
    | _ => none

/-- The letters of the parameters of a formula, left to right. Coefficients of sums of powers do
not count. -/
def parameters (e : Expr α) : List Letter :=
  (e.nodes .depthFirst).filterMap fun
    | param p => some p
    | _ => none

end Expr

end CurveFormula
