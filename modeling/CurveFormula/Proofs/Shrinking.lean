import CurveFormula.Proofs.Pass

/-!
# A pass makes no formula larger

What a rule makes of a formula is a number, a part of the formula, or the formula with another
operator in its place. So no rule makes a formula larger or deeper, and a pass does not either
(`Expr.shrinks_simplify`).
-/

namespace CurveFormula

universe u

variable {α : Type u} {K : Kernel α}

namespace Expr

/-- The second formula is neither larger nor deeper than the first. -/
structure Shrinks (e e' : Expr α) : Prop where
  size_le : e'.size ≤ e.size
  depth_le : e'.depth ≤ e.depth

namespace Shrinks

theorem refl (e : Expr α) : Shrinks e e :=
  ⟨Nat.le_refl _, Nat.le_refl _⟩

theorem trans {e e' e'' : Expr α} (h : Shrinks e e') (h' : Shrinks e' e'') : Shrinks e e'' :=
  ⟨Nat.le_trans h'.size_le h.size_le, Nat.le_trans h'.depth_le h.depth_le⟩

theorem unary (op op' : UnaryOp) {e e' : Expr α} (h : Shrinks e e') :
    Shrinks (.unary op e) (.unary op' e') := by
  obtain ⟨hs, hd⟩ := h
  constructor
  · simp only [size_unary]
    omega
  · simp only [depth_unary]
    omega

theorem binary (op op' : BinaryOp) {l l' r r' : Expr α} (hl : Shrinks l l') (hr : Shrinks r r') :
    Shrinks (.binary op l r) (.binary op' l' r') := by
  obtain ⟨hsl, hdl⟩ := hl
  obtain ⟨hsr, hdr⟩ := hr
  constructor
  · simp only [size_binary]
    omega
  · simp only [depth_binary]
    omega

/-- Nothing is smaller than a leaf. -/
theorem leaf (e : Expr α) {e' : Expr α} (hs : e'.size = 1) (hd : e'.depth = 1) : Shrinks e e' :=
  ⟨hs ▸ e.size_pos, hd ▸ e.depth_pos⟩

theorem operand (op : UnaryOp) (e : Expr α) : Shrinks (.unary op e) e := by
  constructor
  · rw [size_unary]
    omega
  · rw [depth_unary]
    omega

theorem left (op : BinaryOp) (l r : Expr α) : Shrinks (.binary op l r) l := by
  constructor
  · rw [size_binary]
    omega
  · rw [depth_binary]
    omega

theorem right (op : BinaryOp) (l r : Expr α) : Shrinks (.binary op l r) r := by
  constructor
  · rw [size_binary]
    omega
  · rw [depth_binary]
    omega

end Shrinks

end Expr

open CurveFormula.Expr (Shrinks)

/-- No rule makes a formula larger or deeper. -/
theorem Rewrite.shrinks {e e' : Expr α} (h : Rewrite e e') : Shrinks e e' := by
  cases h with
  | number _ h' => rcases h' with rfl | rfl | ⟨c, rfl⟩ <;> exact .leaf _ rfl rfl
  | operand => exact .operand _ _
  | inner => exact (Shrinks.operand _ _).trans (.operand _ _)
  | left => exact .left _ _ _
  | right => exact .right _ _ _
  | product => exact .binary _ _ (.refl _) (.refl _)
  | negation =>
    constructor
    · simp only [Expr.size_unary, Expr.size_binary]
      omega
    · simp only [Expr.depth_unary, Expr.depth_binary]
      omega
  | square => exact .unary _ _ (.operand _ _)

/-- **A pass makes no formula larger or deeper.** -/
theorem Expr.shrinks_simplify (rules : List Rule) (t : Expr α) :
    Shrinks t (t.simplify K rules) := by
  refine simplify_induction (R := Shrinks) ?_ ?_ ?_ ?_ t
  · exact .refl
  · exact fun op _ _ h => h.unary op op
  · exact fun op _ _ _ _ hl hr => hl.binary op op hr
  · exact fun _ _ _ _ _ h hresult => h.trans (Rule.rewrite_of_result? hresult).shrinks

end CurveFormula
