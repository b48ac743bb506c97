import CurveFormula.Simplify.Pass
import Mathlib.Tactic.SplitIfs

/-!
# What a simplification pass preserves

A pass rewrites the parts of a formula and then its root. `simplify_induction` says so once: a
relation between formulas that holds of equal ones, is kept by the operators and absorbs one rule
at the root holds between a formula and what a pass makes of it.

`Rewrite` lists what a rule can do at the root, and `Rule.rewrite_of_result?` says that there is
nothing else. In particular, a list that is gathered from the leaves keeps some of its entries, in
the same order (`gathered_simplify`). The letters of a formula are such a list.
-/

namespace CurveFormula

universe u v

variable {α : Type u} {K : Kernel α}

namespace Expr

/-- The root either stays as it is, or is what some rule of the table makes of it. -/
theorem reduceRoot_cases (K : Kernel α) (rules : List Rule) (e : Expr α) :
    e.reduceRoot K rules = e ∨
      ∃ rule ∈ rules, rule.result? K e = some (e.reduceRoot K rules) := by
  cases hh : e.hit? K rules with
  | none => exact Or.inl (reduceRoot_of_hit?_eq_none K rules hh)
  | some h =>
    obtain ⟨hmem, -, hresult⟩ := mem_of_hit? K rules hh
    rw [reduceRoot_of_hit? K rules hh]
    exact Or.inr ⟨h.rule, hmem, hresult⟩

/-- **Induction over a pass.** -/
theorem simplify_induction {rules : List Rule} {R : Expr α → Expr α → Prop}
    (refl : ∀ e, R e e)
    (unary : ∀ op e e', R e e' → R (.unary op e) (.unary op e'))
    (binary : ∀ op l l' r r', R l l' → R r r' → R (.binary op l r) (.binary op l' r'))
    (root : ∀ rule ∈ rules, ∀ e e' e'', R e e' → rule.result? K e' = some e'' → R e e'')
    (t : Expr α) : R t (t.simplify K rules) := by
  have hroot {e e' : Expr α} (h : R e e') : R e (e'.reduceRoot K rules) := by
    rcases reduceRoot_cases K rules e' with heq | ⟨rule, hmem, hresult⟩
    · rwa [heq]
    · exact root rule hmem e e' _ h hresult
  induction t with
  | unary op e ih => exact hroot (unary op _ _ ih)
  | binary op l r ihl ihr => exact hroot (binary op _ _ _ _ ihl ihr)
  | var | const _ | zero | one | param _ | poly _ _ => exact hroot (refl _)

end Expr

/-! ### What a rule does -/

/-- How a rule can change a formula at its root. -/
inductive Rewrite : Expr α → Expr α → Prop where
  /-- A function or an operator becomes a number. -/
  | number {e e' : Expr α} (h : e.children ≠ []) (h' : e' = .zero ∨ e' = .one ∨ ∃ c, e' = .const c) :
      Rewrite e e'
  | operand (op : UnaryOp) (e : Expr α) : Rewrite (.unary op e) e
  | inner (f g : UnaryOp) (e : Expr α) : Rewrite (.unary f (.unary g e)) e
  | left (op : BinaryOp) (l r : Expr α) : Rewrite (.binary op l r) l
  | right (op : BinaryOp) (l r : Expr α) : Rewrite (.binary op l r) r
  | product (l : Expr α) (p : Letter) :
      Rewrite (.binary .div l (.param p)) (.binary .mul l (.param p))
  | negation (r : Expr α) : Rewrite (.binary .sub .zero r) (.unary .neg r)
  | square (e : Expr α) : Rewrite (.unary .square (.unary .neg e)) (.unary .square e)

/-- What is rewritten is a function or an operator. -/
theorem Rewrite.children_ne_nil {e e' : Expr α} (h : Rewrite e e') : e.children ≠ [] := by
  cases h with
  | number h _ => exact h
  | operand | inner | left | right | product | negation | square => exact List.cons_ne_nil _ _

namespace Rule

theorem rewrite_absorb? {e e' : Expr α} (h : absorb? e = some e') : Rewrite e e' := by
  unfold absorb? at h
  split at h
  · cases h
    exact .operand _ _
  · split_ifs at h
    cases h
    exact .left _ _ _
  · cases h

/-- What is computed is a function or an operator, and becomes a constant. -/
theorem fold?_eq_some {e e' : Expr α} (h : fold? K e = some e') :
    e.children ≠ [] ∧ ∃ v, e' = .const v := by
  unfold fold? at h
  split at h
  · obtain ⟨v, -, rfl⟩ := Option.map_eq_some_iff.1 h
    exact ⟨by simp, _, rfl⟩
  · split at h
    · cases h
      exact ⟨by simp, _, rfl⟩
    · cases h
  · cases h

theorem rewrite_fold? {e e' : Expr α} (h : fold? K e = some e') : Rewrite e e' := by
  obtain ⟨hparts, v, rfl⟩ := fold?_eq_some h
  exact .number hparts (Or.inr (Or.inr ⟨v, rfl⟩))

/-- **Every rule changes a formula in one of these ways.** -/
theorem rewrite_of_result? {rule : Rule} {e e' : Expr α} (h : rule.result? K e = some e') :
    Rewrite e e' := by
  cases rule with
  | absorbParameter => exact rewrite_absorb? h
  | foldConstants => exact rewrite_fold? h
  | divideByParameter =>
    simp only [result?, divide?] at h
    split at h <;> cases h
    exact .product _ _
  | zeroIdentity =>
    simp only [result?, zero?] at h
    split at h <;> cases h <;> exact .number (by simp) (Or.inl rfl)
  | oneIdentity =>
    simp only [result?, one?] at h
    split at h <;> cases h <;> exact .number (by simp) (Or.inr (Or.inl rfl))
  | inverseCancellation =>
    simp only [result?, cancel?] at h
    split at h
    · split_ifs at h
      cases h
      exact .inner _ _ _
    · cases h
  | identityElision =>
    simp only [result?, elide?] at h
    split at h <;> cases h
    -- a neutral operand stands on the left in two of the cases
    · exact .left _ _ _
    · exact .right _ _ _
    · exact .left _ _ _
    · exact .left _ _ _
    · exact .right _ _ _
    · exact .left _ _ _
    · exact .left _ _ _
  | signNormalization =>
    simp only [result?, sign?] at h
    split at h <;> cases h
    · exact .negation _
    · exact .square _

/-- No rule applies to a leaf. -/
theorem result?_of_leaf {e : Expr α} (h : e.children = []) (rule : Rule) :
    rule.result? K e = none := by
  cases hr : rule.result? K e with
  | none => rfl
  | some e' => exact absurd h (rewrite_of_result? hr).children_ne_nil

end Rule

/-! ### What is gathered from the leaves -/

/-- A list that is gathered from the leaves, left to right, and to which numbers add nothing. -/
structure Gathered {β : Type v} (f : Expr α → List β) : Prop where
  zero : f .zero = []
  one : f .one = []
  const : ∀ c, f (.const c) = []
  unary : ∀ op e, f (.unary op e) = f e
  binary : ∀ op l r, f (.binary op l r) = f l ++ f r

section Gathered

variable {β : Type v} {f : Expr α → List β}

/-- No rule adds to what is gathered from the leaves or changes the order of it. -/
theorem Rewrite.gathered_sublist (hf : Gathered f) {e e' : Expr α} (h : Rewrite e e') :
    (f e').Sublist (f e) := by
  cases h with
  | number _ h' =>
    have hnil : f e' = [] := by
      rcases h' with rfl | rfl | ⟨c, rfl⟩
      · exact hf.zero
      · exact hf.one
      · exact hf.const c
    rw [hnil]
    exact List.nil_sublist _
  | operand _ _ | inner _ _ _ | square _ =>
    simp only [hf.unary]
    exact List.Sublist.refl _
  | left _ l r =>
    rw [hf.binary]
    exact List.sublist_append_left _ _
  | right _ l r =>
    rw [hf.binary]
    exact List.sublist_append_right _ _
  | product _ _ =>
    simp only [hf.binary]
    exact List.Sublist.refl _
  | negation _ =>
    rw [hf.binary, hf.unary]
    exact List.sublist_append_right _ _

/-- **A pass keeps some of what is gathered from the leaves, in its order, and adds nothing.** -/
theorem Expr.gathered_simplify (hf : Gathered f) (rules : List Rule) (t : Expr α) :
    (f (t.simplify K rules)).Sublist (f t) := by
  refine simplify_induction (R := fun e e' => (f e').Sublist (f e)) ?_ ?_ ?_ ?_ t
  · intro e
    exact List.Sublist.refl _
  · intro op e e' h
    rwa [hf.unary, hf.unary]
  · intro op l l' r r' hl hr
    rw [hf.binary, hf.binary]
    exact hl.append hr
  · intro rule _ e e' e'' h hresult
    exact ((Rule.rewrite_of_result? hresult).gathered_sublist hf).trans h

end Gathered

theorem Expr.gathered_letters : Gathered (Expr.letters : Expr α → List Letter) where
  zero := rfl
  one := rfl
  const _ := rfl
  unary _ _ := rfl
  binary _ _ _ := rfl

theorem Expr.letters_simplify (rules : List Rule) (t : Expr α) :
    (t.simplify K rules).letters.Sublist t.letters :=
  gathered_simplify gathered_letters rules t

end CurveFormula
