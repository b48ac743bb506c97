import CurveFormula.Expr.Kind
import CurveFormula.Expr.Traversal
import CurveFormula.Proofs.Shrinking
import Mathlib.Logic.Function.Iterate

/-!
# Repeated passes come to rest

A division by a parameter becomes a product of the same size, so the size of a formula alone does
not show that passes come to an end. `Expr.bulk` counts the nodes and, once more, the divisions.
Every rule takes some of it away (`Rewrite.bulk_lt`), whatever the table, and so a pass takes away
at least as much as it has hits (`Expr.bulk_simplify`).

A pass without hits changes nothing, and a pass has no hits exactly if no rule applies at any node
(`Expr.hits_eq_nil_iff`). `Expr.simplify_comes_to_rest` puts this together.
-/

namespace CurveFormula

universe u

variable {α : Type u}

namespace Expr

/-- How many divisions the formula has. -/
def quotients (e : Expr α) : ℕ :=
  e.preorder.countP fun m => m.operator? = some (.binary .div)

/-- The nodes of the formula, every division counted twice. -/
def bulk (e : Expr α) : ℕ :=
  e.size + e.quotients

@[simp] theorem bulk_unary (op : UnaryOp) (e : Expr α) : (unary op e).bulk = e.bulk + 1 := by
  simp [bulk, quotients, preorder, operator?]
  omega

@[simp] theorem bulk_binary (op : BinaryOp) (l r : Expr α) :
    (binary op l r).bulk = l.bulk + r.bulk + 1 + if op = .div then 1 else 0 := by
  simp [bulk, quotients, preorder, operator?, List.countP_cons]
  omega

theorem bulk_leaf {e : Expr α} (h : e.children = []) : e.bulk = 1 := by
  cases e with
  | unary _ _ | binary _ _ _ => cases h
  | var | const _ | zero | one | param _ | poly _ _ => rfl

theorem bulk_pos (e : Expr α) : 0 < e.bulk :=
  Nat.add_pos_left e.size_pos _

theorem one_lt_bulk {e : Expr α} (h : e.children ≠ []) : 1 < e.bulk := by
  cases e with
  | unary op e =>
    have := e.bulk_pos
    rw [bulk_unary]
    omega
  | binary op l r =>
    have := l.bulk_pos
    rw [bulk_binary]
    omega
  | var | const _ | zero | one | param _ | poly _ _ => exact absurd rfl h

end Expr

/-- **Every rule takes away a node or a division.** -/
theorem Rewrite.bulk_lt {e e' : Expr α} (h : Rewrite e e') : e'.bulk < e.bulk := by
  cases h with
  | number hparts h' =>
    have hleaf : e'.children = [] := by rcases h' with rfl | rfl | ⟨c, rfl⟩ <;> rfl
    rw [Expr.bulk_leaf hleaf]
    exact Expr.one_lt_bulk hparts
  | operand op e =>
    rw [Expr.bulk_unary]
    omega
  | inner f g e =>
    rw [Expr.bulk_unary, Expr.bulk_unary]
    omega
  | left op l r =>
    rw [Expr.bulk_binary]
    omega
  | right op l r =>
    rw [Expr.bulk_binary]
    omega
  | product l p =>
    -- the size stays the same here
    rw [Expr.bulk_binary, Expr.bulk_binary, if_neg (by decide), if_pos rfl]
    omega
  | negation r =>
    have := (Expr.zero : Expr α).bulk_pos
    rw [Expr.bulk_unary, Expr.bulk_binary, if_neg (by decide)]
    omega
  | square e =>
    rw [Expr.bulk_unary, Expr.bulk_unary, Expr.bulk_unary]
    omega

namespace Expr

variable (K : Kernel α) (rules : List Rule)

/-! ### Hits -/

theorem bulk_reduceRoot (e : Expr α) :
    (e.reduceRoot K rules).bulk + (e.hit? K rules).toList.length ≤ e.bulk := by
  cases hh : e.hit? K rules with
  | none =>
    rw [reduceRoot_of_hit?_eq_none K rules hh]
    exact Nat.le_refl _
  | some h =>
    obtain ⟨-, -, hresult⟩ := mem_of_hit? K rules hh
    rw [reduceRoot_of_hit? K rules hh]
    exact (Rule.rewrite_of_result? hresult).bulk_lt

/-- **A pass takes away at least as much as it has hits.** -/
theorem bulk_simplify (t : Expr α) :
    (t.simplify K rules).bulk + (t.hits K rules).length ≤ t.bulk := by
  induction t with
  | unary op e ih =>
    have hroot := bulk_reduceRoot K rules (unary op (e.simplify K rules))
    rw [bulk_unary] at hroot
    rw [simplify_unary, bulk_unary, hits, List.length_append]
    omega
  | binary op l r ihl ihr =>
    have hroot := bulk_reduceRoot K rules (binary op (l.simplify K rules) (r.simplify K rules))
    rw [bulk_binary] at hroot
    rw [simplify_binary, bulk_binary, hits, List.length_append, List.length_append]
    omega
  | var | const _ | zero | one | param _ | poly _ _ => exact bulk_reduceRoot K rules _

variable {K rules}

theorem reduceRoot_eq_self_of_toList {e : Expr α} (h : (e.hit? K rules).toList = []) :
    e.reduceRoot K rules = e :=
  reduceRoot_of_hit?_eq_none K rules (Option.toList_eq_nil_iff.1 h)

/-- A pass without hits changes nothing. -/
theorem simplify_of_hits_eq_nil {t : Expr α} (h : t.hits K rules = []) :
    t.simplify K rules = t := by
  induction t with
  | unary op e ih =>
    obtain ⟨he, hroot⟩ := List.append_eq_nil_iff.1 h
    rw [simplify_unary, reduceRoot_eq_self_of_toList hroot, ih he]
  | binary op l r ihl ihr =>
    obtain ⟨hparts, hroot⟩ := List.append_eq_nil_iff.1 h
    obtain ⟨hl, hr⟩ := List.append_eq_nil_iff.1 hparts
    rw [simplify_binary, reduceRoot_eq_self_of_toList hroot, ihl hl, ihr hr]
  | var | const _ | zero | one | param _ | poly _ _ => exact reduceRoot_eq_self_of_toList h

/-- **A pass changes nothing exactly if it has no hits.** -/
theorem simplify_eq_self_iff {t : Expr α} : t.simplify K rules = t ↔ t.hits K rules = [] := by
  constructor
  · intro h
    have hbulk := bulk_simplify K rules t
    rw [h] at hbulk
    exact List.length_eq_zero_iff.1 (by omega)
  · exact simplify_of_hits_eq_nil

/-- **A pass has no hits exactly if no rule applies at any node.** -/
theorem hits_eq_nil_iff {t : Expr α} :
    t.hits K rules = [] ↔ ∀ n ∈ t.preorder, n.hit? K rules = none := by
  induction t with
  | unary op e ih =>
    rw [hits, preorder, List.append_eq_nil_iff, Option.toList_eq_nil_iff, List.forall_mem_cons,
      and_comm, ← ih]
    -- without hits below, the root is looked at as it was
    refine and_congr_left fun he => ?_
    rw [simplify_of_hits_eq_nil he]
  | binary op l r ihl ihr =>
    rw [hits, preorder, List.append_eq_nil_iff, List.append_eq_nil_iff, Option.toList_eq_nil_iff,
      List.forall_mem_cons, List.forall_mem_append, and_comm, ← ihl, ← ihr]
    refine and_congr_left ?_
    rintro ⟨hl, hr⟩
    rw [simplify_of_hits_eq_nil hl, simplify_of_hits_eq_nil hr]
  | var | const _ | zero | one | param _ | poly _ _ =>
    rw [preorder_of_leaf rfl, List.forall_mem_singleton]
    exact Option.toList_eq_nil_iff

/-! ### Repeated passes -/

variable (K rules)

/-- After at most as many passes as the bulk of the formula, one more changes nothing. -/
theorem exists_iterate_fixed (t : Expr α) :
    ∃ k ≤ t.bulk, (simplify K rules)^[k + 1] t = (simplify K rules)^[k] t := by
  induction hbulk : t.bulk using Nat.strongRecOn generalizing t with
  | ind m ih =>
    by_cases hfixed : t.simplify K rules = t
    · exact ⟨0, Nat.zero_le _, hfixed⟩
    · have hhits : t.hits K rules ≠ [] := fun h => hfixed (simplify_eq_self_iff.2 h)
      have hlength := List.length_pos_iff.2 hhits
      have hpass := bulk_simplify K rules t
      obtain ⟨k, hk, hrest⟩ := ih (t.simplify K rules).bulk (by omega) (t.simplify K rules) rfl
      exact ⟨k + 1, by omega, hrest⟩

/-- **Repeated passes come to rest.** For every table, a pass takes away at least as much bulk as it
has hits, and makes no formula larger or deeper. It leaves a formula as it is exactly if no rule of
the table applies at any node, and this is so after at most as many passes as the bulk of the
formula. -/
theorem simplify_comes_to_rest (t : Expr α) :
    (t.simplify K rules).bulk + (t.hits K rules).length ≤ t.bulk ∧
      (t.simplify K rules).size ≤ t.size ∧ (t.simplify K rules).depth ≤ t.depth ∧
      (t.simplify K rules = t ↔ ∀ n ∈ t.preorder, ∀ rule ∈ rules, rule.result? K n = none) ∧
      ∃ k ≤ t.bulk, ∀ n, (simplify K rules)^[n] ((simplify K rules)^[k] t) =
        (simplify K rules)^[k] t := by
  obtain ⟨hsize, hdepth⟩ := shrinks_simplify (K := K) rules t
  refine ⟨bulk_simplify K rules t, hsize, hdepth, ?_, ?_⟩
  · rw [simplify_eq_self_iff, hits_eq_nil_iff]
    exact forall₂_congr fun n _ => hit?_eq_none_iff K rules
  · obtain ⟨k, hk, hfixed⟩ := exists_iterate_fixed K rules t
    rw [Function.iterate_succ_apply'] at hfixed
    exact ⟨k, hk, fun n => Function.iterate_fixed hfixed n⟩

end Expr

end CurveFormula
