import CurveFormula.Expr.Traversal
import CurveFormula.Proofs.Missing
import CurveFormula.Proofs.Pass
import Mathlib.Logic.Function.Iterate

/-!
# What passes keep of the leaves

A pass brings in no letter and no sum of powers, and those that are left stand in their old order,
however often it is repeated and whatever the table (`Expr.leaves_of_passes`). The nodes of some
kinds are gathered from the leaves if operators and numbers are not of these kinds
(`Expr.gathered_ofKind`); sums of powers have two kinds, and one name stands for both.

Evaluation and plotting succeed exactly if all letters have values, so a binding that is enough for
a formula is enough for what passes make of it.
-/

namespace CurveFormula

universe u v

variable {α : Type u} {b : Binding α}

/-- Who reports the letters without values succeeds exactly if there are none. -/
theorem Reports.exists_ok_iff {ε : Type} {β : Type v} {ps : List Letter} {cause : Unbound → ε}
    {r : Except ε β} (h : Reports b ps cause r) :
    (∃ v, r = .ok v) ↔ ∀ p ∈ ps, b p ≠ none := by
  constructor
  · rintro ⟨v, rfl⟩ p hp hnone
    obtain ⟨fault, hfault⟩ := h.error_iff.2 ⟨p, hp, hnone⟩
    cases hfault
  · intro hall
    cases r with
    | ok v => exact ⟨v, rfl⟩
    | error fault =>
      obtain ⟨p, hp, hnone⟩ := h.error_iff.1 ⟨fault, rfl⟩
      exact absurd hnone (hall p hp)

/-- Who gets enough from a binding gets enough for fewer letters. -/
theorem Reports.exists_ok_of_subset {ε : Type} {β : Type v} {ps qs : List Letter}
    {cause : Unbound → ε} {r r' : Except ε β} (h : Reports b ps cause r)
    (h' : Reports b qs cause r') (hsub : qs ⊆ ps) (hok : ∃ v, r = .ok v) : ∃ v, r' = .ok v :=
  h'.exists_ok_iff.2 fun p hp => h.exists_ok_iff.1 hok p (hsub hp)

namespace Expr

/-! ### Nodes of a kind -/

theorem ofKind_eq_filter (name : Text) (e : Expr α) :
    ofKind name e = e.preorder.filter fun n => n.kind ∈ Kind.ofName name := by
  rw [ofKind, nodes_depthFirst]

/-- Where the root is of another kind, the nodes of some kinds are those of the parts. -/
theorem ofKind_of_notMem {name : Text} {e : Expr α} (h : e.kind ∉ Kind.ofName name) :
    ofKind name e = e.children.flatMap (ofKind name) := by
  rw [ofKind_eq_filter, preorder_eq_cons, List.filter_cons_of_neg (by simpa using h),
    List.filter_flatMap, funext (ofKind_eq_filter name)]

/-- The nodes of some kinds are gathered from the leaves if operators and numbers are of others. -/
theorem gathered_ofKind {name : Text}
    (h : ∀ k ∈ [Kind.zero, .one, .const, .unary, .binary], k ∉ Kind.ofName name) :
    Gathered (ofKind name : Expr α → List (Expr α)) where
  zero := ofKind_of_notMem (h .zero (by decide))
  one := ofKind_of_notMem (h .one (by decide))
  const _ := ofKind_of_notMem (h .const (by decide))
  unary op e := by
    rw [ofKind_of_notMem (h .unary (by decide)), children_unary, List.flatMap_singleton]
  binary op l r := by
    rw [ofKind_of_notMem (h .binary (by decide)), children_binary, List.flatMap_cons,
      List.flatMap_singleton]

/-- The sums of powers of a formula are gathered from its leaves. -/
theorem gathered_sums : Gathered (ofKind Kind.polynomial.name : Expr α → List (Expr α)) :=
  gathered_ofKind (by decide)

/-! ### Repeated passes -/

variable (K : Kernel α) (rules : List Rule)

theorem gathered_iterate {β : Type v} {f : Expr α → List β} (hf : Gathered f) (n : ℕ)
    (t : Expr α) : (f ((simplify K rules)^[n] t)).Sublist (f t) := by
  induction n with
  | zero => exact List.Sublist.refl _
  | succ n ih =>
    rw [Function.iterate_succ_apply']
    exact (gathered_simplify hf rules _).trans ih

/-- **Passes bring in no letter and no sum of powers.** For every table and every number of passes,
the letters of the result are some of the letters of the formula, in their order, and its sums of
powers are some of those of the formula. So where a value, a column of values or a plot text of the
formula is found with a binding, it is found of the result. -/
theorem leaves_of_passes (n : ℕ) (t : Expr α) :
    ((simplify K rules)^[n] t).letters.Sublist t.letters ∧
      (ofKind Kind.polynomial.name ((simplify K rules)^[n] t)).Sublist
        (ofKind Kind.polynomial.name t) ∧
      ∀ b : Binding α,
        (∀ (K' : Kernel α) (x : α), (∃ v, t.eval K' x b = .ok v) →
          ∃ v, ((simplify K rules)^[n] t).eval K' x b = .ok v) ∧
        (∀ (C : ColumnKernel α) (xs : List α), (∃ vs, t.evalMany C xs b = .ok vs) →
          ∃ vs, ((simplify K rules)^[n] t).evalMany C xs b = .ok vs) ∧
        ∀ N : Numerals α, (∃ s, t.plot N (some b) = .ok s) →
          ∃ s, ((simplify K rules)^[n] t).plot N (some b) = .ok s := by
  have hletters := gathered_iterate K rules gathered_letters n t
  refine ⟨hletters, gathered_iterate K rules gathered_sums n t, fun b => ⟨?_, ?_, ?_⟩⟩
  · intro K' x
    have hvalue (e : Expr α) : Reports b e.letters id (e.eval K' x b) :=
      reports_of_missing (fun _ hp => eval_of_missing hp) exists_eval
    exact (hvalue t).exists_ok_of_subset (hvalue _) hletters.subset
  · intro C xs
    have hcolumn (e : Expr α) : Reports b e.letters ColumnFault.unbound (e.evalMany C xs b) := by
      refine reports_of_missing (fun _ hp => evalMany_of_missing xs hp) fun hall => ?_
      obtain ⟨vs, hvs, -⟩ := exists_evalMany C xs hall
      exact ⟨vs, hvs⟩
    exact (hcolumn t).exists_ok_of_subset (hcolumn _) hletters.subset
  · intro N
    have hplot (e : Expr α) : Reports b e.letters id (e.plot N (some b)) :=
      reports_of_missing (fun _ hp => plotWith_of_missing hp) (exists_plot N)
    exact (hplot t).exists_ok_of_subset (hplot _) hletters.subset

/-- A product with nought takes the coefficients of its other factor with it. -/
example (K : Kernel α) :
    ((binary .add (poly .factorial 1) (binary .mul zero (poly .plain 3))).simplify K
      Rule.standard).letters = [⟨'a', by decide⟩, ⟨'b', by decide⟩] := rfl

end Expr

end CurveFormula
