import CurveFormula.Binary64.Kernel
import CurveFormula.Proofs.Evaluation
import CurveFormula.Simplify.Pass

/-!
# Formulas of numbers alone

`Expr.Ground` describes the formulas whose leaves are numbers. Computing numbers stands in the
standard table behind two rules that need a parameter, and before all others. So an operator between
numbers is computed, also where another rule would give another number (`reduceRoot_of_fold?`), and
a pass over a ground formula leaves the number that is its value (`simplify_ground`).
-/

namespace CurveFormula

universe u

variable {α : Type u} {K : Kernel α}

namespace Rule

/-- Without a parameter among the parts there is nothing to take up. -/
theorem absorb?_eq_none {e : Expr α} (h : ∀ c ∈ e.children, ∀ p, c ≠ .param p) :
    absorb? e = none := by
  unfold absorb?
  split
  · exact absurd rfl (h _ List.mem_cons_self _)
  · exact absurd rfl (h _ List.mem_cons_self _)
  · rfl

theorem divide?_eq_none {e : Expr α} (h : ∀ c ∈ e.children, ∀ p, c ≠ .param p) :
    divide? e = none := by
  unfold divide?
  split
  · exact absurd rfl (h _ (List.mem_cons_of_mem _ List.mem_cons_self) _)
  · rfl

end Rule

namespace Expr

/-- Every leaf is a number. -/
def Ground : Expr α → Prop
  | const _ => True
  | zero => True
  | one => True
  | unary _ e => e.Ground
  | binary _ l r => l.Ground ∧ r.Ground
  | _ => False

/-- Where no part is a parameter, computing numbers comes first. -/
theorem reduceRoot_of_fold? {e e' : Expr α} (hparts : ∀ c ∈ e.children, ∀ p, c ≠ param p)
    (h : Rule.fold? K e = some e') : e.reduceRoot K Rule.standard = e' := by
  have hhit : e.hit? K Rule.standard = some ⟨.foldConstants, e, e'⟩ := by
    simp only [hit?, Rule.standard, List.findSome?_cons, Rule.result?,
      Rule.absorb?_eq_none hparts, Rule.divide?_eq_none hparts, h, Option.map_none,
      Option.map_some]
  rw [reduceRoot_of_hit? K Rule.standard hhit]

theorem ne_param_of_constant? {e : Expr α} {v : α} (h : e.constant? K = some v) (p : Letter) :
    e ≠ param p := by
  rintro rfl
  cases h

/-- A function of a number becomes a number. -/
theorem reduceRoot_unary {op : UnaryOp} {e : Expr α} {v : α} (h : e.constant? K = some v) :
    (unary op e).reduceRoot K Rule.standard = const (K.unary op v) := by
  refine reduceRoot_of_fold? ?_ (Rule.fold?_unary h)
  exact List.forall_mem_singleton.2 (ne_param_of_constant? h)

/-- An operator between numbers becomes a number. -/
theorem reduceRoot_binary {op : BinaryOp} {l r : Expr α} {v w : α} (hl : l.constant? K = some v)
    (hr : r.constant? K = some w) :
    (binary op l r).reduceRoot K Rule.standard = const (K.binary op v w) := by
  refine reduceRoot_of_fold? ?_ (Rule.fold?_binary hl hr)
  exact List.forall_mem_cons.2
    ⟨ne_param_of_constant? hl, List.forall_mem_singleton.2 (ne_param_of_constant? hr)⟩

/-- **A pass over a formula of numbers leaves its value.** The exact nought and the exact one are
left only of themselves. -/
theorem simplify_ground (K : Kernel α) {t : Expr α} (h : t.Ground) :
    ∃ v, (t.simplify K Rule.standard).constant? K = some v ∧
      (∀ x b, t.eval K x b = .ok v) ∧
      (t.simplify K Rule.standard = zero → t = zero) ∧
      (t.simplify K Rule.standard = one → t = one) := by
  induction t with
  | const c => exact ⟨c, rfl, fun _ _ => rfl, nofun, nofun⟩
  | zero => exact ⟨K.zero, rfl, fun _ _ => rfl, fun _ => rfl, nofun⟩
  | one => exact ⟨K.one, rfl, fun _ _ => rfl, nofun, fun _ => rfl⟩
  | unary op e ih =>
    obtain ⟨v, hv, heval, -⟩ := ih h
    rw [simplify_unary, reduceRoot_unary hv]
    exact ⟨K.unary op v, rfl, fun x b => eval_unary_of_ok K (heval x b), nofun, nofun⟩
  | binary op l r ihl ihr =>
    obtain ⟨v, hv, hevall, -⟩ := ihl h.1
    obtain ⟨w, hw, hevalr, -⟩ := ihr h.2
    rw [simplify_binary, reduceRoot_binary hv hw]
    exact ⟨K.binary op v w, rfl, fun x b => eval_binary_of_ok K (hevall x b) (hevalr x b),
      nofun, nofun⟩
  | var | param _ | poly _ _ => cases h

/-- Nought times an infinite quotient. By a later rule a product with nought is nought, but this
one is not a number. -/
def noughtTimesInfinity : Expr Float :=
  binary .mul zero (binary .div one (const 0.0))

theorem simplify_ground_binary64 :
    noughtTimesInfinity.Ground ∧
      Rule.zeroIdentity.result? Binary64.kernel noughtTimesInfinity = some zero ∧
      ∃ v, noughtTimesInfinity.simplify Binary64.kernel Rule.standard = const v ∧
        v.isNaN = true ∧ ∀ x b, noughtTimesInfinity.eval Binary64.kernel x b = .ok v := by
  have hground : noughtTimesInfinity.Ground := ⟨trivial, trivial, trivial⟩
  obtain ⟨v, hv, heval, -⟩ := simplify_ground Binary64.kernel hground
  cases hv
  exact ⟨hground, rfl, _, rfl, by decide +kernel, heval⟩

end Expr

end CurveFormula
