import CurveFormula.Expr.Kind
import CurveFormula.Expr.Traversal
import CurveFormula.Proofs.Absorption
import Mathlib.Tactic.FinCases

/-!
# What a pass leaves undone

A pass does not look again at what a rule has made, so some rules of the standard table may still
apply to the result. `Residue` lists the seven shapes that remain:

* a product of the exact nought or one with a parameter, from a division by the parameter;
* a negation of a parameter or of a negation, from a difference from nought;
* a square of a parameter, of a negation or of a root, from the square of a negation.

The main statement, `simplify_residue`, says that a rule applies at a node of a simplified formula
exactly if the node has one of these shapes. `settled_result?` is its step: what the first rule that
applies makes of parts that are settled is settled. The order of the table matters in two places: a
parameter takes up its divisor before the division becomes a product (`settled_divide?`), and
numbers are computed before signs are moved (`settled_sign?`).
-/

namespace CurveFormula

universe u

variable {α : Type u} {K : Kernel α}

/-- Where nothing is computed, some part is no number. -/
theorem Rule.exists_part_of_fold?_eq_none {e : Expr α} (h : fold? K e = none)
    (hparts : e.children ≠ []) : ∃ c ∈ e.children, c.constant? K = none := by
  cases e with
  | unary op e => exact ⟨e, List.mem_singleton_self e, Option.map_eq_none_iff.1 h⟩
  | binary op l r =>
    cases hl : l.constant? K with
    | none => exact ⟨l, by simp, hl⟩
    | some v =>
      cases hr : r.constant? K with
      | none => exact ⟨r, by simp, hr⟩
      | some w =>
        rw [fold?_binary hl hr] at h
        cases h
  | var | const _ | zero | one | param _ | poly _ _ => exact absurd rfl hparts

/-- A node at which a pass may leave something to do. -/
inductive Residue : Expr α → Prop where
  | zeroTimes (p : Letter) : Residue (.binary .mul .zero (.param p))
  | oneTimes (p : Letter) : Residue (.binary .mul .one (.param p))
  | negParam (p : Letter) : Residue (.unary .neg (.param p))
  | negNeg (e : Expr α) : Residue (.unary .neg (.unary .neg e))
  | squareParam (p : Letter) : Residue (.unary .square (.param p))
  | squareNeg (e : Expr α) : Residue (.unary .square (.unary .neg e))
  | squareSqrt (e : Expr α) : Residue (.unary .square (.unary .sqrt e))

namespace Expr

/-- No rule of the standard table applies at the root, or the root is residue. -/
def Done (K : Kernel α) (e : Expr α) : Prop :=
  (∀ rule ∈ Rule.standard, rule.result? K e = none) ∨ Residue e

/-- Every node is done. -/
def Settled (K : Kernel α) (e : Expr α) : Prop :=
  ∀ n ∈ e.preorder, Done K n

theorem settled_unary_iff {op : UnaryOp} {e : Expr α} :
    Settled K (unary op e) ↔ Done K (unary op e) ∧ Settled K e :=
  List.forall_mem_cons

theorem settled_binary_iff {op : BinaryOp} {l r : Expr α} :
    Settled K (binary op l r) ↔ Done K (binary op l r) ∧ Settled K l ∧ Settled K r := by
  unfold Settled
  rw [preorder, List.forall_mem_cons, List.forall_mem_append]

theorem settled_of_leaf {e : Expr α} (h : e.children = []) : Settled K e := by
  unfold Settled
  rw [preorder_of_leaf h, List.forall_mem_singleton]
  exact Or.inl fun rule _ => Rule.result?_of_leaf h rule

/-! ### What is done -/

/-- A product with a parameter on the right is done, unless the left factor is a parameter, too. -/
theorem done_mul {l : Expr α} (hl : ∀ q, l ≠ param q) (p : Letter) :
    Done K (binary .mul l (param p)) := by
  cases l with
  | zero => exact Or.inr (.zeroTimes p)
  | one => exact Or.inr (.oneTimes p)
  | param q => exact absurd rfl (hl q)
  | var | const _ | unary _ _ | binary _ _ _ | poly _ _ =>
    exact Or.inl fun rule _ => by cases rule <;> rfl

/-- A negation of anything but a number is done. -/
theorem done_neg {e : Expr α} (he : e.constant? K = none) : Done K (unary .neg e) := by
  cases e with
  | const _ | zero | one => cases he
  | param p => exact Or.inr (.negParam p)
  | unary g e =>
    cases g with
    | neg => exact Or.inr (.negNeg e)
    | exp | ln | sqrt | square | sin | cos | tan =>
      exact Or.inl fun rule _ => by cases rule <;> rfl
  | var | binary _ _ _ | poly _ _ => exact Or.inl fun rule _ => by cases rule <;> rfl

/-- A square of anything but a number is done. -/
theorem done_square {e : Expr α} (he : e.constant? K = none) : Done K (unary .square e) := by
  cases e with
  | const _ | zero | one => cases he
  | param p => exact Or.inr (.squareParam p)
  | unary g e =>
    cases g with
    | neg => exact Or.inr (.squareNeg e)
    | sqrt => exact Or.inr (.squareSqrt e)
    | exp | ln | square | sin | cos | tan => exact Or.inl fun rule _ => by cases rule <;> rfl
  | var | binary _ _ _ | poly _ _ => exact Or.inl fun rule _ => by cases rule <;> rfl

/-- Where a node is done, there is nothing to compute. -/
theorem Done.fold?_eq_none {e : Expr α} (h : Done K e) : Rule.fold? K e = none := by
  rcases h with h | h
  · exact h .foldConstants (Rule.mem_standard _)
  · cases h <;> rfl

/-- A function that is done has no number for an operand. -/
theorem Done.constant?_eq_none {op : UnaryOp} {e : Expr α} (h : Done K (unary op e)) :
    e.constant? K = none :=
  Option.map_eq_none_iff.1 h.fold?_eq_none

/-- A division by a parameter is not done. -/
theorem not_done_div (l : Expr α) (p : Letter) : ¬ Done K (binary .div l (param p)) := by
  rintro (h | h)
  · exact Option.some_ne_none _ (h .divideByParameter (Rule.mem_standard _))
  · cases h

/-- A rule applies where a node is done exactly if the node is residue. -/
theorem Done.exists_rule_iff {e : Expr α} (h : Done K e) :
    (∃ rule ∈ Rule.standard, rule.result? K e ≠ none) ↔ Residue e := by
  constructor
  · rintro ⟨rule, hmem, hrule⟩
    rcases h with h | h
    · exact absurd (h rule hmem) hrule
    · exact h
  · intro h
    cases h with
    | zeroTimes p => exact ⟨.zeroIdentity, by decide, nofun⟩
    | oneTimes p => exact ⟨.identityElision, by decide, nofun⟩
    | negParam p | squareParam p => exact ⟨.absorbParameter, by decide, nofun⟩
    | negNeg e | squareSqrt e => exact ⟨.inverseCancellation, by decide, nofun⟩
    | squareNeg e => exact ⟨.signNormalization, by decide, nofun⟩

/-! ### What the rules make -/

/-- Where the dividend is no parameter that takes up the divisor, a division by a parameter becomes a
settled product. -/
theorem settled_divide? {e e' : Expr α} (hparts : ∀ c ∈ e.children, Settled K c)
    (habsorb : Rule.absorb? e = none) (h : Rule.divide? e = some e') : Settled K e' := by
  obtain ⟨l, p, rfl, rfl⟩ := Rule.divide?_eq_some h
  have hl : ∀ q, l ≠ param q := by
    rintro q rfl
    cases habsorb
  exact settled_binary_iff.2 ⟨done_mul hl p, hparts l (by simp), settled_of_leaf rfl⟩

/-- Where there is nothing to compute, a sign that is moved leaves settled formulas. -/
theorem settled_sign? {e e' : Expr α} (hparts : ∀ c ∈ e.children, Settled K c)
    (hfold : Rule.fold? K e = none) (h : Rule.sign? e = some e') : Settled K e' := by
  unfold Rule.sign? at h
  split at h
  · rename_i r
    cases h
    have hr : r.constant? K = none := by
      obtain ⟨c, hc, hnone⟩ := Rule.exists_part_of_fold?_eq_none hfold (by simp)
      rcases List.mem_pair.1 hc with rfl | rfl
      · cases hnone
      · exact hnone
    exact settled_unary_iff.2 ⟨done_neg hr, hparts r (by simp)⟩
  · rename_i e
    cases h
    obtain ⟨hdone, he⟩ := settled_unary_iff.1 (hparts (unary .neg e) (by simp))
    exact settled_unary_iff.2 ⟨done_square hdone.constant?_eq_none, he⟩
  · cases h

/-- **What the first rule that applies makes of settled parts is settled.** -/
theorem settled_result? {rule : Rule} {e e' : Expr α} (hparts : ∀ c ∈ e.children, Settled K c)
    (hfirst : ∀ r ∈ Rule.standard.takeWhile (· ≠ rule), r.result? K e = none)
    (h : rule.result? K e = some e') : Settled K e' := by
  cases rule with
  | absorbParameter =>
    obtain ⟨p, rfl, -⟩ := Rule.absorb?_eq_some (K := K) h
    exact settled_of_leaf rfl
  | divideByParameter => exact settled_divide? hparts (hfirst .absorbParameter (by decide)) h
  | foldConstants =>
    obtain ⟨-, v, rfl⟩ := Rule.fold?_eq_some h
    exact settled_of_leaf rfl
  | zeroIdentity =>
    simp only [Rule.result?, Rule.zero?] at h
    split at h <;> cases h <;> exact settled_of_leaf rfl
  | oneIdentity =>
    simp only [Rule.result?, Rule.one?] at h
    split at h <;> cases h <;> exact settled_of_leaf rfl
  | inverseCancellation =>
    simp only [Rule.result?, Rule.cancel?] at h
    split at h
    · rename_i f g e
      split_ifs at h
      cases h
      exact (settled_unary_iff.1 (hparts (unary g _) List.mem_cons_self)).2
    · cases h
  | identityElision =>
    simp only [Rule.result?, Rule.elide?] at h
    split at h <;> cases h <;> exact hparts _ (by simp)
  | signNormalization => exact settled_sign? hparts (hfirst .foldConstants (by decide)) h

theorem settled_reduceRoot {e : Expr α} (hparts : ∀ c ∈ e.children, Settled K c) :
    Settled K (e.reduceRoot K Rule.standard) := by
  cases hh : e.hit? K Rule.standard with
  | some h =>
    rw [reduceRoot_of_hit? K _ hh]
    obtain ⟨-, -, hresult⟩ := mem_of_hit? K _ hh
    exact settled_result? hparts (eq_none_of_hit? K hh) hresult
  | none =>
    rw [reduceRoot_of_hit?_eq_none K _ hh]
    have hdone : Done K e := Or.inl ((hit?_eq_none_iff K _).1 hh)
    cases e with
    | unary op e => exact settled_unary_iff.2 ⟨hdone, hparts e (by simp)⟩
    | binary op l r =>
      exact settled_binary_iff.2 ⟨hdone, hparts l (by simp), hparts r (by simp)⟩
    | var | const _ | zero | one | param _ | poly _ _ => exact settled_of_leaf rfl

/-- Every node of a simplified formula is done. -/
theorem settled_simplify (t : Expr α) : Settled K (t.simplify K Rule.standard) := by
  induction t with
  | unary op e ih => exact settled_reduceRoot (List.forall_mem_singleton.2 ih)
  | binary op l r ihl ihr =>
    exact settled_reduceRoot (List.forall_mem_cons.2 ⟨ihl, List.forall_mem_singleton.2 ihr⟩)
  | var | const _ | zero | one | param _ | poly _ _ => exact settled_reduceRoot nofun

/-- **What a pass with the standard table leaves undone.** A rule applies at a node of the result
exactly if the node is residue. So no operator is left between numbers and no division by a
parameter, and the operator at a node at which a rule applies is a product, a negation or a
square. -/
theorem simplify_residue (K : Kernel α) (t : Expr α) :
    (∀ n ∈ (t.simplify K Rule.standard).preorder,
        (∃ rule ∈ Rule.standard, rule.result? K n ≠ none) ↔ Residue n) ∧
      (∀ n ∈ (t.simplify K Rule.standard).preorder,
        n.children ≠ [] → ∃ c ∈ n.children, c.constant? K = none) ∧
      (∀ l p, binary .div l (param p) ∉ (t.simplify K Rule.standard).preorder) ∧
      ∀ n ∈ (t.simplify K Rule.standard).preorder,
        (∃ rule ∈ Rule.standard, rule.result? K n ≠ none) →
          n.operator? = some (.binary .mul) ∨ n.operator? = some (.unary .neg) ∨
            n.operator? = some (.unary .square) := by
  have hdone : ∀ n ∈ (t.simplify K Rule.standard).preorder, Done K n := settled_simplify t
  refine ⟨fun n hn => (hdone n hn).exists_rule_iff, fun n hn hparts => ?_, fun l p hmem => ?_,
    fun n hn hrule => ?_⟩
  · exact Rule.exists_part_of_fold?_eq_none (hdone n hn).fold?_eq_none hparts
  · exact not_done_div l p (hdone _ hmem)
  · cases (hdone n hn).exists_rule_iff.1 hrule with
    | zeroTimes | oneTimes => exact Or.inl rfl
    | negParam | negNeg => exact Or.inr (Or.inl rfl)
    | squareParam | squareNeg | squareSqrt => exact Or.inr (Or.inr rfl)

/-- Each of the shapes is left by some pass. -/
theorem exists_simplify_eq_residue (K : Kernel α) (p : Letter) :
    ∀ n ∈ [binary .mul zero (param p), binary .mul one (param p), unary .neg (param p),
        unary .neg (unary .neg var), unary .square (param p), unary .square (unary .neg var),
        unary .square (unary .sqrt var)],
      ∃ t : Expr α, t.simplify K Rule.standard = n := by
  intro n hn
  fin_cases hn
  · exact ⟨binary .div zero (param p), rfl⟩
  · exact ⟨binary .div one (param p), rfl⟩
  · exact ⟨binary .sub zero (param p), rfl⟩
  · exact ⟨binary .sub zero (unary .neg var), rfl⟩
  · exact ⟨unary .square (binary .sub zero (param p)), rfl⟩
  · exact ⟨unary .square (binary .sub zero (unary .neg var)), rfl⟩
  · exact ⟨unary .square (binary .sub zero (unary .sqrt var)), rfl⟩

end Expr

end CurveFormula
