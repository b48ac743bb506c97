import CurveFormula.Proofs.Evaluation
import Mathlib.Analysis.SpecialFunctions.Pow.Real
import Mathlib.Tactic.SplitIfs

/-!
# Rules that cancel

Two rules let parts of a formula cancel: a quotient of the variable by itself and a power of one or
with the exponent nought become one, and two functions that undo each other vanish. They are read
here in an ordered field with the exact functions, each of them partial (`ExactFunctions`).

Where the formula is defined, what is left of it is defined and has the same value, or the negated
one. The sign changes in two shapes only (`Flipped`): a quotient of the variable and its negation,
and the root of a square, where the squared formula has a negative value. The main statement is
`eval_cancelled`.
-/

namespace CurveFormula

universe u

/-- The exact functions and powers in an ordered field, each of them partial. -/
structure ExactFunctions (F : Type u) [Field F] [LinearOrder F] where
  /-- The functions other than negation and square. -/
  function : UnaryOp → F → Option F
  pow : F → F → Option F
  ln_exp : ∀ {u v w}, function .exp u = some v → function .ln v = some w → w = u
  exp_ln : ∀ {u v w}, function .ln u = some v → function .exp v = some w → w = u
  /-- A root is the number that is not negative and has the given square. -/
  root : ∀ {u w}, function .sqrt u = some w → 0 ≤ w ∧ w * w = u
  one_pow : ∀ {v w}, pow 1 v = some w → w = 1
  pow_zero : ∀ {u w}, pow u 0 = some w → w = 1

namespace ExactFunctions

variable {F : Type u} [Field F] [LinearOrder F] (I : ExactFunctions F)

/-- A function of a number. -/
def unary : UnaryOp → F → Option F
  | .neg, u => some (-u)
  | .square, u => some (u * u)
  | op, u => I.function op u

/-- An operator between two numbers. -/
def binary : BinaryOp → F → F → Option F
  | .add, u, v => some (u + v)
  | .sub, u, v => some (u - v)
  | .mul, u, v => some (u * v)
  | .div, u, v => if v = 0 then none else some (u / v)
  | .pow, u, v => I.pow u v

/-- The exact operations on numbers that may be undefined. -/
def kernel : Kernel (Option F) where
  zero := some 0
  one := some 1
  natural n := some n
  unary op a := a.bind (I.unary op)
  binary op a c := a.bind fun u => c.bind (I.binary op u)
  power a n := a.map (· ^ n)

theorem binary_div {u v w : F} (h : I.binary .div u v = some w) : v ≠ 0 ∧ w = u / v := by
  simp only [binary] at h
  split_ifs at h with hv
  exact ⟨hv, (Option.some.inj h).symm⟩

/-- Of two functions that undo each other, the second one gives the number back, unless it is the
root. -/
theorem eq_of_undoes {f g : UnaryOp} (h : Rule.undoes f g = true) (hroot : f ≠ .sqrt) {u v w : F}
    (hg : I.unary g u = some v) (hf : I.unary f v = some w) : w = u := by
  unfold Rule.undoes at h
  split at h
  · cases hg
    cases hf
    exact neg_neg u
  · exact I.ln_exp hg hf
  · exact I.exp_ln hg hf
  · exact absurd rfl hroot
  · cases hf
    exact (I.root hg).2
  · cases h

variable [IsStrictOrderedRing F]

/-- The root of a square is the number without its sign. -/
theorem root_square {u v w : F} (hg : I.unary .square u = some v)
    (hf : I.unary .sqrt v = some w) : w = |u| := by
  cases hg
  obtain ⟨hnonneg, hsquare⟩ := I.root hf
  rw [← abs_of_nonneg hnonneg]
  exact abs_eq_abs.2 (mul_self_eq_mul_self_iff.1 hsquare)

end ExactFunctions

/-! ### The shapes that change their sign -/

section Cancelled

variable {F : Type u} [Field F] [LinearOrder F] {I : ExactFunctions F} {x : Option F}
  {b : Binding (Option F)} {n m : Expr (Option F)} {w : F}

/-- The shapes in which a rule that cancels changes the sign of the value. -/
inductive Flipped (I : ExactFunctions F) (x : Option F) (b : Binding (Option F)) :
    Expr (Option F) → Prop where
  | overNegation : Flipped I x b (.binary .div .var (.unary .neg .var))
  | negationOver : Flipped I x b (.binary .div (.unary .neg .var) .var)
  | rootOfSquare {e : Expr (Option F)} {u : F} (hu : e.eval I.kernel x b = .ok (some u))
      (hneg : u < 0) : Flipped I x b (.unary .sqrt (.unary .square e))

namespace Rule

/-- The rules that let parts of a formula cancel. -/
def cancelling : List Rule :=
  [oneIdentity, inverseCancellation]

end Rule

open CurveFormula.Expr (Takes)

theorem takes_unary {op : UnaryOp} {e : Expr (Option F)} :
    Takes I.kernel x b (.unary op e) w ↔ ∃ u, Takes I.kernel x b e u ∧ I.unary op u = some w :=
  Expr.takes_unary_iff fun _ => rfl

theorem takes_binary {op : BinaryOp} {l r : Expr (Option F)} :
    Takes I.kernel x b (.binary op l r) w ↔
      ∃ u v, Takes I.kernel x b l u ∧ Takes I.kernel x b r v ∧ I.binary op u v = some w :=
  Expr.takes_binary_iff fun _ _ => rfl

theorem takes_one : Takes I.kernel x b .one 1 := rfl

/-- What is left of a formula keeps its value, or changes the sign of it and is flipped. -/
def Cancels (I : ExactFunctions F) (x : Option F) (b : Binding (Option F))
    (n m : Expr (Option F)) (w : F) : Prop :=
  ¬Flipped I x b n ∧ Takes I.kernel x b m w ∨
    Flipped I x b n ∧ Takes I.kernel x b m (-w) ∧ w ≠ 0

/-- The quotients and the powers that become one. -/
theorem cancels_one? (hm : Rule.one? n = some m) (hn : Takes I.kernel x b n w) :
    Cancels I x b n m w := by
  unfold Rule.one? at hm
  split at hm
  · cases hm
    obtain ⟨u, v, hu, hv, hw⟩ := takes_binary.1 hn
    cases hu.unique hv
    obtain ⟨hne, rfl⟩ := I.binary_div hw
    rw [div_self hne]
    exact Or.inl ⟨nofun, takes_one⟩
  · cases hm
    obtain ⟨u, v, hu, hv, hw⟩ := takes_binary.1 hn
    obtain ⟨u', hu', hneg⟩ := takes_unary.1 hv
    cases hu.unique hu'
    cases hneg
    obtain ⟨hne, rfl⟩ := I.binary_div hw
    rw [div_neg_self (neg_ne_zero.1 hne)]
    refine Or.inr ⟨.overNegation, ?_, neg_ne_zero.2 one_ne_zero⟩
    rw [neg_neg]
    exact takes_one
  · cases hm
    obtain ⟨u, v, hu, hv, hw⟩ := takes_binary.1 hn
    obtain ⟨v', hv', hneg⟩ := takes_unary.1 hu
    cases hv.unique hv'
    cases hneg
    obtain ⟨hne, rfl⟩ := I.binary_div hw
    rw [neg_div_self hne]
    refine Or.inr ⟨.negationOver, ?_, neg_ne_zero.2 one_ne_zero⟩
    rw [neg_neg]
    exact takes_one
  · cases hm
    obtain ⟨u, v, hu, -, hw⟩ := takes_binary.1 hn
    cases hu.unique takes_one
    cases I.one_pow hw
    exact Or.inl ⟨nofun, takes_one⟩
  · cases hm
    obtain ⟨u, v, -, hv, hw⟩ := takes_binary.1 hn
    cases hv.unique (show Takes I.kernel x b .zero 0 from rfl)
    cases I.pow_zero hw
    exact Or.inl ⟨nofun, takes_one⟩
  · cases hm

variable [IsStrictOrderedRing F]

/-- The root of a square. -/
theorem cancels_rootOfSquare {e : Expr (Option F)}
    (hn : Takes I.kernel x b (.unary .sqrt (.unary .square e)) w) :
    Cancels I x b (.unary .sqrt (.unary .square e)) e w := by
  obtain ⟨v, hv, hw⟩ := takes_unary.1 hn
  obtain ⟨u, hu, hsquare⟩ := takes_unary.1 hv
  obtain rfl := I.root_square hsquare hw
  by_cases hneg : u < 0
  · rw [abs_of_neg hneg]
    refine Or.inr ⟨.rootOfSquare hu hneg, ?_, neg_ne_zero.2 hneg.ne⟩
    rwa [neg_neg]
  · rw [abs_of_nonneg (not_lt.1 hneg)]
    refine Or.inl ⟨fun hflip => ?_, hu⟩
    cases hflip with
    | rootOfSquare hu' hneg' => exact hneg (hu.unique hu' ▸ hneg')

/-- The functions that undo each other. -/
theorem cancels_cancel? (hm : Rule.cancel? n = some m) (hn : Takes I.kernel x b n w) :
    Cancels I x b n m w := by
  unfold Rule.cancel? at hm
  split at hm
  · rename_i f g e
    split_ifs at hm with hfg
    cases hm
    by_cases hroot : f = .sqrt
    · -- only the square is undone by the root
      subst hroot
      cases g with
      | square => exact cancels_rootOfSquare hn
      | neg | exp | ln | sqrt | sin | cos | tan => cases hfg
    · obtain ⟨v, hv, hw⟩ := takes_unary.1 hn
      obtain ⟨u, hu, hg⟩ := takes_unary.1 hv
      cases I.eq_of_undoes hfg hroot hg hw
      refine Or.inl ⟨fun hflip => ?_, hu⟩
      cases hflip with
      | rootOfSquare => exact hroot rfl
  · cases hm

/-- **What cancelling does to the value of a formula.** Where the formula is defined, what a
cancelling rule leaves of it is defined. It has the same value, unless the formula is flipped; then
it has the negated value, which is another one. -/
theorem eval_cancelled (I : ExactFunctions F) {rule : Rule} (hrule : rule ∈ Rule.cancelling)
    {n m : Expr (Option F)} (hm : rule.result? I.kernel n = some m) {x : Option F}
    {b : Binding (Option F)} {w : F} (hn : n.eval I.kernel x b = .ok (some w)) :
    (¬Flipped I x b n → m.eval I.kernel x b = .ok (some w)) ∧
      (Flipped I x b n → m.eval I.kernel x b = .ok (some (-w)) ∧ -w ≠ w) := by
  have hcancels : Cancels I x b n m w := by
    rcases List.mem_pair.1 hrule with rfl | rfl
    · exact cancels_one? hm hn
    · exact cancels_cancel? hm hn
  rcases hcancels with ⟨hflip, hvalue⟩ | ⟨hflip, hvalue, hne⟩
  · exact ⟨fun _ => hvalue, fun h => absurd h hflip⟩
  · refine ⟨fun h => absurd hflip h, fun _ => ⟨hvalue, fun heq => hne ?_⟩⟩
    linarith

end Cancelled

/-- A function of a real number, where it is defined. -/
noncomputable def realFunction : UnaryOp → ℝ → Option ℝ
  | .exp, u => some (Real.exp u)
  | .ln, u => if 0 < u then some (Real.log u) else none
  | .sqrt, u => if 0 ≤ u then some √u else none
  | .sin, u => some (Real.sin u)
  | .cos, u => some (Real.cos u)
  | .tan, u => if Real.cos u = 0 then none else some (Real.tan u)
  | .neg, u => some (-u)
  | .square, u => some (u * u)

/-- The exact functions of real numbers. -/
noncomputable def ExactFunctions.reals : ExactFunctions ℝ where
  function := realFunction
  pow u v := if 0 < u ∨ v = 0 then some (u ^ v) else none
  ln_exp := by
    rintro u v w hexp hln
    cases hexp
    rw [realFunction, if_pos (Real.exp_pos u)] at hln
    cases hln
    exact Real.log_exp u
  exp_ln := by
    rintro u v w hln hexp
    rw [realFunction] at hln
    split_ifs at hln with hu
    cases hln
    cases hexp
    exact Real.exp_log hu
  root := by
    rintro u w h
    rw [realFunction] at h
    split_ifs at h with hu
    cases h
    exact ⟨Real.sqrt_nonneg u, Real.mul_self_sqrt hu⟩
  one_pow := by
    rintro v w h
    rw [if_pos (Or.inl one_pos)] at h
    cases h
    exact Real.one_rpow v
  pow_zero := by
    rintro u w h
    rw [if_pos (Or.inr rfl)] at h
    cases h
    exact Real.rpow_zero u

/-- The variable less a parameter. -/
def ExactFunctions.difference : Expr (Option ℝ) :=
  .binary .sub .var (.param ⟨'m', by decide⟩)

open ExactFunctions in
/-- Where the difference is less than nought, its square does not give it back. -/
theorem eval_cancelled_reals :
    Rule.inverseCancellation.result? reals.kernel (.unary .sqrt (.unary .square difference)) =
        some difference ∧
      (Expr.unary .sqrt (.unary .square difference)).eval reals.kernel (some 1)
          (fun _ => some (some 3)) = .ok (some 2) ∧
      Flipped reals (some 1) (fun _ => some (some 3))
        (.unary .sqrt (.unary .square difference)) ∧
      difference.eval reals.kernel (some 1) (fun _ => some (some 3)) = .ok (some (-2)) := by
  have hdifference : difference.eval reals.kernel (some 1) (fun _ => some (some 3)) =
      .ok (some (-2)) := by
    refine takes_binary.2 ⟨1, 3, rfl, rfl, congrArg some ?_⟩
    norm_num
  have hroot : reals.unary .sqrt (-2 * -2) = some 2 := by
    show (if (0 : ℝ) ≤ -2 * -2 then some √(-2 * -2) else none) = some 2
    rw [if_pos (by norm_num), neg_mul_neg, Real.sqrt_mul_self (by norm_num)]
  have hvalue : (Expr.unary .sqrt (.unary .square difference)).eval reals.kernel (some 1)
      (fun _ => some (some 3)) = .ok (some 2) :=
    takes_unary.2 ⟨-2 * -2, takes_unary.2 ⟨-2, hdifference, rfl⟩, hroot⟩
  have hflip : Flipped reals (some 1) (fun _ => some (some 3))
      (.unary .sqrt (.unary .square difference)) := .rootOfSquare hdifference (by norm_num)
  have hrule : Rule.inverseCancellation ∈ Rule.cancelling := by decide
  exact ⟨rfl, hvalue, hflip, ((eval_cancelled reals hrule rfl hvalue).2 hflip).1⟩

end CurveFormula
