import CurveFormula.Proofs.Evaluation
import CurveFormula.Proofs.Pass
import Mathlib.Algebra.Field.Rat
import Mathlib.Tactic.SplitIfs

/-!
# Rules that hold in every field

Formulas are read in a field where some operations are undefined: a quotient by nought is, and the
functions and powers may be anywhere. Whatever has an undefined part is undefined.

The rules of `Rule.algebraic` compute numbers, drop neutral operands and rewrite signs and products
with nought. Each of them keeps the value of a formula that is defined (`HasValue.result?`), and so
does a pass with any table of them. They may define a formula that was not: `0 * e` is nought even
if `e` has no value.
-/

namespace CurveFormula

universe u

/-- Functions and powers in a field, each of them partial. -/
structure PartialField (F : Type u) [Field F] where
  /-- The functions other than negation and square. -/
  function : UnaryOp → F → Option F
  pow : F → F → Option F
  power : F → ℕ → Option F
  pow_one : ∀ u, pow u 1 = some u
  zero_pow : ∀ v, pow 0 v = none ∨ pow 0 v = some 0

namespace PartialField

variable {F : Type u} [Field F] [DecidableEq F] (I : PartialField F)

/-- A function of a number. -/
def unary : UnaryOp → F → Option F
  | .neg, u => some (-u)
  | .square, u => some (u * u)
  | op, u => I.function op u

/-- An operator between two numbers. -/
def binary : BinaryOp → F → F → Option F
  | .add, u, v => some (u + v)
  | .sub, u, v => some (u - v)
  | .mul, u, v => some (u * v)
  | .div, u, v => if v = 0 then none else some (u / v)
  | .pow, u, v => I.pow u v

/-- The operations on numbers that may be undefined. -/
def kernel : Kernel (Option F) where
  zero := some 0
  one := some 1
  natural n := some n
  unary op a := a.bind (I.unary op)
  binary op a b := a.bind fun u => b.bind (I.binary op u)
  power a n := a.bind fun u => I.power u n

/-- A quotient that is defined is one by a number other than nought. -/
theorem binary_div_eq_some_iff {u v w : F} :
    I.binary .div u v = some w ↔ v ≠ 0 ∧ u / v = w := by
  simp only [binary]
  split_ifs with h <;> simp [h]

theorem binary_zero_pow {v w : F} (h : I.binary .pow 0 v = some w) : w = 0 := by
  rcases I.zero_pow v with hv | hv
  · rw [show I.binary .pow 0 v = none from hv] at h
    cases h
  · rw [show I.binary .pow 0 v = some 0 from hv] at h
    exact (Option.some.inj h).symm

/-- A quotient is a product with the quotient of one, undefined at the same numbers. -/
theorem kernel_div (a c : Option F) :
    I.kernel.binary .div a c =
      I.kernel.binary .mul a (I.kernel.binary .div I.kernel.one c) := by
  rcases a with _ | u
  · rfl
  rcases c with _ | v
  · rfl
  show I.binary .div u v = (I.binary .div 1 v).bind (I.binary .mul u)
  by_cases hv : v = 0
  · simp [binary, hv]
  · simp only [binary, if_neg hv, Option.bind_some]
    rw [div_eq_mul_one_div]

end PartialField

/-! ### Formulas that have a value -/

section Value

variable {F : Type u} [Field F] [DecidableEq F] {I : PartialField F} {x : Option F}
  {b : Binding (Option F)}

/-- The formula is defined and has this value. -/
def HasValue (I : PartialField F) (x : Option F) (b : Binding (Option F)) (e : Expr (Option F))
    (v : F) : Prop :=
  e.eval I.kernel x b = .ok (some v)

namespace HasValue

theorem unique {e : Expr (Option F)} {v w : F} (hv : HasValue I x b e v)
    (hw : HasValue I x b e w) : v = w :=
  Expr.Takes.unique hv hw

theorem eq_zero {v : F} (h : HasValue I x b .zero v) : v = 0 :=
  (Option.some.inj (Except.ok.inj h)).symm

theorem eq_one {v : F} (h : HasValue I x b .one v) : v = 1 :=
  (Option.some.inj (Except.ok.inj h)).symm

theorem zero : HasValue I x b .zero 0 := rfl

theorem unary_iff {op : UnaryOp} {e : Expr (Option F)} {w : F} :
    HasValue I x b (.unary op e) w ↔ ∃ u, HasValue I x b e u ∧ I.unary op u = some w :=
  Expr.takes_unary_iff fun _ => rfl

theorem binary_iff {op : BinaryOp} {l r : Expr (Option F)} {w : F} :
    HasValue I x b (.binary op l r) w ↔
      ∃ u v, HasValue I x b l u ∧ HasValue I x b r v ∧ I.binary op u v = some w :=
  Expr.takes_binary_iff fun _ _ => rfl

/-- An operator between parts that keep their values keeps its value. -/
theorem binary_mono {op : BinaryOp} {l l' r r' : Expr (Option F)} {w : F}
    (hl : ∀ u, HasValue I x b l u → HasValue I x b l' u)
    (hr : ∀ v, HasValue I x b r v → HasValue I x b r' v)
    (h : HasValue I x b (.binary op l r) w) : HasValue I x b (.binary op l' r') w := by
  obtain ⟨u, v, hu, hv, hw⟩ := binary_iff.1 h
  exact binary_iff.2 ⟨u, v, hl u hu, hr v hv, hw⟩

theorem unary_mono {op : UnaryOp} {e e' : Expr (Option F)} {w : F}
    (he : ∀ u, HasValue I x b e u → HasValue I x b e' u) (h : HasValue I x b (.unary op e) w) :
    HasValue I x b (.unary op e') w := by
  obtain ⟨u, hu, hw⟩ := unary_iff.1 h
  exact unary_iff.2 ⟨u, he u hu, hw⟩

/-! ### The rules -/

theorem fold? {e e' : Expr (Option F)} {w : F} (hr : Rule.fold? I.kernel e = some e')
    (h : HasValue I x b e w) : HasValue I x b e' w :=
  (Expr.eval_fold? hr).trans h

/-- A formula that is nought by a rule has no other value. -/
theorem eq_zero_of_zero? {e e' : Expr (Option F)} {w : F} (hr : Rule.zero? e = some e')
    (h : HasValue I x b e w) : e' = .zero ∧ w = 0 := by
  -- one case for each shape of the formula; the dropped parts are known to have values
  unfold Rule.zero? at hr
  split at hr
  · cases hr
    obtain ⟨u, v, hu, hv, hw⟩ := binary_iff.1 h
    cases hu.unique hv
    cases hw
    exact ⟨rfl, sub_self u⟩
  · cases hr
    obtain ⟨u, v, hu, hv, hw⟩ := binary_iff.1 h
    obtain ⟨u', hu', hneg⟩ := unary_iff.1 hv
    cases hu.unique hu'
    cases hneg
    cases hw
    exact ⟨rfl, add_neg_cancel u⟩
  · cases hr
    obtain ⟨u, v, hu, hv, hw⟩ := binary_iff.1 h
    obtain ⟨u', hu', hneg⟩ := unary_iff.1 hu
    cases hv.unique hu'
    cases hneg
    cases hw
    exact ⟨rfl, neg_add_cancel v⟩
  · cases hr
    obtain ⟨u, v, hu, -, hw⟩ := binary_iff.1 h
    cases hu.eq_zero
    cases hw
    exact ⟨rfl, zero_mul v⟩
  · cases hr
    obtain ⟨u, v, -, hv, hw⟩ := binary_iff.1 h
    cases hv.eq_zero
    cases hw
    exact ⟨rfl, mul_zero u⟩
  · cases hr
    obtain ⟨u, v, hu, -, hw⟩ := binary_iff.1 h
    cases hu.eq_zero
    exact ⟨rfl, I.binary_zero_pow hw⟩
  · cases hr

theorem elide? {e e' : Expr (Option F)} {w : F} (hr : Rule.elide? e = some e')
    (h : HasValue I x b e w) : HasValue I x b e' w := by
  unfold Rule.elide? at hr
  split at hr
  all_goals
    cases hr
  all_goals
    obtain ⟨u, v, hu, hv, hw⟩ := binary_iff.1 h
  · cases hv.eq_zero
    cases hw
    rwa [add_zero]
  · cases hu.eq_zero
    cases hw
    rwa [zero_add]
  · cases hv.eq_zero
    cases hw
    rwa [sub_zero]
  · cases hv.eq_one
    cases hw
    rwa [mul_one]
  · cases hu.eq_one
    cases hw
    rwa [one_mul]
  · cases hv.eq_one
    obtain ⟨-, rfl⟩ := I.binary_div_eq_some_iff.1 hw
    rwa [div_one]
  · cases hv.eq_one
    rw [show I.binary .pow u 1 = some u from I.pow_one u] at hw
    cases hw
    exact hu

theorem sign? {e e' : Expr (Option F)} {w : F} (hr : Rule.sign? e = some e')
    (h : HasValue I x b e w) : HasValue I x b e' w := by
  unfold Rule.sign? at hr
  split at hr
  · cases hr
    obtain ⟨u, v, hu, hv, hw⟩ := binary_iff.1 h
    cases hu.eq_zero
    cases hw
    rw [zero_sub]
    exact unary_iff.2 ⟨v, hv, rfl⟩
  · cases hr
    obtain ⟨u, hu, hw⟩ := unary_iff.1 h
    obtain ⟨v, hv, hneg⟩ := unary_iff.1 hu
    cases hneg
    cases hw
    rw [neg_mul_neg]
    exact unary_iff.2 ⟨v, hv, rfl⟩
  · cases hr

end HasValue

end Value

/-- The rules that hold in every field. -/
def Rule.algebraic : List Rule :=
  [foldConstants, zeroIdentity, identityElision, signNormalization]

section Pass

variable {F : Type u} [Field F] [DecidableEq F] {I : PartialField F} {x : Option F}
  {b : Binding (Option F)}

/-- **Each of the rules keeps the value of a formula that has one.** -/
theorem HasValue.result? {rule : Rule} (hrule : rule ∈ Rule.algebraic) {e e' : Expr (Option F)}
    {w : F} (hr : rule.result? I.kernel e = some e') (h : HasValue I x b e w) :
    HasValue I x b e' w := by
  cases rule with
  | foldConstants => exact h.fold? hr
  | zeroIdentity =>
    obtain ⟨rfl, rfl⟩ := h.eq_zero_of_zero? hr
    exact HasValue.zero
  | identityElision => exact h.elide? hr
  | signNormalization => exact h.sign? hr
  | absorbParameter | divideByParameter | oneIdentity | inverseCancellation =>
    exact absurd hrule (by decide)

/-- **A pass with rules that hold in every field keeps the value of a formula that is defined.** -/
theorem eval_simplify_of_algebraic (I : PartialField F) {rules : List Rule}
    (hrules : rules ⊆ Rule.algebraic) (t : Expr (Option F)) (x : Option F)
    (b : Binding (Option F)) {v : F} (h : t.eval I.kernel x b = .ok (some v)) :
    (t.simplify I.kernel rules).eval I.kernel x b = .ok (some v) := by
  have hpass : ∀ w, HasValue I x b t w → HasValue I x b (t.simplify I.kernel rules) w := by
    refine Expr.simplify_induction
      (R := fun e e' => ∀ w, HasValue I x b e w → HasValue I x b e' w) ?_ ?_ ?_ ?_ t
    · exact fun _ _ hw => hw
    · exact fun _ _ _ he _ hw => hw.unary_mono he
    · exact fun _ _ _ _ _ hl hr _ hw => hw.binary_mono hl hr
    · intro rule hrule e e' e'' he hr w hw
      exact (he w hw).result? (hrules hrule) hr
  exact hpass v h

end Pass

/-- The rationals with integer powers and no functions but the exponential of nought. -/
def PartialField.rationals : PartialField ℚ where
  function op u := if op = .exp ∧ u = 0 then some 1 else none
  pow u v :=
    if u = 0 then if 0 < v then some 0 else none
    else if v.den = 1 then some (u ^ v.num) else none
  power u n := some (u ^ n)
  pow_one u := by
    by_cases h : u = 0
    · simp [h]
    · simp [h]
  zero_pow v := by
    by_cases h : 0 < v
    · exact Or.inr (by simp [h])
    · exact Or.inl (by simp [h])

/-- A product with nought beside a power of a difference from nought. -/
def PartialField.sample : Expr (Option ℚ) :=
  .binary .add (.binary .mul .zero (.binary .div .one .var))
    (.binary .pow (.binary .sub .zero (.param ⟨'a', by decide⟩))
      (.binary .sub (.const (some 5)) (.const (some 2))))

theorem eval_simplify_rationals :
    PartialField.sample.eval PartialField.rationals.kernel (some 2) (fun _ => some (some 3)) =
        .ok (some (-27)) ∧
      (PartialField.sample.simplify PartialField.rationals.kernel
          [.signNormalization, .zeroIdentity, .foldConstants, .identityElision]).eval
        PartialField.rationals.kernel (some 2) (fun _ => some (some 3)) = .ok (some (-27)) := by
  have h : PartialField.sample.eval PartialField.rationals.kernel (some 2)
      (fun _ => some (some 3)) = .ok (some (-27)) := by decide +kernel
  exact ⟨h, eval_simplify_of_algebraic PartialField.rationals (by decide) _ _ _ h⟩

end CurveFormula
