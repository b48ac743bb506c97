import CurveFormula.Expr.Traversal
import CurveFormula.Proofs.Evaluation
import CurveFormula.Proofs.PowerSums
import CurveFormula.Proofs.RoundTrip
import CurveFormula.Proofs.FieldRules

/-!
# Written formulas keep their values

The text of a formula reads as its canonical formula. Where a constant with a negative sign is the
negation of its magnitude and a power with the exponent two is a square (`Kernel.ReadsBack`), the
canonical formula has the same value, whatever the values are; only sums of powers need more. They
are written out with the first terms outermost, and with the divisor of a term inside its product,
while the evaluator adds from the left and divides the product. In a field of characteristic nought
both are the same sum (`Expr.eval_canon_poly`), if the exponents and divisors that occur in the text
are read as what they stand for (`Kernel.ReadsPowers`).

A kernel may compute with other values than those that constants are written from: `value` reads a
constant, and `Expr.map` reads all constants of a formula.
-/

namespace CurveFormula

universe u v

variable {α : Type u} {β F : Type v}

/-- A result is a step that cannot fail. -/
theorem ok_eq_pure {ε : Type} (v : β) : (Except.ok v : Except ε β) = pure v := rfl

namespace Binding

/-- The binding with its values read as other values. -/
def map (f : F → β) (b : Binding F) : Binding β :=
  fun p => (b p).map f

theorem lookup_map (f : F → β) (b : Binding F) (p : Letter) :
    (b.map f).lookup p = f <$> b.lookup p := by
  unfold lookup map
  cases b p <;> rfl

theorem lookupAll_cons (b : Binding F) (p : Letter) (ps : List Letter) :
    b.lookupAll (p :: ps) = do
      let v ← b.lookup p
      let vs ← b.lookupAll ps
      return v :: vs := rfl

/-- Letters that are looked up together have values. -/
theorem exists_of_lookupAll_cons {b : Binding F} {p : Letter} {ps : List Letter} {cs : List F}
    (h : b.lookupAll (p :: ps) = .ok cs) :
    ∃ c cs', cs = c :: cs' ∧ b p = some c ∧ b.lookupAll ps = .ok cs' := by
  rw [lookupAll_cons] at h
  obtain ⟨c, hp, h⟩ := exists_of_bind_eq_ok h
  obtain ⟨cs', hps, h⟩ := exists_of_bind_eq_ok h
  cases h
  exact ⟨c, cs', rfl, lookup_eq_ok_iff.1 hp, hps⟩

theorem lookupAll_map (f : F → β) (b : Binding F) (ps : List Letter) :
    (b.map f).lookupAll ps = List.map f <$> b.lookupAll ps := by
  induction ps with
  | nil => rfl
  | cons p ps ih => simp [lookupAll_cons, lookup_map, ih]

end Binding

namespace Expr

/-- The formula with its constants read as other values. -/
def map (f : α → β) : Expr α → Expr β
  | var => var
  | const c => const (f c)
  | zero => zero
  | one => one
  | param p => param p
  | unary op e => unary op (e.map f)
  | binary op l r => binary op (l.map f) (r.map f)
  | poly w n => poly w n

end Expr

/-- The laws under which a text has the value of its formula, constants being read by `value`. -/
structure Kernel.ReadsBack (K : Kernel β) (N : Numerals α) (magnitude : α → α) (value : α → β) :
    Prop where
  /-- Negating the magnitude of a constant with a negative sign gives the constant. -/
  neg_magnitude : ∀ c, N.negative c = true → K.unary .neg (value (magnitude c)) = value c
  pow_two : ∀ u c, N.isTwo c = true → K.binary .pow u (value c) = K.unary .square u

/-- The laws for the exponents and divisors that are written into the sums of powers of a formula.
They ask for nothing beyond the highest power of a sum, because a great factorial may be rounded
when it is read. -/
structure Kernel.ReadsPowers [Field F] (K : Kernel β) (nearest : ℕ → α) (value : α → β)
    (number : F → β) (e : Expr α) : Prop extends K.Arithmetic number where
  pow_index : ∀ w n, .poly w n ∈ e.preorder → ∀ u i, 3 ≤ i → i ≤ n.val →
    K.binary .pow (number u) (value (nearest i)) = number (u ^ i)
  /-- The digits of a factorial are read without rounding. -/
  value_factorial : ∀ n, .poly .factorial n ∈ e.preorder → ∀ i, 2 ≤ i → i ≤ n.val →
    value (nearest (factorial i)) = number (factorial i : F)

namespace Expr

variable {K : Kernel β} {N : Numerals α} {magnitude : α → α} {nearest : ℕ → α} {value : α → β}

theorem eval_unary (op : UnaryOp) (e : Expr β) (x : β) (b : Binding β) :
    (unary op e).eval K x b = K.unary op <$> e.eval K x b := rfl

theorem eval_binary (op : BinaryOp) (l r : Expr β) (x : β) (b : Binding β) :
    (binary op l r).eval K x b = do
      let v ← l.eval K x b
      let w ← r.eval K x b
      return K.binary op v w := rfl

/-! ### Sums of powers -/

section Powers

variable [Field F] {number : F → β}

theorem eval_poly [CharZero F] (hK : K.Arithmetic number) (w : Weights) (n : Fin 24) (x : F)
    (b : Binding F) :
    (poly w n : Expr β).eval K (number x) (b.map number) =
      (fun cs => number (w.sumFrom x 0 cs)) <$> b.lookupAll (Letter.upTo n) := by
  obtain ⟨p, ps, hps, -⟩ := Parse.exists_upTo_eq_cons n
  show K.series w (number x) <$> (b.map number).lookupAll (Letter.upTo n) = _
  rw [hps, b.lookupAll_map, b.lookupAll_cons]
  simp only [map_bind, map_pure, hK.series_cons]

variable {e : Expr α} (hK : K.ReadsPowers nearest value number e)
variable {w : Weights} {n : Fin 24} (hmem : poly w n ∈ e.preorder)
include hK hmem

theorem eval_spelledPower {i : ℕ} (h : 2 ≤ i) (hi : i ≤ n.val) (x : F) (b : Binding β) :
    ((spelledPower nearest i).map value).eval K (number x) b = pure (number (x ^ i)) := by
  unfold spelledPower
  split_ifs with h2
  · subst h2
    simp [map, eval_unary, hK.square, pow_two, ok_eq_pure]
  · simp [map, eval_binary, hK.pow_index w n hmem x i (by omega) hi, ok_eq_pure]

variable [CharZero F]

theorem eval_spelledWeight {i : ℕ} (h : 2 ≤ i) (hi : i ≤ n.val) (x : F) (b : Binding β) :
    ((spelledWeight nearest w i).map value).eval K (number x) b =
      pure (number (x ^ i / w.divisor i)) := by
  have hpower := eval_spelledPower hK hmem h hi x b
  cases w with
  | plain => simpa [spelledWeight, Weights.divisor] using hpower
  | factorial =>
    have hfact : K.binary .div (number (x ^ i)) (value (nearest (CurveFormula.factorial i))) =
        number (x ^ i / Weights.factorial.divisor i) := by
      rw [hK.value_factorial n hmem i h hi]
      exact hK.div_divisor .factorial i (x ^ i)
    simp [spelledWeight, h, map, eval_binary, hpower, hfact, ok_eq_pure]

/-- The value of a term is that of its coefficient times the power, divided. -/
theorem eval_spelledTerm {i : ℕ} (hi : i ≤ n.val) (x : F) (b : Binding F) (p : Letter) :
    ((spelledTerm nearest w i p).map value).eval K (number x) (b.map number) =
      (fun c => number (c * x ^ i / w.divisor i)) <$> b.lookup p := by
  rcases i with _ | _ | i
  · simp [spelledTerm, map, Binding.lookup_map]
  · simp [spelledTerm, map, eval_binary, Binding.lookup_map, hK.mul, ok_eq_pure]
  · have hweight := eval_spelledWeight hK hmem (i := i + 2) (by omega) hi x (b.map number)
    simp [spelledTerm, map, eval_binary, Binding.lookup_map, hweight, hK.mul, mul_div_assoc]

/-- The terms from index `i` on, added from the right. -/
theorem eval_spelledSum (x : F) (b : Binding F) (p : Letter) (ps : List Letter) {i : ℕ}
    (hi : i + ps.length ≤ n.val) :
    ((spelledSum nearest w i p ps).map value).eval K (number x) (b.map number) =
      (fun cs => number (w.sumFrom x i cs)) <$> b.lookupAll (p :: ps) := by
  induction ps generalizing i p with
  | nil =>
    rw [spelledSum, eval_spelledTerm hK hmem (i := i) hi]
    simp [Binding.lookupAll_cons, ok_eq_pure]
  | cons q ps ih =>
    rw [List.length_cons] at hi
    have hterm := eval_spelledTerm hK hmem (i := i) (by omega) x b p
    have hrest := ih q (i := i + 1) (by omega)
    rw [spelledSum, map, eval_binary, hterm, hrest, b.lookupAll_cons p]
    simp [hK.add]

/-- A sum of powers has the value of what it is written as. -/
theorem eval_canon_poly (x : F) (b : Binding F) :
    (((poly w n).canon N magnitude nearest).map value).eval K (number x) (b.map number) =
      (poly w n).eval K (number x) (b.map number) := by
  obtain ⟨p, ps, hps, hlen⟩ := Parse.exists_upTo_eq_cons n
  rw [eval_poly hK.toArithmetic, Parse.canon_poly w hps, hps]
  exact eval_spelledSum hK hmem x b p ps (by omega)

end Powers

/-! ### Formulas -/

/-- **The canonical formula has the value of the formula**, provided that this holds of its sums of
powers. -/
theorem eval_canon (hK : K.ReadsBack N magnitude value) {e : Expr α} {x : β} {b : Binding β}
    (hsum : ∀ w n, poly w n ∈ e.preorder →
      (((poly w n).canon N magnitude nearest).map value).eval K x b = (poly w n).eval K x b) :
    ((e.canon N magnitude nearest).map value).eval K x b = (e.map value).eval K x b := by
  induction e with
  | var | zero | one | param _ => rfl
  | const c =>
    simp only [canon]
    split_ifs with hc
    · simp [map, eval_unary, hK.neg_magnitude c hc, ok_eq_pure]
    · rfl
  | poly w n => exact hsum w n (by simp [preorder])
  | unary op e ih =>
    have hoperand := ih fun w n hm => hsum w n (List.mem_cons_of_mem _ hm)
    simp only [canon, map, eval_unary, hoperand]
  | binary op l r ihl ihr =>
    have hl := ihl fun w n hm => hsum w n (List.mem_cons_of_mem _ (List.mem_append_left _ hm))
    have hr := ihr fun w n hm => hsum w n (List.mem_cons_of_mem _ (List.mem_append_right _ hm))
    simp only [canon]
    split_ifs with htwo
    · obtain ⟨rfl, c, rfl, hc⟩ := htwo
      simp [map, eval_unary, eval_binary, hl, hK.pow_two _ c hc, ok_eq_pure]
    · simp only [map, eval_binary, hl, hr]

end Expr

namespace Parse

variable [Field F] [CharZero F] {N : Numerals α} {magnitude : α → α} {nearest : ℕ → α}

/-- **The text of a formula reads as one with the same value**: over every kernel with the two laws
of constants if there is no sum of powers, and over every kernel that computes in a field with the
laws of powers otherwise. -/
theorem eval_parse_display (hN : N.Faithful magnitude nearest) {K : Kernel β} {value : α → β}
    (hK : K.ReadsBack N magnitude value) (e : Expr α) :
    ∃ e', Expr.parse N (e.display N) = .ok e' ∧
      ((∀ w n, Expr.poly w n ∉ e.preorder) →
        ∀ x b, (e'.map value).eval K x b = (e.map value).eval K x b) ∧
      ∀ number : F → β, K.ReadsPowers nearest value number e →
        ∀ (x : F) (b : Binding F), (e'.map value).eval K (number x) (b.map number) =
          (e.map value).eval K (number x) (b.map number) := by
  refine ⟨e.canon N magnitude nearest, read_of_derives (derives_display hN e), ?_, ?_⟩
  · intro hplain x b
    exact Expr.eval_canon hK fun w n hm => absurd hm (hplain w n)
  · intro number hnumber x b
    exact Expr.eval_canon hK fun w n hm => Expr.eval_canon_poly hnumber hm x b

end Parse

/-! ### The rationals -/

/-- A whole number among the rationals. -/
def Whole.rational (v : Whole) : Option ℚ :=
  some (if v.negative then -v.size else v.size)

namespace PartialField

theorem rationals_pow (u : ℚ) {i : ℕ} (h : 0 < i) : rationals.pow u i = some (u ^ i) := by
  by_cases hu : u = 0
  · simp [rationals, hu, h, h.ne']
  · simp [rationals, hu]

theorem readsBack_rationals :
    rationals.kernel.ReadsBack Whole.numerals Whole.magnitude Whole.rational where
  neg_magnitude c hc := by
    have hc : c.negative = true := hc
    simp [kernel, unary, Whole.rational, Whole.magnitude, Whole.ofNat, hc]
  pow_two u c hc := by
    obtain rfl : c = Whole.ofNat 2 := of_decide_eq_true hc
    cases u with
    | none => rfl
    | some u =>
      have hpow := rationals_pow u (i := 2) (by decide)
      rwa [pow_two u] at hpow

theorem arithmetic_rationals :
    rationals.kernel.Arithmetic (some : ℚ → Option ℚ) where
  one := rfl
  natural _ := rfl
  add _ _ := rfl
  mul _ _ := rfl
  div _ _ hv := if_neg hv
  square _ := rfl
  power _ _ := rfl

theorem readsPowers_rationals (e : Expr Whole) :
    rationals.kernel.ReadsPowers Whole.ofNat Whole.rational (some : ℚ → Option ℚ) e where
  toArithmetic := arithmetic_rationals
  pow_index _ _ _ u i h _ := rationals_pow u (i := i) (by omega)
  value_factorial _ _ _ _ _ := rfl

end PartialField

namespace Parse

/-- A square written as a power of a negative constant, and a series below a negation. -/
theorem eval_parse_display_rationals :
    (∃ e', Expr.parse Whole.numerals "(((-3.0))^(2.0) - (1 / x))".toList = .ok e' ∧
      (e'.map Whole.rational).eval PartialField.rationals.kernel (some 2) Binding.empty =
        .ok (some (17 / 2))) ∧
    ∃ e', Expr.parse Whole.numerals "(-(a + b*x + c*x^2/2 + d*x^3/6))".toList = .ok e' ∧
      (e'.map Whole.rational).eval PartialField.rationals.kernel (some 2) (fun _ => some (some 3)) =
        .ok (some (-19)) := by
  let e : Expr Whole :=
    .binary .sub (.binary .pow (.const ⟨true, 3⟩) (.const (.ofNat 2))) (.binary .div .one .var)
  let f : Expr Whole := .unary .neg (.poly .factorial 3)
  obtain ⟨e', he', hplain, -⟩ := eval_parse_display (F := ℚ) Whole.faithful
    PartialField.readsBack_rationals e
  obtain ⟨f', hf', -, hsum⟩ := eval_parse_display (F := ℚ) Whole.faithful
    PartialField.readsBack_rationals f
  refine ⟨⟨e', he', ?_⟩, ⟨f', hf', ?_⟩⟩
  · rw [hplain (by simp [e, Expr.preorder])]
    decide +kernel
  · have hvalue := hsum some (PartialField.readsPowers_rationals f) 2 (fun _ => some 3)
    rw [show (fun _ => some (some 3)) = Binding.map some fun _ => some (3 : ℚ) from rfl, hvalue]
    decide +kernel

end Parse

end CurveFormula
