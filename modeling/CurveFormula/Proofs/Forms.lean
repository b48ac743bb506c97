import CurveFormula.Form
import CurveFormula.Proofs.Meaning
import Mathlib.Data.Nat.Cast.Order.Ring
import Mathlib.Tactic.NormNum

/-!
# Algebraic forms keep the value

A form denotes a number of a field, or nothing where it is undefined: its sums, products and powers
are those of the kernel that formulas are evaluated over (`Form.denote`). A kernel reads forms if it
computes in the field, if whatever has an undefined part is undefined, and if powers with the
exponents that forms use are what algebra says: products of equal factors, the inverse and the
square root (`Kernel.ReadsForms`). Over such a kernel of characteristic nought the form of a formula
denotes the value of the formula (`Expr.eval_eq_denote_form`).

So a difference is a sum with a product by minus one, a quotient a product with an inverse and
undefined at the same numbers, and the powers of a series weighted by inverse factorials add up to
what the evaluator adds up with its running divisor.
-/

namespace CurveFormula

universe u v

variable {α : Type u} {F : Type v}

/-! ### What a form denotes -/

/-- What a function of a form does to a value. -/
def FormFunction.denote (K : Kernel (Option F)) (factorial : F → Option F) :
    FormFunction → Option F → Option F
  | exp => K.unary .exp
  | log => K.unary .ln
  | sin => K.unary .sin
  | cos => K.unary .cos
  | tan => K.unary .tan
  | .factorial => fun u => u.bind factorial

namespace Form

variable [Field F] (K : Kernel (Option F)) (factorial : F → Option F) (value : α → Option F)
  (symbols : Text → Option F)

mutual

/-- The number that a form denotes, if it is defined. -/
def denote : Form α → Option F
  | symbol s => symbols s
  | rational num den => some (num / den)
  | number c => value c
  | sum fs => denoteSum fs
  | product f g => K.binary .mul (denote f) (denote g)
  | power f g => K.binary .pow (denote f) (denote g)
  | function f g => f.denote K factorial (denote g)

/-- The number that a sum of forms denotes. -/
def denoteSum : List (Form α) → Option F
  | [] => some 0
  | f :: fs => K.binary .add (denote f) (denoteSum fs)

end

end Form

/-- The values of the symbols: that of the variable, and those of the letters that have one. -/
def Binding.symbols (x : F) (b : Binding F) (s : Text) : Option F :=
  if s = ['x'] then some x else (Letter.ofText? s).bind b

theorem Letter.text_ne_variable (p : Letter) : p.text ≠ ['x'] := by
  intro h
  have hp := p.mem_alphabet
  rw [(List.cons.inj h).1] at hp
  exact absurd hp (by decide)

@[simp] theorem Binding.symbols_variable (x : F) (b : Binding F) : b.symbols x ['x'] = some x :=
  if_pos rfl

@[simp] theorem Binding.symbols_text (x : F) (b : Binding F) (p : Letter) :
    b.symbols x p.text = b p := by
  simp [symbols, p.text_ne_variable]

/-- The laws under which forms are read in a field: the kernel computes with its numbers and with
nothing else but the undefined value, and powers with certain exponents are no others than algebra
knows. The exponential, the logarithm, the square root, the circular functions and all other powers
may be anything. -/
structure Kernel.ReadsForms [Field F] (K : Kernel (Option F)) (value : α → Option F)
    (negate : α → α) (factorial : F → Option F) : Prop extends
    K.Arithmetic (some : F → Option F) where
  zero : K.zero = some 0
  neg : ∀ u, K.unary .neg (some u) = some (-u)
  sub : ∀ u v, K.binary .sub (some u) (some v) = some (u - v)
  div_zero : ∀ u, K.binary .div (some u) (some 0) = none
  /-- Whatever has an undefined part is undefined. -/
  unary_none : ∀ op, K.unary op none = none
  none_binary : ∀ op u, K.binary op none u = none
  binary_none : ∀ op u, K.binary op u none = none
  pow_index : ∀ u (i : ℕ), i < 24 → K.binary .pow (some u) (some (i : F)) = some (u ^ i)
  pow_neg_one : ∀ u, u ≠ 0 → K.binary .pow (some u) (some (-1)) = some u⁻¹
  zero_pow_neg_one : K.binary .pow (some 0) (some (-1)) = none
  pow_half : ∀ u, K.binary .pow (some u) (some (1 / 2)) = K.unary .sqrt (some u)
  factorial_natural : ∀ n : ℕ, factorial n = some (CurveFormula.factorial n : F)
  value_negate : ∀ c, value (negate c) = (value c).map (-·)

/-! ### Differences and quotients as sums and products -/

namespace Kernel.ReadsForms

variable [Field F] {K : Kernel (Option F)} {factorial : F → Option F} {value : α → Option F}
  {negate : α → α} (hK : K.ReadsForms value negate factorial)
include hK

/-- A product with minus one is a negation. -/
theorem mul_neg_one (u : Option F) : K.binary .mul (some (-1)) u = K.unary .neg u := by
  cases u with
  | none => rw [hK.binary_none, hK.unary_none]
  | some u => rw [hK.mul, hK.neg, neg_one_mul]

/-- A sum with a product by minus one is a difference. -/
theorem add_mul_neg_one (u v : Option F) :
    K.binary .add u (K.binary .mul (some (-1)) v) = K.binary .sub u v := by
  rw [hK.mul_neg_one]
  cases u with
  | none => rw [hK.none_binary, hK.none_binary]
  | some u =>
    cases v with
    | none => rw [hK.unary_none, hK.binary_none, hK.binary_none]
    | some v => rw [hK.neg, hK.add, hK.sub, sub_eq_add_neg]

/-- A product with an inverse is a quotient. -/
theorem mul_pow_neg_one (u v : Option F) :
    K.binary .mul u (K.binary .pow v (some (-1))) = K.binary .div u v := by
  cases v with
  | none => rw [hK.none_binary, hK.binary_none, hK.binary_none]
  | some v =>
    cases u with
    | none => rw [hK.none_binary, hK.none_binary]
    | some u =>
      by_cases hv : v = 0
      · rw [hv, hK.zero_pow_neg_one, hK.binary_none, hK.div_zero]
      · rw [hK.pow_neg_one v hv, hK.mul, hK.div u v hv, div_eq_mul_inv]

/-- A sum with nothing behind it. -/
theorem add_zero_right (u : Option F) : K.binary .add u (some 0) = u := by
  cases u with
  | none => exact hK.none_binary _ _
  | some u => rw [hK.add, add_zero]

end Kernel.ReadsForms

namespace Form

variable [Field F] {K : Kernel (Option F)} {factorial : F → Option F} {value : α → Option F}
  {negate : α → α} {symbols : Text → Option F}

@[simp] theorem denote_integer (n : ℤ) :
    (integer n : Form α).denote K factorial value symbols = some (n : F) := by
  simp [integer, denote]

theorem denote_inverse (f : Form α) :
    f.inverse.denote K factorial value symbols =
      K.binary .pow (f.denote K factorial value symbols) (some (-1)) := by
  simp [inverse, denote]

section Laws

variable (hK : K.ReadsForms value negate factorial)
include hK

/-! ### The steps of the translation -/

theorem denote_negated (f : Form α) :
    (f.negated negate).denote K factorial value symbols =
      K.unary .neg (f.denote K factorial value symbols) := by
  -- rationals and constants are negated in place, all other forms are multiplied by minus one
  cases f with
  | rational num den => simp [negated, denote, hK.neg, neg_div]
  | number c =>
    show value (negate c) = K.unary .neg (value c)
    rw [hK.value_negate]
    cases value c with
    | none => exact (hK.unary_none _).symm
    | some u => exact (hK.neg u).symm
  | symbol _ | sum _ | product _ _ | power _ _ | function _ _ =>
    simp only [negated, denote, denote_integer, Int.cast_neg, Int.cast_one, hK.mul_neg_one]

/-- A function of a form is the function of its value. -/
theorem denote_ofUnary (op : UnaryOp) (f : Form α) :
    (ofUnary negate op f).denote K factorial value symbols =
      K.unary op (f.denote K factorial value symbols) := by
  cases op with
  | neg => exact denote_negated hK f
  | exp | ln | sin | cos | tan => rfl
  | sqrt =>
    simp only [ofUnary, denote]
    cases f.denote K factorial value symbols with
    | none => rw [hK.none_binary, hK.unary_none]
    | some u => simpa using hK.pow_half u
  | square =>
    simp only [ofUnary, denote, denote_integer]
    cases f.denote K factorial value symbols with
    | none => rw [hK.none_binary, hK.unary_none]
    | some u =>
      have hpow := hK.pow_index u 2 (by decide)
      rw [hK.square, ← pow_two]
      exact_mod_cast hpow

/-- An operator between two forms is the operator between their values. -/
theorem denote_ofBinary (op : BinaryOp) (f g : Form α) :
    (ofBinary op f g).denote K factorial value symbols =
      K.binary op (f.denote K factorial value symbols) (g.denote K factorial value symbols) := by
  cases op with
  | add => simp only [ofBinary, denote, denoteSum, hK.add_zero_right]
  | sub =>
    simp only [ofBinary, denote, denoteSum, hK.add_zero_right, denote_integer, Int.cast_neg,
      Int.cast_one, hK.add_mul_neg_one]
  | mul => rfl
  | div => simp only [ofBinary, denote, denote_inverse, hK.mul_pow_neg_one]
  | pow => rfl

/-! ### Sums of powers -/

theorem denote_sumOf (fs : List (Form α)) :
    (sumOf fs).denote K factorial value symbols = denoteSum K factorial value symbols fs := by
  unfold sumOf
  split
  · simp only [denoteSum, hK.add_zero_right]
  · rfl

variable [CharZero F]

/-- A weighted power denotes its coefficient times the power, divided. -/
theorem denote_weighted (w : Weights) {i : ℕ} (hi : i < 24) (x c : F) {p : Letter}
    (hx : symbols ['x'] = some x) (hp : symbols p.text = some c) :
    (weighted w i p : Form α).denote K factorial value symbols =
      some (c * x ^ i / w.divisor i) := by
  have hpow : K.binary .mul (some c) (K.binary .pow (some x) (some (i : F))) =
      some (c * x ^ i) := by
    rw [hK.pow_index x i hi, hK.mul]
  cases w with
  | plain => simpa [weighted, variableSymbol, denote, hx, hp, Weights.divisor] using hpow
  | factorial =>
    -- the factorial stands behind the term as an inverse
    have hdiv := hK.div_divisor .factorial i (c * x ^ i)
    rw [← hK.mul_pow_neg_one, ← hpow, Weights.divisor, ← hK.factorial_natural] at hdiv
    simpa [weighted, variableSymbol, denote, denote_inverse, FormFunction.denote, hx, hp,
      Weights.divisor] using hdiv

/-- The weighted powers from index `i` on denote their sum. -/
theorem denoteSum_weightedFrom (w : Weights) (x : F) (b : Binding F) {ps : List Letter}
    {cs : List F} {i : ℕ} (hi : i + ps.length ≤ 24) (hcs : b.lookupAll ps = .ok cs) :
    denoteSum K factorial value (b.symbols x) (weightedFrom w i ps : List (Form α)) =
      some (w.sumFrom x i cs) := by
  induction ps generalizing i cs with
  | nil =>
    cases hcs
    rfl
  | cons p ps ih =>
    rw [List.length_cons] at hi
    obtain ⟨c, cs, rfl, hp, hps⟩ := Binding.exists_of_lookupAll_cons hcs
    have hterm := denote_weighted (α := α) hK w (i := i) (by omega) x c
      (b.symbols_variable x) ((b.symbols_text x p).trans hp)
    rw [weightedFrom, denoteSum, hterm, ih (by omega) hps, hK.add, Weights.sumFrom_cons]

end Laws

end Form

namespace Expr

variable [Field F] [CharZero F] {K : Kernel (Option F)} {factorial : F → Option F}
  {value : α → Option F} {negate : α → α}

/-- **The form of a formula denotes the value of the formula**, undefined values included. -/
theorem eval_eq_denote_form (hK : K.ReadsForms value negate factorial) (e : Expr α) (x : F)
    (b : Binding F) (hb : ∀ p ∈ e.letters, ∃ v, b p = some v) :
    (e.map value).eval K (some x) (b.map some) =
      .ok ((e.form negate).denote K factorial value (b.symbols x)) := by
  induction e with
  | var => exact congrArg Except.ok (b.symbols_variable x).symm
  | const c => rfl
  | zero =>
    refine congrArg Except.ok (hK.zero.trans ?_)
    simp [form]
  | one =>
    refine congrArg Except.ok (hK.one.trans ?_)
    simp [form]
  | param p =>
    obtain ⟨v, hv⟩ := hb p (by simp [letters])
    have hlookup : (b.map some).lookup p = .ok (some v) :=
      Binding.lookup_of_some (by simp [Binding.map, hv])
    refine hlookup.trans (congrArg Except.ok ?_)
    exact ((b.symbols_text x p).trans hv).symm
  | poly w n =>
    obtain ⟨cs, hcs⟩ : ∃ cs, b.lookupAll (Letter.upTo n) = .ok cs := Binding.exists_lookupAll hb
    have hlen : 0 + (Letter.upTo n).length ≤ 24 := by
      rw [Letter.length_upTo n.isLt]
      omega
    have hlookup : (b.map some).lookupAll (Letter.upTo n) = .ok (cs.map some) := by
      rw [Binding.lookupAll_map, hcs]
      rfl
    rw [form, Form.denote_sumOf hK, Form.denoteSum_weightedFrom hK w x b hlen hcs]
    -- the evaluator begins with the first coefficient, so there has to be one
    obtain ⟨p, ps, hps, -⟩ := Parse.exists_upTo_eq_cons n
    obtain ⟨c, cs', rfl, -, -⟩ := Binding.exists_of_lookupAll_cons (hps ▸ hcs)
    simp only [map, eval, hlookup, ← hK.series_cons w x c cs']
    rfl
  | unary op e ih =>
    rw [form, Form.denote_ofUnary hK]
    exact eval_unary_of_ok K (ih hb)
  | binary op l r ihl ihr =>
    rw [form, Form.denote_ofBinary hK]
    exact eval_binary_of_ok K (ihl fun p hp => hb p (List.mem_append_left _ hp))
      (ihr fun p hp => hb p (List.mem_append_right _ hp))

end Expr

/-! ### The rationals -/

namespace Form

/-- The square root of a rational number, if it is rational. -/
def root? (u : ℚ) : Option ℚ :=
  let r : ℚ := u.num.toNat.sqrt / u.den.sqrt
  if r * r = u then some r else none

/-- The power of a rational number with an integer or one half as its exponent. -/
def power? (u v : ℚ) : Option ℚ :=
  if v = 1 / 2 then root? u
  else if v.den = 1 ∧ (u ≠ 0 ∨ 0 ≤ v) then some (u ^ v.num)
  else none

/-- The factorial of a natural number among the rationals. -/
def factorial? (u : ℚ) : Option ℚ :=
  if u.den = 1 then some (CurveFormula.factorial u.num.toNat) else none

/-- The rationals with their integer powers and square roots. -/
def rationals : Kernel (Option ℚ) :=
  { PartialField.rationals.kernel with
    unary := fun op a => a.bind fun u =>
      if op = .sqrt then root? u else PartialField.rationals.unary op u
    binary := fun op a c => a.bind fun u => c.bind fun v =>
      if op = .pow then power? u v else PartialField.rationals.binary op u v }

theorem readsForms_rationals :
    rationals.ReadsForms (some : ℚ → Option ℚ) (-·) factorial? where
  one := rfl
  natural _ := rfl
  add _ _ := rfl
  mul _ _ := rfl
  div _ _ hv := if_neg hv
  square _ := rfl
  power _ _ := rfl
  zero := rfl
  neg _ := rfl
  sub _ _ := rfl
  div_zero u := by
    show (if (0 : ℚ) = 0 then none else some (u / 0)) = none
    exact if_pos rfl
  unary_none _ := rfl
  none_binary _ _ := rfl
  binary_none _ u := by cases u <;> rfl
  pow_index u i _ := by
    have hhalf : (i : ℚ) ≠ 1 / 2 := by
      intro h
      have hden := congrArg Rat.den h
      rw [Rat.den_natCast] at hden
      exact absurd hden (by decide +kernel)
    show power? u i = some (u ^ i)
    rw [power?, if_neg hhalf, if_pos ⟨Rat.den_natCast i, Or.inr (Nat.cast_nonneg i)⟩,
      Rat.num_natCast, zpow_natCast]
  pow_neg_one u hu := by
    show power? u (-1) = some u⁻¹
    rw [power?, if_neg (by norm_num), if_pos ⟨rfl, Or.inl hu⟩]
    simp
  zero_pow_neg_one := by
    show power? 0 (-1) = none
    rw [power?, if_neg (by norm_num), if_neg (by norm_num)]
  pow_half u := if_pos rfl
  factorial_natural n := by
    simp [factorial?]
  value_negate _ := rfl

end Form

/-- A square root less the product of a negated series and a square. -/
theorem Expr.eval_eq_denote_form_rationals :
    let e : Expr ℚ :=
      .binary .sub (.unary .sqrt (.binary .div .var (.const 4)))
        (.binary .mul (.unary .neg (.poly .factorial 3)) (.unary .square (.param ⟨'a', by decide⟩)))
    (e.map some).eval Form.rationals (some 9) (Binding.map some fun _ => some 2) =
        .ok (some (2755 / 2)) ∧
      (e.form (-·)).denote Form.rationals Form.factorial? some
          (Binding.symbols 9 fun _ => some 2) = some (2755 / 2) := by
  intro e
  have hvalue : (e.map some).eval Form.rationals (some 9) (Binding.map some fun _ => some 2) =
      .ok (some (2755 / 2)) := by decide +kernel
  have hform := Expr.eval_eq_denote_form Form.readsForms_rationals e 9 (fun _ => some 2)
    fun _ _ => ⟨2, rfl⟩
  exact ⟨hvalue, Except.ok.inj (hform.symm.trans hvalue)⟩

end CurveFormula
