import CurveFormula.Expr.Traversal
import CurveFormula.Proofs.Evaluation
import CurveFormula.Proofs.Tokens

/-!
# Values in place of letters

Values get into the plot text of a formula in two ways that have to agree. Plotting with a binding
writes the values where letters stand, at the parameters and at the coefficients of sums of powers,
and the result is the plot text with its names replaced (`Expr.plotWith_eq_substitute`). And if no
sum of powers occurs, the values can be put into the formula first, as constants: the filled formula
has the same plot text, and the same value at every point.
-/

namespace CurveFormula

universe u

variable {α : Type u} {N : Numerals α} {b : Binding α}

/-- What is written in place of a name: the value of the letter, if it has one. -/
def Binding.written (N : Numerals α) (b : Binding α) (name : Text) : Text :=
  match (Letter.ofText? name).bind b with
  | some v => N.format v
  | none => name

theorem Binding.written_text {p : Letter} {v : α} (h : b p = some v) :
    b.written N p.text = N.format v := by
  simp [written, h]

/-- In a piece the names are replaced by writing its letter in another way. -/
theorem Piece.substitute_text (hN : N.Positional) (f : Text → Text) (p : Piece α) :
    (p.text N .plot Letter.text).substitute f = p.text N .plot fun q => f q.text := by
  have hnames := Piece.names_text hN (Or.inr rfl) p
  cases p with
  | letter q =>
    show (Text.tokens Char.isAlpha q.text).flatMap _ = f q.text
    rw [q.tokens_text, List.flatMap_singleton, if_pos q.isName_text]
  | var | zero | one | const _ | before _ | behind _ | opening | between _ | closing | power _ _ =>
    exact Text.substitute_of_names_eq_nil f hnames

namespace Expr

/-- Values are written where the letters stand. -/
theorem inked_eq_substitute (hN : N.Positional) (f : Text → Text) (e : Expr α) :
    (e.inked N .plot fun q => f q.text) = (e.render N .plot).substitute f := by
  calc (e.inked N .plot fun q => f q.text)
      = e.script.flatMap fun p => (p.text N .plot Letter.text).substitute f :=
        List.flatMap_congr fun p _ => (p.substitute_text hN f).symm
    _ = (e.render N .plot).substitute f := by
        rw [(seamless_substitute f).render]

/-- **With values the plot text has its names replaced, and is unchanged otherwise.** -/
theorem plotWith_eq_substitute (hN : N.Positional) {e : Expr α}
    (hb : ∀ p ∈ e.letters, ∃ v, b p = some v) :
    e.plotWith N b = .ok ((e.render N .plot).substitute (b.written N)) := by
  rw [← inked_eq_substitute hN]
  refine plotWith_eq_inked fun p hp => ?_
  obtain ⟨v, hv⟩ := hb p hp
  exact ⟨v, hv, (Binding.written_text hv).symm⟩

/-- The formula with its parameters replaced by constants of their values. -/
def fill (b : Binding α) : Expr α → Expr α
  | param p =>
    match b p with
    | some v => const v
    | none => param p
  | unary op e => unary op (e.fill b)
  | binary op l r => binary op (l.fill b) (r.fill b)
  | leaf => leaf

theorem fill_param {p : Letter} {v : α} (h : b p = some v) : (param p).fill b = const v := by
  simp [fill, h]

/-- No sum of powers occurs in the formula. -/
def PowerFree (e : Expr α) : Prop :=
  ∀ w n, poly w n ∉ e.preorder

theorem powerFree_unary {op : UnaryOp} {e : Expr α} :
    (unary op e).PowerFree ↔ e.PowerFree := by
  simp [PowerFree, preorder]

theorem powerFree_binary {op : BinaryOp} {l r : Expr α} :
    (binary op l r).PowerFree ↔ l.PowerFree ∧ r.PowerFree := by
  simp [PowerFree, preorder, forall_and]

theorem not_powerFree_poly (w : Weights) (n : Fin 24) : ¬(poly w n : Expr α).PowerFree :=
  fun h => h w n (by simp [preorder])

/-- **Filling a formula does what plotting with values does.** -/
theorem render_fill {e : Expr α} (he : e.PowerFree) (hb : ∀ p ∈ e.letters, ∃ v, b p = some v)
    (d : Dialect) : (e.fill b).render N d = e.inked N d fun q => b.written N q.text := by
  induction e with
  | var | const _ | zero | one => exact (List.flatMap_singleton _ _).symm
  | param p =>
    obtain ⟨v, hv⟩ := hb p (by simp [letters])
    rw [fill_param hv, render_const, ← Binding.written_text hv]
    exact (List.flatMap_singleton _ _).symm
  | unary op e ih => rw [fill, render_unary, inked_unary, ih (powerFree_unary.1 he) hb]
  | binary op l r ihl ihr =>
    obtain ⟨hl, hr⟩ := powerFree_binary.1 he
    rw [fill, render_binary, inked_binary, ihl hl fun p hp => hb p (List.mem_append_left _ hp),
      ihr hr fun p hp => hb p (List.mem_append_right _ hp)]
  | poly w n => exact absurd he (not_powerFree_poly w n)

/-- **A filled formula has the value of the formula, whatever it is evaluated with.** -/
theorem eval_fill (K : Kernel α) (x : α) (b' : Binding α) {e : Expr α} (he : e.PowerFree)
    (hb : ∀ p ∈ e.letters, ∃ v, b p = some v) : (e.fill b).eval K x b' = e.eval K x b := by
  induction e with
  | var | const _ | zero | one => rfl
  | param p =>
    obtain ⟨v, hv⟩ := hb p (by simp [letters])
    rw [fill_param hv, eval_const, eval_param, Binding.lookup_of_some hv]
  | unary op e ih => rw [fill, eval, eval, ih (powerFree_unary.1 he) hb]
  | binary op l r ihl ihr =>
    obtain ⟨hl, hr⟩ := powerFree_binary.1 he
    rw [fill, eval, eval, ihl hl fun p hp => hb p (List.mem_append_left _ hp),
      ihr hr fun p hp => hb p (List.mem_append_right _ hp)]
  | poly w n => exact absurd he (not_powerFree_poly w n)

/-- **Plotted values are the evaluated values.** The names in the plot text without values are the
letters of the formula. With a value for every letter, the plot text is the one without values with
its names replaced in place by the values. Without sums of powers it is also the plot text of the
filled formula, whose value without a binding is the value of the formula at every point. -/
theorem plot_eq_substitute (e : Expr Float) (b : Binding Float)
    (hb : ∀ p ∈ e.letters, ∃ v, b p = some v) :
    (∃ t, e.plot Binary64.numerals none = .ok t ∧
      t.names = e.letters.map Letter.text ∧
      (∀ p ∈ e.letters, ∃ v, b p = some v ∧
        b.written Binary64.numerals p.text = Binary64.numerals.format v) ∧
      e.plot Binary64.numerals (some b) = .ok (t.substitute (b.written Binary64.numerals))) ∧
    (e.PowerFree →
      e.plot Binary64.numerals (some b) = (e.fill b).plot Binary64.numerals none ∧
      ∀ (K : Kernel Float) (x : Float), ∃ v,
        e.eval K x b = .ok v ∧ (e.fill b).eval K x .empty = .ok v) := by
  have hplot := plotWith_eq_substitute Binary64.positional_numerals hb
  have hnames := e.names_render Binary64.positional_numerals (Or.inr rfl)
  refine ⟨⟨_, rfl, hnames, fun p hp => ?_, hplot⟩, fun he => ⟨?_, fun K x => ?_⟩⟩
  · obtain ⟨v, hv⟩ := hb p hp
    exact ⟨v, hv, Binding.written_text hv⟩
  · rw [plot, plot, render_fill he hb, inked_eq_substitute Binary64.positional_numerals]
    exact hplot
  · obtain ⟨v, hv⟩ := exists_eval (K := K) (x := x) hb
    exact ⟨v, hv, (eval_fill K x .empty he hb).trans hv⟩

/-- A formula with two parameters, minus a half the value of both. -/
theorem plot_halves :
    let f : Letter := ⟨'f', by decide⟩
    let g : Letter := ⟨'g', by decide⟩
    let e : Expr Float := binary .add (binary .mul (param f) var) (unary .exp (param g))
    let half : Binding Float := fun _ => some (-0.5)
    let t : Text := Binary64.numerals.format (-0.5)
    (∃ s, e.plot Binary64.numerals none = .ok s ∧ s.names = [f.text, g.text] ∧
      e.plot Binary64.numerals (some half) = .ok (s.substitute (half.written Binary64.numerals))) ∧
    e.plot Binary64.numerals (some half) = (e.fill half).plot Binary64.numerals none ∧
    e.plot Binary64.numerals (some half) =
      .ok ("((".toList ++ t ++ " * x) + exp(".toList ++ t ++ "))".toList) ∧
    ∃ v, e.eval Binary64.kernel 1.0 half = .ok v ∧
      (e.fill half).eval Binary64.kernel 1.0 .empty = .ok v := by
  intro f g e half t
  have hletters : ∀ p ∈ e.letters, ∃ v, half p = some v := fun _ _ => ⟨_, rfl⟩
  have hpowers : e.PowerFree := by
    simp [e, PowerFree, preorder]
  obtain ⟨⟨s, hs, hnames, -, hplot⟩, hfill⟩ := plot_eq_substitute e half hletters
  obtain ⟨hfilled, hvalue⟩ := hfill hpowers
  refine ⟨⟨s, hs, hnames, hplot⟩, hfilled, ?_, hvalue Binary64.kernel 1.0⟩
  have hsum : e.plot Binary64.numerals (some half) = .ok (Dialect.plot.binary .add
      (Dialect.plot.binary .mul t ['x']) (Dialect.plot.unary .exp t)) := rfl
  rw [hsum]
  simp [Dialect.binary, Dialect.unary, BinaryOp.sign, Dialect.plot]

end Expr

end CurveFormula
