import CurveFormula.Proofs.Reading
import CurveFormula.Proofs.Whole

/-!
# Written formulas read back

The text of a formula is derived by the grammar, as a power at the loosest (`derives_display`):
every other operator is written between brackets. Since reading gives what the grammar derives, the
text reads back as the canonical formula.

The induction is on the formula. No scan of the reader appears in it: that the pieces of a text
hide their operators from each other is part of the grammar.
-/

namespace CurveFormula.Parse

universe u

variable {α : Type u}

namespace Stratum

theorem rank_leftOf_le {op : BinaryOp} (h : op ≠ .pow) : (leftOf op).rank ≤ power.rank := by
  revert h
  cases op <;> decide

theorem rank_rightOf_le (op : BinaryOp) : (rightOf op).rank ≤ power.rank := by
  cases op <;> decide

end Stratum

/-! ### Texts without blanks -/

theorem normalize_enclosed (t : Text) :
    normalize ('(' :: (t ++ [')'])) = '(' :: (normalize t ++ [')']) := by
  rw [normalize_cons rfl, normalize_append]
  rfl

theorem normalize_neg (t : Text) :
    normalize (Dialect.display.unary .neg t) = '(' :: (('-' :: normalize t) ++ [')']) := by
  have := normalize_enclosed ('-' :: t)
  rwa [normalize_cons rfl] at this

theorem normalize_square (t : Text) :
    normalize (Dialect.display.unary .square t) =
      ('(' :: (normalize t ++ [')'])) ++ '^' :: ['2'] := by
  have htext : Dialect.display.unary .square t = '(' :: (t ++ [')']) ++ ['^', '2'] := by
    simp [Dialect.unary, Dialect.display]
  rw [htext, normalize_append, normalize_enclosed]
  rfl

theorem normalize_call {op : UnaryOp} (h : op ∈ functions) (t : Text) :
    normalize (Dialect.display.unary op t) = op.name ++ '(' :: (normalize t ++ [')']) := by
  have htext : Dialect.display.unary op t = op.name ++ '(' :: (t ++ [')']) := by
    cases op with
    | neg | square => exact absurd h (by decide)
    | exp | ln | sqrt | sin | cos | tan => rfl
  rw [htext, normalize_append, (solid_name h).normalize_eq, normalize_enclosed]

theorem normalize_pow (l r : Text) :
    normalize (Dialect.display.binary .pow l r) =
      ('(' :: (normalize l ++ [')'])) ++ '^' :: ('(' :: (normalize r ++ [')'])) := by
  have htext : Dialect.display.binary .pow l r =
      '(' :: (l ++ [')']) ++ '^' :: '(' :: (r ++ [')']) := by
    simp [Dialect.binary, Dialect.display]
  rw [htext, normalize_append, normalize_enclosed, normalize_cons rfl, normalize_enclosed]

theorem steady_sign (op : BinaryOp) : steady op.sign = true := by
  cases op <;> rfl

theorem normalize_spaced {c : Char} (hc : steady c = true) (l r : Text) :
    normalize (l ++ ' ' :: c :: ' ' :: r) = normalize l ++ c :: normalize r := by
  rw [normalize_append, normalize_blank rfl, normalize_cons hc, normalize_blank rfl]

theorem normalize_binary {op : BinaryOp} (h : op ≠ .pow) (l r : Text) :
    normalize (Dialect.display.binary op l r) =
      '(' :: ((normalize l ++ op.sign :: normalize r) ++ [')']) := by
  have htext : Dialect.display.binary op l r =
      '(' :: ((l ++ ' ' :: op.sign :: ' ' :: r) ++ [')']) := by
    cases op with
    | pow => exact absurd rfl h
    | add | sub | mul | div => simp [Dialect.binary]
  rw [htext, normalize_enclosed, normalize_spaced (steady_sign op)]

/-! ### Literals -/

section Faithful

variable {N : Numerals α} {magnitude : α → α} {nearest : ℕ → α}

theorem derives_var : Derives N .atom ['x'] .var :=
  .literal ⟨by simp, by decide⟩ .var

theorem derives_zero : Derives N .atom ['0'] .zero :=
  .literal ⟨by simp, by decide⟩ .zero

theorem derives_one : Derives N .atom ['1'] .one :=
  .literal ⟨by simp, by decide⟩ .one

theorem derives_param (p : Letter) : Derives N .atom p.text (.param p) :=
  .literal (solid_text p).bare (.param p)

theorem derives_write (hN : N.Faithful magnitude nearest) {v : α} (hv : N.negative v = false) :
    Derives N .atom (N.write v) (.const v) :=
  .literal (hN.solid v hv).bare (.const (hN.not_reserved v hv) (hN.read_write v hv))

theorem derives_ofNat {n : ℕ} (h : 2 ≤ n) {c : α} (hc : N.read (Text.ofNat n) = some c) :
    Derives N .atom (Text.ofNat n) (.const c) :=
  .literal (solid_ofNat n).bare (.const (not_reserved_ofNat h) hc)

theorem two_le_factorial {i : ℕ} (h : 2 ≤ i) : 2 ≤ factorial i := by
  induction i, h using Nat.le_induction with
  | base => decide
  | succ i hi ih => exact le_trans ih (Nat.le_mul_of_pos_left _ (by omega))

theorem isTwo_nearest (hN : N.Faithful magnitude nearest) : IsTwo N (.const (nearest 2)) :=
  ⟨_, rfl, (hN.isTwo_iff _).2 rfl⟩

theorem not_isTwo_nearest (hN : N.Faithful magnitude nearest) {i : ℕ} (h : 3 ≤ i) (hi : i < 24) :
    ¬IsTwo N (.const (nearest i)) := by
  rintro ⟨c, he, hc⟩
  cases he
  exact hN.nearest_ne_two i h hi ((hN.isTwo_iff _).1 hc)

/-- A constant written into a formula, its minus sign between brackets. -/
theorem derives_format (hN : N.Faithful magnitude nearest) (v : α) :
    Derives N .atom (normalize (N.format v)) ((Expr.const v).canon N magnitude nearest) := by
  by_cases hv : N.negative v = true
  · have hm := hN.negative_magnitude v
    rw [N.format_of_negative hv, hN.write_negative v hv, List.cons_append, normalize_enclosed,
      normalize_cons rfl, (hN.solid _ hm).normalize_eq]
    simp only [Expr.canon, hv, if_true]
    have hneg := Derives.neg ((derives_write hN hm).loosen .prod (by decide))
    exact .bracket (.sum_diff hneg)
  · have hv := Bool.eq_false_iff.2 hv
    rw [N.format_of_not_negative hv, (hN.solid v hv).normalize_eq]
    simp only [Expr.canon, hv]
    exact derives_write hN hv

/-! ### Sums of powers -/

theorem derives_spelledPower (hN : N.Faithful magnitude nearest) {i : ℕ} (h : 2 ≤ i) (hi : i < 24) :
    Derives N .power (['x'] ++ '^' :: Text.ofNat i) (Expr.spelledPower nearest i) := by
  have hexp := Derives.power_atom (derives_ofNat h (hN.read_index i h hi))
  unfold Expr.spelledPower
  split_ifs with h2
  · subst h2
    exact .square derives_var hexp (isTwo_nearest hN)
  · exact .pow derives_var hexp (not_isTwo_nearest hN (by omega) hi)

theorem term_zero (w : Weights) (t : Text) : Dialect.display.term w 0 t = t := by
  cases w <;> rfl

theorem term_one (w : Weights) (t : Text) : Dialect.display.term w 1 t = t ++ '*' :: ['x'] := by
  cases w <;> rfl

/-- The text of a power of the variable from two on, with its divisor. -/
def powerText (w : Weights) (i : ℕ) : Text :=
  if w.divides i then (['x'] ++ '^' :: Text.ofNat i) ++ '/' :: Text.ofNat (factorial i)
  else ['x'] ++ '^' :: Text.ofNat i

theorem term_of_two_le (w : Weights) {i : ℕ} (h : 2 ≤ i) (t : Text) :
    Dialect.display.term w i t = t ++ '*' :: powerText w i := by
  have h0 : i ≠ 0 := by omega
  have h1 : i ≠ 1 := by omega
  unfold powerText
  by_cases hw : w.divides i = true <;> simp [Dialect.term, Dialect.display, h0, h1, hw]

theorem normalize_powerText (w : Weights) (i : ℕ) :
    normalize (powerText w i) = powerText w i := by
  have hpower : normalize (['x'] ++ '^' :: Text.ofNat i) = ['x'] ++ '^' :: Text.ofNat i := by
    have hx : normalize ['x'] = ['x'] := rfl
    rw [normalize_append, hx, normalize_cons rfl, (solid_ofNat i).normalize_eq]
  unfold powerText
  split_ifs
  · rw [normalize_append, hpower, normalize_cons rfl, (solid_ofNat _).normalize_eq]
  · exact hpower

/-- A term is written without blanks. -/
theorem normalize_term (w : Weights) (i : ℕ) (p : Letter) :
    normalize (Dialect.display.term w i p.text) = Dialect.display.term w i p.text := by
  have hp := (solid_text p).normalize_eq
  rcases i with _ | _ | i
  · rw [term_zero, hp]
  · rw [term_one, normalize_append, hp]
    rfl
  · rw [term_of_two_le w (by omega), normalize_append, hp, normalize_cons rfl, normalize_powerText]

theorem derives_powerText (hN : N.Faithful magnitude nearest) (w : Weights) {i : ℕ} (h : 2 ≤ i)
    (hi : i < 24) : Derives N .quot (powerText w i) (Expr.spelledWeight nearest w i) := by
  have hpower := derives_spelledPower hN h hi
  unfold Expr.spelledWeight powerText
  split_ifs with hw
  · have hfact := derives_ofNat (two_le_factorial h) (hN.read_factorial i h hi)
    exact .div hpower (hfact.loosen .quot (by decide))
  · exact .quot_power hpower

theorem derives_term (hN : N.Faithful magnitude nearest) (w : Weights) {i : ℕ} (hi : i < 24)
    (p : Letter) :
    Derives N .prod (Dialect.display.term w i p.text) (Expr.spelledTerm nearest w i p) := by
  have hp := derives_param (N := N) p
  -- the first two powers are written without an exponent
  rcases i with _ | _ | i
  · rw [term_zero]
    exact hp.loosen .prod (by decide)
  · rw [term_one]
    exact .mul (hp.loosen .quot (by decide)) (derives_var.loosen .prod (by decide))
  · rw [term_of_two_le w (by omega)]
    exact .mul (hp.loosen .quot (by decide)) (.prod_quot (derives_powerText hN w (by omega) hi))

/-- The terms from index `i` on, joined by plus signs. -/
theorem derives_join (hN : N.Faithful magnitude nearest) (w : Weights) (p : Letter)
    (ps : List Letter) {i : ℕ} (hi : i + ps.length < 24) :
    Derives N .sum
      (normalize (Text.join [' ', '+', ' ']
        (Dialect.display.terms w i ((p :: ps).map Letter.text))))
      (Expr.spelledSum nearest w i p ps) := by
  induction ps generalizing i p with
  | nil =>
    have hterm := derives_term hN w hi p
    rw [← normalize_term] at hterm
    exact hterm.loosen .sum (by decide)
  | cons q ps ih =>
    rw [List.length_cons] at hi
    have hterm := derives_term hN w (i := i) (by omega) p
    have hrest := ih q (i := i + 1) (by omega)
    have htext : Text.join [' ', '+', ' ']
          (Dialect.display.terms w i ((p :: q :: ps).map Letter.text)) =
        Dialect.display.term w i p.text ++ ' ' :: '+' :: ' ' ::
          Text.join [' ', '+', ' ']
            (Dialect.display.terms w (i + 1) ((q :: ps).map Letter.text)) := by
      simp [Dialect.terms]
    rw [htext, normalize_spaced rfl, normalize_term]
    exact .add (hterm.loosen .diff (by decide)) hrest

/-- A sum of powers has a first letter, and as many others as its highest power. -/
theorem exists_upTo_eq_cons (n : Fin 24) :
    ∃ p ps, Letter.upTo n = p :: ps ∧ ps.length = n.val := by
  have hlen := Letter.length_upTo n.isLt
  cases hps : Letter.upTo n with
  | nil => simp [hps] at hlen
  | cons p ps =>
    rw [hps, List.length_cons] at hlen
    exact ⟨p, ps, rfl, by omega⟩

theorem canon_poly (w : Weights) {n : Fin 24} {p : Letter} {ps : List Letter}
    (h : Letter.upTo n = p :: ps) :
    (Expr.poly w n).canon N magnitude nearest = Expr.spelledSum nearest w 0 p ps := by
  simp only [Expr.canon, h]

theorem derives_series (hN : N.Faithful magnitude nearest) (w : Weights) (n : Fin 24) :
    Derives N .atom
      (normalize (Dialect.display.series w ((Letter.upTo n).map Letter.text)))
      ((Expr.poly w n).canon N magnitude nearest) := by
  obtain ⟨p, ps, hps, hlen⟩ := exists_upTo_eq_cons n
  have hsum := derives_join hN w p ps (i := 0) (by omega)
  rw [canon_poly w hps, hps]
  unfold Dialect.series
  rw [normalize_enclosed]
  exact .bracket hsum

/-! ### Formulas -/

theorem not_isTwo {e : Expr α} (h : ∀ c, e ≠ .const c) : ¬IsTwo N e := by
  rintro ⟨c, rfl, -⟩
  exact h c rfl

/-- A sum of powers written out is no constant. -/
theorem not_isTwo_spelledSum (w : Weights) (p : Letter) (ps : List Letter) :
    ¬IsTwo N (Expr.spelledSum nearest w 0 p ps) := by
  apply not_isTwo
  intro c he
  cases ps <;> cases he

/-- The canonical formula is the constant two exactly if the formula is. -/
theorem isTwo_canon_iff (hN : N.Faithful magnitude nearest) (e : Expr α) :
    IsTwo N (e.canon N magnitude nearest) ↔ IsTwo N e := by
  cases e with
  | const c =>
    by_cases hc : N.negative c = true
    · simp only [Expr.canon, hc, if_true]
      refine iff_of_false (not_isTwo (by simp)) ?_
      -- two has no sign, so it is not among the constants that are negated
      rintro ⟨_, he, htwo⟩
      cases he
      rw [(hN.isTwo_iff _).1 htwo, hN.negative_two] at hc
      cases hc
    · simp only [Expr.canon, hc]
      exact Iff.rfl
  | var | zero | one | param _ => exact Iff.rfl
  | unary op e => exact iff_of_false (not_isTwo (by simp)) (not_isTwo (by simp))
  | binary op l r =>
    refine iff_of_false (not_isTwo fun c => ?_) (not_isTwo (by simp))
    simp only [Expr.canon]
    split_ifs <;> simp
  | poly w n =>
    refine iff_of_false ?_ (not_isTwo (by simp))
    obtain ⟨p, ps, hps, -⟩ := exists_upTo_eq_cons n
    rw [canon_poly w hps]
    exact not_isTwo_spelledSum w p ps

/-- The canonical power is what reading makes of a power. -/
theorem canon_pow (hN : N.Faithful magnitude nearest) (l r : Expr α) :
    (Expr.binary .pow l r).canon N magnitude nearest =
      joined N .pow (l.canon N magnitude nearest) (r.canon N magnitude nearest) := by
  have htwo := isTwo_canon_iff hN r
  by_cases hr : IsTwo N r
  · rw [joined_pow_of_isTwo (htwo.2 hr)]
    simp [Expr.canon, hr]
  · rw [joined_pow_of_not_isTwo fun h => hr (htwo.1 h)]
    simp [Expr.canon, hr]

theorem canon_binary {op : BinaryOp} (h : op ≠ .pow) (l r : Expr α) :
    (Expr.binary op l r).canon N magnitude nearest =
      .binary op (l.canon N magnitude nearest) (r.canon N magnitude nearest) := by
  simp [Expr.canon, h]

/-- **The text of a formula is derived as a power, and denotes the canonical formula.** -/
theorem derives_display (hN : N.Faithful magnitude nearest) (e : Expr α) :
    Derives N .power (normalize (e.display N)) (e.canon N magnitude nearest) := by
  induction e with
  | var => exact .power_atom derives_var
  | const c => exact .power_atom (derives_format hN c)
  | zero => exact .power_atom derives_zero
  | one => exact .power_atom derives_one
  | param p =>
    show Derives N .power (normalize p.text) (.param p)
    rw [(solid_text p).normalize_eq]
    exact .power_atom (derives_param p)
  | poly w n => exact .power_atom (derives_series hN w n)
  | unary op e ih =>
    have hsum := ih.loosen .sum (by decide)
    show Derives N .power (normalize (Dialect.display.unary op (e.display N)))
      (.unary op (e.canon N magnitude nearest))
    by_cases hop : op ∈ functions
    · rw [normalize_call hop]
      exact .power_atom (.call hop hsum)
    · cases op with
      | neg =>
        rw [normalize_neg]
        have hneg := Derives.neg (ih.loosen .prod (by decide))
        exact .power_atom (.bracket (.sum_diff hneg))
      | square =>
        rw [normalize_square]
        have hexp := derives_ofNat le_rfl (hN.read_index 2 le_rfl (by omega))
        exact .square (.bracket hsum) (.power_atom hexp) (isTwo_nearest hN)
      | exp | ln | sqrt | sin | cos | tan => exact absurd (by decide) hop
  | binary op l r ihl ihr =>
    show Derives N .power (normalize (Dialect.display.binary op (l.display N) (r.display N)))
      ((Expr.binary op l r).canon N magnitude nearest)
    by_cases hop : op = .pow
    · subst hop
      rw [normalize_pow, canon_pow hN]
      exact Derives.joined .pow (.bracket (ihl.loosen .sum (by decide)))
        (.power_atom (.bracket (ihr.loosen .sum (by decide))))
    · rw [normalize_binary hop, canon_binary hop, ← joined_of_ne_pow (N := N) hop]
      have hl := ihl.loosen (Stratum.leftOf op) (Stratum.rank_leftOf_le hop)
      have hr := ihr.loosen (Stratum.rightOf op) (Stratum.rank_rightOf_le op)
      exact .power_atom (.bracket ((Derives.joined op hl hr).loosen .sum (Nat.zero_le _)))

/-- **A written formula reads back as its canonical formula.** -/
theorem parse_display (hN : N.Faithful magnitude nearest) (e : Expr α) :
    Expr.parse N (e.display N) = .ok (e.canon N magnitude nearest) :=
  read_of_derives (derives_display hN e)

end Faithful

/-- A series with a signed nought as its exponent, less a square written as a power. -/
theorem parse_display_whole :
    Expr.parse Whole.numerals
        "(((a + b*x + c*x^2/2 + d*x^3/6))^((-0.0)) - ((-(-3.0)))^(2.0))".toList =
      .ok (.binary .sub
        (.binary .pow
          (.binary .add (.param ⟨'a', by decide⟩)
            (.binary .add (.binary .mul (.param ⟨'b', by decide⟩) .var)
              (.binary .add
                (.binary .mul (.param ⟨'c', by decide⟩)
                  (.binary .div (.unary .square .var) (.const (.ofNat 2))))
                (.binary .mul (.param ⟨'d', by decide⟩)
                  (.binary .div (.binary .pow .var (.const (.ofNat 3))) (.const (.ofNat 6)))))))
          (.unary .neg (.const (.ofNat 0))))
        (.unary .square (.unary .neg (.unary .neg (.const (.ofNat 3)))))) := by
  let e : Expr Whole :=
    .binary .sub (.binary .pow (.poly .factorial 3) (.const ⟨true, 0⟩))
      (.binary .pow (.unary .neg (.const ⟨true, 3⟩)) (.const (.ofNat 2)))
  have htext : e.display Whole.numerals =
      "(((a + b*x + c*x^2/2 + d*x^3/6))^((-0.0)) - ((-(-3.0)))^(2.0))".toList := by decide
  rw [← htext]
  exact parse_display Whole.faithful e

end CurveFormula.Parse
