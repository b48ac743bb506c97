import CurveFormula.Expr.Plot
import CurveFormula.Proofs.Evaluation
import Mathlib.Data.Nat.Notation
import Mathlib.Tactic.SplitIfs

/-!
# The pieces of a written formula

The text of a formula is put together from pieces: its letters, its constants, and fixed texts
around and between them. `Expr.script` lists the pieces, which are the same in every dialect and
whether letters or values are written; `Expr.inked` is the text, given how to write a letter. The
texts without a binding (`Expr.inked_text`) and with one (`Expr.plotWith_eq_inked`) are two cases.

A piece that an operand follows ends with a bracket, a minus sign or a blank, and a piece that
follows an operand starts with a bracket, a blank or a product sign. A map of texts that may be
applied to both sides of such a seam apart is `Seamless`, and then it may be applied to every piece
apart (`Seamless.inked`).
-/

namespace CurveFormula

universe u v

variable {α : Type u} {β : Type v}

/-- A piece of the text of a formula. -/
inductive Piece (α : Type u) where
  | var
  | zero
  | one
  | const (value : α)
  | letter (p : Letter)
  | before (op : UnaryOp)
  | behind (op : UnaryOp)
  | opening
  | between (op : BinaryOp)
  | closing
  /-- The power of an index from one on, behind its coefficient. -/
  | power (w : Weights) (i : ℕ)

namespace Dialect

variable (d : Dialect)

/-- The text in front of the operand of a function. -/
def before : UnaryOp → Text
  | .neg => ['(', '-']
  | .square => ['(']
  | op => d.function op ++ ['(']

/-- The text behind the operand of a function. -/
def behind : UnaryOp → Text
  | .square => ')' :: (d.power ++ ['2'])
  | _ => [')']

/-- The text between two operands. -/
def between : BinaryOp → Text
  | .pow => ')' :: (d.power ++ ['('])
  | op => [' ', op.sign, ' ']

/-- An index from one on as an exponent; one is not written. -/
def exponent (i : ℕ) : Text :=
  if i = 1 then [] else d.power ++ Text.ofNat i

/-- The divisor of the power of an index, if it is written out. -/
def divisor (w : Weights) (i : ℕ) : Text :=
  if w.divides i then '/' :: Text.ofNat (factorial i) else []

/-- The text of the power of an index from one on, behind its coefficient. -/
def factor (w : Weights) (i : ℕ) : Text :=
  '*' :: 'x' :: (d.exponent i ++ divisor w i)

@[simp] theorem exponent_one : d.exponent 1 = [] := rfl

theorem exponent_of_ne_one {i : ℕ} (hi : i ≠ 1) : d.exponent i = d.power ++ Text.ofNat i :=
  if_neg hi

theorem mem_exponent {d : Dialect} {i : ℕ} {c : Char} (h : c ∈ d.exponent i) :
    c ∈ d.power ∨ c.isDigit = true := by
  unfold exponent at h
  split_ifs at h
  · cases h
  · exact (List.mem_append.1 h).imp_right (Nat.isDigit_of_mem_toDigits (by decide) (by decide))

theorem mem_divisor {w : Weights} {i : ℕ} {c : Char} (h : c ∈ divisor w i) :
    c = '/' ∨ c.isDigit = true := by
  unfold divisor at h
  split_ifs at h
  · exact (List.mem_cons.1 h).imp_right (Nat.isDigit_of_mem_toDigits (by decide) (by decide))
  · cases h

theorem unary_eq (op : UnaryOp) (t : Text) : d.unary op t = d.before op ++ (t ++ d.behind op) := by
  cases op <;> simp [unary, before, behind]

theorem binary_eq (op : BinaryOp) (l r : Text) :
    d.binary op l r = ['('] ++ (l ++ (d.between op ++ (r ++ [')']))) := by
  cases op <;> simp [binary, between]

theorem term_zero_eq (w : Weights) (c : Text) : d.term w 0 c = c := by
  cases w <;> rfl

theorem term_eq (w : Weights) {i : ℕ} (hi : 0 < i) (c : Text) :
    d.term w i c = c ++ d.factor w i := by
  have h0 : i ≠ 0 := by omega
  simp only [term, factor, exponent, divisor, if_neg h0]
  split_ifs <;> simp

end Dialect

namespace Expr

/-- The powers from an index on, each with its coefficient and the sign in front. -/
def addends (w : Weights) (i : ℕ) : List Letter → List (Piece α)
  | [] => []
  | p :: ps => .between .add :: .letter p :: .power w i :: addends w (i + 1) ps

/-- The pieces of a formula. -/
def script : Expr α → List (Piece α)
  | var => [.var]
  | const c => [.const c]
  | zero => [.zero]
  | one => [.one]
  | param p => [.letter p]
  | unary op e => .before op :: (e.script ++ [.behind op])
  | binary op l r => .opening :: (l.script ++ .between op :: (r.script ++ [.closing]))
  | poly w n =>
    match Letter.upTo n with
    | [] => [.opening, .closing]
    | p :: ps => .opening :: .letter p :: (addends w 1 ps ++ [.closing])

end Expr

namespace Piece

/-- The text of a piece, given how to write a letter. -/
def text (N : Numerals α) (d : Dialect) (ink : Letter → Text) : Piece α → Text
  | var => ['x']
  | zero => ['0']
  | one => ['1']
  | const c => N.format c
  | letter p => ink p
  | before op => d.before op
  | behind op => d.behind op
  | opening => ['(']
  | between op => d.between op
  | closing => [')']
  | power w i => d.factor w i

/-- The letters of a piece: itself, if it is one. -/
def letters : Piece α → List Letter
  | letter p => [p]
  | _ => []

end Piece

namespace Expr

variable (N : Numerals α) (d : Dialect) (ink : Letter → Text)

/-- The text of a formula, given how to write a letter. -/
def inked (e : Expr α) : Text :=
  e.script.flatMap (Piece.text N d ink)

theorem inked_unary (op : UnaryOp) (e : Expr α) :
    (unary op e).inked N d ink = d.unary op (e.inked N d ink) := by
  simp [inked, script, d.unary_eq, Piece.text]

theorem inked_binary (op : BinaryOp) (l r : Expr α) :
    (binary op l r).inked N d ink = d.binary op (l.inked N d ink) (r.inked N d ink) := by
  simp [inked, script, d.binary_eq, Piece.text]

theorem inked_addends (w : Weights) {i : ℕ} (hi : 0 < i) (t : Text) (ps : List Letter) :
    t ++ (addends w i ps : List (Piece α)).flatMap (Piece.text N d ink) =
      Text.join [' ', '+', ' '] (t :: d.terms w i (ps.map ink)) := by
  induction ps generalizing i t with
  | nil => simp [addends, Dialect.terms]
  | cons p ps ih =>
    have hrest := ih (i := i + 1) (by omega) (ink p ++ d.factor w i)
    simp only [addends, List.flatMap_cons, List.map_cons, Dialect.terms, Text.join_cons_cons,
      d.term_eq w hi, ← hrest]
    simp [Piece.text, Dialect.between, BinaryOp.sign]

theorem inked_poly (w : Weights) (n : Fin 24) :
    (poly w n : Expr α).inked N d ink = d.series w ((Letter.upTo n).map ink) := by
  unfold inked script
  cases Letter.upTo n with
  | nil => rfl
  | cons p ps =>
    have hsum := inked_addends N d ink w Nat.one_pos (ink p) ps
    simp only [Dialect.series, List.map_cons, Dialect.terms, d.term_zero_eq, Nat.zero_add, ← hsum]
    simp [Piece.text]

/-- **Without a binding, letters are written as they are.** -/
theorem inked_text (e : Expr α) : e.inked N d Letter.text = e.render N d := by
  induction e with
  | var | const _ | zero | one | param _ => exact List.flatMap_singleton _ _
  | unary op e ih => rw [inked_unary, ih, render_unary]
  | binary op l r ihl ihr => rw [inked_binary, ihl, ihr, render_binary]
  | poly w n => exact inked_poly N d _ w n

/-- Letters with values can be written as their values together. -/
theorem exists_lookupAll_inked {N : Numerals α} {ink : Letter → Text} {b : Binding α}
    {ps : List Letter} (h : ∀ p ∈ ps, ∃ v, b p = some v ∧ N.format v = ink p) :
    ∃ vs, b.lookupAll ps = .ok vs ∧ vs.map N.format = ps.map ink := by
  induction ps with
  | nil => exact ⟨[], rfl, rfl⟩
  | cons p ps ih =>
    obtain ⟨v, hv, hink⟩ := h p (by simp)
    obtain ⟨vs, hvs, hinks⟩ := ih fun q hq => h q (List.mem_cons_of_mem _ hq)
    refine ⟨v :: vs, ?_, by rw [List.map_cons, hink, hinks, List.map_cons]⟩
    simp only [Binding.lookupAll, Binding.lookup_of_some hv, hvs]
    rfl

/-- **With a binding, letters are written as their values.** -/
theorem plotWith_eq_inked {N : Numerals α} {ink : Letter → Text} {b : Binding α} {e : Expr α}
    (h : ∀ p ∈ e.letters, ∃ v, b p = some v ∧ N.format v = ink p) :
    e.plotWith N b = .ok (e.inked N .plot ink) := by
  induction e with
  | var | const _ | zero | one =>
    simp [plotWith, inked, script, Piece.text]
  | param p =>
    obtain ⟨v, hv, hink⟩ := h p (by simp [letters])
    simp only [plotWith, Binding.lookup_of_some hv, Except.map, hink]
    simp [inked, script, Piece.text]
  | unary op e ih =>
    simp only [plotWith, ih h, inked_unary]
    rfl
  | binary op l r ihl ihr =>
    have hl := ihl fun p hp => h p (List.mem_append_left _ hp)
    have hr := ihr fun p hp => h p (List.mem_append_right _ hp)
    simp only [plotWith, hl, hr, inked_binary]
    rfl
  | poly w n =>
    have hps : ∀ p ∈ Letter.upTo n, ∃ v, b p = some v ∧ N.format v = ink p := h
    obtain ⟨vs, hvs, hinks⟩ := exists_lookupAll_inked hps
    simp only [plotWith, hvs, Except.map, inked_poly, hinks]

/-- The letters among the pieces are those of the formula. -/
theorem letters_script (e : Expr α) : e.script.flatMap Piece.letters = e.letters := by
  have haddends (w : Weights) (i : ℕ) (ps : List Letter) :
      (addends w i ps : List (Piece α)).flatMap Piece.letters = ps := by
    induction ps generalizing i with
    | nil => rfl
    | cons p ps ih => simp [addends, Piece.letters, ih]
  induction e with
  | var | const _ | zero | one | param _ => rfl
  | unary op e ih => simp [script, Piece.letters, letters, ih]
  | binary op l r ihl ihr => simp [script, Piece.letters, letters, ihl, ihr]
  | poly w n =>
    simp only [script, letters]
    cases Letter.upTo n with
    | nil => rfl
    | cons p ps => simp [Piece.letters, haddends]

end Expr

/-! ### Seams -/

/-- An operand follows the text: it ends with a bracket, a minus sign or a blank. -/
def Opens (s : Text) : Prop :=
  ∃ c ∈ s.getLast?, c ∈ ['(', '-', ' ']

/-- The text follows an operand: it starts with a bracket, a blank or a product sign. -/
def Closes (s : Text) : Prop :=
  ∃ c ∈ s.head?, c ∈ [')', ' ', '*']

theorem Closes.append {s : Text} (hs : Closes s) (t : Text) : Closes (s ++ t) := by
  obtain ⟨c, hc, hmem⟩ := hs
  exact ⟨c, by simp [List.head?_append, Option.mem_def.1 hc], hmem⟩

theorem opens_bracket : Opens ['('] :=
  ⟨'(', rfl, by decide⟩

theorem closes_bracket : Closes [')'] :=
  ⟨')', rfl, by decide⟩

namespace Dialect

variable (d : Dialect)

theorem opens_before (op : UnaryOp) : Opens (d.before op) := by
  cases op with
  | neg => exact ⟨'-', rfl, by decide⟩
  | square => exact ⟨'(', rfl, by decide⟩
  | exp | ln | sqrt | sin | cos | tan => exact ⟨'(', by simp [before], by decide⟩

theorem closes_behind (op : UnaryOp) : Closes (d.behind op) := by
  cases op <;> exact ⟨')', rfl, by decide⟩

theorem opens_between (op : BinaryOp) : Opens (d.between op) := by
  cases op with
  | pow =>
    have hlast : (')' :: d.power ++ ['(']).getLast? = some '(' := List.getLast?_concat
    exact ⟨'(', hlast, by decide⟩
  | add | sub | mul | div => exact ⟨' ', rfl, by decide⟩

theorem closes_between (op : BinaryOp) : Closes (d.between op) := by
  cases op with
  | pow => exact ⟨')', rfl, by decide⟩
  | add | sub | mul | div => exact ⟨' ', rfl, by decide⟩

theorem closes_factor (w : Weights) (i : ℕ) : Closes (d.factor w i) :=
  ⟨'*', rfl, by decide⟩

end Dialect

/-- A map of texts that may be applied to the two sides of a seam apart, in front of an operand and
behind one. -/
structure Seamless (φ : Text → List β) : Prop where
  append_of_opens : ∀ {s}, Opens s → ∀ t, φ (s ++ t) = φ s ++ φ t
  append_of_closes : ∀ {t}, Closes t → ∀ s, φ (s ++ t) = φ s ++ φ t

namespace Seamless

variable {φ : Text → List β} (hφ : Seamless φ)
include hφ

variable (N : Numerals α) (d : Dialect) (ink : Letter → Text)

theorem addends (w : Weights) (i : ℕ) (ps : List Letter) {s t : Text} (ht : Closes t) :
    φ (s ++ ((Expr.addends w i ps : List (Piece α)).flatMap (Piece.text N d ink) ++ t)) =
      φ s ++ ((Expr.addends w i ps : List (Piece α)).flatMap (fun p => φ (p.text N d ink)) ++
        φ t) := by
  induction ps generalizing i s with
  | nil => exact hφ.append_of_closes ht s
  | cons p ps ih =>
    have hplus : Closes ((Piece.between .add : Piece α).text N d ink) := d.closes_between .add
    have hplus' : Opens ((Piece.between .add : Piece α).text N d ink) := d.opens_between .add
    have hpower : Closes ((Piece.power w i : Piece α).text N d ink) := d.closes_factor w i
    simp only [Expr.addends, List.flatMap_cons, List.append_assoc]
    rw [hφ.append_of_closes (hplus.append _), hφ.append_of_opens hplus',
      hφ.append_of_closes (hpower.append _), ih]

/-- **A map that respects the seams may be applied to every piece apart.** -/
theorem inked (e : Expr α) :
    φ (e.inked N d ink) = e.script.flatMap fun p => φ (p.text N d ink) := by
  have hopening : Opens ((Piece.opening : Piece α).text N d ink) := opens_bracket
  have hclosing : Closes ((Piece.closing : Piece α).text N d ink) := closes_bracket
  unfold Expr.inked
  induction e with
  | var | const _ | zero | one | param _ => simp [Expr.script]
  | unary op e ih =>
    have hbefore : Opens ((Piece.before op : Piece α).text N d ink) := d.opens_before op
    have hbehind : Closes ((Piece.behind op : Piece α).text N d ink) := d.closes_behind op
    simp only [Expr.script, List.flatMap_cons, List.flatMap_append, List.flatMap_nil,
      List.append_nil, ← ih]
    rw [hφ.append_of_opens hbefore, hφ.append_of_closes hbehind]
  | binary op l r ihl ihr =>
    have hbetween : Closes ((Piece.between op : Piece α).text N d ink) := d.closes_between op
    have hbetween' : Opens ((Piece.between op : Piece α).text N d ink) := d.opens_between op
    simp only [Expr.script, List.flatMap_cons, List.flatMap_append, List.flatMap_nil,
      List.append_nil, ← ihl, ← ihr]
    rw [hφ.append_of_opens hopening, hφ.append_of_closes (hbetween.append _),
      hφ.append_of_opens hbetween', hφ.append_of_closes hclosing]
  | poly w n =>
    simp only [Expr.script]
    cases Letter.upTo n with
    | nil =>
      simp only [List.flatMap_cons, List.flatMap_nil, List.append_nil]
      exact hφ.append_of_opens hopening _
    | cons p ps =>
      simp only [List.flatMap_cons, List.flatMap_append, List.flatMap_nil, List.append_nil]
      rw [hφ.append_of_opens hopening, hφ.addends N d ink w 1 ps hclosing]

theorem render (e : Expr α) :
    φ (e.render N d) = e.script.flatMap fun p => φ (p.text N d Letter.text) := by
  rw [← e.inked_text N d, hφ.inked]

end Seamless

end CurveFormula
