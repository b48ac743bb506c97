import CurveFormula.Expr.Render
import CurveFormula.Parse.Reader
import CurveFormula.Proofs.Grammar

/-!
# The formula that a written formula reads back as

Writing a formula forgets a little: a constant with a negative sign is written as the negation of
one without, a power with the exponent two looks like a square, and a sum of powers is written out.
`Expr.canon` is the formula without these distinctions.

Constants are written and read outside of this development. `Numerals.Faithful` states what is
relied on: the text of a constant without sign is one literal and reads back, a negative sign is a
minus sign in front, and a natural number reads as the constant nearest to it.
-/

namespace CurveFormula

universe u

variable {α : Type u}

namespace Parse

instance (N : Numerals α) : DecidablePred (IsTwo N)
  | .const c => decidable_of_iff (N.isTwo c = true) ⟨fun h => ⟨c, rfl, h⟩, fun ⟨_, he, h⟩ => by
      cases he; exact h⟩
  | .var | .zero | .one | .param _ | .unary _ _ | .binary _ _ _ | .poly _ _ =>
    isFalse fun ⟨_, he, _⟩ => nomatch he

/-- A character that normalizing keeps. -/
def steady (c : Char) : Bool :=
  !Text.isBlank c && !decide (c ∈ ['{', '}', '[', ']'])

@[simp] theorem normalize_append (s t : Text) :
    normalize (s ++ t) = normalize s ++ normalize t := by
  simp [normalize]

theorem normalize_cons {c : Char} (h : steady c = true) (s : Text) :
    normalize (c :: s) = c :: normalize s := by
  simp only [steady, Bool.and_eq_true, Bool.not_eq_true', decide_eq_false_iff_not, List.mem_cons,
    List.not_mem_nil, or_false, not_or] at h
  obtain ⟨hb, h1, h2, h3, h4⟩ := h
  simp [normalize, hb, h1, h2, h3, h4]

theorem normalize_blank {c : Char} (h : Text.isBlank c = true) (s : Text) :
    normalize (c :: s) = normalize s := by
  simp [normalize, h]

theorem normalize_of_steady {s : Text} (h : ∀ c ∈ s, steady c = true) : normalize s = s := by
  induction s with
  | nil => rfl
  | cons c s ih =>
    rw [normalize_cons (h c (by simp)), ih fun d hd => h d (by simp [hd])]

/-- A text that is one literal wherever it stands. -/
def Solid (s : Text) : Prop :=
  s ≠ [] ∧ ∀ c ∈ s, steady c = true ∧ isOperatorChar c = false

theorem Solid.bare {s : Text} (h : Solid s) : Bare s :=
  ⟨h.1, fun c hc => (h.2 c hc).2⟩

theorem Solid.normalize_eq {s : Text} (h : Solid s) : normalize s = s :=
  normalize_of_steady fun c hc => (h.2 c hc).1

theorem solid_text (p : Letter) : Solid p.text := by
  have h : ∀ c ∈ Letter.alphabet, steady c = true ∧ isOperatorChar c = false := by decide
  exact ⟨by simp [Letter.text], fun c hc => h c (List.mem_singleton.1 hc ▸ p.mem_alphabet)⟩

theorem solid_name {op : UnaryOp} (h : op ∈ functions) : Solid op.name := by
  unfold Solid
  revert op
  decide

theorem steady_of_isDigit {c : Char} (h : c.isDigit = true) :
    steady c = true ∧ isOperatorChar c = false := by
  have hlow : 48 ≤ c.toNat := by
    simp only [Char.isDigit, Bool.and_eq_true, decide_eq_true_eq] at h
    exact UInt32.le_iff_toNat_le.1 h.1
  have hhigh : c.toNat ≤ 57 := by
    simp only [Char.isDigit, Bool.and_eq_true, decide_eq_true_eq] at h
    exact UInt32.le_iff_toNat_le.1 h.2
  have hne {d : Char} (hd : d.isDigit = false) : c ≠ d := by
    rintro rfl
    rw [h] at hd
    cases hd
  constructor
  · simp [steady, Text.isBlank, hne]
    omega
  · simp [isOperatorChar, hne]

theorem isDigit_of_mem_ofNat {n : ℕ} {c : Char} (h : c ∈ Text.ofNat n) : c.isDigit = true :=
  Nat.isDigit_of_mem_toDigits (by decide) (by decide) h

theorem solid_ofNat (n : ℕ) : Solid (Text.ofNat n) :=
  ⟨Nat.toDigits_ne_nil, fun _ hc => steady_of_isDigit (isDigit_of_mem_ofNat hc)⟩

/-- A number from two on is no reserved text. -/
theorem not_reserved_ofNat {n : ℕ} (h : 2 ≤ n) : ¬Reserved (Text.ofNat n) := by
  have hvalue : Nat.ofDigitChars 10 (Text.ofNat n) 0 = n := Nat.ofDigitChars_ten_toDigits
  rintro (hx | ⟨p, hp⟩ | h0 | h1)
  · have := isDigit_of_mem_ofNat (n := n) (c := 'x') (by simp [hx])
    cases this
  · have hletter : ∀ c ∈ Letter.alphabet, c.isDigit = false := by decide
    have := isDigit_of_mem_ofNat (n := n) (c := p.char) (by simp [hp, Letter.text])
    rw [hletter _ p.mem_alphabet] at this
    cases this
  · rw [h0] at hvalue
    change 0 = n at hvalue
    omega
  · rw [h1] at hvalue
    change 1 = n at hvalue
    omega

end Parse

/-- Constants are written as literals, and literals read as the constants they are the text of.
`magnitude` is a constant without its sign, `nearest` is the constant nearest to a natural number.
-/
structure Numerals.Faithful (N : Numerals α) (magnitude : α → α) (nearest : ℕ → α) : Prop where
  /-- The text of a constant without sign holds no operator, no bracket and no blank. -/
  solid : ∀ v, N.negative v = false → Parse.Solid (N.write v)
  /-- It is none of the other leaves. -/
  not_reserved : ∀ v, N.negative v = false → ¬Parse.Reserved (N.write v)
  read_write : ∀ v, N.negative v = false → N.read (N.write v) = some v
  /-- A constant with a negative sign is written as its magnitude behind a minus sign. -/
  write_negative : ∀ v, N.negative v = true → N.write v = '-' :: N.write (magnitude v)
  negative_magnitude : ∀ v, N.negative (magnitude v) = false
  /-- The digits of an exponent read as the constant nearest to it. -/
  read_index : ∀ i, 2 ≤ i → i < 24 → N.read (Text.ofNat i) = some (nearest i)
  read_factorial : ∀ i, 2 ≤ i → i < 24 →
    N.read (Text.ofNat (factorial i)) = some (nearest (factorial i))
  isTwo_iff : ∀ v, N.isTwo v = true ↔ v = nearest 2
  negative_two : N.negative (nearest 2) = false
  nearest_ne_two : ∀ i, 3 ≤ i → i < 24 → nearest i ≠ nearest 2

namespace Expr

variable (N : Numerals α) (magnitude : α → α) (nearest : ℕ → α)

/-- The power of index `i` of the variable, from two on. -/
def spelledPower (i : ℕ) : Expr α :=
  if i = 2 then unary .square var else binary .pow var (const (nearest i))

/-- The power of index `i` with its divisor, if it has one. -/
def spelledWeight (w : Weights) (i : ℕ) : Expr α :=
  if w.divides i then binary .div (spelledPower nearest i) (const (nearest (factorial i)))
  else spelledPower nearest i

/-- The term of index `i` in a sum of powers, written out. -/
def spelledTerm (w : Weights) (i : ℕ) (p : Letter) : Expr α :=
  match i with
  | 0 => param p
  | 1 => binary .mul (param p) var
  | i + 2 => binary .mul (param p) (spelledWeight nearest w (i + 2))

/-- The terms from index `i` on, each added to the sum of the following ones. -/
def spelledSum (w : Weights) (i : ℕ) (p : Letter) : List Letter → Expr α
  | [] => spelledTerm nearest w i p
  | q :: ps => binary .add (spelledTerm nearest w i p) (spelledSum w (i + 1) q ps)

/-- The formula without the distinctions that are lost in writing. -/
def canon : Expr α → Expr α
  | const c => if N.negative c then unary .neg (const (magnitude c)) else const c
  | unary op e => unary op e.canon
  | binary op l r =>
    if op = .pow ∧ Parse.IsTwo N r then unary .square l.canon else binary op l.canon r.canon
  | poly w n =>
    match Letter.upTo n with
    | p :: ps => spelledSum nearest w 0 p ps
    | [] => zero
  | leaf => leaf

@[simp] theorem canon_unary (op : UnaryOp) (e : Expr α) :
    (unary op e).canon N magnitude nearest = unary op (e.canon N magnitude nearest) := rfl

end Expr

end CurveFormula
