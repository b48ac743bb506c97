import CurveFormula.Parse.Cut
import CurveFormula.Proofs.TopLevel

/-!
# The grammar of formulas

A formula is a sum of differences of products of quotients of powers of atoms. Each of these layers
is a stratum of the grammar, and `Derives` says which texts a stratum has and which formulas they
denote:

* a sum is a difference, or a difference `+` a sum;
* a difference is a product, `-` a product, or a difference `-` a product;
* a product is a quotient, or a quotient `*` a product;
* a quotient is a power, or a power `/` a quotient;
* a power is an atom, or an atom `^` a power, which is a square if the exponent is the constant two;
* an atom is a sum in brackets, a function of a sum in brackets, or a literal.

Every text of a stratum is balanced and has none of the looser operators outside of brackets
(`Derives.shape`).
-/

namespace CurveFormula.Parse

universe u

variable {α : Type u} {N : Numerals α}

/-- A layer of the grammar, from the loosest operator to no operator. -/
inductive Stratum where
  | sum
  | diff
  | prod
  | quot
  | power
  | atom

/-- The formula is a constant that makes a square of a power. -/
def IsTwo (N : Numerals α) (e : Expr α) : Prop :=
  ∃ c, e = .const c ∧ N.isTwo c = true

/-- A text that could be a literal. -/
def Bare (s : Text) : Prop :=
  s ≠ [] ∧ ∀ c ∈ s, isOperatorChar c = false

/-- A text that denotes a leaf other than a constant. -/
def Reserved (s : Text) : Prop :=
  s = ['x'] ∨ (∃ p : Letter, s = p.text) ∨ s = ['0'] ∨ s = ['1']

/-- The leaf that a literal denotes. -/
inductive Leaf (N : Numerals α) : Text → Expr α → Prop where
  | var : Leaf N ['x'] .var
  | param (p : Letter) : Leaf N p.text (.param p)
  | zero : Leaf N ['0'] .zero
  | one : Leaf N ['1'] .one
  | const {s : Text} {c : α} (hs : ¬Reserved s) (hc : N.read s = some c) : Leaf N s (.const c)

/-- The functions written around brackets. -/
def functions : List UnaryOp :=
  [.exp, .ln, .sqrt, .sin, .cos, .tan]

/-- The text belongs to the stratum and denotes the formula. -/
inductive Derives (N : Numerals α) : Stratum → Text → Expr α → Prop where
  | sum_diff {s e} (h : Derives N .diff s e) : Derives N .sum s e
  | add {l r e f} (hl : Derives N .diff l e) (hr : Derives N .sum r f) :
      Derives N .sum (l ++ '+' :: r) (.binary .add e f)
  | diff_prod {s e} (h : Derives N .prod s e) : Derives N .diff s e
  | neg {s e} (h : Derives N .prod s e) : Derives N .diff ('-' :: s) (.unary .neg e)
  | sub {l r e f} (hl : Derives N .diff l e) (hr : Derives N .prod r f) :
      Derives N .diff (l ++ '-' :: r) (.binary .sub e f)
  | prod_quot {s e} (h : Derives N .quot s e) : Derives N .prod s e
  | mul {l r e f} (hl : Derives N .quot l e) (hr : Derives N .prod r f) :
      Derives N .prod (l ++ '*' :: r) (.binary .mul e f)
  | quot_power {s e} (h : Derives N .power s e) : Derives N .quot s e
  | div {l r e f} (hl : Derives N .power l e) (hr : Derives N .quot r f) :
      Derives N .quot (l ++ '/' :: r) (.binary .div e f)
  | power_atom {s e} (h : Derives N .atom s e) : Derives N .power s e
  | square {l r e f} (hl : Derives N .atom l e) (hr : Derives N .power r f) (hf : IsTwo N f) :
      Derives N .power (l ++ '^' :: r) (.unary .square e)
  | pow {l r e f} (hl : Derives N .atom l e) (hr : Derives N .power r f) (hf : ¬IsTwo N f) :
      Derives N .power (l ++ '^' :: r) (.binary .pow e f)
  | bracket {s e} (h : Derives N .sum s e) : Derives N .atom ('(' :: (s ++ [')'])) e
  | call {op s e} (hop : op ∈ functions) (h : Derives N .sum s e) :
      Derives N .atom (op.name ++ '(' :: (s ++ [')'])) (.unary op e)
  | literal {s e} (hs : Bare s) (h : Leaf N s e) : Derives N .atom s e

/-! ### Literals -/

theorem reserved_iff (s : Text) :
    Reserved s ↔ s = ['x'] ∨ (Letter.ofText? s).isSome ∨ s = ['0'] ∨ s = ['1'] := by
  simp only [Reserved, Option.isSome_iff_exists, Letter.ofText?_eq_some]

/-- **A literal denotes the leaf that is read from it, and no other.** -/
theorem literal?_eq_some_iff (s : Text) (e : Expr α) : literal? N s = some e ↔ Leaf N s e := by
  constructor
  · intro h
    unfold literal? at h
    split at h
    · rename_i hx
      cases h
      exact hx ▸ .var
    · rename_i hx
      split at h
      · rename_i p hp
        cases h
        exact Letter.ofText?_eq_some.1 hp ▸ .param p
      · rename_i hp
        split_ifs at h with h0 h1
        · cases h
          exact h0 ▸ .zero
        · cases h
          exact h1 ▸ .one
        · obtain ⟨c, hc, rfl⟩ := Option.map_eq_some_iff.1 h
          exact .const (by simp [reserved_iff, hx, hp, h0, h1]) hc
  · intro h
    cases h with
    | var => rfl
    | param p =>
      have hx : p.text ≠ ['x'] := by
        intro he
        have := p.mem_alphabet
        rw [(List.cons.inj he).1] at this
        exact absurd this (by decide)
      simp [literal?, hx]
    | zero => rfl
    | one => rfl
    | const hs hc =>
      simp only [reserved_iff, not_or, Bool.not_eq_true, Option.isSome_eq_false_iff,
        Option.isNone_iff_eq_none] at hs
      simp [literal?, hs, hc]

/-! ### The shape of the texts of a stratum -/

namespace Stratum

/-- The operators that no text of the stratum has outside of brackets. -/
def excluded : Stratum → List Char
  | sum => []
  | diff => ['+']
  | prod => ['+', '-']
  | quot => ['+', '-', '*']
  | power => ['+', '-', '*', '/']
  | atom => ['+', '-', '*', '/', '^']

/-- How far down the ladder a stratum stands. -/
def rank : Stratum → ℕ
  | sum => 0
  | diff => 1
  | prod => 2
  | quot => 3
  | power => 4
  | atom => 5

/-- The next looser stratum. -/
def looser : Stratum → Stratum
  | sum => sum
  | diff => sum
  | prod => diff
  | quot => prod
  | power => quot
  | atom => power

theorem rank_looser (k : Stratum) : k.looser.rank = k.rank - 1 := by
  cases k <;> rfl

theorem eq_of_rank_eq {j k : Stratum} (h : j.rank = k.rank) : j = k := by
  cases j <;> cases k <;> first | rfl | cases h

end Stratum

/-- What every text of a stratum looks like. -/
structure Shape (k : Stratum) (s : Text) : Prop where
  ne_nil : s ≠ []
  balanced : Balanced s
  clear : ∀ c ∈ k.excluded, Clear c s

theorem clear_joined_iff {l r : Text} {c d : Char} (hl : nesting l = 0) (hd : NoBracket d) :
    Clear c (l ++ d :: r) ↔ Clear c l ∧ c ≠ d ∧ Clear c r := by
  rw [clear_append_iff hl, clear_cons_iff hd]

/-- A looser stratum excludes less. -/
theorem Shape.loosen {j k : Stratum} {s : Text} (h : Shape k s)
    (hjk : ∀ c ∈ j.excluded, c ∈ k.excluded) : Shape j s :=
  ⟨h.ne_nil, h.balanced, fun c hc => h.clear c (hjk c hc)⟩

/-- An operator between two texts. -/
theorem Shape.joined {i j k : Stratum} {l r : Text} {d : Char} (hl : Shape j l) (hr : Shape k r)
    (hd : NoBracket d)
    (hi : ∀ c ∈ i.excluded, c ∈ j.excluded ∧ c ≠ d ∧ c ∈ k.excluded) :
    Shape i (l ++ d :: r) := by
  refine ⟨by simp, hl.balanced.append (hr.balanced.cons hd), fun c hc => ?_⟩
  obtain ⟨hj, hne, hk⟩ := hi c hc
  exact (clear_joined_iff hl.balanced.closed hd).2 ⟨hl.clear c hj, hne, hr.clear c hk⟩

theorem noBracket_of_not_operator {c : Char} (h : isOperatorChar c = false) : NoBracket c := by
  constructor <;> rintro rfl <;> simp [isOperatorChar] at h

theorem excluded_operator (k : Stratum) :
    ∀ c ∈ k.excluded, isOperatorChar c = true ∧ NoBracket c := by
  cases k <;> decide

theorem Bare.balanced {s : Text} (h : Bare s) : Balanced s :=
  balanced_of_noBracket fun c hc => noBracket_of_not_operator (h.2 c hc)

theorem Bare.clear {s : Text} (h : Bare s) {c : Char} (hc : isOperatorChar c = true) :
    Clear c s := by
  refine clear_of_notMem fun hm => ?_
  rw [h.2 c hm] at hc
  cases hc

theorem Bare.shape {s : Text} (h : Bare s) (k : Stratum) : Shape k s :=
  ⟨h.1, h.balanced, fun _ hc => h.clear (excluded_operator k _ hc).1⟩

theorem bare_name {op : UnaryOp} (h : op ∈ functions) : Bare op.name := by
  unfold Bare
  revert op
  decide

/-- Brackets around a balanced text, with or without a name in front. -/
theorem shape_enclosed {t s : Text} (ht : t = [] ∨ Bare t) (hs : Balanced s) (k : Stratum) :
    Shape k (t ++ '(' :: (s ++ [')'])) := by
  have hbal : Balanced t := by
    rcases ht with rfl | ht
    · exact balanced_nil
    · exact ht.balanced
  refine ⟨by simp, hbal.append hs.wrap, fun c hc => ?_⟩
  refine (clear_append_iff hbal.closed).2 ⟨?_, clear_wrap (excluded_operator k c hc).2 hs⟩
  rcases ht with rfl | ht
  · exact clear_nil
  · exact ht.clear (excluded_operator k c hc).1

/-- **Every text of a stratum has its shape.** -/
theorem Derives.shape {k : Stratum} {s : Text} {e : Expr α} (h : Derives N k s e) : Shape k s := by
  induction h with
  | sum_diff _ ih | diff_prod _ ih | prod_quot _ ih | quot_power _ ih | power_atom _ ih =>
    exact ih.loosen (by decide)
  | add _ _ ihl ihr | sub _ _ ihl ihr | mul _ _ ihl ihr | div _ _ ihl ihr | square _ _ _ ihl ihr
  | pow _ _ _ ihl ihr =>
    exact ihl.joined ihr (by decide) (by decide)
  | neg _ ih =>
    refine ⟨by simp, ih.balanced.cons (by decide), fun c hc => ?_⟩
    rw [clear_cons_iff (by decide)]
    rw [List.mem_singleton.1 hc]
    exact ⟨by decide, ih.clear _ (by decide)⟩
  | bracket _ ih => exact shape_enclosed (Or.inl rfl) ih.balanced .atom
  | call hop _ ih => exact shape_enclosed (Or.inr (bare_name hop)) ih.balanced .atom
  | literal hs _ => exact hs.shape .atom

theorem Derives.step {k : Stratum} {s : Text} {e : Expr α} (h : Derives N k s e) :
    Derives N k.looser s e := by
  cases k with
  | sum => exact h
  | diff => exact .sum_diff h
  | prod => exact .diff_prod h
  | quot => exact .prod_quot h
  | power => exact .quot_power h
  | atom => exact .power_atom h

/-- A text of a stratum belongs to all looser ones. -/
theorem Derives.loosen {k : Stratum} {s : Text} {e : Expr α} (h : Derives N k s e) (j : Stratum)
    (hjk : j.rank ≤ k.rank) : Derives N j s e := by
  obtain ⟨n, hn⟩ := Nat.exists_eq_add_of_le hjk
  induction n generalizing k with
  | zero => exact Stratum.eq_of_rank_eq hn ▸ h
  | succ n ih =>
    have hr := k.rank_looser
    exact ih h.step (by omega) (by omega)

end CurveFormula.Parse
