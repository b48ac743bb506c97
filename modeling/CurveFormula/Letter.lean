import CurveFormula.Text.Basic

/-!
# Parameter letters

The scalar parameters of a formula are single letters: the lowercase Latin letters without `e`,
which is read as Euler's number, and `x`, which is the variable.

The order of `Letter.alphabet` matters. A polynomial of degree `n` takes the first `n + 1` letters
as its coefficients, lowest power first.
-/

namespace CurveFormula

/-- The letters that may name a parameter, in the order polynomials use them. -/
def Letter.alphabet : List Char :=
  ['a', 'b', 'c', 'd', 'f', 'g', 'h', 'i', 'j', 'k', 'l', 'm', 'n', 'o', 'p', 'q', 'r', 's', 't',
    'u', 'v', 'w', 'y', 'z']

/-- A letter of the parameter alphabet. -/
structure Letter where
  char : Char
  mem_alphabet : char ∈ Letter.alphabet
  deriving DecidableEq

namespace Letter

/-- The letter written by a character, if it is one. -/
def ofChar? (c : Char) : Option Letter :=
  if h : c ∈ alphabet then some ⟨c, h⟩ else none

/-- The letter written by a text of exactly one character, if it is one. -/
def ofText? : Text → Option Letter
  | [c] => ofChar? c
  | _ => none

/-- The text of a letter. -/
def text (p : Letter) : Text :=
  [p.char]

/-- Every letter, in the order of the alphabet. -/
def all : List Letter :=
  alphabet.attach.map fun c => ⟨c.1, c.2⟩

/-- The coefficients of a polynomial of degree `n`: the first `n + 1` letters. -/
def upTo (n : Nat) : List Letter :=
  all.take (n + 1)

@[ext] theorem ext {p q : Letter} (h : p.char = q.char) : p = q := by
  cases p; cases q; cases h; rfl

@[simp] theorem ofChar?_char (p : Letter) : ofChar? p.char = some p := by
  simp [ofChar?, p.mem_alphabet]

@[simp] theorem ofText?_text (p : Letter) : ofText? p.text = some p := by
  simp [ofText?, text]

theorem ofChar?_eq_some {c : Char} {p : Letter} : ofChar? c = some p ↔ p.char = c := by
  constructor
  · intro h
    unfold ofChar? at h
    split at h
    · cases h; rfl
    · cases h
  · rintro rfl
    exact ofChar?_char p

theorem ofText?_eq_some {s : Text} {p : Letter} : ofText? s = some p ↔ s = p.text := by
  constructor
  · intro h
    match s, h with
    | [c], h => rw [text, ofChar?_eq_some.1 h]
  · rintro rfl
    exact ofText?_text p

@[simp] theorem length_all : all.length = 24 := by
  simp [all, alphabet]

theorem mem_all (p : Letter) : p ∈ all := by
  simp only [all, List.mem_map, List.mem_attach, true_and, Subtype.exists]
  exact ⟨p.char, p.mem_alphabet, rfl⟩

theorem length_upTo {n : Nat} (h : n < 24) : (upTo n).length = n + 1 := by
  simp [upTo]; omega

end Letter

end CurveFormula
