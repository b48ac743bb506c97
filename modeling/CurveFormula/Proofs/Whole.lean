import CurveFormula.Proofs.Canon

/-!
# Whole numbers as constants

Whole numbers with a sign, written with a point and a nought after it. They satisfy all that is
relied on about the writing and reading of constants, nought with a sign included.
-/

namespace CurveFormula

/-- A whole number with a sign. -/
structure Whole where
  negative : Bool
  size : ℕ
  deriving DecidableEq

namespace Whole

/-- The number without a sign. -/
def ofNat (n : ℕ) : Whole :=
  ⟨false, n⟩

/-- The number without its sign. -/
def magnitude (v : Whole) : Whole :=
  ofNat v.size

/-- The text of a number: its digits, a point and a nought. -/
def write (v : Whole) : Text :=
  let t := Text.ofNat v.size ++ ['.', '0']
  if v.negative then '-' :: t else t

/-- The number of a text of digits, which a point and a nought may follow. -/
def read (s : Text) : Option Whole :=
  let digits := s.takeWhile Char.isDigit
  let rest := s.dropWhile Char.isDigit
  if digits ≠ [] ∧ (rest = [] ∨ rest = ['.', '0']) then some (ofNat (Nat.ofDigitChars 10 digits 0))
  else none

/-- The reading and writing of whole numbers. -/
def numerals : Numerals Whole :=
  ⟨read, write, negative, fun v => v = ofNat 2⟩

theorem read_ofNat_append (n : ℕ) {rest : Text} (h : rest = [] ∨ rest = ['.', '0']) :
    read (Text.ofNat n ++ rest) = some (ofNat n) := by
  have hdigit : ∀ c ∈ Text.ofNat n, c.isDigit = true := fun _ hc => Parse.isDigit_of_mem_ofNat hc
  have hrest : rest.takeWhile Char.isDigit = [] ∧ rest.dropWhile Char.isDigit = rest := by
    rcases h with rfl | rfl <;> exact ⟨rfl, rfl⟩
  have htake : (Text.ofNat n ++ rest).takeWhile Char.isDigit = Text.ofNat n := by
    rw [List.takeWhile_append_of_pos hdigit, hrest.1, List.append_nil]
  have hdrop : (Text.ofNat n ++ rest).dropWhile Char.isDigit = rest := by
    rw [List.dropWhile_append_of_pos hdigit, hrest.2]
  have hvalue : Nat.ofDigitChars 10 (Text.ofNat n) 0 = n := Nat.ofDigitChars_ten_toDigits
  have hne : Text.ofNat n ≠ [] := (Parse.solid_ofNat n).1
  simp only [read, htake, hdrop, hvalue]
  exact if_pos ⟨hne, h⟩

/-- A sign is written, but never read. -/
theorem negative_of_read {s : Text} {v : Whole} (h : read s = some v) : v.negative = false := by
  simp only [read] at h
  split at h
  · cases h
    rfl
  · cases h

theorem write_of_not_negative {v : Whole} (h : v.negative = false) :
    write v = Text.ofNat v.size ++ ['.', '0'] := by
  simp [write, h]

theorem eq_ofNat_size {v : Whole} (h : v.negative = false) : v = ofNat v.size := by
  cases v
  cases h
  rfl

theorem solid_write {v : Whole} (h : v.negative = false) : Parse.Solid (write v) := by
  rw [write_of_not_negative h]
  refine ⟨by simp, fun c hc => ?_⟩
  rcases List.mem_append.1 hc with hc | hc
  · exact (Parse.solid_ofNat v.size).2 c hc
  · have hpoint : ∀ c ∈ ['.', '0'], Parse.steady c = true ∧ Parse.isOperatorChar c = false := by
      decide
    exact hpoint c hc

theorem not_reserved_write {v : Whole} (h : v.negative = false) :
    ¬Parse.Reserved (write v) := by
  have hpoint : '.' ∈ write v := by simp [write_of_not_negative h]
  rintro (hs | ⟨p, hs⟩ | hs | hs) <;> rw [hs] at hpoint
  · exact absurd hpoint (by decide)
  · have hletter : '.' ∉ Letter.alphabet := by decide
    exact hletter (List.mem_singleton.1 hpoint ▸ p.mem_alphabet)
  · exact absurd hpoint (by decide)
  · exact absurd hpoint (by decide)

/-- **Whole numbers are written and read faithfully.** -/
theorem faithful : numerals.Faithful magnitude ofNat where
  solid _ h := solid_write h
  not_reserved _ h := not_reserved_write h
  read_write v h := by
    show read (write v) = some v
    rw [write_of_not_negative h, read_ofNat_append _ (Or.inr rfl), ← eq_ofNat_size h]
  write_negative v h := by
    have h : v.negative = true := h
    simp [numerals, write, h, magnitude, ofNat]
  negative_magnitude _ := rfl
  read_index i _ _ := by
    have := read_ofNat_append i (Or.inl rfl)
    rwa [List.append_nil] at this
  read_factorial i _ _ := by
    have := read_ofNat_append (factorial i) (Or.inl rfl)
    rwa [List.append_nil] at this
  isTwo_iff _ := decide_eq_true_iff
  negative_two := rfl
  nearest_ne_two i h _ := by
    intro he
    have : i = 2 := congrArg size he
    omega

end Whole

end CurveFormula
