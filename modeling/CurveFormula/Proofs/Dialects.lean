import CurveFormula.Proofs.Tokens
import Mathlib.Data.List.Infix

/-!
# From one dialect to another

The two dialects differ in the sign of a power and in the name of the logarithm. So the plot text of
a formula is its display text with the sign and the name replaced wherever they stand
(`Expr.plot_eq_replaceAll`). Both texts come from one recursion, each with the signs and names of its
dialect; what has to be shown is that the sign and the name stand nowhere else, and that neither
comes about where two pieces meet.

A replacement may be made on both sides of a seam apart if no occurrence of the pattern crosses the
seam (`Text.replaceFrom_append`). None crosses a seam of a written formula: no bracket that opens is
inside a pattern before its end, and no bracket that closes is behind its beginning. What remains
are the pieces, and there the logarithm is the only one with `ln(` in it.
-/

namespace CurveFormula

universe u

variable {α : Type u} {N : Numerals α}

namespace Text

variable {pattern new : Text}

/-- Replacing, with that many characters of an occurrence still to pass. -/
def replaceFrom (pattern new : Text) : ℕ → Text → Text
  | _, [] => []
  | k + 1, _ :: s => replaceFrom pattern new k s
  | 0, c :: s =>
    if pattern <+: c :: s then new ++ replaceFrom pattern new (pattern.length - 1) s
    else c :: replaceFrom pattern new 0 s

/-- The text with every occurrence of a pattern replaced, from left to right. -/
def replaceAll (s pattern new : Text) : Text :=
  replaceFrom pattern new 0 s

/-- **Where no occurrence crosses a seam, the two sides can be replaced apart.** -/
theorem replaceFrom_append {s t : Text}
    (hseam : ∀ u v, pattern = u ++ v → u ≠ [] → v ≠ [] → u <:+ s → ¬v <+: t)
    {k : ℕ} (hk : k ≤ s.length) :
    replaceFrom pattern new k (s ++ t) =
      replaceFrom pattern new k s ++ replaceAll t pattern new := by
  induction s generalizing k with
  | nil =>
    rw [Nat.le_zero.1 hk]
    cases t <;> rfl
  | cons c s ih =>
    have hrest {k : ℕ} (hk : k ≤ s.length) := ih (fun u v huv hu hv hus =>
      hseam u v huv hu hv (hus.trans (List.suffix_cons c s))) hk
    cases k with
    | succ k => exact hrest (Nat.le_of_succ_le_succ hk)
    | zero =>
      simp only [List.cons_append, replaceFrom]
      by_cases hp : pattern <+: c :: s
      · have hlength : pattern.length - 1 ≤ s.length := Nat.sub_le_of_le_add hp.length_le
        have hp' : pattern <+: c :: (s ++ t) := hp.trans (List.prefix_append (c :: s) t)
        rw [if_pos hp, if_pos hp', hrest hlength, List.append_assoc]
      · have hp' : ¬pattern <+: c :: (s ++ t) := by
          rintro ⟨rest, heq⟩
          have heq : pattern ++ rest = (c :: s) ++ t := heq
          rcases List.append_eq_append_iff.1 heq with ⟨u, hs, -⟩ | ⟨v, huv, ht⟩
          · exact hp ⟨u, hs.symm⟩
          · refine hseam (c :: s) v huv (by simp) ?_ List.suffix_rfl ⟨rest, ht.symm⟩
            rintro rfl
            exact hp ⟨[], by rw [huv]; simp⟩
        rw [if_neg hp, if_neg hp', hrest (Nat.zero_le _), List.cons_append]

example : replaceAll "lnln(ln)".toList "ln(".toList "log(".toList = "lnlog(ln)".toList := by decide

/-- A pattern with a character that the text lacks. -/
theorem replaceAll_of_notMem {a : Char} (ha : a ∈ pattern) {s : Text} (hs : a ∉ s) :
    s.replaceAll pattern new = s := by
  unfold replaceAll
  induction s with
  | nil => rfl
  | cons c s ih =>
    have hp : ¬pattern <+: c :: s := fun hp => hs (hp.subset ha)
    rw [replaceFrom, if_neg hp, ih fun h => hs (List.mem_cons_of_mem c h)]

/-- A single character can be replaced on both sides of every seam. -/
theorem replaceAll_singleton_append (a : Char) (new s t : Text) :
    replaceAll (s ++ t) [a] new = s.replaceAll [a] new ++ t.replaceAll [a] new := by
  refine replaceFrom_append (fun u v huv hu hv => ?_) (Nat.zero_le _)
  have hlength := congrArg List.length huv
  have := List.length_pos_iff.2 hu
  have := List.length_pos_iff.2 hv
  simp only [List.length_singleton, List.length_append] at hlength
  omega

end Text

theorem seamless_replaceAll (pattern new : Text)
    (hopen : ∀ c ∈ ['(', '-', ' '], c ∉ pattern.dropLast)
    (hclose : ∀ c ∈ [')', ' ', '*'], c ∉ pattern.tail) :
    Seamless fun s => s.replaceAll pattern new where
  append_of_opens {s} hs t := by
    obtain ⟨c, hc, hmem⟩ := hs
    refine Text.replaceFrom_append (fun u v huv hu hv hus _ => hopen c hmem ?_) (Nat.zero_le _)
    obtain ⟨r, rfl⟩ := hus
    have hlast : c ∈ u := by
      rw [List.getLast?_append_of_ne_nil r hu] at hc
      exact List.mem_of_getLast? hc
    rw [huv, List.dropLast_append_of_ne_nil hv]
    exact List.mem_append_left _ hlast
  append_of_closes {t} ht s := by
    obtain ⟨c, hc, hmem⟩ := ht
    refine Text.replaceFrom_append (fun u v huv hu hv _ hvt => hclose c hmem ?_) (Nat.zero_le _)
    obtain ⟨r, rfl⟩ := hvt
    have hhead : c ∈ v := by
      rw [List.head?_append_of_ne_nil v hv] at hc
      exact List.mem_of_mem_head? hc
    rw [huv, List.tail_append_of_ne_nil hu]
    exact List.mem_append_right _ hhead

/-- Writing in another dialect is a map of texts if it is one of the pieces. -/
theorem Seamless.render_eq {φ : Text → Text} (hφ : Seamless φ) {d d' : Dialect}
    (h : ∀ p : Piece α, φ (p.text N d Letter.text) = p.text N d' Letter.text) (e : Expr α) :
    φ (e.render N d) = e.render N d' := by
  rw [hφ.render, ← e.inked_text N d', Expr.inked]
  exact List.flatMap_congr fun p _ => h p

/-- The display dialect with the power sign of the plot dialect. -/
def Dialect.starred : Dialect :=
  ⟨Dialect.plot.power, Dialect.display.function⟩

section Positional

variable (hN : N.Positional)
include hN

/-- A character that no positional number has, no sign and no bracket. -/
theorem Numerals.Positional.notMem_format {c : Char} (hdigit : c.isDigit = false)
    (hc : c ∉ "(-.infna)".toList) (v : α) : c ∉ N.format v := by
  have hfront : ∀ t ∈ ["".toList, "-".toList, "(".toList, "(-".toList],
      t ⊆ "(-.infna)".toList := by decide
  have hback : ∀ u ∈ ["".toList, ")".toList], u ⊆ "(-.infna)".toList := by decide
  have hword : ∀ s ∈ ["inf".toList, "nan".toList], s ⊆ "(-.infna)".toList := by decide
  obtain ⟨s, t, u, hs, ht, hu, heq⟩ := hN.format_eq v
  have hsize : c ∉ s := by
    rcases hs with rfl | rfl | hs
    · exact fun h => hc (hword _ (by decide) h)
    · exact fun h => hc (hword _ (by decide) h)
    · intro h
      rcases hs c h with h | rfl
      · rw [hdigit] at h
        cases h
      · exact hc (by decide)
  rw [heq]
  simp only [List.mem_append, not_or]
  exact ⟨fun h => hc (hfront t ht h), hsize, fun h => hc (hback u hu h)⟩

/-- The power sign stands in powers and squares only. -/
theorem Piece.replaceAll_power (p : Piece α) :
    (p.text N .display Letter.text).replaceAll ['^'] ['*', '*'] =
      p.text N .starred Letter.text := by
  have hkeep {s : Text} (hs : '^' ∉ s) : s.replaceAll ['^'] ['*', '*'] = s :=
    Text.replaceAll_of_notMem (List.mem_singleton_self _) hs
  cases p with
  | var | zero | one | opening | closing => rfl
  | const c => exact hkeep (hN.notMem_format (by decide) (by decide) c)
  | letter p =>
    have hp : '^' ∉ Letter.alphabet := by decide
    exact hkeep fun h => hp (List.mem_singleton.1 h ▸ p.mem_alphabet)
  | before op | behind op | between op => cases op <;> rfl
  | power w i =>
    have hexponent : (Dialect.display.exponent i).replaceAll ['^'] ['*', '*'] =
        Dialect.starred.exponent i := by
      by_cases hi : i = 1
      · rw [hi, Dialect.exponent_one, Dialect.exponent_one]
        rfl
      · have hindex : '^' ∉ Text.ofNat i := fun h =>
          absurd (Nat.isDigit_of_mem_toDigits (by decide) (by decide) h) (by decide)
        rw [Dialect.exponent_of_ne_one _ hi, Dialect.exponent_of_ne_one _ hi,
          Text.replaceAll_singleton_append, hkeep hindex]
        rfl
    have hdivisor : '^' ∉ Dialect.divisor w i := fun h =>
      (Dialect.mem_divisor h).elim (by decide) (by decide)
    show Text.replaceAll (['*', 'x'] ++ (Dialect.display.exponent i ++ Dialect.divisor w i)) _ _ = _
    rw [Text.replaceAll_singleton_append, Text.replaceAll_singleton_append, hexponent,
      hkeep hdivisor]
    rfl

/-- The name of the logarithm with a bracket stands in front of its operand only. -/
theorem Piece.replaceAll_name (p : Piece α) :
    (p.text N .starred Letter.text).replaceAll "ln(".toList "log(".toList =
      p.text N .plot Letter.text := by
  have hkeep {s : Text} (hs : 'l' ∉ s) : s.replaceAll "ln(".toList "log(".toList = s :=
    Text.replaceAll_of_notMem (by decide) hs
  cases p with
  | var | zero | one | opening | closing => rfl
  | const c => exact hkeep (hN.notMem_format (by decide) (by decide) c)
  | letter p =>
    have hp : ∀ c ∈ Letter.alphabet,
        Text.replaceAll [c] "ln(".toList "log(".toList = [c] := by decide
    exact hp p.char p.mem_alphabet
  | before op | behind op | between op => cases op <;> rfl
  | power w i =>
    refine hkeep fun h => ?_
    have hother : 'l' ∉ ['*', 'x'] ++ (Dialect.plot.exponent i ++ Dialect.divisor w i) := by
      simp only [List.mem_append, not_or]
      exact ⟨by decide, fun h => (Dialect.mem_exponent h).elim (by decide) (by decide),
        fun h => (Dialect.mem_divisor h).elim (by decide) (by decide)⟩
    exact hother h

end Positional

/-- **The plot text of a formula is its display text with every power sign and every name of the
logarithm replaced.** -/
theorem Expr.plot_eq_replaceAll (e : Expr Float) :
    e.plot Binary64.numerals none =
      .ok (((e.display Binary64.numerals).replaceAll ['^'] ['*', '*']).replaceAll
        "ln(".toList "log(".toList) := by
  have hN := Binary64.positional_numerals
  have hpower := seamless_replaceAll ['^'] ['*', '*'] (by decide) (by decide)
  have hname := seamless_replaceAll "ln(".toList "log(".toList (by decide) (by decide)
  have hstarred := hpower.render_eq (Piece.replaceAll_power hN) e
  have hplot := hname.render_eq (Piece.replaceAll_name hN) e
  rw [Expr.plot, Expr.display, hstarred, hplot]

end CurveFormula
