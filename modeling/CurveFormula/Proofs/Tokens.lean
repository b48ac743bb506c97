import CurveFormula.Binary64.Kernel
import CurveFormula.Proofs.Script
import Mathlib.Data.List.SplitBy

/-!
# Tokens of a text

The tokens of a text are its maximal runs of characters of one kind, every other character being a
token of its own. Among the runs of letters, one letter that is not the variable is a *name*
(`Text.names`), and names can be replaced in place (`Text.substitute`).

The seams of a written formula are seams of its tokens as well, so its names are those of its
pieces. Letters name themselves. No other piece has a name (`Piece.names_text`): a function has a
longer run of letters, and so has a constant without digits. About the constants this relies on
their positional form, `Numerals.Positional`, which binary64 numbers have.
-/

namespace CurveFormula

universe u v

variable {α : Type u} {β : Type v}

namespace Text

variable {p : Char → Bool} {s t : Text}

/-- The maximal runs of characters of a kind; every other character stands alone. -/
def tokens (p : Char → Bool) (s : Text) : List Text :=
  s.splitBy fun a b => p a && p b

@[simp] theorem flatten_tokens (p : Char → Bool) (s : Text) : (tokens p s).flatten = s :=
  List.flatten_splitBy _ s

theorem tokens_append (h : (∀ c ∈ s.getLast?, p c = false) ∨ ∀ c ∈ t.head?, p c = false) :
    tokens p (s ++ t) = tokens p s ++ tokens p t := by
  refine List.splitBy_append fun a ha b hb => ?_
  rcases h with h | h
  · simp [h a ha]
  · simp [h b hb]

/-- A text of characters of the kind is one token. -/
theorem tokens_of_forall (hs : s ≠ []) (h : ∀ c ∈ s, p c = true) : tokens p s = [s] := by
  refine List.splitBy_of_isChain hs (List.isChain_iff_getElem.2 fun i hi => ?_)
  simp [h _ (List.getElem_mem _)]

/-- A character of another kind is a token. -/
theorem tokens_append_cons {c : Char} (hc : p c = false) (s t : Text) :
    tokens p (s ++ c :: t) = tokens p s ++ [c] :: tokens p t := by
  have hfront : tokens p (s ++ c :: t) = tokens p s ++ tokens p ([c] ++ t) :=
    tokens_append (Or.inr (by simpa using hc))
  have hback : tokens p ([c] ++ t) = [[c]] ++ tokens p t :=
    tokens_append (Or.inl (by simpa using hc))
  rw [hfront, hback, List.singleton_append]

/-- One letter that is not the variable. -/
def isName : Text → Bool
  | [c] => c.isAlpha && c != 'x'
  | _ => false

/-- The runs of letters that are one letter, not the variable. -/
def names (s : Text) : List Text :=
  (tokens Char.isAlpha s).filter isName

/-- The text with its names replaced. -/
def substitute (f : Text → Text) (s : Text) : Text :=
  (tokens Char.isAlpha s).flatMap fun t => if isName t then f t else t

/-- There is no letter on one of the two sides of a seam. -/
def Parted (s t : Text) : Prop :=
  (∀ c ∈ s.getLast?, c.isAlpha = false) ∨ ∀ c ∈ t.head?, c.isAlpha = false

theorem names_append (h : Parted s t) : names (s ++ t) = names s ++ names t := by
  rw [names, tokens_append h, List.filter_append]
  rfl

theorem substitute_append (f : Text → Text) (h : Parted s t) :
    substitute f (s ++ t) = substitute f s ++ substitute f t := by
  rw [substitute, tokens_append h, List.flatMap_append]
  rfl

/-- A text without letters has no names. -/
theorem names_of_forall (h : ∀ c ∈ s, c.isAlpha = false) : names s = [] := by
  refine List.filter_eq_nil_iff.2 fun u hu => ?_
  match u with
  | [] => simp [isName]
  | [c] =>
    have hc : c ∈ (tokens Char.isAlpha s).flatten := List.mem_flatten_of_mem hu (by simp)
    rw [flatten_tokens] at hc
    simp [isName, h c hc]
  | _ :: _ :: _ => simp [isName]

example : names "exp(q) - inf*x + (-nan)/p".toList = ["q".toList, "p".toList] := by decide

/-- The variable in a product is a run of its own where no letter follows. -/
theorem names_var_append (h : ∀ c ∈ s, c.isAlpha = false) : names ('*' :: 'x' :: s) = [] := by
  have hparted : Parted ['*', 'x'] s := Or.inr fun c hc => h c (List.mem_of_mem_head? hc)
  have happend : names (['*', 'x'] ++ s) = names ['*', 'x'] ++ names s := names_append hparted
  rw [names_of_forall h] at happend
  exact happend

/-- A text without names stays as it is. -/
theorem substitute_of_names_eq_nil (f : Text → Text) (h : names s = []) : substitute f s = s := by
  have hkept : ∀ u ∈ tokens Char.isAlpha s, isName u = false := fun u hu => by
    simpa using List.filter_eq_nil_iff.1 h u hu
  calc substitute f s
      = (tokens Char.isAlpha s).flatMap id :=
        List.flatMap_congr fun u hu => by simp [hkept u hu]
    _ = s := by rw [List.flatMap_id, flatten_tokens]

end Text

/-! ### Seams -/

theorem Opens.parted {s : Text} (h : Opens s) (t : Text) : s.Parted t := by
  have hother : ∀ c ∈ ['(', '-', ' '], c.isAlpha = false := by decide
  obtain ⟨c, hc, hmem⟩ := h
  exact Or.inl fun a ha => Option.mem_unique hc ha ▸ hother c hmem

theorem Closes.parted {t : Text} (h : Closes t) (s : Text) : Text.Parted s t := by
  have hother : ∀ c ∈ [')', ' ', '*'], c.isAlpha = false := by decide
  obtain ⟨c, hc, hmem⟩ := h
  exact Or.inr fun a ha => Option.mem_unique hc ha ▸ hother c hmem

theorem seamless_names : Seamless Text.names :=
  ⟨fun hs t => Text.names_append (hs.parted t), fun ht s => Text.names_append (ht.parted s)⟩

theorem seamless_substitute (f : Text → Text) : Seamless (Text.substitute f) :=
  ⟨fun hs t => Text.substitute_append f (hs.parted t),
    fun ht s => Text.substitute_append f (ht.parted s)⟩

/-! ### Positional constants -/

/-- A positional number without its sign: digits and points, or the text of infinity or of
not-a-number. -/
def Text.Unsigned (s : Text) : Prop :=
  s = "inf".toList ∨ s = "nan".toList ∨ ∀ c ∈ s, c.isDigit = true ∨ c = '.'

/-- Constants are written positionally. -/
def Numerals.Positional (N : Numerals α) : Prop :=
  ∀ c, ∃ s : Text, s.Unsigned ∧ (N.write c = s ∨ N.write c = '-' :: s)

/-- The digits of a decimal number, and its noughts, laid out around a point. -/
theorem Decimal.unsigned_positional (d : Decimal) : d.positional.Unsigned := by
  have hdigit : ∀ c ∈ d.digits, c.isDigit = true := fun c hc =>
    Nat.isDigit_of_mem_toDigits (by decide) (by decide) hc
  have hnought : ∀ n, ∀ c ∈ noughts n, c.isDigit = true := fun n c hc => by
    rw [List.eq_of_mem_replicate hc]
    rfl
  have h0 : '0'.isDigit = true := rfl
  refine Or.inr (Or.inr fun c hc => ?_)
  simp only [Decimal.positional] at hc
  split_ifs at hc
  · simp only [List.cons_append, List.mem_cons, List.mem_append] at hc
    rcases hc with rfl | rfl | hc | hc
    · exact Or.inl h0
    · exact Or.inr rfl
    · exact Or.inl (hnought _ c hc)
    · exact Or.inl (hdigit c hc)
  · simp only [List.mem_append, List.mem_cons, List.not_mem_nil, or_false] at hc
    rcases hc with (hc | hc) | rfl | rfl
    · exact Or.inl (hdigit c hc)
    · exact Or.inl (hnought _ c hc)
    · exact Or.inr rfl
    · exact Or.inl h0
  · simp only [List.mem_append, List.mem_cons] at hc
    rcases hc with hc | rfl | hc
    · exact Or.inl (hdigit c (List.mem_of_mem_take hc))
    · exact Or.inr rfl
    · exact Or.inl (hdigit c (List.mem_of_mem_drop hc))

/-- **Binary64 numbers are written positionally.** -/
theorem Binary64.positional_numerals : numerals.Positional := by
  intro x
  show ∃ s : Text, s.Unsigned ∧ (positional x = s ∨ positional x = '-' :: s)
  unfold positional textWith
  cases shape x with
  | nan => exact ⟨_, Or.inr (Or.inl rfl), Or.inl rfl⟩
  | infinite negative => cases negative <;> exact ⟨_, Or.inl rfl, by simp⟩
  | finite negative m q =>
    have hsize : (if m = 0 then ['0', '.', '0'] else (shortestDecimal m q).positional :
        Text).Unsigned := by
      split_ifs
      · exact Or.inr (Or.inr (by decide))
      · exact Decimal.unsigned_positional _
    cases negative <;> exact ⟨_, hsize, by simp⟩

theorem isAlpha_of_isDigit {c : Char} (h : c.isDigit = true) : c.isAlpha = false := by
  have hhigh : c.toNat ≤ 57 := by
    simp only [Char.isDigit, Bool.and_eq_true, decide_eq_true_eq] at h
    exact UInt32.le_iff_toNat_le.1 h.2
  have hbelow {d : Char} (hd : 57 < d.toNat) : ¬d.val ≤ c.val := fun hle =>
    absurd (UInt32.le_iff_toNat_le.1 hle) (Nat.not_le.2 (Nat.lt_of_le_of_lt hhigh hd))
  have hupper : c.isUpper = false := decide_eq_false fun h => hbelow (by decide) h.1
  have hlower : c.isLower = false :=
    Bool.and_eq_false_iff.2 (Or.inl (decide_eq_false (hbelow (by decide))))
  show (c.isUpper || c.isLower) = false
  rw [hupper, hlower, Bool.or_self]

theorem Text.Unsigned.names_eq_nil {s : Text} (h : s.Unsigned) : s.names = [] := by
  rcases h with rfl | rfl | h
  · rfl
  · rfl
  · refine Text.names_of_forall fun c hc => ?_
    rcases h c hc with hc | rfl
    · exact isAlpha_of_isDigit hc
    · rfl

/-- What is written in place of a constant: a positional number, a sign or brackets around it. -/
theorem Numerals.Positional.format_eq {N : Numerals α} (hN : N.Positional) (v : α) :
    ∃ s t u : Text, s.Unsigned ∧ t ∈ ["".toList, "-".toList, "(".toList, "(-".toList] ∧
      u ∈ ["".toList, ")".toList] ∧ N.format v = t ++ (s ++ u) := by
  obtain ⟨s, hs, hw⟩ := hN v
  cases hneg : N.negative v with
  | false =>
    rw [N.format_of_not_negative hneg]
    rcases hw with hw | hw
    · exact ⟨s, [], [], hs, by decide, by decide, by simp [hw]⟩
    · exact ⟨s, ['-'], [], hs, by decide, by decide, by simp [hw]⟩
  | true =>
    rw [N.format_of_negative hneg]
    rcases hw with hw | hw
    · exact ⟨s, ['('], [')'], hs, by decide, by decide, by simp [hw]⟩
    · exact ⟨s, ['(', '-'], [')'], hs, by decide, by decide, by simp [hw]⟩

/-- Constants have no names in them. -/
theorem Numerals.Positional.names_format {N : Numerals α} (hN : N.Positional) (v : α) :
    (N.format v).names = [] := by
  have hfront : ∀ t ∈ ["".toList, "-".toList, "(".toList, "(-".toList],
      ∀ c ∈ t, c.isAlpha = false := by decide
  have hback : ∀ u ∈ ["".toList, ")".toList], ∀ c ∈ u, c.isAlpha = false := by decide
  obtain ⟨s, t, u, hs, ht, hu, heq⟩ := hN.format_eq v
  rw [heq, Text.names_append (Or.inl fun c hc => hfront t ht c (List.mem_of_getLast? hc)),
    Text.names_append (Or.inr fun c hc => hback u hu c (List.mem_of_mem_head? hc)),
    Text.names_of_forall (hfront t ht), Text.names_of_forall (hback u hu), hs.names_eq_nil]
  rfl

/-! ### Names of the pieces -/

theorem Letter.isName_text (p : Letter) : Text.isName p.text = true := by
  have h : ∀ c ∈ Letter.alphabet, Text.isName [c] = true := by decide
  exact h p.char p.mem_alphabet

theorem Letter.tokens_text (p : Letter) : Text.tokens Char.isAlpha p.text = [p.text] := rfl

theorem Dialect.names_factor {d : Dialect} (hd : d = .display ∨ d = .plot) (w : Weights) (i : ℕ) :
    (d.factor w i).names = [] := by
  have hpower : ∀ c ∈ d.power, c.isAlpha = false := by
    rcases hd with rfl | rfl <;> decide
  refine Text.names_var_append fun c hc => ?_
  rcases List.mem_append.1 hc with hc | hc
  · exact (Dialect.mem_exponent hc).elim (hpower c) isAlpha_of_isDigit
  · rcases Dialect.mem_divisor hc with rfl | hc
    · rfl
    · exact isAlpha_of_isDigit hc

/-- **The names in a piece are its letters.** -/
theorem Piece.names_text {N : Numerals α} (hN : N.Positional) {d : Dialect}
    (hd : d = .display ∨ d = .plot) (p : Piece α) :
    (p.text N d Letter.text).names = p.letters.map Letter.text := by
  cases p with
  | var | zero | one | opening | closing => rfl
  | const c => exact hN.names_format c
  | letter p =>
    show (Text.tokens Char.isAlpha p.text).filter Text.isName = [p.text]
    rw [p.tokens_text, List.filter_cons_of_pos p.isName_text, List.filter_nil]
  | before op | behind op | between op => rcases hd with rfl | rfl <;> cases op <;> rfl
  | power w i => exact Dialect.names_factor hd w i

/-- **The names in the text of a formula are its letters.** -/
theorem Expr.names_render {N : Numerals α} (hN : N.Positional) {d : Dialect}
    (hd : d = .display ∨ d = .plot) (e : Expr α) :
    (e.render N d).names = e.letters.map Letter.text := by
  calc (e.render N d).names
      = e.script.flatMap fun p => (p.text N d Letter.text).names := by
        rw [seamless_names.render]
    _ = e.script.flatMap fun p => p.letters.map Letter.text :=
        List.flatMap_congr fun p _ => p.names_text hN hd
    _ = e.letters.map Letter.text := by
        rw [← e.letters_script, List.map_flatMap]

end CurveFormula
