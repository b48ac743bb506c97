import CurveFormula.Expr.Traversal
import CurveFormula.Proofs.Canon
import CurveFormula.Proofs.Reading
import CurveFormula.Proofs.Tokens

/-!
# Letters and names

The letters of a formula are collected by recursion on it. They can be found in three other places,
in the same order and as often.

* Among its nodes: a parameter has its letter, a sum of powers the letters of its coefficients.
* In its text: the letters are the names in it (`Expr.names_render`).
* In any text it is read from: reading cuts a text at signs and brackets, so the runs between them
  are the leaves and the names of functions, and no function and no constant is one letter
  (`Parse.Derives.letters_eq`).
-/

namespace CurveFormula

universe u

variable {α : Type u} {N : Numerals α}

namespace Expr

/-- The letters of a node itself. -/
def ownLetters : Expr α → List Letter
  | param p => [p]
  | poly _ n => Letter.upTo n
  | _ => []

/-- The letters of a formula are those of its nodes. -/
theorem letters_eq_flatMap_nodes (e : Expr α) :
    e.letters = (e.nodes .depthFirst).flatMap ownLetters := by
  rw [nodes_depthFirst]
  induction e with
  | var | const _ | zero | one | param _ => rfl
  | poly w n => simp [preorder, ownLetters, letters]
  | unary op e ih => simpa [preorder, ownLetters] using ih
  | binary op l r ihl ihr => simp [preorder, ownLetters, ihl, ihr]

end Expr

namespace Parse

/-- The runs of characters between signs and brackets, and these. -/
def words (s : Text) : List Text :=
  s.tokens fun c => !isOperatorChar c

/-- The letters among the words of a text. -/
def wordLetters (s : Text) : List Letter :=
  (words s).filterMap Letter.ofText?

theorem wordLetters_append_cons {c : Char} (hc : isOperatorChar c = true) (s t : Text) :
    wordLetters (s ++ c :: t) = wordLetters s ++ wordLetters t := by
  have hletter : Letter.ofText? [c] = none := by
    have h : ∀ p ∈ Letter.alphabet, isOperatorChar p = false := by decide
    refine Option.eq_none_iff_forall_ne_some.2 fun p hp => ?_
    rw [Letter.ofText?_eq_some] at hp
    rw [List.head_eq_of_cons_eq hp, h p.char p.mem_alphabet] at hc
    cases hc
  rw [wordLetters, words, Text.tokens_append_cons (by simp [hc]), List.filterMap_append,
    List.filterMap_cons_none hletter]
  rfl

theorem wordLetters_cons {c : Char} (hc : isOperatorChar c = true) (s : Text) :
    wordLetters (c :: s) = wordLetters s :=
  wordLetters_append_cons hc [] s

theorem wordLetters_enclosed (s t : Text) :
    wordLetters (s ++ '(' :: (t ++ [')'])) = wordLetters s ++ wordLetters t := by
  rw [wordLetters_append_cons (by decide), wordLetters_append_cons (by decide)]
  exact congrArg _ (List.append_nil _)

theorem wordLetters_of_bare {s : Text} (h : Bare s) :
    wordLetters s = (Letter.ofText? s).toList := by
  have hwords : words s = [s] := Text.tokens_of_forall h.1 fun c hc => by simp [h.2 c hc]
  rw [wordLetters, hwords, List.filterMap_cons, List.filterMap_nil]
  cases Letter.ofText? s <;> rfl

theorem wordLetters_name {op : UnaryOp} (h : op ∈ functions) : wordLetters op.name = [] := by
  rw [wordLetters_of_bare (bare_name h)]
  cases op <;> rfl

theorem IsTwo.letters_eq_nil {e : Expr α} (h : IsTwo N e) : e.letters = [] := by
  obtain ⟨c, rfl, -⟩ := h
  rfl

/-- A leaf has a letter exactly if its text is one. -/
theorem Leaf.letters_eq {s : Text} {e : Expr α} (h : Leaf N s e) :
    e.letters = (Letter.ofText? s).toList := by
  cases h with
  | var | zero | one => rfl
  | param p => rw [Letter.ofText?_text]; rfl
  | const hs _ =>
    have hnone : Letter.ofText? s = none := by
      refine Option.eq_none_iff_forall_ne_some.2 fun p hp => hs ?_
      exact Or.inr (Or.inl ⟨p, Letter.ofText?_eq_some.1 hp⟩)
    rw [hnone]
    rfl

/-- **The letters of a formula are the letters among the words of a text it is derived from.** -/
theorem Derives.letters_eq {k : Stratum} {s : Text} {e : Expr α} (h : Derives N k s e) :
    e.letters = wordLetters s := by
  induction h with
  | sum_diff _ ih | diff_prod _ ih | prod_quot _ ih | quot_power _ ih | power_atom _ ih => exact ih
  | add _ _ ihl ihr | sub _ _ ihl ihr | mul _ _ ihl ihr | div _ _ ihl ihr
  | pow _ _ _ ihl ihr =>
    rw [wordLetters_append_cons (by decide), ← ihl, ← ihr, Expr.letters_binary]
  | square _ _ hf ihl ihr =>
    -- the exponent is gone, but it had no letter
    rw [wordLetters_append_cons (by decide), ← ihl, ← ihr, hf.letters_eq_nil, List.append_nil,
      Expr.letters_unary]
  | neg _ ih => rw [wordLetters_cons (by decide), ← ih, Expr.letters_unary]
  | bracket _ ih =>
    rw [← List.nil_append ('(' :: _), wordLetters_enclosed, ← ih]
    rfl
  | call hop _ ih =>
    rw [wordLetters_enclosed, wordLetters_name hop, ← ih, List.nil_append, Expr.letters_unary]
  | literal hs h => rw [wordLetters_of_bare hs, h.letters_eq]

end Parse

/-- **The letters of a formula, those of its nodes, and the names in its text are the same list,
order and repetitions included; and the letters of a formula that is read are the letters among the
words of the text.** -/
theorem letters_eq_names :
    (∀ e : Expr Float, e.letters = (e.nodes .depthFirst).flatMap Expr.ownLetters ∧
      e.letters.map Letter.text = (e.display Binary64.numerals).names) ∧
    ∀ s (e : Expr Float), Expr.parse Binary64.numerals s = .ok e →
      e.letters = (Parse.words (Parse.normalize s)).filterMap Letter.ofText? := by
  refine ⟨fun e => ⟨e.letters_eq_flatMap_nodes, ?_⟩, fun s e h => ?_⟩
  · exact (e.names_render Binary64.positional_numerals (Or.inl rfl)).symm
  · exact ((Parse.read_eq_ok_iff _ e).1 h).letters_eq

/-- A text with blanks and square brackets, and a letter that stands in it twice. -/
theorem letters_eq_names_sine :
    let p : Letter := ⟨'p', by decide⟩
    let q : Letter := ⟨'q', by decide⟩
    let e : Expr Float :=
      .binary .sub (.binary .mul (.param p) (.unary .sin (.param q))) (.param p)
    let s : Text := "p * sin[q] - p".toList
    Expr.parse Binary64.numerals s = .ok e ∧ e.letters = [p, q, p] ∧
      e.letters = (e.nodes .depthFirst).flatMap Expr.ownLetters ∧
      e.letters.map Letter.text = (e.display Binary64.numerals).names ∧
      e.letters = (Parse.words (Parse.normalize s)).filterMap Letter.ofText? := by
  intro p q e s
  have hletter (r : Letter) : Parse.Derives Binary64.numerals .atom r.text (.param r) :=
    .literal (Parse.solid_text r).bare (.param r)
  have hop : UnaryOp.sin ∈ Parse.functions := by decide
  have hsine : Parse.Derives Binary64.numerals .atom "sin(q)".toList (.unary .sin (.param q)) :=
    .call hop ((hletter q).loosen .sum (by decide))
  have hderives : Parse.Derives Binary64.numerals .sum (Parse.normalize s) e :=
    .sum_diff (.sub (.diff_prod (.mul ((hletter p).loosen .quot (by decide))
      (hsine.loosen .prod (by decide)))) ((hletter p).loosen .prod (by decide)))
  have hparse : Expr.parse Binary64.numerals s = .ok e := Parse.read_of_derives hderives
  obtain ⟨htree, htext⟩ := letters_eq_names
  exact ⟨hparse, rfl, (htree e).1, (htree e).2, htext s e hparse⟩

end CurveFormula
