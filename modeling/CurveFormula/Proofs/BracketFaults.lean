import CurveFormula.Binary64.Kernel
import CurveFormula.Proofs.Pieces

/-!
# Faults of brackets

Whatever else is wrong with a text, a fault of its brackets is reported first, and the numbers of
brackets decide which one (`bracketFault_classified`): if they differ, the text is refused as it is
left after pairs of outer brackets are taken off; if they agree and some prefix closes more brackets
than it opens, the text is refused as a whole.

A balanced text may still be blamed for its brackets. The last bracket of `exp(x)(y)` is not the one
that closes the brackets of `exp`, and between the first and the last one stands `x)(y`. This is the
only way in which it happens (`blames_brackets_iff`).
-/

namespace CurveFormula.Parse

universe u

variable {α : Type u} {N : Numerals α}

/-! ### Brackets of the whole text -/

/-- A text that closes its brackets, but not in order, is refused as a whole. -/
theorem cut_of_closedFirst {s : Text} (hs : nesting s = 0) (hbal : ¬Balanced s) :
    cut N s = .refused (.brackets .closedFirst) := by
  have hfault : bracketFault? s = some .closedFirst := by
    cases hf : bracketFault? s with
    | none => exact absurd ((bracketFault?_eq_none_iff s).1 hf) hbal
    | some f =>
      cases f with
      | unbalanced =>
        exact absurd ((nesting_eq_zero_iff s).1 hs) ((bracketFault?_eq_unbalanced_iff s).1 hf)
      | closedFirst => rfl
  refine cut_of_bracketFault? hfault fun hwrap => hbal ?_
  rw [eq_wrap_of_isWrapped hwrap]
  exact (balanced_inner hwrap hs).wrap

/-- A text that does not close its brackets is refused without some of its outer ones. -/
theorem read_of_nesting_ne {s : Text} (hs : nesting s ≠ 0) :
    ∃ k t, s = List.replicate k '(' ++ (t ++ List.replicate k ')') ∧
      read N s = .error ⟨t, .brackets .unbalanced⟩ := by
  -- on the length of the text, as long as brackets enclose it
  induction hn : s.length using Nat.strong_induction_on generalizing s with
  | _ n ih =>
    subst hn
    by_cases hwrap : isWrapped s = true
    · obtain ⟨k, t, hinner, hread⟩ :=
        ih _ (length_inner hwrap) (by rwa [nesting_inner hwrap]) rfl
      refine ⟨k + 1, t, ?_, by rw [read_of_bracketed N (cut_of_isWrapped hwrap), hread]⟩
      calc s = '(' :: (inner s ++ [')']) := eq_wrap_of_isWrapped hwrap
        _ = '(' :: (List.replicate k '(' ++ (t ++ List.replicate k ')') ++ [')']) := by
          rw [← hinner]
        _ = List.replicate (k + 1) '(' ++ (t ++ List.replicate (k + 1) ')') := by
          rw [List.replicate_succ, List.replicate_succ' (a := ')')]
          simp
    · have hfault : bracketFault? s = some .unbalanced :=
        (bracketFault?_eq_unbalanced_iff s).2 fun hcount => hs ((nesting_eq_zero_iff s).2 hcount)
      exact ⟨0, s, by simp, read_of_refused N (cut_of_bracketFault? hfault hwrap)⟩

/-- No text that closes its brackets has a part whose brackets differ in number. -/
theorem read_ne_unbalanced {s : Text} (hs : nesting s = 0) (t : Text) :
    read N s ≠ .error ⟨t, .brackets .unbalanced⟩ := by
  intro h
  obtain ⟨hmem, hcut⟩ := read_eq_error_iff.1 h
  cases refused_of_cut hcut with
  | unbalanced hne =>
    exact hne ((nesting_eq_zero_iff t).1 (nesting_of_mem_pieces hmem hs))

/-- **The brackets of the whole text decide which fault of brackets is reported, and nothing else is
reported before it.** -/
theorem bracketFault_classified (N : Numerals α) (s : Text) :
    ((∃ t, Expr.parse N s = .error ⟨t, .brackets .unbalanced⟩) ↔
        (normalize s).count '(' ≠ (normalize s).count ')') ∧
      (∀ t, Expr.parse N s = .error ⟨t, .brackets .unbalanced⟩ →
        ∃ k, normalize s = List.replicate k '(' ++ (t ++ List.replicate k ')')) ∧
      ((normalize s).count '(' = (normalize s).count ')' →
        (∃ t, t <+: normalize s ∧ t.count '(' < t.count ')') →
        Expr.parse N s = .error ⟨normalize s, .brackets .closedFirst⟩) := by
  have hne : nesting (normalize s) ≠ 0 ↔ (normalize s).count '(' ≠ (normalize s).count ')' :=
    not_congr (nesting_eq_zero_iff _)
  have hopen (t : Text) (h : Expr.parse N s = .error ⟨t, .brackets .unbalanced⟩) :
      nesting (normalize s) ≠ 0 :=
    fun hs => read_ne_unbalanced hs t h
  refine ⟨⟨fun ⟨t, h⟩ => hne.1 (hopen t h), fun h => ?_⟩, fun t h => ?_, fun hcount hpre => ?_⟩
  · obtain ⟨k, t, -, hread⟩ := read_of_nesting_ne (N := N) (hne.2 h)
    exact ⟨t, hread⟩
  · obtain ⟨k, u, hs, hread⟩ := read_of_nesting_ne (N := N) (hopen t h)
    cases h.symm.trans hread
    exact ⟨k, hs⟩
  · refine read_of_refused N (cut_of_closedFirst ((nesting_eq_zero_iff _).2 hcount) fun hbal => ?_)
    obtain ⟨t, ht, hlt⟩ := hpre
    exact Nat.not_le.2 hlt (((balanced_iff_count _).1 hbal).2 t ht)

/-- Two pairs of outer brackets are taken off, and one bracket stays open. -/
example : Expr.parse Whole.numerals "[(2 * foo(x))".toList =
    .error ⟨"2*foo(x".toList, .brackets .unbalanced⟩ := by decide +kernel

/-! ### Balanced texts -/

/-- **A balanced text is blamed for its brackets exactly if reading comes to a function name whose
brackets are not the first and the last one behind it**, and then the text between these two is
blamed. -/
theorem blames_brackets_iff (N : Numerals α) {s : Text} (hs : Balanced (normalize s)) :
    (∀ t, Expr.parse N s ≠ .error ⟨t, .brackets .unbalanced⟩) ∧
      ((∀ fault, Expr.parse N s = .error fault →
          fault.reason = .empty ∨ fault.reason = .literal ∨ fault.reason = .expression) ↔
        ∀ p ∈ pieces N (normalize s), ∀ op ∈ functions, ∀ t, cut N p = .unary op t → Balanced t) ∧
      ∀ p ∈ pieces N (normalize s), ∀ op ∈ functions, ∀ t, cut N p = .unary op t → ¬Balanced t →
        Expr.parse N s = .error ⟨t, .brackets .closedFirst⟩ := by
  have hblame {p t : Text} {op : UnaryOp} (hp : p ∈ pieces N (normalize s))
      (hcut : cut N p = .unary op t) (ht : ¬Balanced t) :
      Expr.parse N s = .error ⟨t, .brackets .closedFirst⟩ := by
    have hmem : t ∈ pieces N (normalize s) :=
      pieces_subset_of_mem hp ((goesOn_of_unary hcut).pieces_subset (self_mem_pieces t))
    exact read_eq_error_iff.2
      ⟨hmem, cut_of_closedFirst (nesting_of_mem_pieces hmem hs.closed) ht⟩
  refine ⟨read_ne_unbalanced hs.closed, ⟨fun h p hp op _ t hcut => ?_, fun h fault hf => ?_⟩,
    fun p hp op _ t hcut ht => hblame hp hcut ht⟩
  · by_contra ht
    rcases h _ (hblame hp hcut ht) with h | h | h <;> cases h
  · obtain ⟨hmem, hcut⟩ := read_eq_error_iff.1 hf
    have hbal := (balanced_iff_count _).1 (balanced_of_mem_pieces hmem hs h)
    obtain ⟨t, reason⟩ := fault
    cases refused_of_cut hcut with
    | empty => exact Or.inl rfl
    | literal _ _ => exact Or.inr (Or.inl rfl)
    | expression _ _ _ _ => exact Or.inr (Or.inr rfl)
    | unbalanced hne => exact absurd hbal.1 hne
    | closedFirst _ hpre hlt => exact absurd (hbal.2 _ hpre) (Nat.not_le.2 hlt)

/-- The brackets behind `sqrt` close before the text does. -/
theorem blames_brackets_iff_sqrt :
    Balanced (normalize "ln[sqrt(x)(1)]".toList) ∧
      (∀ t, Expr.parse Whole.numerals "ln[sqrt(x)(1)]".toList ≠
          .error ⟨t, .brackets .unbalanced⟩) ∧
      ((∀ fault, Expr.parse Whole.numerals "ln[sqrt(x)(1)]".toList = .error fault →
          fault.reason = .empty ∨ fault.reason = .literal ∨ fault.reason = .expression) ↔
        ∀ p ∈ pieces Whole.numerals (normalize "ln[sqrt(x)(1)]".toList), ∀ op ∈ functions,
          ∀ t, cut Whole.numerals p = .unary op t → Balanced t) ∧
      ∀ p ∈ pieces Whole.numerals (normalize "ln[sqrt(x)(1)]".toList), ∀ op ∈ functions,
        ∀ t, cut Whole.numerals p = .unary op t → ¬Balanced t →
          Expr.parse Whole.numerals "ln[sqrt(x)(1)]".toList =
            .error ⟨t, .brackets .closedFirst⟩ :=
  have h : Balanced (normalize "ln[sqrt(x)(1)]".toList) := by decide +kernel
  ⟨h, blames_brackets_iff Whole.numerals h⟩

/-- Two texts in brackets behind a name, over binary64 numbers: every bracket has its partner, and
the brackets are blamed. -/
theorem blames_brackets_of_balanced :
    Balanced (normalize "exp(x)(y)".toList) ∧
      Expr.parse Binary64.numerals "exp(x)(y)".toList =
        .error ⟨"x)(y".toList, .brackets .closedFirst⟩ := by
  have hnormal : normalize "exp(x)(y)".toList = "exp(x)(y)".toList := by decide +kernel
  have hcall : cut Binary64.numerals "exp(x)(y)".toList = .unary .exp "x)(y".toList := rfl
  have hfault : cut Binary64.numerals "x)(y".toList = .refused (.brackets .closedFirst) := rfl
  refine ⟨by decide +kernel, ?_⟩
  rw [Expr.parse, hnormal, read_of_unary _ hcall, read_of_refused _ hfault]
  rfl

end CurveFormula.Parse
