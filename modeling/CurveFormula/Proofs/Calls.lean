import CurveFormula.Proofs.Matching
import CurveFormula.Proofs.Pieces

/-!
# Texts that are left to the functions

The functions around brackets are tried last. The texts that reading leaves to them (`leftovers`)
are those whose brackets pair up, but do not enclose the text, and that have no operator outside of
them (`mem_leftovers_iff`).

* No such text ends in `^2`, so the branch for squares is idle and could be left out
  (`cut_eq_callCut`).
* A function is recognized by the name in front and the last character, so the brackets that are
  taken off need not be partners, as in `exp(x)(y)`. They are if a formula comes of the text between
  them (`Leftover.partners`).
-/

namespace CurveFormula.Parse

universe u

variable {α : Type u} {N : Numerals α}

/-! ### The branch for squares -/

/-- The cut of a text at a function around brackets, and at nothing else. -/
def callCut (s : Text) : Cut α :=
  match functionOf? functions s with
  | some (op, t) => .unary op t
  | none => .refused .expression

theorem functionCut_eq_callCut {s : Text} (h : ['^', '2'].isSuffixOf s = false) :
    (functionCut s : Cut α) = callCut s := by
  have hparts : functionOf? functions s =
      (functionOf? [.exp, .ln, .sqrt] s).or (functionOf? [.sin, .cos, .tan] s) := by
    show functionOf? ([.exp, .ln, .sqrt] ++ [.sin, .cos, .tan]) s = _
    exact List.findSome?_append
  unfold functionCut callCut
  rw [hparts, h]
  cases functionOf? [.exp, .ln, .sqrt] s <;> rfl

/-- **The branch for squares could be left out**: every text would be cut as it is. -/
theorem cut_eq_callCut (s : Text) : cut N s = (cutBefore? N s).getD (callCut s) := by
  rw [cut_eq_getD]
  cases hc : cutBefore? N s with
  | some c => rfl
  | none =>
    have hs := (cutBefore?_eq_none_iff s).1 hc
    exact functionCut_eq_callCut hs.not_isSuffixOf

/-! ### The brackets of a function -/

/-- **A function that gives a formula stands in front of partners.** -/
theorem Leftover.partners {s t : Text} {op : UnaryOp} {e : Expr α} (hs : Leftover s)
    (hcut : functionCut (α := α) s = .unary op t) (hread : read N t = .ok e) :
    op ∈ functions ∧ s = op.name ++ '(' :: (t ++ [')']) ∧
      ∀ j, Partners s op.name.length j ↔ j = s.length - 1 := by
  rcases hs.functionCut_cases (α := α) with ⟨op', hop, t', he, hcall⟩ | ⟨hnone, -⟩
  · cases hcut.symm.trans hcall
    have hlast : s.length - 1 = op.name.length + 1 + t.length := by
      rw [he]
      simp only [List.length_append, List.length_cons, List.length_nil]
      omega
    have hpair : Partners s op.name.length (s.length - 1) := by
      rw [hlast, he]
      exact partners_wrap op.name (derives_of_read hread).1
    exact ⟨hop, he, fun j => ⟨fun hj => hj.unique hpair, fun hj => hj ▸ hpair⟩⟩
  · cases hcut.symm.trans hnone

/-! ### The whole reading -/

/-- The texts that reading leaves to the functions, in the order in which it looks at them. -/
def leftovers (N : Numerals α) (s : Text) : List Text :=
  (pieces N s).filter fun t => (cutBefore? N t).isNone

theorem mem_leftovers_iff (s t : Text) : t ∈ leftovers N s ↔ t ∈ pieces N s ∧ Leftover t := by
  rw [leftovers, List.mem_filter, Option.isNone_iff_eq_none, cutBefore?_eq_none_iff]

/-- **What comes to the functions.** A cut asks for them only if everything before them gives
nothing. Of the texts that reading looks at, this happens to those with brackets that pair up, but
do not enclose the text, and without operators outside of them. None of these ends in `^2`, so the
branch for squares changes nothing; and where the branch of a function gives a formula, the brackets
that it takes off are partners. -/
theorem functions_see_leftovers (N : Numerals α) (s : Text) :
    (∀ t, cut N t = (cutBefore? N t).getD (functionCut t)) ∧
      (∀ t, t ∈ leftovers N (normalize s) ↔ t ∈ pieces N (normalize s) ∧ Leftover t) ∧
      ∀ t ∈ leftovers N (normalize s),
        ['^', '2'].isSuffixOf t = false ∧ (functionCut t : Cut α) = callCut t ∧
          ∀ op u e, functionCut (α := α) t = .unary op u → read N u = .ok e →
            op ∈ functions ∧ t = op.name ++ '(' :: (u ++ [')']) ∧
              ∀ j, Partners t op.name.length j ↔ j = t.length - 1 := by
  refine ⟨cut_eq_getD, mem_leftovers_iff _, fun t ht => ?_⟩
  obtain ⟨-, hleft⟩ := (mem_leftovers_iff _ t).1 ht
  have hsuf := hleft.not_isSuffixOf
  exact ⟨hsuf, functionCut_eq_callCut hsuf, fun op u e => hleft.partners⟩

/-- The square is cut at its operator, and its base comes to the functions. -/
theorem functions_see_leftovers_sine :
    let t : Text := "sin(x+1)".toList
    t ∈ leftovers Whole.numerals (normalize "2 - sin[x + 1]^2".toList) ∧ Leftover t ∧
      (functionCut t : Cut Whole) = .unary .sin "x+1".toList ∧
      read Whole.numerals "x+1".toList = .ok (.binary .add .var .one) ∧
      ∀ j, Partners t 3 j ↔ j = 7 := by
  intro t
  have ht : t ∈ leftovers Whole.numerals (normalize "2 - sin[x + 1]^2".toList) := by
    decide +kernel
  have hcut : (functionCut t : Cut Whole) = .unary .sin "x+1".toList := rfl
  have hread : read Whole.numerals "x+1".toList = .ok (.binary .add .var .one) := by
    decide +kernel
  obtain ⟨-, hexact, hcalls⟩ :=
    functions_see_leftovers Whole.numerals "2 - sin[x + 1]^2".toList
  obtain ⟨-, -, hpartners⟩ := (hcalls t ht).2.2 .sin _ _ hcut hread
  exact ⟨ht, ((hexact t).1 ht).2, hcut, hread, hpartners⟩

/-- The brackets that are taken off are no partners, and no formula comes of the text between them.
-/
example : leftovers Whole.numerals "1+exp(x)(y)".toList = ["exp(x)(y)".toList] ∧
    (functionCut "exp(x)(y)".toList : Cut Whole) = .unary .exp "x)(y".toList :=
  ⟨by decide +kernel, rfl⟩

end CurveFormula.Parse
