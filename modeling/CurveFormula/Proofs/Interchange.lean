import CurveFormula.Binary64.Kernel
import CurveFormula.Expr.Equality
import CurveFormula.Expr.Eval
import CurveFormula.Expr.Render
import Mathlib

/-!
# Equal formulas of binary64 numbers

Constants are compared as numbers, and as numbers the two noughts are equal. Formulas that are equal
in this way have the same shape, and their constants differ in the sign of a nought at most. Such a
sign shows in the text of a formula, and under a division in its value
(`equal_noughts_differ`). Where the signs agree, equal formulas are the same formula, and taking one
for the other, or dropping it from a list, is not noticed (`interchangeable_of_equal`).

What equality of binary64 numbers means is a lemma of the library, `Float.beq_iff_ne_nan_and_eq`. No
module of Mathlib leads to it, so the whole of it is imported here and nowhere else.
-/

namespace CurveFormula

universe u

/-- Binary64 numbers that are equal and have the same sign are the same. -/
theorem Binary64.eq_of_beq {x y : Float} (h : (x == y) = true)
    (hsign : negative x = negative y) : x = y := by
  obtain ⟨-, -, rfl | ⟨rfl, rfl⟩ | ⟨rfl, rfl⟩⟩ := Float.beq_iff_ne_nan_and_eq.1 h
  · rfl
  · exact absurd hsign (by decide +kernel)
  · exact absurd hsign (by decide +kernel)

/-- Formulas of the same shape are the same, if constants that agree in both ways are. -/
theorem Expr.eq_of_same {α : Type u} {agree agree' : α → α → Bool}
    (h : ∀ c d, agree c d = true → agree' c d = true → c = d) {a b : Expr α}
    (hab : a.same agree b = true) (hab' : a.same agree' b = true) : a = b := by
  fun_induction same agree a b with
  | case1 | case3 | case4 => rfl
  | case2 c d => rw [h c d hab hab']
  | case5 p q => rw [of_decide_eq_true hab]
  | case6 op e op' e' ih =>
    simp only [same, Bool.and_eq_true, decide_eq_true_eq] at hab hab'
    rw [hab.1, ih hab.2 hab'.2]
  | case7 op l r op' l' r' ihl ihr =>
    simp only [same, Bool.and_eq_true, decide_eq_true_eq] at hab hab'
    rw [hab.1.1, ihl hab.1.2 hab'.1.2, ihr hab.2 hab'.2]
  | case8 w n w' n' =>
    simp only [Bool.and_eq_true, decide_eq_true_eq] at hab
    rw [hab.1, hab.2]
  | case9 => cases hab

/-! ### Lists without repetitions -/

namespace Occurrence

variable {α : Type u} (agree : α → α → Bool)

theorem distinctFrom_subset (kept l : List (Occurrence α)) : distinctFrom agree kept l ⊆ l := by
  induction l generalizing kept with
  | nil => exact List.Subset.refl _
  | cons a rest ih =>
    unfold distinctFrom
    split
    · exact List.subset_cons_of_subset a (ih kept)
    · exact List.cons_subset_cons a (ih (kept ++ [a]))

/-- Every occurrence equals one that is kept. -/
theorem exists_mem_distinctFrom (kept l : List (Occurrence α)) :
    ∀ a ∈ l, ∃ k ∈ kept ++ distinctFrom agree kept l, k.equals agree a = true := by
  induction l generalizing kept with
  | nil => exact nofun
  | cons first rest ih =>
    intro a ha
    unfold distinctFrom
    split
    · rename_i hany
      rcases List.mem_cons.1 ha with rfl | ha
      · obtain ⟨k, hk, hequals⟩ := List.any_eq_true.1 hany
        exact ⟨k, List.mem_append_left _ hk, hequals⟩
      · exact ih kept a ha
    · rcases List.mem_cons.1 ha with rfl | ha
      · exact ⟨a, by simp, equals_self agree a⟩
      · obtain ⟨k, hk, hequals⟩ := ih (kept ++ [first]) a ha
        rw [List.append_assoc, List.singleton_append] at hk
        exact ⟨k, hk, hequals⟩

end Occurrence

/-! ### Equal formulas -/

namespace Expr

/-- The constants at the same place have the same sign. -/
def SameSigns (a b : Expr Float) : Prop :=
  a.same (fun c d => Binary64.negative c == Binary64.negative d) b = true

/-- One formula can stand for the other: both have the same values, or report the same letter
without a value, and the same text. -/
structure Interchangeable (a b : Expr Float) : Prop where
  eval_eq : ∀ x binding, a.eval Binary64.kernel x binding = b.eval Binary64.kernel x binding
  display_eq : a.display Binary64.numerals = b.display Binary64.numerals

theorem Interchangeable.refl (a : Expr Float) : Interchangeable a a :=
  ⟨fun _ _ => rfl, rfl⟩

theorem eq_of_equal {a b : Expr Float} (h : a.same (· == ·) b = true) (hsigns : SameSigns a b) :
    a = b :=
  eq_of_same (fun _ _ hequal hsign => Binary64.eq_of_beq hequal (by simpa using hsign)) h hsigns

/-- One divided by a number. -/
def reciprocal (c : Float) : Expr Float :=
  binary .div one (const c)

/-- **The two noughts are equal, and what is divided by them is not.** -/
theorem equal_noughts_differ :
    (reciprocal 0.0).anyConst Float.isNaN = false ∧
      (reciprocal (-0.0)).anyConst Float.isNaN = false ∧
      (reciprocal 0.0).same (· == ·) (reciprocal (-0.0)) = true ∧
      (∀ x b, (reciprocal 0.0).eval Binary64.kernel x b ≠
        (reciprocal (-0.0)).eval Binary64.kernel x b) ∧
      (reciprocal 0.0).display Binary64.numerals ≠ (reciprocal (-0.0)).display Binary64.numerals ∧
      (Occurrence.distinct (· == ·) [⟨0, reciprocal 0.0⟩, ⟨1, reciprocal (-0.0)⟩]).map
        Occurrence.place = [0] := by
  refine ⟨by decide +kernel, by decide +kernel, by decide +kernel, fun x b h => ?_,
    by decide +kernel, by decide +kernel⟩
  have hquotients : (1.0 / 0.0 : Float) ≠ 1.0 / -0.0 := by decide +kernel
  exact hquotients (Except.ok.inj h)

/-- **Equal formulas whose signs agree can stand for each other.** So nothing is lost in a list
without its repetitions, if equal formulas in it have the same signs: every formula has one among
the distinct ones that can stand for it. At one place only one formula is built. -/
theorem interchangeable_of_equal :
    (∀ a b : Expr Float, a.same (· == ·) b = true → SameSigns a b → Interchangeable a b) ∧
      ∀ l : List (Occurrence Float),
        (∀ a ∈ l, ∀ b ∈ l, a.place = b.place → a.expr = b.expr) →
        (∀ a ∈ l, ∀ b ∈ l, a.expr.same (· == ·) b.expr = true → SameSigns a.expr b.expr) →
        ∀ a ∈ l, ∃ k ∈ Occurrence.distinct (· == ·) l, Interchangeable k.expr a.expr := by
  constructor
  · intro a b h hsigns
    rw [eq_of_equal h hsigns]
    exact .refl b
  · intro l hplace hsigns a ha
    obtain ⟨k, hk, hequals⟩ := Occurrence.exists_mem_distinctFrom (· == ·) [] l a ha
    have hkl : k ∈ l := Occurrence.distinctFrom_subset (· == ·) [] l hk
    refine ⟨k, hk, ?_⟩
    rcases Bool.or_eq_true_iff.1 hequals with h | h
    · rw [hplace k hkl a ha (of_decide_eq_true h)]
      exact .refl a.expr
    · rw [eq_of_equal h (hsigns k hkl a ha h)]
      exact .refl a.expr

/-- A formula built twice, beside another one. -/
def reciprocals : List (Occurrence Float) :=
  [⟨0, reciprocal (-0.0)⟩, ⟨1, reciprocal (-0.0)⟩, ⟨2, reciprocal 2.0⟩]

theorem interchangeable_reciprocals :
    (reciprocal (-0.0)).same (· == ·) (reciprocal (-0.0)) = true ∧
      Interchangeable (reciprocal (-0.0)) (reciprocal (-0.0)) ∧
      (Occurrence.distinct (· == ·) reciprocals).map Occurrence.place = [0, 2] ∧
      ∀ a ∈ reciprocals, ∃ k ∈ Occurrence.distinct (· == ·) reciprocals,
        Interchangeable k.expr a.expr := by
  have hequal : (reciprocal (-0.0)).same (· == ·) (reciprocal (-0.0)) = true := by decide +kernel
  obtain ⟨hpair, hlist⟩ := interchangeable_of_equal
  refine ⟨hequal, hpair _ _ hequal (by unfold SameSigns; decide +kernel), by decide +kernel,
    hlist reciprocals (by decide +kernel) ?_⟩
  unfold SameSigns
  decide +kernel

end Expr

end CurveFormula
