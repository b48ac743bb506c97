import CurveFormula.Proofs.Meaning
import Mathlib.Algebra.BigOperators.Fin
import Mathlib.Data.Nat.Factorial.Basic

/-!
# Sums of powers as finite sums

A sum of powers is computed by a loop: the constant term stands before it, and the divisor of a term
is the divisor of the term before it with one more factor, from index two on. What the loop gives in
a field of characteristic nought is the sum over all indices at once, each power with its
coefficient, and for an exponential series divided by the factorial of the index
(`Kernel.Arithmetic.series_eq_sum`). The coefficients of a formula are the values of the first
letters.
-/

namespace CurveFormula

universe u v w

theorem factorial_eq (n : ℕ) : factorial n = n.factorial := by
  induction n with
  | zero => rfl
  | succ n ih => rw [factorial, ih, Nat.factorial_succ]

/-! ### The sum over all indices -/

section Sums

variable {F : Type u} [Field F] {ι : Type w}

/-- What is added up from an index on is a sum over the indices. -/
theorem Weights.sumFrom_map (w : Weights) (x : F) (a : ι → F) (i : ℕ) (l : List ι) :
    w.sumFrom x i (l.map a) =
      ∑ j : Fin l.length, a l[j] * x ^ (i + j.val) / (w.divisor (i + j.val) : F) := by
  induction l generalizing i with
  | nil => rfl
  | cons c l ih =>
    rw [List.map_cons, sumFrom_cons, ih]
    show _ = ∑ j : Fin (l.length + 1), _
    rw [Fin.sum_univ_succ]
    congr 1
    apply Finset.sum_congr rfl
    intro j _
    have hindex : i + 1 + j.val = i + (j.val + 1) := by omega
    rw [hindex]
    rfl

theorem Weights.sumFrom_plain (x : F) (a : ι → F) (l : List ι) :
    plain.sumFrom x 0 (l.map a) = ∑ i : Fin l.length, a l[i] * x ^ i.val := by
  rw [sumFrom_map]
  apply Finset.sum_congr rfl
  intro i _
  rw [divisor, Nat.cast_one, div_one, Nat.zero_add]

theorem Weights.sumFrom_factorial (x : F) (a : ι → F) (l : List ι) :
    factorial.sumFrom x 0 (l.map a) =
      ∑ i : Fin l.length, a l[i] * x ^ i.val / (i.val.factorial : F) := by
  rw [sumFrom_map]
  apply Finset.sum_congr rfl
  intro i _
  rw [divisor, factorial_eq, Nat.zero_add]

end Sums

/-! ### Coefficients of formulas -/

variable {β : Type v}

namespace Binding

variable {b : Binding β} {ps : List Letter}

theorem lookupAll_eq_map {f : Letter → β} (h : ∀ p ∈ ps, b p = some (f p)) :
    b.lookupAll ps = .ok (ps.map f) := by
  induction ps with
  | nil => rfl
  | cons p ps ih =>
    have hp : b.lookup p = .ok (f p) := lookup_of_some (h p List.mem_cons_self)
    have hps : b.lookupAll ps = .ok (ps.map f) := ih fun q hq => h q (List.mem_cons_of_mem p hq)
    simp only [lookupAll, hp, hps]
    rfl

theorem length_of_lookupAll {vs : List β} (h : b.lookupAll ps = .ok vs) :
    vs.length = ps.length := by
  induction ps generalizing vs with
  | nil =>
    cases h
    rfl
  | cons p ps ih =>
    obtain ⟨v, vs', rfl, -, hvs⟩ := exists_of_lookupAll_cons h
    rw [List.length_cons, List.length_cons, ih hvs]

end Binding

/-- Sums of up to two terms have no divisors. -/
theorem Kernel.series_plain_eq (K : Kernel β) (x : β) {cs : List β} (h : cs.length ≤ 2) :
    K.series .plain x cs = K.series .factorial x cs := by
  match cs, h with
  | [], _ => rfl
  | [_], _ => rfl
  | [_, _], _ => rfl

namespace Expr

/-- **Up to degree one a polynomial is an exponential series**, whatever it is evaluated with. -/
theorem eval_poly_plain_eq (K : Kernel β) {n : Fin 24} (h : n.val ≤ 1) (x : β) (b : Binding β) :
    (poly .plain n : Expr β).eval K x b = (poly .factorial n).eval K x b := by
  unfold eval
  cases hcs : b.lookupAll (Letter.upTo n) with
  | error fault => rfl
  | ok cs =>
    have hlen : cs.length = n.val + 1 :=
      (Binding.length_of_lookupAll hcs).trans (Letter.length_upTo n.isLt)
    show Except.ok (K.series .plain x cs) = Except.ok (K.series .factorial x cs)
    rw [K.series_plain_eq x (by omega)]

end Expr

namespace Kernel.Arithmetic

open CurveFormula.Expr (poly)

variable {F : Type u} [Field F] [CharZero F] {K : Kernel β} {number : F → β}
  (hK : K.Arithmetic number)
include hK

/-- The loop gives the sum of its terms, if there is a constant term to begin with. -/
theorem series_map (w : Weights) (x : F) {c : List F} (hc : c ≠ []) :
    K.series w (number x) (c.map number) = number (w.sumFrom x 0 c) := by
  obtain ⟨c₀, cs, rfl⟩ := List.exists_cons_of_ne_nil hc
  exact hK.series_cons w x c₀ cs

/-- A sum of powers of a formula has the values of the first letters as its coefficients. -/
theorem eval_poly_of_values (w : Weights) (n : Fin 24) {a : Letter → F} {b : Binding β}
    (h : ∀ p ∈ Letter.upTo n, b p = some (number (a p))) (x : F) :
    (poly w n : Expr β).eval K (number x) b =
      .ok (number (w.sumFrom x 0 ((Letter.upTo n).map a))) := by
  have hcs : b.lookupAll (Letter.upTo n) = .ok (((Letter.upTo n).map a).map number) := by
    rw [List.map_map]
    exact Binding.lookupAll_eq_map h
  obtain ⟨p, ps, hps, -⟩ := Parse.exists_upTo_eq_cons n
  unfold Expr.eval
  rw [hcs, hps, List.map_cons, ← hK.series_cons w x]
  rfl

/-- **The loop computes the series.** In exact arithmetic a sum of powers over any coefficients is
`∑ cᵢ xⁱ`, and an exponential series `∑ cᵢ xⁱ / i!`. A polynomial and an exponential series in a
formula take as their coefficients the values of the letters from the first one on, and do not
differ up to degree one. -/
theorem series_eq_sum :
    (∀ (cs : List F) (x : F), cs ≠ [] →
      K.series .plain (number x) (cs.map number) =
          number (∑ i : Fin cs.length, cs[i] * x ^ i.val) ∧
        K.series .factorial (number x) (cs.map number) =
          number (∑ i : Fin cs.length, cs[i] * x ^ i.val / (i.val.factorial : F))) ∧
      (∀ (n : Fin 24) (a : Letter → F) (b : Binding β) (x : F),
        (∀ p ∈ Letter.upTo n, b p = some (number (a p))) →
          (poly .plain n : Expr β).eval K (number x) b =
              .ok (number (∑ i : Fin (Letter.upTo n).length, a (Letter.upTo n)[i] * x ^ i.val)) ∧
            (poly .factorial n : Expr β).eval K (number x) b =
              .ok (number (∑ i : Fin (Letter.upTo n).length,
                a (Letter.upTo n)[i] * x ^ i.val / (i.val.factorial : F)))) ∧
      ∀ (n : Fin 24) (b : Binding β) (x : β), n.val ≤ 1 →
        (poly .plain n : Expr β).eval K x b = (poly .factorial n).eval K x b := by
  refine ⟨fun cs x hcs => ⟨?_, ?_⟩, fun n a b x h => ⟨?_, ?_⟩, fun n b x h => ?_⟩
  · have hsum := Weights.sumFrom_plain x id cs
    rw [List.map_id] at hsum
    rw [hK.series_map .plain x hcs, hsum]
    rfl
  · have hsum := Weights.sumFrom_factorial x id cs
    rw [List.map_id] at hsum
    rw [hK.series_map .factorial x hcs, hsum]
    rfl
  · rw [hK.eval_poly_of_values .plain n h, Weights.sumFrom_plain]
  · rw [hK.eval_poly_of_values .factorial n h, Weights.sumFrom_factorial]
  · exact Expr.eval_poly_plain_eq K h x b

end Kernel.Arithmetic

open CurveFormula.Expr (poly)

/-- At nought, and at two with the values five, six, seven and eight of the first letters. -/
theorem series_eq_sum_rationals :
    PartialField.rationals.kernel.series .factorial (some 0) [some 3, some 4, some 5] = some 3 ∧
      (poly .factorial 3).eval PartialField.rationals.kernel (some 2)
          (fun p => some (some (Letter.all.idxOf p + 5 : ℚ))) = .ok (some (125 / 3)) := by
  obtain ⟨hseries, hpoly, -⟩ := PartialField.arithmetic_rationals.series_eq_sum
  have h := (hpoly 3 (fun p => (Letter.all.idxOf p + 5 : ℚ)) _ 2 fun _ _ => rfl).2
  refine ⟨((hseries [3, 4, 5] 0 (by decide)).2).trans ?_, h.trans ?_⟩
  · simp [Fin.sum_univ_succ]
  · decide +kernel

end CurveFormula
