import CurveFormula.Kernel
import Mathlib.Algebra.CharZero.Defs
import Mathlib.Algebra.Field.Basic
import Mathlib.Data.Nat.Cast.Field

/-!
# Sums of powers in a field

A kernel may compute with the numbers of a field among other values: `Kernel.Arithmetic` says that
its sums, products, quotients, squares and natural powers are those of the field. In such a kernel
of characteristic nought a weighted sum of powers, which is added up from the left with a running
divisor, is the sum of its terms (`Kernel.Arithmetic.series_cons`).
-/

namespace CurveFormula

universe u v

variable {F : Type u} [Field F]

namespace Weights

/-- What the power of index `i` is divided by. -/
def divisor : Weights → ℕ → ℕ
  | plain, _ => 1
  | factorial, i => CurveFormula.factorial i

@[simp] theorem divisor_zero (w : Weights) : w.divisor 0 = 1 := by
  cases w <;> rfl

@[simp] theorem divisor_one (w : Weights) : w.divisor 1 = 1 := by
  cases w <;> rfl

theorem divisor_succ (w : Weights) (i : ℕ) :
    w.divisor (i + 1) = if w.divides (i + 1) then w.divisor i * (i + 1) else w.divisor i := by
  cases w with
  | plain => rfl
  | factorial =>
    rcases i with _ | i
    · rfl
    · simp [divisor, CurveFormula.factorial, Nat.mul_comm]

theorem divisor_pos (w : Weights) (i : ℕ) : 0 < w.divisor i := by
  cases w with
  | plain => exact Nat.one_pos
  | factorial =>
    induction i with
    | zero => exact Nat.one_pos
    | succ i ih => exact Nat.mul_pos i.succ_pos ih

/-- The sum of the powers of `x` from index `i` on, with the given coefficients. -/
def sumFrom (w : Weights) (x : F) (i : ℕ) : List F → F
  | [] => 0
  | c :: cs => c * x ^ i / w.divisor i + w.sumFrom x (i + 1) cs

@[simp] theorem sumFrom_nil (w : Weights) (x : F) (i : ℕ) : w.sumFrom x i [] = 0 := rfl

@[simp] theorem sumFrom_cons (w : Weights) (x c : F) (i : ℕ) (cs : List F) :
    w.sumFrom x i (c :: cs) = c * x ^ i / w.divisor i + w.sumFrom x (i + 1) cs := rfl

end Weights

variable {β : Type v}

/-- The kernel computes with the numbers of a field, among other values: `number` gives the values
that are numbers. Functions other than the square, differences, and powers with an exponent that is
a value may be anything, and so may a quotient by nought. -/
structure Kernel.Arithmetic (K : Kernel β) (number : F → β) : Prop where
  one : K.one = number 1
  natural : ∀ n, K.natural n = number n
  add : ∀ u v, K.binary .add (number u) (number v) = number (u + v)
  mul : ∀ u v, K.binary .mul (number u) (number v) = number (u * v)
  div : ∀ u v, v ≠ 0 → K.binary .div (number u) (number v) = number (u / v)
  square : ∀ u, K.unary .square (number u) = number (u * u)
  power : ∀ u n, K.power (number u) n = number (u ^ n)

namespace Kernel.Arithmetic

variable {K : Kernel β} {number : F → β} (hK : K.Arithmetic number)
include hK

/-- The divisor grows by the factors that the weights ask for. -/
theorem next_divisor (w : Weights) (i : ℕ) :
    (if w.divides (i + 1) then K.binary .mul (number (w.divisor i)) (K.natural (i + 1))
      else number (w.divisor i)) = number (w.divisor (i + 1)) := by
  rw [hK.natural, hK.mul, w.divisor_succ]
  split_ifs
  · rw [Nat.cast_mul]
  · rfl

variable [CharZero F]

theorem div_divisor (w : Weights) (i : ℕ) (u : F) :
    K.binary .div (number u) (number (w.divisor i)) = number (u / w.divisor i) :=
  hK.div _ _ (Nat.cast_ne_zero.2 (w.divisor_pos i).ne')

/-- The rest of a sum is added to the sum so far. The invariant is that the divisor so far is that
of the index before. -/
theorem seriesFrom_succ (w : Weights) (x s : F) (i : ℕ) (cs : List F) :
    K.seriesFrom w (number x) (i + 1) (number (w.divisor i)) (number s) (cs.map number) =
      number (s + w.sumFrom x (i + 1) cs) := by
  induction cs generalizing i s with
  | nil => simp
  | cons c cs ih =>
    simp only [List.map_cons, seriesFrom, hK.next_divisor, hK.power, hK.mul, hK.div_divisor, hK.add]
    rw [ih, Weights.sumFrom_cons, add_assoc]

/-- **A sum of powers is the sum of its terms.** -/
theorem series_cons (w : Weights) (x c : F) (cs : List F) :
    K.series w (number x) ((c :: cs).map number) = number (w.sumFrom x 0 (c :: cs)) := by
  have hrest := hK.seriesFrom_succ w x (c * x ^ 0) 0 cs
  simp only [Weights.divisor_zero, Nat.cast_one] at hrest
  simp only [List.map_cons, series, hK.one, hK.power, hK.mul, hrest, Weights.sumFrom_cons,
    Weights.divisor_zero, Nat.cast_one, div_one]

end Kernel.Arithmetic

end CurveFormula
