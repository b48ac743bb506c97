import CurveFormula.Random.Script
import Mathlib.Data.Int.Notation
import Mathlib.Data.Nat.Notation

/-!
# Recorded draws

What a procedure consumes is read off a record of its draws. The recorded source draws what the
source draws, and keeps a list of it.
-/

namespace CurveFormula

universe u v

/-- One draw. -/
inductive Draw (α : Type u) where
  | number (drawn : ℕ)
  | value (drawn : α)

namespace Source

variable {α : Type u} {σ : Type v}

/-- The source with a list of its draws, the latest at the end. -/
def recorded (S : Source α σ) : Source α (σ × List (Draw α)) where
  below n h s :=
    let d := S.below n h s.1
    (d.1, d.2, s.2 ++ [.number d.1])
  between low high s :=
    let d := S.between low high s.1
    (d.1, d.2, s.2 ++ [.value d.1])

variable (S : Source α σ)

@[simp] theorem below_recorded (n : ℕ) (h : 0 < n) (s : σ) (log : List (Draw α)) :
    S.recorded.below n h (s, log) =
      ((S.below n h s).1, (S.below n h s).2, log ++ [.number (S.below n h s).1]) := rfl

@[simp] theorem between_recorded (low high : α) (s : σ) (log : List (Draw α)) :
    S.recorded.between low high (s, log) =
      ((S.between low high s).1, (S.between low high s).2,
        log ++ [.value (S.between low high s).1]) := rfl

end Source

namespace Script

variable {α : Type u} {along : α → α → ℕ → ℕ → α}

/-- A script whose next integer lies below the bound gives this integer. -/
theorem below_cons {n d : ℕ} (hd : d < n) (h : 0 < n) (all rest : List ℤ) :
    (source along).below n h ⟨all, (d : ℤ) :: rest⟩ = (⟨d, hd⟩, ⟨all, rest⟩) := by
  have hmod : ((d : ℤ) % n).toNat = d := by
    rw [Int.emod_eq_of_lt (by omega) (by omega), Int.toNat_natCast]
  simp only [source, below, next, hmod]

end Script

end CurveFormula
