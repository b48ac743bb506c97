/-!
# Sources of random draws

A source draws numbers below a bound and values between two ends, and passes its state on. Random
formulas and random parameter values are made from any source.
-/

namespace CurveFormula

universe u v w

/-- A source of draws of numbers and of values in `α`, with states in `σ`. -/
structure Source (α : Type u) (σ : Type v) where
  below : (n : Nat) → 0 < n → σ → Fin n × σ
  between : α → α → σ → α × σ

namespace Source

variable {α : Type u} {σ : Type v} (S : Source α σ)

/-- A range of integers is empty. -/
structure EmptyRange where
  low : Int
  high : Int
  deriving DecidableEq, Repr

/-- An integer between two ends, both included. -/
def integer (low high : Int) (s : σ) : Except EmptyRange Int × σ :=
  if h : low ≤ high then
    let i := S.below (high - low + 1).toNat (by omega) s
    (.ok (low + i.1.val), i.2)
  else (.error ⟨low, high⟩, s)

/-- An element of a list that is not empty. -/
def choice {β : Type w} (l : List β) (h : l ≠ []) (s : σ) : β × σ :=
  let i := S.below l.length (List.length_pos_iff.2 h) s
  (l.get i.1, i.2)

end Source

end CurveFormula
