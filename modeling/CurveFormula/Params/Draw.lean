import CurveFormula.Params
import CurveFormula.Random.Source

/-!
# Drawn parameter values

Every distinct name gets one drawn value. The draws are made in the order of the first occurrences.
-/

namespace CurveFormula.Params

universe u v

variable {α : Type u} {σ : Type v} (S : Source α σ)

/-- Draws a value between two ends for a name, unless it has one. -/
def drawOne (low high : α) (p : Params α × σ) (name : Text) : Params α × σ :=
  if p.1.contains name then p
  else
    let value := S.between low high p.2
    (p.1.withValue name value.1, value.2)

/-- Draws a value between two ends for every distinct name. -/
def draw (low high : α) (names : List Text) (s : σ) : Params α × σ :=
  names.foldl (drawOne S low high) (empty, s)

@[simp] theorem draw_nil (low high : α) (s : σ) : draw S low high [] s = (empty, s) := rfl

end CurveFormula.Params
