import CurveFormula.Random.Script
import CurveFormula.Random.Twister

/-!
# Streams of draws

A stream of draws comes from a script or from the Mersenne twister.
-/

namespace CurveFormula

universe u

/-- A stream of draws. -/
inductive Stream where
  | script (s : Script)
  | twister (t : Twister)

namespace Stream

variable {α : Type u} (along : α → α → Nat → Nat → α)

/-- A number below a bound. -/
def below (n : Nat) (h : 0 < n) : Stream → Fin n × Stream
  | script s =>
    let (i, s) := s.below n h
    (i, script s)
  | twister t =>
    let (i, t) := t.below n h
    (i, twister t)

/-- A value between two ends. -/
def between (a b : α) : Stream → α × Stream
  | script s =>
    let (v, s) := (Script.source along).between a b s
    (v, script s)
  | twister t =>
    let (v, t) := (Twister.source along).between a b t
    (v, twister t)

/-- Draws from a stream. -/
def source : Source α Stream where
  below := below
  between := between along

end Stream

end CurveFormula
