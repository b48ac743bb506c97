import CurveFormula.Generator
import CurveFormula.Random.Stream

/-!
# Setting up a generator

A generator takes its draws from a script or from a seed, not from both, and needs a name to draw.
Without either of the two the draws are anybody's, so that stream is a parameter. What else is not
given has a standard value: every letter may be drawn, and budgets lie between five and thirty.
-/

namespace CurveFormula

universe u

/-- Why a generator cannot be set up. -/
inductive SetupError where
  | twoSources
  | noNames
  deriving DecidableEq, Repr

/-- The report of a generator that cannot be set up. -/
def SetupError.message : SetupError → Text
  | .twoSources => "Pass either rng or seed, not both".toList
  | .noNames => "At least one parameter name is required".toList

/-- What a generator is set up from: draws or the seed of some, the names it may draw, and the ends
of the budgets and of the values. -/
structure Setup (α : Type u) where
  stream : Option Stream
  seed : Option Int
  names : List Text := Letter.all.map Letter.text
  budgets : Int × Int := (5, 30)
  values : α × α

namespace Setup

variable {α : Type u}

/-- The generator and the stream it draws from: the one that was given, that of the seed, or, where
there is neither, one that nobody has seeded. -/
def build (unseeded : Stream) (s : Setup α) : Except SetupError (Generator α × Stream) :=
  match s.stream, s.seed with
  | some _, some _ => .error .twoSources
  | stream, seed =>
    if h : s.names ≠ [] then
      .ok (⟨s.names, h, s.budgets, s.values⟩,
        stream.getD ((seed.map fun n => .twister (Twister.ofSeed n)).getD unseeded))
    else .error .noNames

end Setup

/-- A generator that draws every letter, with standard budgets. -/
def Generator.standard {α : Type u} (low high : α) : Generator α where
  names := Letter.all.map Letter.text
  names_ne_nil := by simp [Letter.all, Letter.alphabet]
  budgets := (5, 30)
  values := (low, high)

end CurveFormula
