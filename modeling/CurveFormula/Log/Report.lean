import CurveFormula.Generator
import CurveFormula.Log.Journal
import CurveFormula.Parse.Reader
import CurveFormula.Expr.Render

/-!
# What the library reports

Reading reports every text it looks at, simplifying every rule it applies, and a candidate its
formula and values. A generator warns if it may grow formulas too deep to handle.
-/

namespace CurveFormula.Log

universe u

variable {α : Type u}

/-- The report of a text that reading looks at. -/
def readingCall (s : Text) : Call Arg :=
  .say (.debug ⟨"parsing %r".toList, [.text s]⟩)

/-- The reports of reading a text. -/
def readingCalls (N : Numerals α) (s : Text) : List (Call Arg) :=
  (Parse.pieces N (Parse.normalize s)).map readingCall

/-- The report of a rule that is applied. -/
def hitCall (N : Numerals α) (h : Hit α) : Call Arg :=
  .say (.debug ⟨"simplifier %s: %s -> %s".toList,
    [.text h.rule.name, .value (h.before.display N), .value (h.after.display N)]⟩)

/-- The reports of a simplification pass. -/
def simplifyCalls (N : Numerals α) (K : Kernel α) (rules : List Rule) (e : Expr α) :
    List (Call Arg) :=
  (e.hits K rules).map (hitCall N)

/-- The reports of a candidate. -/
def candidateCalls (N : Numerals α) (K : Kernel α) (write : α → Text) (c : Candidate α) :
    List (Call Arg) :=
  simplifyCalls N K Rule.standard c.grown ++
    [.say (.info .detailed ⟨"Generated candidate (complexity %d): %s".toList,
      [.integer c.budget, .value (c.expr.display N)]⟩),
    .say (.debug ⟨"candidate params: %r".toList, [.value (c.params.text write)]⟩)]

/-- The depth of formulas that can be handled. -/
def depthLimit : Int := 1000

/-- The warning of a generator whose greatest budget exceeds a quarter of the depth that can be
handled. -/
def setupCalls (greatest : Int) : List (Call Arg) :=
  if depthLimit / 4 < greatest then
    [.say (.warning ⟨"Complexity up to %d may exceed the recursion limit (%d)".toList,
      [.integer greatest, .integer depthLimit]⟩)]
  else []

end CurveFormula.Log
