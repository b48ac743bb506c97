import CurveFormula.Parse.Bracket
import CurveFormula.Text.Quoted

/-!
# Parse faults

Why a piece of text is no formula, and the report of it.
-/

namespace CurveFormula.Parse

/-- Why a piece of text is refused. -/
inductive Reason where
  | empty
  /-- The text has no operator and no bracket, and is no literal. -/
  | literal
  | brackets (fault : BracketFault)
  /-- No operator outside of brackets, and no function around them. -/
  | expression
  deriving DecidableEq, Repr

/-- The report of a reason. -/
def Reason.message : Reason → Text
  | .empty => "Empty expression".toList
  | .literal => "Unable to parse literal".toList
  | .brackets .unbalanced =>
    "Bad brackets sequence: opening and closing brackets count doesn't match".toList
  | .brackets .closedFirst =>
    "Bad brackets sequence: closing bracket found before opening one".toList
  | .expression => "Unable to parse".toList

/-- A piece of text that is no formula. -/
structure Fault where
  text : Text
  reason : Reason
  deriving DecidableEq, Repr

/-- The report of a fault. -/
def Fault.message (e : Fault) : Text :=
  e.reason.message ++ " (while parsing ".toList ++ Text.quoted e.text ++ [')']

end CurveFormula.Parse
