import CurveFormula.Binary64.Text
import CurveFormula.Text.Quoted

/-!
# Values given from outside

A value is given as a number text or as an integer. Both become the nearest binary64 number. A text
that is no number and an integer beyond the finite range are reported; a number text beyond it is
infinite.
-/

namespace CurveFormula.Binary64

/-- A value as it is given. -/
inductive Given where
  | text (s : Text)
  | integer (n : Int)
  deriving DecidableEq, Repr

/-- Why a given value is no number. -/
inductive ConversionError where
  | notANumber (s : Text)
  | tooLarge
  deriving DecidableEq, Repr

/-- The report of a given value that is no number. -/
def ConversionError.message : ConversionError → Text
  | .notANumber s => "could not convert string to float: ".toList ++ Text.quoted s
  | .tooLarge => "int too large to convert to float".toList

/-- The binary64 number nearest to a given value. -/
def convert : Given → Except ConversionError Float
  | .text s =>
    match read? s with
    | some x => .ok x
    | none => .error (.notANumber s)
  | .integer n =>
    match ofInt? n with
    | some x => .ok x
    | none => .error .tooLarge

end CurveFormula.Binary64
