import CurveFormula.Decimal.Digits
import CurveFormula.Text.Blank
import CurveFormula.Text.Digit

/-!
# Number literals

The texts that denote a number: an optional sign, digits with at most one point, and an optional
exponent of ten; or an optional sign and one of the words for infinity and not-a-number, in any
case of letters. Blanks around the text do not count, the digits of every script do, and an
underscore may stand between two digits.
-/

namespace CurveFormula

/-- What a number text denotes. -/
inductive Literal where
  | nan
  | infinite (negative : Bool)
  | finite (negative : Bool) (value : Decimal)
  deriving DecidableEq, Repr

namespace Literal

/-- The character as number texts see it: digits of every script become ASCII digits, and other
characters beyond ASCII become a question mark. -/
def plainChar (c : Char) : Char :=
  if c.toNat < 0x7f then c
  else
    match Text.digitValue? c with
    | some d => Char.ofNat ('0'.toNat + d)
    | none => '?'

/-- The text without its underscores, if each of them stands between two digits. The flag tells
whether the character before was a digit. -/
def dropUnderscores? (afterDigit : Bool) : Text → Option Text
  | [] => some []
  | ['_'] => none
  | '_' :: c :: rest =>
    if afterDigit && c.isDigit then (dropUnderscores? true rest).map (c :: ·) else none
  | c :: rest => (dropUnderscores? c.isDigit rest).map (c :: ·)

/-- The value of a run of digits. -/
def digitsValue (s : Text) : Nat :=
  s.foldl (fun n c => 10 * n + (c.toNat - '0'.toNat)) 0

/-- The sign in front of a text, and the rest. -/
def takeSign : Text → Bool × Text
  | '-' :: rest => (true, rest)
  | '+' :: rest => (false, rest)
  | s => (false, s)

/-- The exponent that ends a number text: nothing, or an `e` and an integer. -/
def exponent? : Text → Option Int
  | [] => some 0
  | c :: rest =>
    if c = 'e' || c = 'E' then
      let (negative, ds) := takeSign rest
      if ds.isEmpty || !ds.all Char.isDigit then none
      else some (if negative then -(digitsValue ds : Int) else digitsValue ds)
    else none

/-- The digits after a point, and what follows them. -/
def fraction : Text → Text × Text
  | '.' :: rest => (rest.takeWhile Char.isDigit, rest.dropWhile Char.isDigit)
  | s => ([], s)

/-- The decimal number of a text without a sign. There has to be a digit on one side of the point
at least. -/
def decimal? (s : Text) : Option Decimal :=
  let whole := s.takeWhile Char.isDigit
  let (frac, rest) := fraction (s.dropWhile Char.isDigit)
  if whole.isEmpty && frac.isEmpty then none
  else (exponent? rest).map fun e => ⟨digitsValue (whole ++ frac), e - frac.length⟩

/-- What a number text denotes, if it is one. -/
def ofText? (s : Text) : Option Literal := do
  let plain ← dropUnderscores? false ((Text.strip s).map plainChar)
  let (negative, body) := takeSign plain
  let word := body.map Char.toLower
  if word = "inf".toList || word = "infinity".toList then some (.infinite negative)
  else if word = "nan".toList then some .nan
  else (decimal? body).map (.finite negative)

end Literal

end CurveFormula
