import CurveFormula.Binary64.Basic
import CurveFormula.Decimal.Layout
import CurveFormula.Decimal.Literal

/-!
# Texts of binary64 numbers

The shortest text uses the fewest digits that read back and an exponent for very large and very
small numbers; the positional text uses the same digits and never an exponent; the rounded text has
a fixed number of significant digits and always an exponent. Reading rounds to the nearest number.
-/

namespace CurveFormula.Binary64

/-- The text of a number, given how to write a finite one that is not nought. -/
def textWith (x : Float) (nought : Text) (finite : Nat → Int → Text) : Text :=
  let signed (negative : Bool) (t : Text) := if negative then '-' :: t else t
  match shape x with
  | .nan => "nan".toList
  | .infinite negative => signed negative "inf".toList
  | .finite negative m q => signed negative (if m = 0 then nought else finite m q)

/-- The fewest digits that read back as `m * 2 ^ q`. -/
def shortestDecimal (m : Nat) (q : Int) : Decimal :=
  Decimal.shortest m q (startsBinade m q)

/-- The shortest text that reads back. Numbers from `10 ^ -4` up to `10 ^ 16` have no exponent. -/
def shortest (x : Float) : Text :=
  textWith x ['0', '.', '0'] fun m q =>
    let d := shortestDecimal m q
    if -4 < d.pointPlace && d.pointPlace ≤ 16 then d.positional else d.scientific

/-- The text with the fewest digits that read back, and no exponent. -/
def positional (x : Float) : Text :=
  textWith x ['0', '.', '0'] fun m q => (shortestDecimal m q).positional

/-- The scientific text with a number of significant digits. -/
def significant (count : Nat) (x : Float) : Text :=
  textWith x ('0' :: '.' :: Decimal.noughts (count - 1) ++ "e+00".toList) fun m q =>
    (Decimal.rounded m q count .toEven).scientific

/-- No decimal number with its leading digit beyond this place is finite or above nought. -/
def extremePlace : Int := 400

/-- The binary64 number nearest to a decimal one. -/
def ofDecimal (negate : Bool) (d : Decimal) : Float :=
  if d.significand = 0 || d.pointPlace < -extremePlace then ofRatio negate 0 1
  else if extremePlace < d.pointPlace then infinity negate
  else
    ofRatio negate (d.significand * Nat.pow 10 d.exponent.toNat) (Nat.pow 10 (-d.exponent).toNat)

/-- The binary64 number nearest to a literal. -/
def ofLiteral : Literal → Float
  | .nan => nan
  | .infinite negate => infinity negate
  | .finite negate d => ofDecimal negate d

/-- The binary64 number a text denotes, if it is a number text. -/
def read? (s : Text) : Option Float :=
  (Literal.ofText? s).map ofLiteral

end CurveFormula.Binary64
