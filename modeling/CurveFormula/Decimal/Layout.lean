import CurveFormula.Decimal.Digits
import CurveFormula.Text.Basic

/-!
# Layouts of decimal numbers

A decimal number is laid out positionally, with a point and never an exponent, or scientifically,
with one digit before the point and an exponent of ten.
-/

namespace CurveFormula.Decimal

/-- A run of noughts. -/
def noughts (n : Nat) : Text :=
  List.replicate n '0'

/-- The positional text of a decimal number. It always has a point with a digit on each side. -/
def positional (d : Decimal) : Text :=
  let ds := d.digits
  let point := d.pointPlace
  if point ≤ 0 then
    '0' :: '.' :: noughts (-point).toNat ++ ds
  else if ds.length ≤ point.toNat then
    ds ++ noughts (point.toNat - ds.length) ++ ['.', '0']
  else
    ds.take point.toNat ++ '.' :: ds.drop point.toNat

/-- The first digit, and the others after a point if there are others. -/
def mantissa (d : Decimal) : Text :=
  match d.digits with
  | [] => []
  | [c] => [c]
  | c :: cs => c :: '.' :: cs

/-- An exponent of ten with its sign and at least two digits. -/
def signedExponent (e : Int) : Text :=
  let ds := Text.ofNat e.natAbs
  (if e < 0 then '-' else '+') :: noughts (2 - ds.length) ++ ds

/-- The scientific text of a decimal number. -/
def scientific (d : Decimal) : Text :=
  d.mantissa ++ 'e' :: signedExponent (d.pointPlace - 1)

end CurveFormula.Decimal
