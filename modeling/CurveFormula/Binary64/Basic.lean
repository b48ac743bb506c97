import CurveFormula.Decimal.Digits

/-!
# Binary64 numbers

A binary64 number is not a number, infinite, or `± m * 2 ^ q` with a significand below `2 ^ 53`
and an exponent of at least `-1074`. `shape` takes a number apart, and `ofRatio` finds the number
nearest to a quotient of natural numbers, a tie going to the even significand.
-/

namespace CurveFormula.Binary64

/-- What a binary64 number is. -/
inductive Shape where
  | nan
  | infinite (negative : Bool)
  | finite (negative : Bool) (significand : Nat) (exponent : Int)
  deriving DecidableEq, Repr

/-- The sign bit is set. There is one not-a-number here, and it counts as positive; a sign bit that
not-a-number can have elsewhere, which would put brackets around its text, is left out. -/
def negative (x : Float) : Bool :=
  x.toBits.toNat / Nat.pow 2 63 = 1 && !x.isNaN

/-- The parts of a number, from its bits. -/
def shape (x : Float) : Shape :=
  let bits := x.toBits.toNat
  let sign : Bool := bits / Nat.pow 2 63 = 1
  let biased : Nat := bits / Nat.pow 2 52 % Nat.pow 2 11
  let fraction := bits % Nat.pow 2 52
  if biased = 2047 then
    if fraction = 0 then .infinite sign else .nan
  else if biased = 0 then .finite sign fraction (-1074)
  else .finite sign (Nat.pow 2 52 + fraction) ((biased : Int) - 1075)

/-- The significand is the least of its binade, so that the gap below it is half the gap above. -/
def startsBinade (m : Nat) (q : Int) : Bool :=
  m = Nat.pow 2 52 && -1074 < q

/-- The exponent of the leading binary digit of `num / den`. -/
def leadingExponent (num den : Nat) : Int :=
  let guess : Int := Int.ofNat num.log2 - Int.ofNat den.log2
  if den * Nat.pow 2 guess.toNat ≤ num * Nat.pow 2 (-guess).toNat then guess else guess - 1

/-- The bits of the positive binary64 number nearest to `num / den`. A quotient beyond the greatest
finite number gives infinity. -/
def nearestBits (num den : Nat) : Nat :=
  if num = 0 then 0
  else
    let q := max (leadingExponent num den - 52) (-1074)
    let m := Decimal.nearest (num * Nat.pow 2 (-q).toNat) (den * Nat.pow 2 q.toNat) .toEven
    let hidden := Nat.pow 2 52
    let bits := if m < hidden then m else (q + 1075).toNat * hidden + (m - hidden)
    min bits (2047 * hidden)

/-- The binary64 number nearest to `num / den`, with a sign. -/
def ofRatio (negate : Bool) (num den : Nat) : Float :=
  Float.ofBits (UInt64.ofNat ((if negate then Nat.pow 2 63 else 0) + nearestBits num den))

/-- The binary64 number nearest to an integer; `none` beyond the finite range. -/
def ofInt? (n : Int) : Option Float :=
  let x := ofRatio (n < 0) n.natAbs 1
  if x.isInf then none else some x

/-- The infinity of a sign. -/
def infinity (negate : Bool) : Float :=
  if negate then -(1.0 / 0.0) else 1.0 / 0.0

/-- Not a number. -/
def nan : Float :=
  0.0 / 0.0

end CurveFormula.Binary64
