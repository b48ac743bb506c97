/-!
# Decimal digits of a dyadic number

A positive number `m * 2 ^ q` is written with decimal digits in two ways: with the fewest digits
that still single it out among its neighbours, and with a given number of digits.

Everything is exact arithmetic on natural numbers. A decimal grid point `d * 10 ^ k` is compared
with the number through one cross-multiplication, `Grid`.
-/

namespace CurveFormula

/-- The decimal number `significand * 10 ^ exponent`. -/
structure Decimal where
  significand : Nat
  exponent : Int
  deriving DecidableEq, Repr

namespace Decimal

/-- The digits as characters. -/
def digits (d : Decimal) : List Char :=
  Nat.toDigits 10 d.significand

/-- How many digits stand before the decimal point; it is not positive for small numbers. -/
def pointPlace (d : Decimal) : Int :=
  d.digits.length + d.exponent

/-- The same number without trailing nought digits. -/
def trim (d : Decimal) : Decimal :=
  if d.significand ≠ 0 ∧ d.significand % 10 = 0 then
    trim ⟨d.significand / 10, d.exponent + 1⟩
  else d
termination_by d.significand
decreasing_by omega

/-- Which neighbour takes a number halfway between two. -/
inductive Tie where
  | toEven
  | up
  deriving DecidableEq, Repr

/-- The natural number nearest to `num / den`. -/
def nearest (num den : Nat) (tie : Tie) : Nat :=
  let d := num / den
  let twice := 2 * (num % den)
  if twice < den then d
  else if den < twice then d + 1
  else
    match tie with
    | .up => d + 1
    | .toEven => if d % 2 = 0 then d else d + 1

/-- The decimal grid of step `10 ^ k` beside the binary grid of step `2 ^ q`: the point `d` of the
first and the point `n` of the second are the same number exactly when
`d * decimal = n * binary`. -/
structure Grid where
  decimal : Nat
  binary : Nat

/-- The grids of steps `10 ^ k` and `2 ^ q`. -/
def Grid.of (k q : Int) : Grid :=
  ⟨Nat.pow 10 k.toNat * Nat.pow 2 (-q).toNat, Nat.pow 2 q.toNat * Nat.pow 10 (-k).toNat⟩

/-- The number of decimal places that show a first digit of every number the grid meets. -/
def magnitudePlaces : Nat := 340

/-- The exponent of the leading digit of `m * 2 ^ q`, for numbers above `10 ^ -340`. -/
def leadingExponent (m : Nat) (q : Int) : Int :=
  let g := Grid.of (-magnitudePlaces) q
  (Nat.toDigits 10 (m * g.binary / g.decimal)).length - 1 - magnitudePlaces

/-- The number `m * 2 ^ q` rounded to `count` significant digits. -/
def rounded (m : Nat) (q : Int) (count : Nat) (tie : Tie) : Decimal :=
  let k := leadingExponent m q - count + 1
  let g := Grid.of k q
  let d := nearest (m * g.binary) g.decimal tie
  if d = Nat.pow 10 count then ⟨Nat.pow 10 (count - 1), k + 1⟩ else ⟨d, k⟩

/-- The numbers that a binary format reads as the same value as `m * 2 ^ q`, in quarters of
`2 ^ q`. -/
structure Window where
  low : Nat
  center : Nat
  high : Nat
  /-- The two ends belong to the window. -/
  closed : Bool

/-- The window of a significand. The gap below a significand that starts a binade is half as wide
as the gap above it. -/
def Window.of (m : Nat) (startsBinade : Bool) : Window :=
  ⟨4 * m - (if startsBinade then 1 else 2), 4 * m, 4 * m + 2, m % 2 = 0⟩

/-- The decimal grid point `d` lies in the window. -/
def Window.holds (w : Window) (g : Grid) (d : Nat) : Bool :=
  if w.closed then w.low * g.binary ≤ d * g.decimal && d * g.decimal ≤ w.high * g.binary
  else w.low * g.binary < d * g.decimal && d * g.decimal < w.high * g.binary

/-- The grid point in the window that is nearest to its centre, if there is one; of two equally
near ones the even one. -/
def Window.nearest? (w : Window) (g : Grid) : Option Nat :=
  let d := w.center * g.binary / g.decimal
  match w.holds g d, w.holds g (d + 1) with
  | false, false => none
  | true, false => some d
  | false, true => some (d + 1)
  | true, true => some (nearest (w.center * g.binary) g.decimal .toEven)

/-- The fewest digits that single out `m * 2 ^ q` among its neighbours, and of those the nearest.
Seventeen digits always single out a binary64 number. -/
def shortest (m : Nat) (q : Int) (startsBinade : Bool) : Decimal :=
  let w := Window.of m startsBinade
  let lead := leadingExponent m q
  let found := (List.range 17).findSome? fun (i : Nat) =>
    (w.nearest? (Grid.of (lead - i) (q - 2))).map fun d => (⟨d, lead - i⟩ : Decimal)
  (found.getD (rounded m q 17 .toEven)).trim

end Decimal

end CurveFormula
