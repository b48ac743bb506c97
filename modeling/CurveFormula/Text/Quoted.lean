import CurveFormula.Text.Printable

/-!
# Quoted texts

A text is quoted between single quotes, or between double quotes if it holds a single quote and no
double one. The quote itself, the backslash and the characters that do not print are escaped.
-/

namespace CurveFormula.Text

/-- The quote that needs the fewer escapes; the single quote if that does not matter. -/
def quoteMark (s : Text) : Char :=
  if s.contains '\x27' && !s.contains '"' then '"' else '\x27'

/-- The lower-case hexadecimal digits of a number, filled up to a width. -/
def hex (width n : Nat) : Text :=
  let ds := Nat.toDigits 16 n
  List.replicate (width - ds.length) '0' ++ ds

/-- A character as it stands between two quotes. -/
def escape (mark c : Char) : Text :=
  if c = mark || c = '\\' then ['\\', c]
  else if c = '\n' then ['\\', 'n']
  else if c = '\r' then ['\\', 'r']
  else if c = '\t' then ['\\', 't']
  else if isPrintable c then [c]
  else if c.toNat < 0x100 then '\\' :: 'x' :: hex 2 c.toNat
  else if c.toNat < 0x10000 then '\\' :: 'u' :: hex 4 c.toNat
  else '\\' :: 'U' :: hex 8 c.toNat

/-- The quoted text. -/
def quoted (s : Text) : Text :=
  let mark := quoteMark s
  mark :: s.flatMap (escape mark) ++ [mark]

end CurveFormula.Text
