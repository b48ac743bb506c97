import CurveFormula.Text.Basic

/-!
# Blanks

The characters that separate words: the blanks of ASCII, the four information separators, and the
space characters of Unicode.
-/

namespace CurveFormula.Text

/-- The characters that separate words. -/
def isBlank (c : Char) : Bool :=
  let n := c.toNat
  (9 ≤ n && n ≤ 13) || (0x1c ≤ n && n ≤ 0x20) || n == 0x85 || n == 0xa0 || n == 0x1680 ||
    (0x2000 ≤ n && n ≤ 0x200a) || n == 0x2028 || n == 0x2029 || n == 0x202f || n == 0x205f ||
    n == 0x3000

/-- An information separator of ASCII. Number texts do not count these as blanks. -/
def isSeparator (c : Char) : Bool :=
  0x1c ≤ c.toNat && c.toNat ≤ 0x1f

/-- The blanks that may surround a number. -/
def isPadding (c : Char) : Bool :=
  isBlank c && !isSeparator c

/-- The text without the blanks at its ends. -/
def strip (s : Text) : Text :=
  ((s.dropWhile isPadding).reverse.dropWhile isPadding).reverse

end CurveFormula.Text
