/-!
# Texts

Formulas are read from and written to lists of characters. A character is one code point, and
positions count code points.
-/

namespace CurveFormula

/-- A text as its list of characters. -/
abbrev Text := List Char

namespace Text

/-- The decimal digits of a natural number, without leading zeros. -/
def ofNat (n : Nat) : Text :=
  Nat.toDigits 10 n

/-- The decimal text of an integer. -/
def ofInt (n : Int) : Text :=
  if n < 0 then '-' :: ofNat n.natAbs else ofNat n.natAbs

/-- Texts joined with a separator between neighbours. -/
def join (sep : Text) : List Text → Text
  | [] => []
  | [t] => t
  | t :: u :: rest => t ++ sep ++ join sep (u :: rest)

@[simp] theorem join_nil (sep : Text) : join sep [] = [] := rfl

@[simp] theorem join_singleton (sep t : Text) : join sep [t] = t := rfl

@[simp] theorem join_cons_cons (sep t u : Text) (rest : List Text) :
    join sep (t :: u :: rest) = t ++ sep ++ join sep (u :: rest) := rfl

end Text

end CurveFormula
