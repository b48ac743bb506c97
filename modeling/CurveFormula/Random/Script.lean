import CurveFormula.Random.Source

/-!
# Scripted draws

A script is a list of integers that are drawn one after the other, from the start again after the
last. A draw below `n` is the remainder of the integer by `n`; a draw between two ends goes as many
thousandths of the way as the remainder of the integer by a thousand.
-/

namespace CurveFormula

universe u

/-- A list of integers, and those still to be drawn before it starts again. -/
structure Script where
  all : List Int
  rest : List Int

namespace Script

/-- A script at its start. -/
def ofList (l : List Int) : Script :=
  ⟨l, l⟩

/-- The next integer. A script without integers gives noughts. -/
def next (s : Script) : Int × Script :=
  match s.rest, s.all with
  | d :: rest, all => (d, ⟨all, rest⟩)
  | [], d :: rest => (d, ⟨d :: rest, rest⟩)
  | [], [] => (0, s)

/-- The next integer, reduced below a bound. -/
def below (n : Nat) (h : 0 < n) (s : Script) : Fin n × Script :=
  let (d, s) := s.next
  (⟨(d % n).toNat, by have := Int.emod_lt_of_pos d (b := n) (by omega); omega⟩, s)

/-- Scripted draws. `along a b n d` is the value `n / d` of the way from `a` to `b`. -/
def source {α : Type u} (along : α → α → Nat → Nat → α) : Source α Script where
  below := below
  between := fun a b s =>
    let (d, s) := s.next
    (along a b (d % 1000).toNat 1000, s)

end Script

end CurveFormula
