import CurveFormula.Letter
import CurveFormula.Text.Quoted

/-!
# Bindings of parameters

A binding gives values to some of the letters. Asking for a letter without a value is the one way
in which evaluating or plotting a formula can fail.
-/

namespace CurveFormula

universe u

/-- A name was looked up that has no value. -/
structure Unbound where
  name : Text
  deriving DecidableEq, Repr

/-- The report of a missing value. -/
def Unbound.message (e : Unbound) : Text :=
  "parameter ".toList ++ Text.quoted e.name ++ " is not bound".toList

/-- Values for some of the letters. -/
abbrev Binding (α : Type u) := Letter → Option α

namespace Binding

variable {α : Type u}

/-- The binding without values. -/
def empty : Binding α :=
  fun _ => none

/-- The value of a letter. -/
def lookup (b : Binding α) (p : Letter) : Except Unbound α :=
  match b p with
  | some v => .ok v
  | none => .error ⟨p.text⟩

/-- The values of several letters; the first one without a value is reported. -/
def lookupAll (b : Binding α) : List Letter → Except Unbound (List α)
  | [] => .ok []
  | p :: ps => do
    let v ← b.lookup p
    let vs ← b.lookupAll ps
    return v :: vs

theorem lookup_of_some {b : Binding α} {p : Letter} {v : α} (h : b p = some v) :
    b.lookup p = .ok v := by
  simp [lookup, h]

theorem lookup_of_none {b : Binding α} {p : Letter} (h : b p = none) :
    b.lookup p = .error ⟨p.text⟩ := by
  simp [lookup, h]

@[simp] theorem lookupAll_nil (b : Binding α) : b.lookupAll [] = .ok [] := rfl

end Binding

end CurveFormula
