import CurveFormula.Expr.Basic
import CurveFormula.Numerals
import CurveFormula.Parse.Bracket
import CurveFormula.Parse.Fault
import CurveFormula.Text.Blank

/-!
# Cutting a text

One step of reading looks at a text as a whole and says what it is: a leaf, a bracketed text, a
function of a text, an operator between two texts, or nothing. The operators are tried from the
loosest to the tightest: the first `+`, the last `-`, a leading `-`, the first `*`, the first `/`,
the first `^`, always outside of brackets. No operator left, a function around brackets remains.
-/

namespace CurveFormula.Parse

universe u

/-- The text without blanks, all its brackets round. -/
def normalize (s : Text) : Text :=
  (s.filter fun c => !Text.isBlank c).map fun c =>
    if c = '{' || c = '[' then '('
    else if c = '}' || c = ']' then ')'
    else c

/-- The characters that no literal holds. -/
def isOperatorChar (c : Char) : Bool :=
  c ∈ ['(', ')', '+', '-', '*', '/', '^']

/-- What a text is at its outermost level. -/
inductive Cut (α : Type u) where
  | refused (reason : Reason)
  | leaf (e : Expr α)
  | bracketed (inside : Text)
  | unary (op : UnaryOp) (operand : Text)
  | binary (op : BinaryOp) (left right : Text)

variable {α : Type u} (N : Numerals α)

/-- The leaf a text denotes: the variable, a letter, an exact number, or a constant. -/
def literal? (s : Text) : Option (Expr α) :=
  if s = ['x'] then some .var
  else
    match Letter.ofText? s with
    | some p => some (.param p)
    | none =>
      if s = ['0'] then some .zero
      else if s = ['1'] then some .one
      else (N.read s).map .const

/-- The parts of a text before and behind an index. -/
def cutAt (op : BinaryOp) (s : Text) (i : Nat) : Cut α :=
  .binary op (s.take i) (s.drop (i + 1))

/-- The cut at the loosest operator outside of brackets. -/
def operatorCut? (s : Text) : Option (Cut α) :=
  match firstTopLevel '+' s with
  | some i => some (cutAt .add s i)
  | none =>
  match lastTopLevel '-' s with
  | some i => some (cutAt .sub s i)
  | none =>
  if s.head? = some '-' then some (.unary .neg s.tail)
  else
  match firstTopLevel '*' s with
  | some i => some (cutAt .mul s i)
  | none =>
  match firstTopLevel '/' s with
  | some i => some (cutAt .div s i)
  | none =>
  match firstTopLevel '^' s with
  | some i => some (cutAt .pow s i)
  | none => none

/-- The operand of a function written around brackets. -/
def operand? (op : UnaryOp) (s : Text) : Option Text :=
  if (op.name ++ ['(']).isPrefixOf s && s.getLast? = some ')' then
    some (s.drop (op.name.length + 1)).dropLast
  else none

/-- The first of some functions that is written around brackets. -/
def functionOf? (ops : List UnaryOp) (s : Text) : Option (UnaryOp × Text) :=
  ops.findSome? fun op => (operand? op s).map fun t => (op, t)

/-- The cut of a text that holds no operator outside of brackets. -/
def functionCut (s : Text) : Cut α :=
  match functionOf? [.exp, .ln, .sqrt] s with
  | some (op, t) => .unary op t
  | none =>
  if ['^', '2'].isSuffixOf s then .unary .square (s.take (s.length - 2))
  else
  match functionOf? [.sin, .cos, .tan] s with
  | some (op, t) => .unary op t
  | none => .refused .expression

/-- What a text is. -/
def cut (s : Text) : Cut α :=
  if s = [] then .refused .empty
  else if isWrapped s then .bracketed (inner s)
  else if !s.any isOperatorChar then
    match literal? N s with
    | some e => .leaf e
    | none => .refused .literal
  else
    match bracketFault? s with
    | some f => .refused (.brackets f)
    | none => (operatorCut? s).getD (functionCut s)

/-- Every part of a cut is shorter than a bound. -/
def Cut.Below (n : Nat) : Cut α → Prop
  | .refused _ => True
  | .leaf _ => True
  | .bracketed t => t.length < n
  | .unary _ t => t.length < n
  | .binary _ l r => l.length < n ∧ r.length < n

theorem below_cutAt {op : BinaryOp} {s : Text} {i : Nat} (h : i < s.length) :
    (cutAt op s i : Cut α).Below s.length := by
  simp only [cutAt, Cut.Below, List.length_take, List.length_drop]
  omega

theorem below_of_operatorCut? {s : Text} {c : Cut α} (h : operatorCut? s = some c) :
    c.Below s.length := by
  unfold operatorCut? at h
  split at h
  · rename_i hi; cases h; exact below_cutAt (firstTopLevel_lt_length hi)
  · split at h
    · rename_i hi; cases h; exact below_cutAt (lastTopLevel_lt_length hi)
    · split at h
      · rename_i hs
        cases h
        cases s with
        | nil => simp at hs
        | cons c rest => simp [Cut.Below]
      · split at h
        · rename_i hi; cases h; exact below_cutAt (firstTopLevel_lt_length hi)
        · split at h
          · rename_i hi; cases h; exact below_cutAt (firstTopLevel_lt_length hi)
          · split at h
            · rename_i hi; cases h; exact below_cutAt (firstTopLevel_lt_length hi)
            · cases h

theorem length_of_operand? {op : UnaryOp} {s t : Text} (h : operand? op s = some t) :
    t.length < s.length := by
  unfold operand? at h
  split at h
  · rename_i hs
    cases h
    simp only [Bool.and_eq_true, decide_eq_true_eq] at hs
    have : s ≠ [] := by rintro rfl; simp at hs
    have := List.length_pos_iff.2 this
    simp only [List.length_dropLast, List.length_drop]
    omega
  · cases h

theorem length_of_functionOf? {ops : List UnaryOp} {s t : Text} {op : UnaryOp}
    (h : functionOf? ops s = some (op, t)) : t.length < s.length := by
  obtain ⟨op', _, h'⟩ := List.exists_of_findSome?_eq_some h
  obtain ⟨t', ht, he⟩ := Option.map_eq_some_iff.1 h'
  cases he
  exact length_of_operand? ht

theorem below_functionCut (s : Text) : (functionCut s : Cut α).Below s.length := by
  unfold functionCut
  split
  · rename_i h; exact length_of_functionOf? h
  · split
    · rename_i h
      have := (List.isSuffixOf_iff_suffix.1 h).length_le
      simp only [List.length_cons, List.length_nil] at this
      simp only [Cut.Below, List.length_take]
      omega
    · split
      · rename_i h; exact length_of_functionOf? h
      · trivial

/-- Every part of a cut is shorter than the text. -/
theorem below_cut (s : Text) : (cut N s).Below s.length := by
  unfold cut
  split
  · trivial
  · split
    · rename_i h; exact length_inner h
    · split
      · split <;> trivial
      · split
        · trivial
        · cases h : operatorCut? (α := α) s with
          | none => exact below_functionCut s
          | some c => exact below_of_operatorCut? h

end CurveFormula.Parse
