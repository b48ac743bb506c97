import CurveFormula.Parse.Cut

/-!
# Reading formulas

A text is read by cutting it and reading the parts. `read` gives the formula or the first fault,
the left part of an operator before the right one; `pieces` lists the texts that are looked at on
the way, each before its parts, up to the first fault.
-/

namespace CurveFormula.Parse

universe u

variable {α : Type u} (N : Numerals α)

/-- The formula of an operator between two formulas. A power with the exponent two is a square. -/
def joined (op : BinaryOp) (l r : Expr α) : Expr α :=
  match op, r with
  | .pow, .const c => if N.isTwo c then .unary .square l else .binary .pow l r
  | op, r => .binary op l r

/-- Reads a text that is already normalized. -/
def read (s : Text) : Except Fault (Expr α) :=
  match _h : cut N s with
  | .refused reason => .error ⟨s, reason⟩
  | .leaf e => .ok e
  | .bracketed t => read t
  | .unary op t => do
    let e ← read t
    return .unary op e
  | .binary op l r => do
    let e ← read l
    let f ← read r
    return joined N op e f
termination_by s.length
decreasing_by
  all_goals
    have := below_cut N s
    rw [_h] at this
    simp only [Cut.Below] at this
    omega

/-- The formula of a cut, or the first fault. -/
def Cut.read (s : Text) : Cut α → Except Fault (Expr α)
  | .refused reason => .error ⟨s, reason⟩
  | .leaf e => .ok e
  | .bracketed t => Parse.read N t
  | .unary op t => do
    let e ← Parse.read N t
    return .unary op e
  | .binary op l r => do
    let e ← Parse.read N l
    let f ← Parse.read N r
    return joined N op e f

theorem read_eq (s : Text) : read N s = (cut N s).read N s := by
  rw [read]
  split <;> rename_i h <;> simp only [h, Cut.read]

/-- The texts that reading looks at, each before its parts, up to the first fault. -/
def pieces (s : Text) : List Text :=
  s ::
    match _h : cut N s with
    | .refused _ => []
    | .leaf _ => []
    | .bracketed t => pieces t
    | .unary _ t => pieces t
    | .binary _ l r =>
      match read N l with
      | .ok _ => pieces l ++ pieces r
      | .error _ => pieces l
termination_by s.length
decreasing_by
  all_goals
    have := below_cut N s
    rw [_h] at this
    simp only [Cut.Below] at this
    omega

theorem read_of_refused {s : Text} {reason : Reason} (h : cut N s = .refused reason) :
    read N s = .error ⟨s, reason⟩ := by
  rw [read_eq, h]
  rfl

theorem read_of_leaf {s : Text} {e : Expr α} (h : cut N s = .leaf e) : read N s = .ok e := by
  rw [read_eq, h]
  rfl

theorem read_of_bracketed {s t : Text} (h : cut N s = .bracketed t) : read N s = read N t := by
  rw [read_eq, h]
  rfl

theorem read_of_unary {s t : Text} {op : UnaryOp} (h : cut N s = .unary op t) :
    read N s = (read N t).map (.unary op) := by
  rw [read_eq, h]
  cases hr : read N t <;> simp only [Cut.read, hr] <;> rfl

theorem pieces_of_leaf {s : Text} {e : Expr α} (h : cut N s = .leaf e) : pieces N s = [s] := by
  rw [pieces]
  split <;> simp_all

theorem pieces_of_refused {s : Text} {reason : Reason} (h : cut N s = .refused reason) :
    pieces N s = [s] := by
  rw [pieces]
  split <;> simp_all

theorem pieces_of_bracketed {s t : Text} (h : cut N s = .bracketed t) :
    pieces N s = s :: pieces N t := by
  rw [pieces]
  split <;> simp_all

theorem pieces_of_unary {s t : Text} {op : UnaryOp} (h : cut N s = .unary op t) :
    pieces N s = s :: pieces N t := by
  rw [pieces]
  split <;> simp_all

theorem pieces_of_binary {s l r : Text} {op : BinaryOp} (h : cut N s = .binary op l r) :
    pieces N s =
      s :: match read N l with
        | .ok _ => pieces N l ++ pieces N r
        | .error _ => pieces N l := by
  rw [pieces]
  split <;> simp_all

/-- Reads a literal, and nothing else. -/
def readLiteral (s : Text) : Except Fault (Expr α) :=
  match literal? N s with
  | some e => .ok e
  | none => .error ⟨s, .literal⟩

/-- Reads a function around brackets, and nothing else. -/
def readFunction (s : Text) : Except Fault (Expr α) :=
  (functionCut s).read N s

end CurveFormula.Parse

namespace CurveFormula.Expr

universe u

variable {α : Type u} (N : Numerals α)

/-- The formula a text denotes, or the first fault. -/
def parse (s : Text) : Except Parse.Fault (Expr α) :=
  Parse.read N (Parse.normalize s)

end CurveFormula.Expr
