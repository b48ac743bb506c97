import CurveFormula.Expr.Basic
import CurveFormula.Numerals

/-!
# Formulas as text

A formula is written with brackets around every operator, so that no rule of precedence is needed
to read it. Two dialects differ in the sign of a power and in the name of the logarithm: the
display dialect, which reads back, and the dialect of plotting programs.
-/

namespace CurveFormula

universe u

/-- What may differ between two ways of writing formulas: the sign of a power and the names of the
functions. -/
structure Dialect where
  power : Text
  function : UnaryOp → Text

namespace Dialect

/-- The dialect that reads back. -/
def display : Dialect :=
  ⟨['^'], UnaryOp.name⟩

/-- The dialect of plotting programs. -/
def plot : Dialect where
  power := ['*', '*']
  function
    | .exp => "exp".toList
    | .ln => "log".toList
    | .sqrt => "sqrt".toList
    | .sin => "sin".toList
    | .cos => "cos".toList
    | .tan => "tan".toList
    -- neither is written as a function
    | .neg | .square => []

variable (d : Dialect)

/-- A function of a written operand. -/
def unary (op : UnaryOp) (t : Text) : Text :=
  match op with
  | .neg => '(' :: '-' :: (t ++ [')'])
  | .square => '(' :: (t ++ ')' :: (d.power ++ ['2']))
  | op => d.function op ++ '(' :: (t ++ [')'])

/-- An operator between two written operands. -/
def binary (op : BinaryOp) (l r : Text) : Text :=
  match op with
  | .pow => '(' :: (l ++ ')' :: (d.power ++ '(' :: (r ++ [')'])))
  | op => '(' :: (l ++ ' ' :: op.sign :: ' ' :: (r ++ [')']))

/-- The power of index `i` with its written coefficient. -/
def term (w : Weights) (i : Nat) (c : Text) : Text :=
  let power :=
    if i = 0 then c
    else if i = 1 then c ++ ['*', 'x']
    else c ++ '*' :: 'x' :: (d.power ++ Text.ofNat i)
  if w.divides i then power ++ '/' :: Text.ofNat (factorial i) else power

/-- The powers from index `i` on. -/
def terms (w : Weights) (i : Nat) : List Text → List Text
  | [] => []
  | c :: cs => d.term w i c :: terms w (i + 1) cs

/-- A weighted sum of powers with written coefficients. -/
def series (w : Weights) (cs : List Text) : Text :=
  '(' :: (Text.join [' ', '+', ' '] (d.terms w 0 cs) ++ [')'])

end Dialect

namespace Expr

variable {α : Type u} (N : Numerals α)

/-- The text of a formula in a dialect, every parameter written as its letter. -/
def render (d : Dialect) : Expr α → Text
  | var => ['x']
  | const c => N.format c
  | zero => ['0']
  | one => ['1']
  | param p => p.text
  | unary op e => d.unary op (e.render d)
  | binary op l r => d.binary op (l.render d) (r.render d)
  | poly w n => d.series w ((Letter.upTo n).map Letter.text)

@[simp] theorem render_var (d : Dialect) : (var : Expr α).render N d = ['x'] := rfl

@[simp] theorem render_const (d : Dialect) (c : α) : (const c).render N d = N.format c := rfl

@[simp] theorem render_zero (d : Dialect) : (zero : Expr α).render N d = ['0'] := rfl

@[simp] theorem render_one (d : Dialect) : (one : Expr α).render N d = ['1'] := rfl

@[simp] theorem render_param (d : Dialect) (p : Letter) :
    (param p : Expr α).render N d = p.text := rfl

@[simp] theorem render_unary (d : Dialect) (op : UnaryOp) (e : Expr α) :
    (unary op e).render N d = d.unary op (e.render N d) := rfl

@[simp] theorem render_binary (d : Dialect) (op : BinaryOp) (l r : Expr α) :
    (binary op l r).render N d = d.binary op (l.render N d) (r.render N d) := rfl

/-- The text of a formula that reads back. -/
def display (e : Expr α) : Text :=
  e.render N .display

end Expr

end CurveFormula
