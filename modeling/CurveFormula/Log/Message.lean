import CurveFormula.Log.Level
import CurveFormula.Text.Quoted

/-!
# Messages and remarks

A message is a template with arguments. Without arguments it stands for itself; with arguments it is
filled by a formatter, which a log takes as it finds it and which may fail. A remark is a message
with the way it is given: as information that requires a level, as a warning, as a step, or as a
failure.

The reports of the library have texts, integers and values for their arguments, and are filled by
`fill?`.
-/

namespace CurveFormula.Log

universe u

/-- How a template is filled with arguments, where they fit. -/
abbrev Formatter (A : Type u) :=
  Text → List A → Option Text

/-- A template with arguments. -/
structure Message (A : Type u) where
  template : Text
  args : List A

namespace Message

variable {A : Type u}

/-- The text of a message, if its arguments fit. A template without arguments is not looked into. -/
def text? (format : Formatter A) (m : Message A) : Option Text :=
  match m.args with
  | [] => some m.template
  | args => format m.template args

/-- The message with a text in front of its template. -/
def after (lead : Text) (m : Message A) : Message A :=
  ⟨lead ++ m.template, m.args⟩

end Message

/-! ### Remarks -/

/-- A line as it is written. -/
structure Line where
  severity : Severity
  text : Text
  deriving DecidableEq, Repr

/-- The text of a line behind the time. -/
def Line.shown (l : Line) : Text :=
  l.severity.name ++ " - ".toList ++ l.text

/-- A message with the way it is given. -/
inductive Remark (A : Type u) where
  /-- Information, where the level shows what it requires. -/
  | info (required : Level) (message : Message A)
  | warning (message : Message A)
  /-- A step, shown where everything is. -/
  | debug (message : Message A)
  /-- A failure, shown wherever anything is. -/
  | critical (message : Message A)

namespace Remark

variable {A : Type u}

/-- How grave the line of a remark is. -/
def severity : Remark A → Severity
  | info _ _ => .info
  | warning _ => .warning
  | debug _ => .debug
  | critical _ => .error

/-- The message of a remark, with what is written in front of it. -/
def message : Remark A → Message A
  | info _ m => m
  | warning m => m
  | debug m => m.after "DEBUG: ".toList
  | critical m => m.after "CRITICAL: ".toList

/-- A logger of this level lets the remark pass. -/
def passes (level : Level) : Remark A → Bool
  | info required _ => level.admits required
  | warning _ => level.admits .minimal
  | debug _ => level.admits .verbose
  | critical _ => level ≠ .silent

/-- The level that a remark requires. -/
def required : Remark A → Level
  | info required _ => required
  | warning _ => .minimal
  | debug _ => .verbose
  | critical _ => .minimal

/-- A failure is shown where a warning is, although a logger asks for it in a way of its own. -/
theorem passes_eq (r : Remark A) (level : Level) : r.passes level = level.admits r.required := by
  cases r with
  | info _ _ | warning _ | debug _ => rfl
  | critical _ =>
    rw [required, passes, Bool.eq_iff_iff, Level.admits_minimal_iff, decide_eq_true_eq]

/-- The line of a remark, if its message has a text. -/
def line? (format : Formatter A) (r : Remark A) : Option Line :=
  (r.message.text? format).map fun t => ⟨r.severity, t⟩

end Remark

/-! ### The reports of the library -/

/-- An argument of a report. -/
inductive Arg where
  | text (s : Text)
  | integer (n : Int)
  /-- A value with a text of its own, quoted or not. -/
  | value (s : Text)
  deriving DecidableEq, Repr

namespace Arg

/-- The text of an argument. -/
def plain : Arg → Text
  | text s => s
  | integer n => Text.ofInt n
  | value s => s

/-- The quoted text of an argument. -/
def shown : Arg → Text
  | text s => Text.quoted s
  | integer n => Text.ofInt n
  | value s => s

/-- The text of an integer argument. -/
def number? : Arg → Option Text
  | integer n => some (Text.ofInt n)
  | _ => none

end Arg

/-- Fills the templates that reports have: `%s` stands for the text of the next argument, `%r` for
its quoted text, `%d` for an integer and `%%` for a percent sign. -/
def fill? : Formatter Arg
  | [], [] => some []
  | [], _ :: _ => none
  | '%' :: '%' :: rest, args => (fill? rest args).map ('%' :: ·)
  | '%' :: 's' :: rest, a :: args => (fill? rest args).map (a.plain ++ ·)
  | '%' :: 'r' :: rest, a :: args => (fill? rest args).map (a.shown ++ ·)
  | '%' :: 'd' :: rest, a :: args =>
    match a.number? with
    | some t => (fill? rest args).map (t ++ ·)
    | none => none
  | '%' :: _, _ => none
  | c :: rest, args => (fill? rest args).map (c :: ·)

end CurveFormula.Log
