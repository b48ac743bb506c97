import CurveFormula.Text.Basic

/-!
# Log levels

How much a log shows, from nothing to every step, and how grave a line is.
-/

namespace CurveFormula.Log

/-- How much a log shows. -/
inductive Level where
  /-- Nothing, not even failures. -/
  | silent
  /-- Warnings and important information. -/
  | minimal
  /-- Summaries. -/
  | moderate
  /-- Every candidate. -/
  | detailed
  /-- Every step of reading and simplifying. -/
  | verbose
  deriving DecidableEq, Repr

namespace Level

/-- The place of a level in the order from nothing to everything. -/
def rank : Level → Nat
  | silent => 0
  | minimal => 1
  | moderate => 2
  | detailed => 3
  | verbose => 4

/-- The levels from nothing to everything. -/
def all : List Level :=
  [silent, minimal, moderate, detailed, verbose]

/-- The name of a level. -/
def name : Level → Text
  | silent => "SILENT".toList
  | minimal => "MINIMAL".toList
  | moderate => "MODERATE".toList
  | detailed => "DETAILED".toList
  | verbose => "VERBOSE".toList

/-- The level of a name. -/
def ofName? (s : Text) : Option Level :=
  all.find? fun l => l.name = s

/-- The level shows what another one requires. -/
def admits (level required : Level) : Bool :=
  required.rank ≤ level.rank

theorem admits_minimal_iff {l : Level} : l.admits minimal = true ↔ l ≠ silent := by
  cases l <;> simp [admits, rank]

end Level

/-- How grave a line is. -/
inductive Severity where
  | debug
  | info
  | warning
  | error
  deriving DecidableEq, Repr

namespace Severity

/-- The name of a severity. -/
def name : Severity → Text
  | debug => "DEBUG".toList
  | info => "INFO".toList
  | warning => "WARNING".toList
  | error => "ERROR".toList

/-- A line of this severity is written even where nothing is attached that writes it. -/
def urgent : Severity → Bool
  | debug | info => false
  | warning | error => true

end Severity

end CurveFormula.Log
