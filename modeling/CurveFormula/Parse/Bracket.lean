import CurveFormula.Text.Basic

/-!
# Brackets

Three scans over a text with round brackets: whether the brackets pair up, whether one pair encloses
the whole text, and where a symbol stands outside of all brackets.
-/

namespace CurveFormula.Parse

/-- The bracket depth behind a character. -/
def depthAfter (d : Int) (c : Char) : Int :=
  if c = '(' then d + 1 else if c = ')' then d - 1 else d

/-- How brackets fail to pair up. -/
inductive BracketFault where
  /-- Opening and closing brackets differ in number. -/
  | unbalanced
  /-- The numbers agree, but some bracket closes before one opens. -/
  | closedFirst
  deriving DecidableEq, Repr

/-- The depth never falls below nought. -/
def staysNonnegative (d : Int) : Text → Bool
  | [] => true
  | c :: rest => 0 ≤ depthAfter d c && staysNonnegative (depthAfter d c) rest

/-- The first fault of the brackets, the numbers being compared before the order. -/
def bracketFault? (s : Text) : Option BracketFault :=
  if s.count '(' ≠ s.count ')' then some .unbalanced
  else if staysNonnegative 0 s then none
  else some .closedFirst

/-- The depth is never nought behind a character. -/
def staysInside (d : Int) : Text → Bool
  | [] => true
  | c :: rest => depthAfter d c ≠ 0 && staysInside (depthAfter d c) rest

/-- The first bracket is closed by the last character and not before. -/
def isWrapped (s : Text) : Bool :=
  2 ≤ s.length && s.head? = some '(' && s.getLast? = some ')' && staysInside 0 s.dropLast

/-- The text between the first and the last character. -/
def inner (s : Text) : Text :=
  s.tail.dropLast

/-- The first index of a symbol at depth nought, given which characters go deeper and come back. -/
def scan (deeper back symbol : Char) (d : Int) : Text → Option Nat
  | [] => none
  | c :: rest =>
    if c = deeper then (scan deeper back symbol (d + 1) rest).map (· + 1)
    else if c = back then (scan deeper back symbol (d - 1) rest).map (· + 1)
    else if c = symbol ∧ d = 0 then some 0
    else (scan deeper back symbol d rest).map (· + 1)

/-- The first index of a symbol outside of brackets. -/
def firstTopLevel (symbol : Char) (s : Text) : Option Nat :=
  scan '(' ')' symbol 0 s

/-- The last index of a symbol outside of brackets, searched from the right end. The first character
does not count: a sign there has no left operand. -/
def lastTopLevel (symbol : Char) (s : Text) : Option Nat :=
  (scan ')' '(' symbol 0 s.tail.reverse).map fun i => s.length - 1 - i

theorem length_inner {s : Text} (h : isWrapped s = true) : (inner s).length < s.length := by
  simp only [isWrapped, Bool.and_eq_true, decide_eq_true_eq] at h
  simp only [inner, List.length_dropLast, List.length_tail]
  omega

theorem scan_lt_length {deeper back symbol : Char} {d : Int} {s : Text} {i : Nat}
    (h : scan deeper back symbol d s = some i) : i < s.length := by
  induction s generalizing d i with
  | nil => simp [scan] at h
  | cons c rest ih =>
    simp only [scan] at h
    split at h
    · obtain ⟨j, hj, rfl⟩ := Option.map_eq_some_iff.1 h
      simpa using ih hj
    · split at h
      · obtain ⟨j, hj, rfl⟩ := Option.map_eq_some_iff.1 h
        simpa using ih hj
      · split at h
        · cases h; simp
        · obtain ⟨j, hj, rfl⟩ := Option.map_eq_some_iff.1 h
          simpa using ih hj

theorem firstTopLevel_lt_length {symbol : Char} {s : Text} {i : Nat}
    (h : firstTopLevel symbol s = some i) : i < s.length :=
  scan_lt_length h

theorem lastTopLevel_lt_length {symbol : Char} {s : Text} {i : Nat}
    (h : lastTopLevel symbol s = some i) : i < s.length := by
  obtain ⟨j, hj, rfl⟩ := Option.map_eq_some_iff.1 h
  have := scan_lt_length hj
  simp only [List.length_reverse, List.length_tail] at this
  omega

end CurveFormula.Parse
