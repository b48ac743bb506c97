import CurveFormula.Log.Message

/-!
# The journal

One journal takes the lines of the whole library. Lines are written to its sinks, the console and
perhaps a file, by loggers, and a logger has settings: a level and perhaps a file. One logger is the
journal's own, and it comes into being with the first use. It is replaced when the journal is
configured, and others can be made beside it; a logger that is the journal's own no longer, or never
was, can still be held and spoken through, with the settings it has.

All of them share the sinks, and every new logger attaches those of its own settings in place of the
ones before: the console, unless it is silent, and its file. If the file cannot be opened there is
no new logger, but the sinks have already been changed. Whether a file can be opened depends on the
world outside, so it is part of a call.

Making the journal's own logger show something when it was silent configures the journal again with
the same file, because a silent logger has attached no console.
-/

namespace CurveFormula.Log

universe u

/-- What lines are written to. -/
inductive Sink where
  | console
  | file (path : Text)
  /-- What is left when nothing is attached. -/
  | standardError
  deriving DecidableEq, Repr

/-- A line written to a sink. -/
structure Delivery where
  sink : Sink
  line : Line
  deriving DecidableEq, Repr

/-- The text that a sink shows behind the time. What takes lines when nothing is attached shows
neither a time nor a severity. -/
def Delivery.shown (d : Delivery) : Text :=
  match d.sink with
  | .standardError => d.line.text
  | .console | .file _ => d.line.shown

/-- The settings of a logger. -/
structure Settings where
  level : Level
  file : Option Text
  deriving DecidableEq, Repr

namespace Settings

/-- The settings before any configuration. -/
def standard : Settings :=
  ⟨.minimal, none⟩

/-- The console, if anything is shown. -/
def consoles (s : Settings) : List Sink :=
  if s.level = .silent then [] else [.console]

/-- The file, as a sink. -/
def files (s : Settings) : List Sink :=
  (s.file.map Sink.file).toList

/-- The settings ask for no file, or for one that can be opened. -/
def Granted (s : Settings) (opens : Bool) : Prop :=
  s.file = none ∨ opens = true

instance (s : Settings) (opens : Bool) : Decidable (s.Granted opens) :=
  inferInstanceAs (Decidable (_ ∨ _))

end Settings

/-- The journal: the settings of its own logger, if it was used before, those of the other loggers
in the order in which they came to be others, and what is attached. -/
structure Journal where
  settings : Option Settings
  others : List Settings
  sinks : List Sink
  deriving DecidableEq, Repr

/-- What is done to the journal. Where a file may have to be opened, the call says whether it can
be. -/
inductive Call (A : Type u) where
  | configure (settings : Settings) (opens : Bool)
  | setLevel (level : Level) (opens : Bool)
  /-- A logger is made beside the journal's own. -/
  | separate (settings : Settings) (opens : Bool)
  /-- The journal's own logger is asked for. -/
  | touch
  /-- A remark through the journal's own logger. -/
  | say (remark : Remark A)
  /-- A remark through one of the other loggers. -/
  | sayThrough (i : Nat) (remark : Remark A)

/-- The deliveries of a remark to several sinks, one to each. What has no text is not written. -/
def Remark.writtenTo {A : Type u} (format : Formatter A) (r : Remark A) (sinks : List Sink) :
    List Delivery :=
  match r.line? format with
  | some line => sinks.map fun sink => ⟨sink, line⟩
  | none => []

namespace Journal

/-- The journal before any use. -/
def fresh : Journal :=
  ⟨none, [], []⟩

/-- The settings in effect. -/
def current (j : Journal) : Settings :=
  j.settings.getD .standard

/-- The level in effect shows what another one requires. -/
def admits (j : Journal) (required : Level) : Bool :=
  j.current.level.admits required

/-- The journal with the sinks of new settings in place of the ones before, as far as they can be
had. -/
def attach (j : Journal) (s : Settings) (opens : Bool) : Journal :=
  { j with sinks := s.consoles ++ if opens then s.files else [] }

/-- The journal with a new logger of its own. The old one stays if the file cannot be opened. -/
def configure (j : Journal) (s : Settings) (opens : Bool) : Journal :=
  if s.Granted opens then
    { j.attach s opens with settings := some s, others := j.others ++ j.settings.toList }
  else j.attach s opens

/-- The journal with a new logger beside its own, if the file can be opened. -/
def withOther (j : Journal) (s : Settings) (opens : Bool) : Journal :=
  if s.Granted opens then { j.attach s opens with others := j.others ++ [s] }
  else j.attach s opens

/-- The journal with a logger of its own, a standard one if it had none. -/
def used (j : Journal) : Journal :=
  match j.settings with
  | some _ => j
  | none => j.configure .standard true

/-- The journal at another level. -/
def atLevel (j : Journal) (level : Level) (opens : Bool) : Journal :=
  match j.settings with
  | none => j.configure ⟨level, none⟩ opens
  | some s =>
    if s.level = .silent ∧ level ≠ .silent then j.configure ⟨level, s.file⟩ opens
    else { j with settings := some ⟨level, s.file⟩ }

/-- Where a line goes: to all that is attached, or, if nothing is and the line is urgent, to the
standard error. -/
def outlets (j : Journal) (severity : Severity) : List Sink :=
  match j.sinks with
  | [] => if severity.urgent then [.standardError] else []
  | sinks => sinks

variable {A : Type u} (format : Formatter A)

/-- What is written of a remark through a logger with these settings, if it lets the remark pass. -/
def write (j : Journal) (s : Settings) (r : Remark A) : List Delivery :=
  if r.passes s.level then r.writtenTo format (j.outlets r.severity) else []

/-- What a call does to the journal, and what is written. -/
def step (j : Journal) : Call A → Journal × List Delivery
  | .configure s opens => (j.configure s opens, [])
  | .setLevel level opens => (j.atLevel level opens, [])
  | .separate s opens => (j.withOther s opens, [])
  | .touch => (j.used, [])
  | .say r => (j.used, j.used.write format j.used.current r)
  | .sayThrough i r =>
    match j.others[i]? with
    | some s => (j, j.write format s r)
    | none => (j, [])

/-- What several calls do to the journal one after the other, and all that is written. -/
def run (j : Journal) : List (Call A) → Journal × List Delivery
  | [] => (j, [])
  | c :: calls =>
    let (j, now) := j.step format c
    let (j, later) := j.run calls
    (j, now ++ later)

@[simp] theorem run_nil (j : Journal) : j.run format [] = (j, []) := rfl

theorem run_cons (j : Journal) (c : Call A) (calls : List (Call A)) :
    j.run format (c :: calls) =
      (((j.step format c).1.run format calls).1,
        (j.step format c).2 ++ ((j.step format c).1.run format calls).2) := rfl

end Journal

end CurveFormula.Log
