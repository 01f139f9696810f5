import Abacus.Calculation
import Abacus.Session.Level
import Abacus.Session.Stream

/-!
# Sessions

A session answers calls.  Each call reads one line from the input that all calls
share, calculates it, and replies with an exit status, what goes to the output
and what goes to the error output.  A call may come with the name of a log level.
The level of the first call is the threshold for the whole session; a name that
is not known counts as the level of warnings, and every call that brings one is
warned about it.
-/

namespace Abacus

/-- How the calculator is called. -/
inductive Mode where
  /-- With streams of the caller's own. -/
  | embedded
  /-- On the standard streams. -/
  | standard
  /-- As a program by itself. -/
  | program
deriving DecidableEq

namespace Mode

/-- The standard input takes every newline for a line feed. -/
def receive : Mode → List Char → List Char
  | embedded, input => input
  | standard, input => Stream.unifyNewlines input
  | program, input => Stream.unifyNewlines input

/-- The name under which the log speaks of the calls themselves. -/
def logger : Mode → String
  | program => "__main__"
  | _ => "calculator.cli"

end Mode

/-- What one call writes and how it ends. -/
structure Reply where
  exit : Nat
  output : String
  errors : String
deriving DecidableEq

/-- What the calls share: the threshold, once a call has set it, and the input
still unread. -/
structure Session where
  threshold : Option Level
  input : List Char
deriving DecidableEq

namespace Session

/-- The setting that names the log level. -/
def levelSetting : String := "CALCULATOR_LOG_LEVEL"

/-- A line of the log. -/
def logLine (levelName logger message : String) : String :=
  levelName ++ " " ++ logger ++ ": " ++ message ++ "\n"

/-- The warning about a level name that is not known. -/
def unknownLevel (mode : Mode) (name : String) : String :=
  logLine "WARNING" mode.logger
    ("Unknown log level " ++ levelSetting ++ "=" ++ Text.quote name ++ ", using WARNING")

/-- The log line of a milestone. -/
def milestoneLine (m : Milestone) : String := logLine "DEBUG" "calculator.runtime" m.text

/-- What the log says about the level that a call asks for. -/
def levelLog (mode : Mode) (threshold : Level) (setting : Option String) : String :=
  match setting with
  | none => ""
  | some name =>
    if (Level.ofName? name).isNone && threshold.writes .warning then unknownLevel mode name else ""

/-- What the log says about a calculation. -/
def calculationLog (threshold : Level) (milestones : List Milestone) : String :=
  if threshold.writes .debug then String.join (milestones.map milestoneLine) else ""

/-- The reply to a line: its value, or a report on its failure.  No line comes to an
internal failure, which would have no report. -/
def reply (mode : Mode) (threshold : Level) (setting : Option String) (line : String) : Reply :=
  let calculation := Calculation.ofLine line
  let log := levelLog mode threshold setting ++ calculationLog threshold calculation.milestones
  match calculation.outcome with
  | .ok x => ⟨0, x.format ++ "\n", log⟩
  | .error failure => ⟨1, "", log ++ failure.report ++ "\n"⟩

/-- Before the first call, with the given text as input. -/
def start (mode : Mode) (input : String) : Session := ⟨none, mode.receive input.toList⟩

/-- The threshold during a call with the given setting. -/
def thresholdFor (s : Session) (setting : Option String) : Level :=
  s.threshold.getD ((Level.resolve? setting).getD .warning)

/-- Answers one call. -/
def call (mode : Mode) (s : Session) (setting : Option String) : Reply × Session :=
  let threshold := s.thresholdFor setting
  let (line, rest) := Stream.nextLine s.input
  (reply mode threshold setting (String.ofList line), ⟨some threshold, rest⟩)

/-- Answers calls one after the other. -/
def calls (mode : Mode) (s : Session) : List (Option String) → List Reply × Session
  | [] => ([], s)
  | setting :: settings =>
    let (first, next) := s.call mode setting
    let (others, final) := next.calls mode settings
    (first :: others, final)

end Session

end Abacus
