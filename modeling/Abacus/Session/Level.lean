import Abacus.Text.Blank
import Abacus.Text.Capitals

/-!
# Log levels

A level is a number; a log line is written when its level reaches the threshold
of the log.  Levels are named, in any mixture of small and capital letters and
with blanks around the name.
-/

namespace Abacus

/-- How grave a log line is, or must be to be written. -/
structure Level where
  severity : Nat
deriving DecidableEq

namespace Level

/-- Details of a calculation. -/
def debug : Level := ⟨10⟩

/-- Something that a user should know. -/
def warning : Level := ⟨30⟩

/-- The names of the levels. -/
def names : List (String × Level) :=
  [("CRITICAL", ⟨50⟩), ("FATAL", ⟨50⟩), ("ERROR", ⟨40⟩), ("WARN", warning), ("WARNING", warning),
    ("INFO", ⟨20⟩), ("DEBUG", debug), ("NOTSET", ⟨0⟩)]

/-- The level that a name stands for, if it is the name of one. -/
def ofName? (name : String) : Option Level :=
  names.lookup (String.ofList (Text.capitals (Text.trim name.toList)))

/-- The level that an optional setting asks for: warnings if there is none. -/
def resolve? : Option String → Option Level
  | none => some warning
  | some name => ofName? name

/-- A log with this threshold writes lines of the given level. -/
def writes (threshold level : Level) : Bool := threshold.severity ≤ level.severity

end Level

end Abacus
