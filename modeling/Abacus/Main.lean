import Abacus.Session.Basic

/-!
# The calculator as a program

Reads one line from the standard input, writes its value, or the report on what
is wrong to the error output, and ends with status zero or one.
-/

open Abacus

/-- Answers one call on the standard streams. -/
def main : IO UInt32 := do
  let setting ← IO.getEnv Session.levelSetting
  let line ← (← IO.getStdin).getLine
  let (reply, _) := (Session.start .program line).call .program setting
  (← IO.getStdout).putStr reply.output
  (← IO.getStderr).putStr reply.errors
  return reply.exit.toUInt32
