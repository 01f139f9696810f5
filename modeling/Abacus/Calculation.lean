import Abacus.Report
import Abacus.Token.Scan
import Abacus.Expr.Parser
import Abacus.Expr.Evaluation

/-!
# Calculation

`calculate` takes a line to its value: it scans the line, reads the tokens into a
tree and evaluates the tree.  It also tells the milestones that it reached on the
way, in order, whether or not it came to the end.
-/

namespace Abacus

/-- Why a line has no value. -/
inductive Failure where
  | lexical (line : String) (error : LexicalError)
  | misread (tokens : List Token) (misreading : Misreading)
  | evaluation (error : EvaluationError)
deriving DecidableEq

namespace Failure

/-- What is wrong, in words. -/
def message : Failure → String
  | lexical _ error => error.message
  | misread _ misreading => misreading.cause.message
  | evaluation error => error.message

/-- The report on a misreading: three lines for a mistake in the tokens' order,
else only what is wrong. -/
def misreadingReport (tokens : List Token) (m : Misreading) : String :=
  if m.cause.isInternal then m.cause.message
  else Report.ofTokens m.cause.message tokens m.index

/-- The report on a failure. -/
def report : Failure → String
  | lexical line error => Report.ofLine error.message line error.index
  | misread tokens misreading => misreadingReport tokens misreading
  | evaluation error => error.message

end Failure

/-- What a calculation has found so far. -/
inductive Milestone where
  | scanned (tokens : List Token)
  | parsed (count : Nat) (e : Expr)
  | evaluated (x : Binary64)
deriving DecidableEq

namespace Milestone

/-- A milestone in words. -/
def text : Milestone → String
  | scanned tokens => "tokens: " ++ Token.textLine tokens
  | parsed count e => "parsed " ++ toString count ++ " tokens into " ++ e.nodeName
  | evaluated x => "result: " ++ x.fullText

end Milestone

/-- The course of a calculation and its outcome. -/
structure Calculation where
  milestones : List Milestone
  outcome : Except Failure Binary64

namespace Calculation

/-- Evaluates a tree that was read from the given tokens. -/
def ofExpr (tokens : List Token) (e : Expr) : Calculation :=
  let milestones := [.scanned tokens, .parsed tokens.length e]
  match e.evaluate with
  | .ok x => ⟨milestones ++ [.evaluated x], .ok x⟩
  | .error error => ⟨milestones, .error (.evaluation error)⟩

/-- Reads and evaluates the given tokens. -/
def ofTokens (tokens : List Token) : Calculation :=
  match parse tokens with
  | .ok e => ofExpr tokens e
  | .error misreading => ⟨[.scanned tokens], .error (.misread tokens misreading)⟩

/-- Scans, reads and evaluates a line. -/
def ofLine (line : String) : Calculation :=
  match Token.scan line with
  | .ok tokens => ofTokens tokens
  | .error error => ⟨[], .error (.lexical line error)⟩

end Calculation

/-- The tree that a line is read as. -/
def parseLine (line : String) : Except Failure Expr :=
  match Token.scan line with
  | .error error => .error (.lexical line error)
  | .ok tokens => (parse tokens).mapError (.misread tokens)

/-- The value of a line. -/
def calculate (line : String) : Except Failure Binary64 := (Calculation.ofLine line).outcome

end Abacus
