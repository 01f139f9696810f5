import Abacus.Calculation

/-!
# Demonstration

A listing that shows, for some sample lines, the tokens, the tree and the value,
or the report on what is wrong.
-/

namespace Abacus.Demo

/-- The sample lines. -/
def samples : List String :=
  ["5", "-1", "1 + 1", "-1 + 1", "1 + -1", "4 + 6 * 3", "(4 + 6)", "(4+6) * 3", "-2 * 3",
    "1 - 2 - 3", "7/6/2000", "1 / 0", "1 2", "1..2", "1 + a", "(1 + 14 * (54 - 2)"]

/-- The line between two entries. -/
def separator : String := String.ofList (List.replicate 10 '=')

/-- The lines that show a tree and its value. -/
def showTree (e : Expr) : List String :=
  ["ast: " ++ e.describe] ++
    match e.evaluate with
    | .ok x => ["result: " ++ x.format]
    | .error error => [error.message]

/-- The lines that show tokens and what they are read as. -/
def showTokens (tokens : List Token) : List String :=
  ["tokens: " ++ Token.textLine tokens] ++
    match parse tokens with
    | .ok e => showTree e
    | .error misreading => [Failure.misreadingReport tokens misreading]

/-- The lines of one entry. -/
def entry (line : String) : List String :=
  [separator, "code: " ++ Text.quote line] ++
    match Token.scan line with
    | .ok tokens => showTokens tokens
    | .error error => [(Failure.lexical line error).report]

/-- The whole listing. -/
def listing : String := String.join ((samples.flatMap entry).map (· ++ "\n"))

end Abacus.Demo
