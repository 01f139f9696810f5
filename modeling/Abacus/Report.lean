import Abacus.Token.Line
import Abacus.Text.Slice

/-!
# Reports

A report has three parts, each on a line of its own: what is wrong, the text
where it is wrong, and a caret under the place.  A fault in the characters of a
line shows an excerpt of the line around it; a fault in the order of tokens shows
all the tokens on one tidy line.
-/

namespace Abacus.Report

/-- A caret in the given column, or in the first one if the column is negative. -/
def caret (column : Int) : String := String.ofList (List.replicate column.toNat ' ' ++ ['^'])

/-- The three parts on three lines. -/
def join (header body foot : String) : String := header ++ "\n" ++ body ++ "\n" ++ foot

/-- How many characters an excerpt shows on either side. -/
def excerptMargin : Nat := 10

/-- What marks a cut in an excerpt. -/
def ellipsis : String := "..."

/-- A report on the character at `index` of a line. -/
def ofLine (message line : String) (index : Int) : String :=
  let cs := line.toList
  let start := max 0 (index - excerptMargin)
  let stop := min (cs.length : Int) (index + excerptMargin)
  let before := if 0 < start then ellipsis else ""
  let after := if stop < cs.length then ellipsis else ""
  join ("[Tokenizer error] " ++ message)
    (before ++ String.ofList (Text.slice cs start stop) ++ after)
    (caret (index - start + before.length))

/-- The column of the caret under the token at `index`: past the tokens before
it, as they are written by themselves, and past one space if there are any. -/
def tokenColumn (tokens : List Token) (index : Int) : Nat :=
  let before := Text.upTo tokens index
  (Token.line before).length + if before.isEmpty then 0 else 1

/-- A report on the token at `index`. -/
def ofTokens (message : String) (tokens : List Token) (index : Int) : String :=
  join ("Parser error: " ++ message) (Token.line tokens) (caret (tokenColumn tokens index))

end Abacus.Report
