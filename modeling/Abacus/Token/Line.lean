import Abacus.Token.Basic
import Abacus.Text.Blank

/-!
# Tokens written on one line

`Token.line` writes tokens back with one space between them, except that no
blank stays after an opening bracket, before a closing one, or at the end.
-/

namespace Abacus

namespace Text

/-- Removes the blanks that follow an opening bracket.  The flag says that one
was the last character kept. -/
def closeUpAfterOpen (afterOpen : Bool) : List Char → List Char
  | [] => []
  | c :: cs =>
    if afterOpen && isBlank c then closeUpAfterOpen true cs
    else c :: closeUpAfterOpen (c == '(') cs

/-- Removes the blanks that stand before a closing bracket. -/
def closeUpBeforeClose : List Char → List Char
  | [] => []
  | c :: cs =>
    let rest := closeUpBeforeClose cs
    if isBlank c && rest.head? == some ')' then rest else c :: rest

/-- Removes the blanks at the end and inside of brackets. -/
def tidy (cs : List Char) : List Char :=
  closeUpBeforeClose (closeUpAfterOpen false (trimEnd cs))

end Text

namespace Token

/-- The tokens as characters of one tidy line. -/
def lineChars (ts : List Token) : List Char :=
  Text.tidy ([' '].intercalate (ts.map fun t => t.lexeme.toList))

/-- The tokens written on one tidy line. -/
def line (ts : List Token) : String := String.ofList (lineChars ts)

end Token

end Abacus
