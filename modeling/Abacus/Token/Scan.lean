import Abacus.Token.Basic

/-!
# Scanning a line into tokens

A line is made of numbers, operator and bracket characters, and spaces, which
only separate.  A number takes the longest run of digits and points there is.
Scanning stops at the first offence: a character that has no place in a line, or
a run that is not a number.
-/

namespace Abacus

/-- Why a line cannot be scanned, and where. -/
inductive LexicalError where
  | invalidCharacter (index : Nat) (c : Char)
  | malformedNumber (index : Nat) (run : List Char)
deriving DecidableEq

namespace LexicalError

/-- The index of the offending character, or of the first one of the run. -/
def index : LexicalError → Nat
  | invalidCharacter index _ => index
  | malformedNumber index _ => index

/-- What is wrong, in words. -/
def message : LexicalError → String
  | invalidCharacter _ c => "Unexpected character: " ++ Text.quote (String.ofList [c])
  | malformedNumber _ run => "Malformed number: " ++ Text.quote (String.ofList run)

end LexicalError

namespace Token

/-- The token of a number that is written as `run`. -/
def ofNumber (position : Nat) (run : List Char) (d : Decimal) : Token :=
  ⟨.number, String.ofList run, some d.toBinary64, position⟩

/-- The token of a single character. -/
def ofSymbol (position : Nat) (c : Char) (kind : Kind) : Token :=
  ⟨kind, String.ofList [c], none, position⟩

/-- Scans characters of which the first has the given position in the line. -/
def scanFrom (position : Nat) (cs : List Char) : Except LexicalError (List Token) :=
  match cs with
  | [] => .ok [finish position]
  | c :: rest =>
    if isNumeric c then
      let run := c :: rest.takeWhile isNumeric
      match Decimal.ofLexeme? run with
      | none => .error (.malformedNumber position run)
      | some d =>
        (scanFrom (position + run.length) (rest.dropWhile isNumeric)).map
          (ofNumber position run d :: ·)
    else
      match Kind.ofSymbol? c with
      | some kind => (scanFrom (position + 1) rest).map (ofSymbol position c kind :: ·)
      | none =>
        if c = ' ' then scanFrom (position + 1) rest
        else .error (.invalidCharacter position c)
termination_by cs.length
decreasing_by
  · have := (List.dropWhile_sublist isNumeric (l := rest)).length_le
    simp only [List.length_cons]
    omega
  · simp
  · simp

/-- The tokens of a line, ending in the one that marks its end. -/
def scan (line : String) : Except LexicalError (List Token) := scanFrom 0 line.toList

end Token

end Abacus
