import Abacus.Text.Printable

/-!
# Quoted text

A quoted text is safe to show on one line: it stands between quotation marks,
and a backslash starts the stand-in of every character that could not be shown
as itself.  The mark is the single one, unless the text holds single marks and
no double ones.
-/

namespace Abacus.Text

/-- The single quotation mark. -/
def singleMark : Char := '\x27'

/-- The double quotation mark. -/
def doubleMark : Char := '\x22'

/-- The mark that a text is quoted with. -/
def markFor (cs : List Char) : Char :=
  if cs.contains singleMark && !cs.contains doubleMark then doubleMark else singleMark

/-- A number in base sixteen, filled up to `width` places with zeros. -/
def hex (width n : Nat) : List Char :=
  let digits := Nat.toDigits 16 n
  List.replicate (width - digits.length) '0' ++ digits

/-- The code point of an unprintable character, in two, four or eight places. -/
def escapeCode (code : Nat) : List Char :=
  if code < 0x100 then '\\' :: 'x' :: hex 2 code
  else if code < 0x10000 then '\\' :: 'u' :: hex 4 code
  else '\\' :: 'U' :: hex 8 code

/-- What stands for a character between the given marks. -/
def escape (mark c : Char) : List Char :=
  if c = mark ∨ c = '\\' then ['\\', c]
  else if c = '\t' then ['\\', 't']
  else if c = '\n' then ['\\', 'n']
  else if c = '\r' then ['\\', 'r']
  else if isPrintable c then [c]
  else escapeCode c.toNat

/-- The quoted form of a text. -/
def quoteChars (cs : List Char) : List Char :=
  let mark := markFor cs
  mark :: cs.flatMap (escape mark) ++ [mark]

/-- The quoted form of a string. -/
def quote (s : String) : String := String.ofList (quoteChars s.toList)

end Abacus.Text
