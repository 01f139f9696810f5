/-!
# Streams of lines

A stream is the text that is still unread.  A line runs up to and including the
next line feed, or to the end.  `nextLine` gives the line without its line feed
and without one carriage return before it.
-/

namespace Abacus.Stream

/-- Splits the first line, with its line feed, from the rest. -/
def splitLine : List Char → List Char × List Char
  | [] => ([], [])
  | c :: cs =>
    if c = '\n' then ([c], cs)
    else
      let (line, rest) := splitLine cs
      (c :: line, rest)

/-- The text without its last character, if that is the given one. -/
def dropFinal (c : Char) (cs : List Char) : List Char :=
  if cs.getLast? = some c then cs.dropLast else cs

/-- A line without its ending. -/
def content (line : List Char) : List Char := dropFinal '\r' (dropFinal '\n' line)

/-- Reads one line off a stream. -/
def nextLine (stream : List Char) : List Char × List Char :=
  let (line, rest) := splitLine stream
  (content line, rest)

/-- Reads the given number of lines off a stream. -/
def nextLines : Nat → List Char → List (List Char) × List Char
  | 0, stream => ([], stream)
  | n + 1, stream =>
    let (line, rest) := nextLine stream
    let (lines, rest) := nextLines n rest
    (line :: lines, rest)

/-- Turns every carriage return, alone or before a line feed, into a line feed. -/
def unifyNewlines : List Char → List Char
  | [] => []
  | '\r' :: '\n' :: cs => '\n' :: unifyNewlines cs
  | c :: cs => (if c = '\r' then '\n' else c) :: unifyNewlines cs

end Abacus.Stream
