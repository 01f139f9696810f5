import Abacus.Proofs.Lines

/-!
# Pages of lines

A page is written line by line.  Each line is ended by a line feed, or by a carriage return
and a line feed, as its writer likes; the last line may be left without an ending.  Only a
line feed in a line, or a carriage return at its end, could be taken for an ending.

The key local fact is `nextLine_row`: whatever is written below a line, reading gives the
line without its ending and leaves what is below it.  So the lines of a page are read as
they were written, and what is left is the rest of the page (`nextLines_page`).
-/

namespace Abacus.Stream

/-- What may be written as a line, to be ended by what is not a part of it. -/
structure BareLine where
  chars : List Char
  no_feed : '\n' ∉ chars
  no_return : chars.getLast? ≠ some '\r'

/-- What a line is ended by. -/
inductive Ending where
  | feed
  | returnFeed

/-- The characters of an ending. -/
def Ending.chars : Ending → List Char
  | feed => ['\n']
  | returnFeed => ['\r', '\n']

/-- Lines with their endings, one below the other. -/
inductive Page where
  | blank
  /-- The last line of a page may have no ending, if there is something on it. -/
  | unended (line : BareLine) (hline : line.chars ≠ [])
  | row (line : BareLine) (ending : Ending) (below : Page)

namespace Page

/-- The characters of a page. -/
def text : Page → List Char
  | blank => []
  | unended line _ => line.chars
  | row line ending below => line.chars ++ (ending.chars ++ below.text)

/-- The lines of a page, without their endings. -/
def lines : Page → List (List Char)
  | blank => []
  | unended line _ => [line.chars]
  | row line _ below => line.chars :: below.lines

/-- The page without its first lines and their endings. -/
def drop : Nat → Page → Page
  | 0, page => page
  | _ + 1, blank => blank
  | _ + 1, unended _ _ => blank
  | n + 1, row _ _ below => below.drop n

/-- The lines that are left are the other lines. -/
theorem lines_drop (page : Page) (n : Nat) : (page.drop n).lines = page.lines.drop n := by
  induction n, page using Page.drop.induct with
  | case1 page => rfl
  | case2 n => rfl
  | case3 n line hline => simp [drop, lines]
  | case4 n line ending below ih => exact ih

end Page

/-! ## Reading a page -/

variable {stream line rest : List Char}

theorem nextLines_succ (h : nextLine stream = (line, rest)) (n : Nat) :
    nextLines (n + 1) stream = (line :: (nextLines n rest).1, (nextLines n rest).2) := by
  rw [nextLines, h]

/-- A line is read off a page without its ending. -/
theorem nextLine_row (line : BareLine) (ending : Ending) (below : Page) :
    nextLine (Page.row line ending below).text = (line.chars, below.text) := by
  cases ending with
  | feed =>
      have hfirst : FirstLine _ _ below.text := .ended line.no_feed
      rw [← content_feed line.no_return]
      exact hfirst.nextLine_eq
  | returnFeed =>
      have hbody : '\n' ∉ line.chars ++ ['\r'] := by simpa using line.no_feed
      have hfirst : FirstLine _ _ below.text := .ended hbody
      rw [← content_pair line.chars, ← hfirst.nextLine_eq, List.append_assoc]
      rfl

/-- A last line without an ending is read as it is. -/
theorem nextLine_unended (line : BareLine) : nextLine line.chars = (line.chars, []) := by
  have hfirst : FirstLine line.chars line.chars [] := .last line.no_feed
  rw [hfirst.nextLine_eq, content, dropFinal_of_ne (getLast?_ne_of_not_mem line.no_feed),
    dropFinal_of_ne line.no_return]

/-- Where nothing is written, empty lines are read. -/
theorem nextLines_nil (n : Nat) : nextLines n [] = (List.replicate n [], []) := by
  induction n with
  | zero => rfl
  | succ n ih =>
      have hline : nextLine [] = ([], []) := rfl
      rw [nextLines_succ hline, ih, List.replicate_succ]

/-- **Reading undoes writing.**  Off a page any number of lines are read as they were
written, and empty ones behind the last.  What is left is the page below them, each line
with its ending. -/
theorem nextLines_page (page : Page) (n : Nat) :
    nextLines n page.text =
      (page.lines.take n ++ List.replicate (n - page.lines.length) [], (page.drop n).text) ∧
    (page.drop n).lines = page.lines.drop n := by
  refine ⟨?_, page.lines_drop n⟩
  induction n, page using Page.drop.induct with
  | case1 page => simp [nextLines, Page.drop]
  | case2 n =>
      rw [Page.text, nextLines_nil]
      simp [Page.lines, Page.drop, Page.text]
  | case3 n line hline =>
      rw [Page.text, nextLines_succ (nextLine_unended line), nextLines_nil]
      simp [Page.lines, Page.drop, Page.text]
  | case4 n line ending below ih =>
      rw [nextLines_succ (nextLine_row line ending below), ih]
      simp [Page.lines, Page.drop]

end Abacus.Stream
