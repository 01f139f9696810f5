import Abacus.Session.Stream

/-!
# The lines of a text

A text falls into lines, each with the line feed that ends it.  The last one may lack
it, and behind the last one there are only empty lines.  `Lines` says so about any
number of lines and what is left behind them.  Reading follows it exactly
(`splitLine_eq_iff`), and so the lines of a text are determined by their number
(`Lines.unique`).
-/

namespace Abacus.Stream

/-- The first line of a text, and what is behind it. -/
inductive FirstLine : List Char → List Char → List Char → Prop
  | ended {body rest : List Char} (hbody : '\n' ∉ body) :
      FirstLine (body ++ '\n' :: rest) (body ++ ['\n']) rest
  | last {body : List Char} (hbody : '\n' ∉ body) : FirstLine body body []

/-- The first lines of a text, and what is behind them. -/
inductive Lines : List Char → List (List Char) → List Char → Prop
  | nil {text : List Char} : Lines text [] text
  | cons {text line middle rest : List Char} {lines : List (List Char)}
      (first : FirstLine text line middle) (tail : Lines middle lines rest) :
      Lines text (line :: lines) rest

/-- The text `bare` is `cs` without its last character, if that is the given one. -/
def WithoutFinal (c : Char) (cs bare : List Char) : Prop :=
  cs = bare ++ [c] ∨ (cs = bare ∧ bare.getLast? ≠ some c)

theorem dropFinal_concat (c : Char) (cs : List Char) : dropFinal c (cs ++ [c]) = cs := by
  simp [dropFinal]

theorem dropFinal_of_ne {c : Char} {cs : List Char} (h : cs.getLast? ≠ some c) :
    dropFinal c cs = cs :=
  if_neg h

theorem getLast?_ne_of_not_mem {c : Char} {cs : List Char} (h : c ∉ cs) :
    cs.getLast? ≠ some c := by
  intro hlast
  exact h (List.mem_of_getLast? hlast)

/-- A line holds what is in front of its line feed. -/
theorem content_feed {bare : List Char} (hbare : bare.getLast? ≠ some '\r') :
    content (bare ++ ['\n']) = bare := by
  rw [content, dropFinal_concat, dropFinal_of_ne hbare]

/-- A line holds what is in front of its carriage return and line feed. -/
theorem content_pair (bare : List Char) : content (bare ++ ['\r'] ++ ['\n']) = bare := by
  rw [content, dropFinal_concat, dropFinal_concat]

theorem withoutFinal_dropFinal (c : Char) (cs : List Char) :
    WithoutFinal c cs (dropFinal c cs) := by
  rw [dropFinal]
  split
  · next hlast =>
    obtain ⟨init, rfl⟩ := List.getLast?_eq_some_iff.mp hlast
    exact .inl (by simp)
  · next hlast => exact .inr ⟨rfl, hlast⟩

/-- What a line holds is the line without a final line feed, and then without one final
carriage return. -/
theorem exists_bare (line : List Char) :
    ∃ bare, WithoutFinal '\n' line bare ∧ WithoutFinal '\r' bare (content line) :=
  ⟨dropFinal '\n' line, withoutFinal_dropFinal _ _, withoutFinal_dropFinal _ _⟩

/-! ## Reading a line -/

variable {text line rest body : List Char} {lines : List (List Char)}

/-- Every text has a first line. -/
theorem exists_firstLine (text : List Char) : ∃ line rest, FirstLine text line rest := by
  by_cases hfeed : '\n' ∈ text
  · obtain ⟨body, rest, rfl, hbody⟩ := List.eq_append_cons_of_mem hfeed
    exact ⟨_, _, .ended hbody⟩
  · exact ⟨_, _, .last hfeed⟩

theorem splitLine_append (hbody : '\n' ∉ body) (rest : List Char) :
    splitLine (body ++ rest) = (body ++ (splitLine rest).1, (splitLine rest).2) := by
  induction body with
  | nil => rfl
  | cons c body ih =>
      rw [List.mem_cons, not_or] at hbody
      obtain ⟨hc, hbody⟩ := hbody
      simp [splitLine, Ne.symm hc, ih hbody]

/-- The first line is what is read. -/
theorem FirstLine.splitLine_eq (h : FirstLine text line rest) : splitLine text = (line, rest) := by
  cases h with
  | ended hbody => simp [splitLine_append hbody, splitLine]
  | last hbody => simpa [splitLine] using splitLine_append hbody []

theorem splitLine_eq_iff : splitLine text = (line, rest) ↔ FirstLine text line rest := by
  constructor
  · intro h
    obtain ⟨line', rest', hfirst⟩ := exists_firstLine text
    obtain ⟨rfl, rfl⟩ := Prod.mk.inj (hfirst.splitLine_eq.symm.trans h)
    exact hfirst
  · exact FirstLine.splitLine_eq

/-- The first line of a text, read off it. -/
theorem FirstLine.nextLine_eq (h : FirstLine text line rest) :
    nextLine text = (content line, rest) := by
  rw [nextLine, h.splitLine_eq]

/-! ## The lines of a text -/

/-- **A text has any number of lines.** -/
theorem Lines.exists_of_length (n : Nat) (text : List Char) :
    ∃ lines rest, Lines text lines rest ∧ lines.length = n := by
  induction n generalizing text with
  | zero => exact ⟨[], text, .nil, rfl⟩
  | succ n ih =>
      obtain ⟨line, middle, hfirst⟩ := exists_firstLine text
      obtain ⟨lines, rest, hlines, hlength⟩ := ih middle
      exact ⟨line :: lines, rest, .cons hfirst hlines, congrArg (· + 1) hlength⟩

/-- **The lines of a text are determined** by their number, and so is what is left. -/
theorem Lines.unique {lines' : List (List Char)} {rest' : List Char} (h : Lines text lines rest)
    (h' : Lines text lines' rest') (hlength : lines.length = lines'.length) :
    lines = lines' ∧ rest = rest' := by
  induction h generalizing lines' rest' with
  | nil =>
      cases h' with
      | nil => exact ⟨rfl, rfl⟩
      | cons first tail => cases hlength
  | cons first tail ih =>
      cases h' with
      | nil => cases hlength
      | cons first' tail' =>
          obtain ⟨rfl, rfl⟩ := Prod.mk.inj (first.splitLine_eq.symm.trans first'.splitLine_eq)
          obtain ⟨rfl, rfl⟩ := ih tail' (Nat.succ.inj hlength)
          exact ⟨rfl, rfl⟩

/-- Some of the first lines leave the others behind them. -/
theorem Lines.take (h : Lines text lines rest) (n : Nat) :
    ∃ middle, Lines text (lines.take n) middle ∧ Lines middle (lines.drop n) rest := by
  induction h generalizing n with
  | nil => exact ⟨_, by simpa using .nil, by simpa using .nil⟩
  | @cons text line middle rest lines first tail ih =>
      cases n with
      | zero => exact ⟨text, .nil, .cons first tail⟩
      | succ n =>
          obtain ⟨middle, htake, hdrop⟩ := ih n
          exact ⟨middle, .cons first htake, hdrop⟩

end Abacus.Stream
