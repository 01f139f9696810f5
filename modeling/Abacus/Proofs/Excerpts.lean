import Abacus.Calculation
import Abacus.Proofs.Lexis

/-!
# The excerpt around a fault in a line

A report on a fault in the characters of a line shows only those that are near to it.  An
`Excerpt` is a window of the line around an index, with the characters that are cut off on
either side; where there are any, dots are shown instead.

The key local fact is `Excerpt.getElem?_column`: whatever is cut off, the caret's column holds
the character at the index.  The report is made from such an excerpt (`ofLine_eq`), so the caret
always stands under the character that cannot be scanned (`caret_under_offence`).
-/

namespace Abacus

namespace Report

/-- Dots, if something is cut off. -/
def mark (cut : List Char) : List Char := if cut = [] then [] else ['.', '.', '.']

/-- A window of at most twenty characters around the index, and what is cut off. -/
structure Excerpt (cs : List Char) (index : Nat) where
  before : List Char
  window : List Char
  after : List Char
  split : cs = before ++ (window ++ after)
  before_le : before.length ≤ index
  lt_window : index < before.length + window.length
  short : window.length ≤ 20

namespace Excerpt

variable {cs : List Char} {index : Nat}

/-- The characters that are shown. -/
def shown (x : Excerpt cs index) : List Char := mark x.before ++ (x.window ++ mark x.after)

/-- The column of the character at the index. -/
def column (x : Excerpt cs index) : Nat := (mark x.before).length + (index - x.before.length)

/-- **In the column** is the character at the index. -/
theorem getElem?_column (x : Excerpt cs index) : x.shown[x.column]? = cs[index]? := by
  obtain ⟨before, window, after, rfl, hbefore, hwindow, hshort⟩ := x
  have hplace : index - before.length < window.length := by omega
  have hline : (before ++ (window ++ after))[index]? = window[index - before.length]? := by
    rw [List.getElem?_append_right hbefore, List.getElem?_append_left hplace]
  have hshown : (mark before ++ (window ++ mark after))[(mark before).length +
      (index - before.length)]? = window[index - before.length]? := by
    rw [List.getElem?_append_right (Nat.le_add_right _ _), Nat.add_sub_cancel_left,
      List.getElem?_append_left hplace]
  exact hshown.trans hline.symm

end Excerpt

/-- The excerpt with the margin on either side, as far as there are characters. -/
def excerpt (cs : List Char) (index : Nat) (h : index < cs.length) : Excerpt cs index where
  before := cs.take (index - excerptMargin)
  window := (cs.take (index + excerptMargin)).drop (index - excerptMargin)
  after := cs.drop (index + excerptMargin)
  split := by
    have hstart : cs.take (index - excerptMargin) =
        (cs.take (index + excerptMargin)).take (index - excerptMargin) := by
      rw [List.take_take, Nat.min_eq_left (by omega)]
    rw [hstart, ← List.append_assoc, List.take_append_drop, List.take_append_drop]
  before_le := by
    rw [List.length_take]
    omega
  lt_window := by
    rw [List.length_drop, List.length_take, List.length_take, excerptMargin]
    omega
  short := by
    rw [List.length_drop, List.length_take, excerptMargin]
    omega

section Bounds

variable {cs : List Char} {index : Nat} (h : index < cs.length)

theorem length_excerpt_before : (excerpt cs index h).before.length = index - excerptMargin := by
  rw [excerpt, List.length_take]
  omega

theorem length_excerpt_after :
    (excerpt cs index h).after.length = cs.length - (index + excerptMargin) :=
  List.length_drop

/-- The slice between the bounds of the excerpt is its window. -/
theorem slice_eq_excerpt_window :
    Text.slice cs ((index - excerptMargin : Nat) : Int)
      ((min (index + excerptMargin) cs.length : Nat) : Int) = (excerpt cs index h).window := by
  rw [Text.slice_natCast cs (by omega) (by omega), ← List.take_eq_take_min, excerpt]

end Bounds

/-- Where something is cut off, the dots that mark it are shown. -/
theorem ite_ellipsis {p : Prop} [Decidable p] {cut : List Char} (h : p ↔ 0 < cut.length) :
    (if p then ellipsis else "") = String.ofList (mark cut) := by
  rw [List.length_pos_iff] at h
  by_cases hcut : cut = []
  · rw [if_neg (by simp [h, hcut]), mark, if_pos hcut, String.ofList_nil]
  · rw [if_pos (h.mpr hcut), mark, if_neg hcut]
    rfl

/-- The report shows this excerpt, and the caret stands in its column. -/
theorem ofLine_eq (message line : String) {index : Nat} (h : index < line.toList.length) :
    ofLine message line index = join ("[Tokenizer error] " ++ message)
      (String.ofList (excerpt line.toList index h).shown)
      (caret (excerpt line.toList index h).column) := by
  let x := excerpt line.toList index h
  have hstart : max 0 ((index : Int) - excerptMargin) = ((index - excerptMargin : Nat) : Int) := by
    omega
  have hstop : min (line.toList.length : Int) ((index : Int) + excerptMargin) =
      ((min (index + excerptMargin) line.toList.length : Nat) : Int) := by
    omega
  have hbefore : (if (0 : Int) < ((index - excerptMargin : Nat) : Int) then ellipsis else "") =
      String.ofList (mark x.before) :=
    ite_ellipsis (by rw [length_excerpt_before]; omega)
  have hafter : (if ((min (index + excerptMargin) line.toList.length : Nat) : Int) <
      line.toList.length then ellipsis else "") = String.ofList (mark x.after) :=
    ite_ellipsis (by rw [length_excerpt_after]; omega)
  have hbody : String.ofList (mark x.before) ++ String.ofList x.window ++
      String.ofList (mark x.after) = String.ofList x.shown := by
    simp [Excerpt.shown, String.append_assoc]
  have hcolumn : (index : Int) - ((index - excerptMargin : Nat) : Int) +
      (String.ofList (mark x.before)).length = x.column := by
    rw [String.length_ofList, Excerpt.column, length_excerpt_before]
    omega
  simp only [ofLine]
  rw [hstart, hstop, hbefore, slice_eq_excerpt_window h, hafter, hbody, hcolumn]

/-- Ten characters in front of the dollar are shown, and nine behind it. -/
example : ofLine "dollar" "- - - - - - $ - - - - - -" 12 =
    "[Tokenizer error] dollar\n...- - - - - $ - - - - ...\n             ^" := by
  decide

end Report

/-- The character that is out of place, or the first one of a malformed number. -/
def LexicalError.offender? : LexicalError → Option Char
  | .invalidCharacter _ c => some c
  | .malformedNumber _ run => run.head?

/-- What offends stands at the index. -/
theorem Offence.getElem?_index {cs : List Char} {error : LexicalError} (h : Offence 0 cs error) :
    ∃ c, cs[error.index]? = some c ∧ error.offender? = some c := by
  cases h with
  | @character before after c hcs hc => exact ⟨c, by simp [hcs, LexicalError.index], rfl⟩
  | @numeral before run after hcs hrun hnumeral =>
      obtain ⟨c, run, rfl⟩ := List.exists_cons_of_ne_nil hrun.isRun.ne_nil
      exact ⟨c, by simp [hcs, LexicalError.index], rfl⟩

/-- **The caret stands under the character that offends.**  The index of a fault is one in the
line, and the report shows the excerpt around it: in the column of the caret is the character at
the index, whatever is cut off. -/
theorem caret_under_offence {line : String} {error : LexicalError}
    (h : Token.scan line = .error error) :
    error.index < line.length ∧ ∃ (x : Report.Excerpt line.toList error.index) (c : Char),
      (Failure.lexical line error).report = Report.join ("[Tokenizer error] " ++ error.message)
        (String.ofList x.shown) (Report.caret x.column) ∧
      line.toList[error.index]? = some c ∧ x.shown[x.column]? = some c ∧
      error.offender? = some c := by
  obtain ⟨c, hc, hoffender⟩ := ((Token.scan_eq_error_iff line error).mp h).1.getElem?_index
  have hindex : error.index < line.toList.length := (List.getElem?_eq_some_iff.mp hc).1
  let x := Report.excerpt line.toList error.index hindex
  exact ⟨hindex, x, c, Report.ofLine_eq _ _ hindex, hc, x.getElem?_column.trans hc, hoffender⟩

/-- In this line, characters are cut off on both sides of the dollar. -/
theorem caret_under_offence_dollar :
    let line := "- - - - - - $ - - - - - -"
    let error : LexicalError := .invalidCharacter 12 '$'
    Token.scan line = .error error ∧
      ∃ x : Report.Excerpt line.toList 12, x.shown[x.column]? = some '$' ∧
        (Failure.lexical line error).report =
          Report.join ("[Tokenizer error] " ++ error.message) (String.ofList x.shown)
            (Report.caret x.column) := by
  intro line error
  have hscan : Token.scan line = .error error := by
    simp [line, error, Token.scan, Token.scanFrom, isNumeric, Kind.ofSymbol?, Except.map]
  obtain ⟨-, x, c, hreport, -, hcolumn, hoffender⟩ := caret_under_offence hscan
  obtain rfl : '$' = c := Option.some.inj hoffender
  exact ⟨hscan, x, hcolumn, hreport⟩

end Abacus
