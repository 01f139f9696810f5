import Abacus.Proofs.Sessions

/-!
# Lines that end in two characters

Some texts end their lines with a carriage return and a line feed.  A standard stream
takes the two for one line feed before anything is read.  A stream of the caller's own
leaves them, and then reading drops the carriage return with the line feed.

The key local fact is `FirstLine.unifyNewlines`: if every carriage return of a text is
followed by a line feed, then the first line holds the same in both streams, and what is
behind it is again such a text, taken so.  By induction all lines hold the same, and calls
cannot tell the streams apart (`calls_unifyNewlines`).
-/

open Abacus.Stream

namespace Abacus

namespace Stream

/-- Behind every carriage return stands a line feed. -/
def ReturnsPaired (text : List Char) : Prop :=
  ∀ before after, text = before ++ '\r' :: after → after.head? = some '\n'

/-- The text with a line feed for every carriage return and line feed. -/
def pairsReplaced : List Char → List Char
  | [] => []
  | '\r' :: '\n' :: cs => '\n' :: pairsReplaced cs
  | c :: cs => c :: pairsReplaced cs

variable {text line rest body bare : List Char} {lines : List (List Char)}

/-- What is behind a part of such a text is such a text. -/
theorem ReturnsPaired.of_append (before : List Char) (h : ReturnsPaired (before ++ text)) :
    ReturnsPaired text := by
  intro middle after htext
  apply h (before ++ middle)
  rw [htext, List.append_assoc]

/-- Without a carriage return by itself there are only pairs to replace. -/
theorem ReturnsPaired.unifyNewlines_eq (h : ReturnsPaired text) :
    unifyNewlines text = pairsReplaced text := by
  induction text using pairsReplaced.induct with
  | case1 => rfl
  | case2 cs ih =>
      have hcs : ReturnsPaired cs := ReturnsPaired.of_append ['\r', '\n'] h
      rw [unifyNewlines, pairsReplaced, ih hcs]
  | case3 c cs hpair ih =>
      have hcs : ReturnsPaired cs := ReturnsPaired.of_append [c] h
      have hc : c ≠ '\r' := by
        rintro rfl
        obtain ⟨more, rfl⟩ := List.head?_eq_some_iff.mp (h [] cs rfl)
        exact hpair more rfl rfl
      rw [unifyNewlines, pairsReplaced, if_neg hc, ih hcs]
      all_goals exact hpair

/-- What has no carriage return is left as it is. -/
theorem unifyNewlines_append (hbare : '\r' ∉ bare) (rest : List Char) :
    unifyNewlines (bare ++ rest) = bare ++ unifyNewlines rest := by
  induction bare with
  | nil => rfl
  | cons c bare ih =>
      rw [List.mem_cons, not_or] at hbare
      obtain ⟨hc, hbare⟩ := hbare
      have hc : c ≠ '\r' := Ne.symm hc
      rw [List.cons_append, unifyNewlines, if_neg hc, ih hbare, List.cons_append]
      intro more hreturn
      exact absurd hreturn hc

/-! ## What a line holds -/

/-- In front of a line feed, a carriage return can only be the last character. -/
theorem ReturnsPaired.exists_bare (h : ReturnsPaired (body ++ '\n' :: rest))
    (hbody : '\n' ∉ body) : ∃ bare, '\r' ∉ bare ∧ (body = bare ∨ body = bare ++ ['\r']) := by
  by_cases hreturn : '\r' ∈ body
  · obtain ⟨bare, more, rfl, hbare⟩ := List.eq_append_cons_of_mem hreturn
    have hfeed : (more ++ '\n' :: rest).head? = some '\n' := by
      apply h bare
      rw [List.append_assoc, List.cons_append]
    cases more with
    | nil => exact ⟨bare, hbare, .inr rfl⟩
    | cons c more =>
        obtain rfl : c = '\n' := Option.some.inj hfeed
        exact absurd (by simp) hbody
  · exact ⟨body, hreturn, .inl rfl⟩

/-- **The first line holds the same** where pairs are taken for line feeds. -/
theorem FirstLine.unifyNewlines (h : FirstLine text line rest) (hpaired : ReturnsPaired text) :
    ∃ line', FirstLine (unifyNewlines text) line' (unifyNewlines rest) ∧
      content line' = content line := by
  cases h with
  | @ended body rest hbody =>
      obtain ⟨bare, hreturn, hends⟩ := hpaired.exists_bare hbody
      have hbare : '\n' ∉ bare := by
        rcases hends with rfl | rfl
        · exact hbody
        · exact fun hfeed => hbody (List.mem_append_left _ hfeed)
      have hunified : Stream.unifyNewlines (body ++ '\n' :: rest) =
          bare ++ '\n' :: Stream.unifyNewlines rest := by
        rcases hends with rfl | rfl
        · rw [unifyNewlines_append hreturn]
          rfl
        · rw [List.append_assoc, unifyNewlines_append hreturn]
          rfl
      have hcontent : content (body ++ ['\n']) = bare := by
        rcases hends with rfl | rfl
        · exact content_feed (getLast?_ne_of_not_mem hreturn)
        · exact content_pair bare
      refine ⟨bare ++ ['\n'], ?_, ?_⟩
      · rw [hunified]
        exact .ended hbare
      · rw [hcontent, content_feed (getLast?_ne_of_not_mem hreturn)]
  | last hbody =>
      have hreturn : '\r' ∉ text := by
        intro hreturn
        obtain ⟨before, after, rfl⟩ := List.append_of_mem hreturn
        have hfeed := List.mem_of_mem_head? (hpaired before after rfl)
        exact hbody (by simp [hfeed])
      have hunified : Stream.unifyNewlines text = text := by
        simpa [Stream.unifyNewlines] using unifyNewlines_append hreturn []
      rw [hunified]
      exact ⟨text, .last hbody, rfl⟩

/-- A text is its first line and what is behind it. -/
theorem FirstLine.eq_append (h : FirstLine text line rest) : text = line ++ rest := by
  cases h with
  | ended hbody => simp
  | last hbody => simp

/-- **All lines hold the same** where pairs are taken for line feeds. -/
theorem Lines.unifyNewlines (h : Lines text lines rest) (hpaired : ReturnsPaired text) :
    ReturnsPaired rest ∧ ∃ lines', Lines (unifyNewlines text) lines' (unifyNewlines rest) ∧
      lines'.map content = lines.map content := by
  induction h with
  | nil => exact ⟨hpaired, [], .nil, rfl⟩
  | @cons text line middle rest lines first tail ih =>
      obtain ⟨line', hfirst, hcontent⟩ := first.unifyNewlines hpaired
      have hmiddle : ReturnsPaired middle := .of_append line (first.eq_append ▸ hpaired)
      obtain ⟨hrest, lines', hlines, hcontents⟩ := ih hmiddle
      refine ⟨hrest, line' :: lines', .cons hfirst hlines, ?_⟩
      rw [List.map_cons, List.map_cons, hcontent, hcontents]

end Stream

namespace Session

/-- A reply depends on the mode only for the name under which the log speaks. -/
theorem reply_congr {mode mode' : Mode} (h : mode.logger = mode'.logger) (threshold : Level)
    (setting : Option String) (line : String) :
    reply mode threshold setting line = reply mode' threshold setting line := by
  have hlog : levelLog mode threshold setting = levelLog mode' threshold setting := by
    cases setting with
    | none => rfl
    | some name => rw [levelLog, levelLog, unknownLevel, unknownLevel, h]
  rw [reply, reply, hlog]

/-- Replies depend on the lines only for what these hold. -/
theorem replies_congr {mode mode' : Mode} (hlogger : mode.logger = mode'.logger)
    (threshold : Level) (settings : List (Option String)) {lines lines' : List (List Char)}
    (h : lines.map content = lines'.map content) :
    replies mode threshold settings lines = replies mode' threshold settings lines' := by
  have hreplies : ∀ mode lines, replies mode threshold settings lines =
      List.zipWith (fun setting bare => reply mode threshold setting (String.ofList bare))
        settings (lines.map content) := by
    intro mode lines
    rw [List.zipWith_map_right, replies]
  rw [hreplies, hreplies, h]
  simp only [reply_congr hlogger]

/-- **Calls do not tell one line ending from two characters.**  If every carriage return of
the input has a line feed behind it, calls on streams of the caller's own and calls on the
standard streams write the same and end alike.  What they leave differs only in that a
standard stream has a line feed for each carriage return and line feed. -/
theorem calls_unifyNewlines {input : String} (hpaired : ReturnsPaired input.toList)
    (settings : List (Option String)) :
    let plain := (start .embedded input).calls .embedded settings
    let unified := (start .standard input).calls .standard settings
    unified.1 = plain.1 ∧ unified.2.input = pairsReplaced plain.2.input := by
  intro plain unified
  obtain ⟨lines, rest, hlines, hlength⟩ :=
    Lines.exists_of_length settings.length input.toList
  obtain ⟨hrest, lines', hlines', hcontents⟩ := hlines.unifyNewlines hpaired
  have hlength' : lines'.length = settings.length := by
    rw [← hlength]
    simpa using congrArg List.length hcontents
  obtain ⟨threshold, hbegins⟩ := (start .embedded input).exists_begins settings
  have hplain := calls_of_lines .embedded hlines rfl hlength hbegins
  have hunified :=
    calls_of_lines .standard (s := start .standard input) hlines' rfl hlength' hbegins
  constructor
  · rw [hunified.1, hplain.1]
    exact replies_congr rfl threshold settings hcontents
  · rw [hunified.2, hplain.2]
    exact hrest.unifyNewlines_eq

/-- Two calls leave the third line, and the first line ends in two characters. -/
theorem calls_unifyNewlines_twice :
    let input := "1\r\n+\n2\r\n"
    let settings : List (Option String) := [some "debug", some "loud"]
    let plain := (start .embedded input).calls .embedded settings
    let unified := (start .standard input).calls .standard settings
    ReturnsPaired input.toList ∧ unified.1 = plain.1 ∧
      unified.2.input = pairsReplaced plain.2.input := by
  intro input settings plain unified
  have hpaired : ReturnsPaired input.toList := by
    intro before after hsplit
    have hafter : after = ['\n', '+', '\n', '2', '\r', '\n'] ∨ after = ['\n'] := by
      simp only [input, String.reduceToList, List.cons_eq_append_iff,
        List.nil_eq_append_iff] at hsplit
      grind
    rcases hafter with rfl | rfl
    · rfl
    · rfl
  exact ⟨hpaired, calls_unifyNewlines hpaired settings⟩

end Session

end Abacus
