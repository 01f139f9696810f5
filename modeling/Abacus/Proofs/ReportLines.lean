import Abacus.Proofs.Sessions
import Abacus.Proofs.TidyLine
import Abacus.Proofs.Tidiness

/-!
# Reports keep to their lines

The report on a failure has three lines: what is wrong, the text where it is wrong, and a
caret.  Characters of the input go into the first two, so a line feed among them would
make the report longer.

There is none.  Reading a line leaves its line feed behind (`FirstLine.feed_not_mem`).
What is quoted has none, whatever it quotes (`oneLine_quote`); what is tidied up has only
characters that were there before (`thinned_tidy`), and the words of a scanned line are not
blank.  The same holds of the log in front of the report, so the error output of a call
that fails is lines of the log and then three lines (`failed_call_reports`).
-/

open Abacus.Stream

namespace Abacus

/-! ## Texts without a line feed -/

namespace Text

/-- The text has no line feed. -/
def OneLine (s : String) : Prop := '\n' ∉ s.toList

instance (s : String) : Decidable (OneLine s) := inferInstanceAs (Decidable ('\n' ∉ s.toList))

theorem OneLine.append {s t : String} (hs : OneLine s) (ht : OneLine t) : OneLine (s ++ t) := by
  rw [OneLine, String.toList_append, List.mem_append, not_or]
  exact ⟨hs, ht⟩

theorem oneLine_ofList {cs : List Char} (h : '\n' ∉ cs) : OneLine (String.ofList cs) := by
  rwa [OneLine, String.toList_ofList]

/-- What is joined by other characters has no line feed if its parts have none. -/
theorem feed_not_mem_intercalate {separator : List Char} {parts : List (List Char)}
    (hseparator : '\n' ∉ separator) (hparts : ∀ part ∈ parts, '\n' ∉ part) :
    '\n' ∉ separator.intercalate parts := by
  induction parts with
  | nil => simp
  | cons part parts ih =>
      obtain ⟨hpart, hparts⟩ := List.forall_mem_cons.mp hparts
      cases parts with
      | nil => simpa using hpart
      | cons next parts =>
          rw [List.intercalate_cons_cons]
          simp [hpart, hseparator, ih hparts]

/-- Digits are no line feeds, in any base. -/
theorem feed_not_mem_toDigits {base : Nat} (hbase : 1 < base) (n : Nat) :
    '\n' ∉ Nat.toDigits base n := by
  induction n using Nat.strongRecOn with
  | ind n ih =>
      have hdigit (d : Nat) : '\n' ≠ d.digitChar := (Nat.digitChar_ne '\n' (by decide)).symm
      rw [Nat.toDigits_eq_if hbase]
      split
      · simp [hdigit]
      · next hle =>
        have hlt : n / base < n := Nat.div_lt_self (by omega) hbase
        simp [ih _ hlt, hdigit]

theorem oneLine_toString (n : Nat) : OneLine (toString n) := by
  rw [Nat.toString_eq_ofList_toDigits]
  exact oneLine_ofList (feed_not_mem_toDigits (by decide) n)

/-- What stands for a character between quotation marks is no line feed. -/
theorem feed_not_mem_escape {mark : Char} (hmark : mark ≠ '\n') (c : Char) :
    '\n' ∉ escape mark c := by
  unfold escape
  split
  · next hc =>
    have hne : c ≠ '\n' := by
      rcases hc with rfl | rfl
      · exact hmark
      · decide
    simp [hne.symm]
  · split
    · decide
    · split
      · decide
      · next hfeed =>
        split
        · decide
        · split
          · simpa [eq_comm] using hfeed
          · have hhex (width : Nat) : '\n' ∉ hex width c.toNat := by
              simp [hex, feed_not_mem_toDigits, List.mem_replicate]
            unfold escapeCode
            split_ifs <;> simp [hhex]

/-- **A quoted text has no line feed**, whatever it quotes. -/
theorem oneLine_quote (s : String) : OneLine (quote s) := by
  have hmark : markFor s.toList ≠ '\n' := by
    unfold markFor
    split <;> decide
  apply oneLine_ofList
  simp only [quoteChars, List.mem_cons, List.mem_append, List.mem_flatMap, List.not_mem_nil,
    or_false, not_or, not_exists, not_and]
  exact ⟨⟨hmark.symm, fun c _ => feed_not_mem_escape hmark c⟩, hmark.symm⟩

end Text

open Text

/-! ## Numbers, tokens and messages -/

theorem Decimal.feed_not_mem_digits (d : Decimal) : '\n' ∉ d.digits :=
  feed_not_mem_toDigits (by decide) d.coefficient

theorem Decimal.feed_not_mem_positional {suffix : String} (hsuffix : OneLine suffix)
    (d : Decimal) : '\n' ∉ d.positional suffix := by
  have hdigits := d.feed_not_mem_digits
  have htake (n : Nat) : '\n' ∉ d.digits.take n := fun h => hdigits (List.mem_of_mem_take h)
  have hdrop (n : Nat) : '\n' ∉ d.digits.drop n := fun h => hdigits (List.mem_of_mem_drop h)
  have hsuffix : '\n' ∉ suffix.toList := hsuffix
  unfold positional
  split_ifs <;> simp [hdigits, htake, hdrop, hsuffix, List.mem_replicate]

theorem Decimal.feed_not_mem_scientific (d : Decimal) : '\n' ∉ d.scientific := by
  have hdigits := d.feed_not_mem_digits
  have htake : '\n' ∉ d.digits.take 1 := fun h => hdigits (List.mem_of_mem_take h)
  have htail : '\n' ∉ d.digits.tail := fun h => hdigits (List.mem_of_mem_tail h)
  have hexponent : '\n' ∉ exponentText d.exponent := by
    have hsign : '\n' ≠ (if d.exponent < 0 then '-' else '+') := by split <;> decide
    simp [exponentText, hsign, feed_not_mem_toDigits, List.mem_replicate]
  unfold scientific
  dsimp only
  split <;> simp [htake, htail, hexponent]

/-- A number is written on one line. -/
theorem Binary64.oneLine_text {style : Style} (hsuffix : OneLine style.wholeSuffix)
    (x : Binary64) : OneLine (x.text style) := by
  have hsign (negative : Bool) : '\n' ∉ signText negative := by cases negative <;> decide
  cases x with
  | nan => exact (by decide : OneLine "nan")
  | infinite negative =>
      apply oneLine_ofList
      simp [hsign]
  | finite negative m =>
      have hmagnitude : '\n' ∉ m.text style := by
        unfold Magnitude.text Decimal.layout
        split_ifs
        · exact Decimal.feed_not_mem_positional hsuffix _
        · exact Decimal.feed_not_mem_positional hsuffix _
        · exact Decimal.feed_not_mem_scientific _
      apply oneLine_ofList
      simp [hsign, hmagnitude]

theorem Kind.oneLine_name (k : Kind) : OneLine k.name := by
  cases k <;> decide

theorem Expr.oneLine_nodeName (e : Expr) : OneLine e.nodeName := by
  cases e with
  | number value => exact (by decide : OneLine "NumberLiteral")
  | unary op operand => exact (by decide : OneLine "UnaryOperation")
  | binary op left right => exact (by decide : OneLine "BinaryOperation")
  | foreign text => exact (by decide : OneLine "Foreign")

/-- What is wrong with the characters is said on one line. -/
theorem LexicalError.oneLine_message (error : LexicalError) : OneLine error.message := by
  cases error with
  | invalidCharacter index c => exact .append (by decide) (oneLine_quote _)
  | malformedNumber index run => exact .append (by decide) (oneLine_quote _)

/-- What is wrong with the order of tokens is said on one line. -/
theorem ParseError.oneLine_message {cause : ParseError} (h : cause.isInternal = false) :
    OneLine cause.message := by
  cases cause with
  | operandExpected found => exact .append (by decide) found.oneLine_name
  | expected wanted found =>
      exact .append (.append (.append (by decide) wanted.oneLine_name) (by decide))
        found.oneLine_name
  | trailing found => exact .append (.append (by decide) found.oneLine_name) (by decide)
  | nestingTooDeep => exact .append (.append (by decide) (oneLine_toString _)) (by decide)
  | _ => cases h

namespace Token

variable {ts : List Token}

/-- The tokens of a scanned line have no line feeds. -/
theorem Scans.oneLine_lexeme {position : Nat} {cs : List Char} (h : Scans position cs ts) :
    ∀ t ∈ ts, OneLine t.lexeme := by
  obtain ⟨words, rfl, hwords⟩ := h.exists_words
  intro t ht
  rcases List.mem_append.mp ht with hword | hend
  · intro hfeed
    have hblank : isBlank '\n' = true := by decide
    simp [(hwords t hword).not_isBlank _ hfeed] at hblank
  · rw [List.mem_singleton.mp hend]
    exact (by decide : OneLine "")

theorem oneLine_line (h : ∀ t ∈ ts, OneLine t.lexeme) : OneLine (line ts) := by
  apply oneLine_ofList
  intro hfeed
  have hjoined := (thinned_tidy _).sublist.subset hfeed
  exact feed_not_mem_intercalate (by decide) (List.forall_mem_map.mpr h) hjoined

theorem oneLine_textLine (h : ∀ t ∈ ts, OneLine t.lexeme) :
    OneLine (" ".intercalate (ts.map text)) := by
  rw [OneLine, String.toList_intercalate, List.map_map]
  apply feed_not_mem_intercalate (by decide)
  intro part hpart
  obtain ⟨t, ht, rfl⟩ := List.mem_map.mp hpart
  have htext : OneLine t.text :=
    .append (.append (.append (by decide) t.kind.oneLine_name) (by decide)) (h t ht)
  exact htext

end Token

/-! ## Lines that are read -/

namespace Stream

theorem dropFinal_sublist (c : Char) (cs : List Char) : (dropFinal c cs).Sublist cs := by
  unfold dropFinal
  split
  · exact List.dropLast_sublist cs
  · exact .refl cs

/-- What a line holds has no line feed. -/
theorem FirstLine.feed_not_mem {text line rest : List Char} (h : FirstLine text line rest) :
    '\n' ∉ content line := by
  intro hfeed
  have hbare : '\n' ∈ dropFinal '\n' line := (dropFinal_sublist _ _).subset hfeed
  cases h with
  | ended hbody =>
      rw [dropFinal_concat] at hbare
      exact hbody hbare
  | last hbody => exact hbody ((dropFinal_sublist _ _).subset hbare)

theorem Lines.feed_not_mem {text rest : List Char} {lines : List (List Char)}
    (h : Lines text lines rest) : ∀ line ∈ lines, '\n' ∉ content line := by
  induction h with
  | nil => simp
  | cons first tail ih => exact List.forall_mem_cons.mpr ⟨first.feed_not_mem, ih⟩

end Stream

/-! ## The lines of a report -/

/-- A text of three lines: what is wrong, the text where it is wrong, and a caret behind
any number of spaces. -/
structure IsReport (report header source marker : String) : Prop where
  eq_lines : report = header ++ "\n" ++ source ++ "\n" ++ marker ++ "\n"
  begins : "[Tokenizer error] ".toList <+: header.toList ∨ "Parser error: ".toList <+: header.toList
  oneLine_header : OneLine header
  oneLine_source : OneLine source
  marks : ∃ width, marker = String.ofList (List.replicate width ' ' ++ ['^'])

/-- Each of the three lines brings one line feed. -/
theorem IsReport.count_feed {report header source marker : String}
    (h : IsReport report header source marker) : report.toList.count '\n' = 3 := by
  obtain ⟨width, hmarker⟩ := h.marks
  have hheader : header.toList.count '\n' = 0 := List.count_eq_zero.mpr h.oneLine_header
  have hsource : source.toList.count '\n' = 0 := List.count_eq_zero.mpr h.oneLine_source
  have hcaret : marker.toList.count '\n' = 0 := by
    simp [hmarker, List.count_replicate]
  have hfeed : "\n".toList.count '\n' = 1 := by decide
  rw [h.eq_lines]
  simp only [String.toList_append, List.count_append, hheader, hsource, hcaret, hfeed]

namespace Report

/-- The report on a character has three lines. -/
theorem isReport_ofLine {message line : String} (hmessage : OneLine message)
    (hline : OneLine line) (index : Int) :
    ∃ header source marker, IsReport (ofLine message line index ++ "\n") header source marker := by
  have hslice (start stop : Int) : '\n' ∉ slice line.toList start stop :=
    fun hfeed => hline (List.mem_of_mem_take (List.mem_of_mem_drop hfeed))
  have hmark (cut : Prop) [Decidable cut] : OneLine (if cut then ellipsis else "") := by
    split <;> decide
  refine ⟨_, _, _, rfl, .inl ?_, .append (by decide) hmessage, ?_, _, rfl⟩
  · rw [String.toList_append]
    exact List.prefix_append _ _
  · exact .append (.append (hmark _) (oneLine_ofList (hslice _ _))) (hmark _)

/-- The report on a token has three lines. -/
theorem isReport_ofTokens {message : String} (hmessage : OneLine message) {ts : List Token}
    (hts : ∀ t ∈ ts, OneLine t.lexeme) (index : Int) :
    ∃ header source marker, IsReport (ofTokens message ts index ++ "\n") header source marker := by
  refine ⟨_, _, _, rfl, .inr ?_, .append (by decide) hmessage, Token.oneLine_line hts, _, rfl⟩
  rw [String.toList_append]
  exact List.prefix_append _ _

end Report

/-- **The report on a line has three lines.** -/
theorem exists_isReport {line : String} (hline : OneLine line) {failure : Failure}
    (h : calculate line = .error failure) :
    ∃ header source marker, IsReport (failure.report ++ "\n") header source marker := by
  cases hscan : Token.scan line with
  | error error =>
      rw [calculate_of_fault hscan] at h
      obtain rfl := Except.error.inj h
      exact Report.isReport_ofLine error.oneLine_message hline _
  | ok ts =>
      have hlexemes := (Token.scanFrom_eq_ok_iff.mp hscan).oneLine_lexeme
      have hvalues := (Token.scanFrom_eq_ok_iff.mp hscan).numbersHaveValues
      cases hparse : parse ts with
      | error m =>
          rw [calculate_of_misreading hscan hparse] at h
          obtain rfl := Except.error.inj h
          have hcause : m.cause.isInternal = false := Parser.not_internal_of_parse hvalues hparse
          rw [Failure.report, Failure.misreadingReport, hcause]
          exact Report.isReport_ofTokens (ParseError.oneLine_message hcause) hlexemes _
      | ok e =>
          obtain ⟨x, hx⟩ := exists_evaluate_of_parse hparse
          rw [calculate_of_value hscan hparse hx] at h
          cases h

/-! ## The lines of the log -/

namespace Session

/-- A line of the log: a warning or a detail, with a line feed only at its end. -/
def IsLogLine (entry : String) : Prop :=
  ∃ level logger message, (level = "WARNING" ∨ level = "DEBUG") ∧ OneLine logger ∧
    OneLine message ∧ entry = logLine level logger message

theorem isLogLine_detailLine {message : String} (h : OneLine message) :
    IsLogLine (detailLine message) :=
  ⟨"DEBUG", "calculator.runtime", message, .inr rfl, by decide, h, rfl⟩

/-- The log about a calculation has whole lines. -/
theorem isLogLine_of_details {line : String} {lines : List String} (h : Details line lines) :
    ∀ entry ∈ lines, IsLogLine entry := by
  have htokens {ts : List Token} (hscan : Token.scan line = .ok ts) :
      IsLogLine (detailLine ("tokens: " ++ " ".intercalate (ts.map Token.text))) := by
    have hlexemes := (Token.scanFrom_eq_ok_iff.mp hscan).oneLine_lexeme
    exact isLogLine_detailLine (.append (by decide) (Token.oneLine_textLine hlexemes))
  cases h with
  | unscanned hscan => simp
  | unread hscan hparse => exact List.forall_mem_singleton.mpr (htokens hscan)
  | @evaluated ts e x hscan hparse hvalue =>
      have hcount := oneLine_toString ts.length
      have hparsed : OneLine ("parsed " ++ toString ts.length ++ " tokens into " ++ e.nodeName) :=
        .append (.append (.append (by decide) hcount) (by decide)) e.oneLine_nodeName
      have hvalue : OneLine ("result: " ++ x.fullText) :=
        .append (by decide) (Binary64.oneLine_text (by decide) x)
      simp only [List.forall_mem_cons, List.not_mem_nil, false_imp_iff, implies_true, and_true]
      exact ⟨htokens hscan, isLogLine_detailLine hparsed, isLogLine_detailLine hvalue⟩

/-- The log about a setting has whole lines. -/
theorem isLogLine_of_warnings (mode : Mode) (threshold : Level) (setting : Option String) :
    ∀ entry ∈ warnings mode threshold setting, IsLogLine entry := by
  intro entry hentry
  cases setting with
  | none => cases hentry
  | some name =>
      rw [warnings] at hentry
      split at hentry
      · rw [List.mem_singleton.mp hentry]
        have hlogger : OneLine mode.logger := by cases mode <;> decide
        have hsetting : OneLine levelSetting := by decide
        refine ⟨"WARNING", mode.logger, _, .inl rfl, hlogger, ?_, rfl⟩
        exact .append (.append (.append (.append (by decide) hsetting) (by decide))
          (oneLine_quote name)) (by decide)
      · cases hentry

/-- **A reply to a failure** is lines of the log and then a report. -/
theorem reply_reports {mode : Mode} {threshold : Level} {setting : Option String} {line : String}
    (hline : OneLine line) (hexit : (reply mode threshold setting line).exit = 1) :
    ∃ log report header source marker,
      (reply mode threshold setting line).errors = String.join log ++ report ∧
      (∀ entry ∈ log, IsLogLine entry) ∧ IsReport report header source marker := by
  cases hvalue : calculate line with
  | ok x =>
      rw [(exit_reply_eq_zero_iff mode threshold setting line).mpr ⟨x, hvalue⟩] at hexit
      cases hexit
  | error failure =>
      obtain ⟨header, source, marker, hreport⟩ := exists_isReport hline hvalue
      refine ⟨warnings mode threshold setting ++
        details threshold (Calculation.ofLine line).milestones, _, header, source, marker, ?_, ?_,
        hreport⟩
      · rw [errors_reply, hvalue, String.join_append]
        simp [complaints, String.join_cons]
      · intro entry hentry
        rcases List.mem_append.mp hentry with hwarning | hdetail
        · exact isLogLine_of_warnings mode threshold setting entry hwarning
        · rw [details] at hdetail
          split at hdetail
          · exact isLogLine_of_details (details_milestones line) entry hdetail
          · cases hdetail

/-- **A call that fails prints a report of three lines** behind the lines of its log,
whatever is in the line that it read. -/
theorem failed_call_reports (mode : Mode) (input : String) (settings : List (Option String))
    {r : Reply} (hr : r ∈ ((start mode input).calls mode settings).1) (hexit : r.exit = 1) :
    ∃ log report header source marker, r.errors = String.join log ++ report ∧
      (∀ entry ∈ log, IsLogLine entry) ∧ IsReport report header source marker ∧
      report.toList.count '\n' = 3 := by
  obtain ⟨lines, rest, hlines, hlength⟩ :=
    Lines.exists_of_length settings.length (start mode input).input
  obtain ⟨threshold, setting, line, hline, rfl⟩ := exists_reply_of_mem hlines hlength hr
  have hfeed := oneLine_ofList (hlines.feed_not_mem line hline)
  obtain ⟨log, report, header, source, marker, herrors, hlog, hreport⟩ :=
    reply_reports hfeed hexit
  exact ⟨log, report, header, source, marker, herrors, hlog, hreport, hreport.count_feed⟩

/-- The second call reads `a`, which has no value. -/
theorem failed_call_reports_second :
    let run := (start .embedded "1\na\n").calls .embedded [some "loud", none]
    ∃ r ∈ run.1, r.exit = 1 ∧ ∃ log report header source marker,
      r.errors = String.join log ++ report ∧ (∀ entry ∈ log, IsLogLine entry) ∧
      IsReport report header source marker ∧ report.toList.count '\n' = 3 := by
  intro run
  let r := reply .embedded .warning none "a"
  have hr : r ∈ run.1 := List.mem_cons_of_mem _ (List.mem_singleton.mpr rfl)
  have hscan : Token.scan "a" = .error (.invalidCharacter 0 'a') := by
    simp [Token.scan, Token.scanFrom, isNumeric, Kind.ofSymbol?]
  have hexit : r.exit = 1 := by simp [r, reply, Calculation.ofLine, hscan]
  exact ⟨r, hr, hexit, failed_call_reports .embedded _ _ hr hexit⟩

end Session

end Abacus
