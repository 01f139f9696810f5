import Abacus.Session.Basic
import Abacus.Proofs.Lines
import Abacus.Proofs.Totality

/-!
# Calls one after the other

Calls share the input, of which each reads one line, and the threshold of the log, which
the first one sets.  So a run of calls falls apart into replies to the single lines, all
with one threshold (`calls_of_lines`).

What a call answers is a matter of its line alone (`calls_answer_lines`).  What it writes
to the error output depends on three things besides: the threshold, its own setting, and
how far the calculation came (`calls_errors`).
-/

open Abacus.Stream

namespace Abacus

namespace Session

variable {s : Session} {threshold : Level} {settings : List (Option String)}

/-- The replies to lines that were read with some settings. -/
def replies (mode : Mode) (threshold : Level) (settings : List (Option String))
    (lines : List (List Char)) : List Reply :=
  List.zipWith (fun setting line => reply mode threshold setting (String.ofList (content line)))
    settings lines

/-- The first call of a run takes this threshold. -/
def Begins (s : Session) (threshold : Level) (settings : List (Option String)) : Prop :=
  ∀ setting ∈ settings.head?, s.thresholdFor setting = threshold

/-- Every run has a threshold. -/
theorem exists_begins (s : Session) (settings : List (Option String)) :
    ∃ threshold, s.Begins threshold settings := by
  cases settings with
  | nil => exact ⟨.warning, by simp [Begins]⟩
  | cons setting settings => exact ⟨s.thresholdFor setting, by simp [Begins]⟩

/-- A threshold that is set stays. -/
theorem begins_of_threshold (h : s.threshold = some threshold) (settings : List (Option String)) :
    s.Begins threshold settings := by
  intro setting _
  simp [thresholdFor, h]

/-- **One call** replies to the first line, sets the threshold, and leaves what is behind
the line. -/
theorem call_of_firstLine (mode : Mode) {line rest : List Char} {setting : Option String}
    (hline : FirstLine s.input line rest) (hthreshold : s.thresholdFor setting = threshold) :
    s.call mode setting =
      (reply mode threshold setting (String.ofList (content line)), ⟨some threshold, rest⟩) := by
  simp [call, hthreshold, hline.nextLine_eq]

/-- **A run of calls** replies to one line after the other, with one threshold, and leaves
what is behind them. -/
theorem calls_of_lines (mode : Mode) {text rest : List Char} {lines : List (List Char)}
    (hlines : Lines text lines rest) (hinput : s.input = text)
    (hlength : lines.length = settings.length) (hbegins : s.Begins threshold settings) :
    (s.calls mode settings).1 = replies mode threshold settings lines ∧
      (s.calls mode settings).2.input = rest := by
  induction hlines generalizing s settings with
  | nil =>
      obtain rfl := List.eq_nil_of_length_eq_zero hlength.symm
      exact ⟨rfl, hinput⟩
  | @cons text line middle rest lines first tail ih =>
      cases settings with
      | nil => cases hlength
      | cons setting settings =>
          subst hinput
          let next : Session := ⟨some threshold, middle⟩
          have hcall : s.call mode setting = (_, next) :=
            call_of_firstLine mode first (hbegins setting rfl)
          have hnext : next.Begins threshold settings := begins_of_threshold rfl settings
          have htail := ih rfl (Nat.succ.inj hlength) hnext
          simpa [calls, hcall, replies] using htail

/-- All replies of a run are replies to lines that it read. -/
theorem exists_reply_of_mem {mode : Mode} {lines : List (List Char)} {rest : List Char}
    (hlines : Lines s.input lines rest) (hlength : lines.length = settings.length) {r : Reply}
    (hr : r ∈ (s.calls mode settings).1) :
    ∃ threshold setting, ∃ line ∈ lines,
      r = reply mode threshold setting (String.ofList (content line)) := by
  obtain ⟨threshold, hbegins⟩ := s.exists_begins settings
  rw [(calls_of_lines mode hlines rfl hlength hbegins).1] at hr
  obtain ⟨k, hk⟩ := List.mem_iff_getElem?.mp hr
  obtain ⟨setting, line, -, hline, rfl⟩ := List.getElem?_zipWith_eq_some.mp hk
  exact ⟨threshold, setting, line, List.mem_of_getElem? hline, rfl⟩

/-- A reply of a run is the one to the line that its call read. -/
theorem reply_of_calls {mode : Mode} {text rest : List Char} {lines : List (List Char)}
    (hlines : Lines text lines rest) (hinput : s.input = text)
    (hlength : lines.length = settings.length) (hbegins : s.Begins threshold settings)
    {k : Nat} {setting : Option String} {line : List Char} {r : Reply}
    (hsetting : settings[k]? = some setting) (hline : lines[k]? = some line)
    (hreply : (s.calls mode settings).1[k]? = some r) :
    r = reply mode threshold setting (String.ofList (content line)) := by
  rw [(calls_of_lines mode hlines hinput hlength hbegins).1, replies, List.getElem?_zipWith,
    hsetting, hline] at hreply
  exact (Option.some.inj hreply).symm

end Session

/-! ## What a call answers -/

/-- A reply to a line: the value of the line or, behind the log, the report on a failure that
is not an internal one. -/
inductive Reply.Answers (line : String) : Reply → Prop
  | value {x : Binary64} {log : String} (h : calculate line = .ok x) :
      Answers line ⟨0, x.format ++ "\n", log⟩
  | failure {failure : Failure} {log : String} (h : calculate line = .error failure)
      (hreported : failure.isInternal = false) :
      Answers line ⟨1, "", log ++ failure.report ++ "\n"⟩

/-- What a reply shows apart from the error output. -/
def Reply.visible (r : Reply) : Nat × String := (r.exit, r.output)

/-- The exit status and the output for a line: its value, or nothing. -/
def answerTo (line : List Char) : Nat × String :=
  match calculate (String.ofList (content line)) with
  | .ok x => (0, x.format ++ "\n")
  | .error _ => (1, "")

namespace Session

/-- **No line is replied to with an internal failure.** -/
theorem answers_reply (mode : Mode) (threshold : Level) (setting : Option String)
    (line : String) : (reply mode threshold setting line).Answers line := by
  have hanswer := isAnswer_calculate line
  cases hvalue : (Calculation.ofLine line).outcome with
  | ok x =>
      simp only [reply, hvalue]
      exact .value hvalue
  | error failure =>
      rw [calculate, hvalue] at hanswer
      simp only [reply, hvalue]
      exact .failure hvalue hanswer.not_internal

/-- Neither the threshold nor the setting has a part in what a reply shows. -/
theorem visible_reply (mode : Mode) (threshold : Level) (setting : Option String)
    (line : List Char) :
    (reply mode threshold setting (String.ofList (content line))).visible = answerTo line := by
  have hanswers := answers_reply mode threshold setting (String.ofList (content line))
  generalize reply mode threshold setting (String.ofList (content line)) = r at hanswers ⊢
  unfold answerTo
  cases hanswers with
  | value h => rw [h]; rfl
  | failure h hreported => rw [h]; rfl

/-- **No call comes to an internal failure**, whatever it reads: each one replies with the
value of its line or with the report on a failure of it. -/
theorem calls_answer {mode : Mode} {s : Session} {settings : List (Option String)}
    {lines : List (List Char)} {rest : List Char} (hlines : Lines s.input lines rest)
    (hlength : lines.length = settings.length) {r : Reply}
    (hr : r ∈ (s.calls mode settings).1) :
    ∃ line ∈ lines, r.Answers (String.ofList (content line)) := by
  obtain ⟨threshold, setting, line, hline, rfl⟩ := exists_reply_of_mem hlines hlength hr
  exact ⟨line, hline, answers_reply mode threshold setting _⟩

theorem visible_replies {mode : Mode} {threshold : Level} {settings : List (Option String)}
    {lines : List (List Char)} (hlength : lines.length = settings.length) :
    (replies mode threshold settings lines).map Reply.visible = lines.map answerTo := by
  induction lines generalizing settings with
  | nil => simp [replies]
  | cons line lines ih =>
      cases settings with
      | nil => cases hlength
      | cons setting settings =>
          have htail := ih (Nat.succ.inj hlength)
          simpa [replies, visible_reply] using htail

/-- Calls show what their lines are answered with, and leave what is behind the lines. -/
theorem visible_calls (mode : Mode) {s : Session} {settings : List (Option String)}
    {lines : List (List Char)} {rest : List Char} (hlines : Lines s.input lines rest)
    (hlength : lines.length = settings.length) :
    (s.calls mode settings).1.map Reply.visible = lines.map answerTo ∧
      (s.calls mode settings).2.input = rest := by
  obtain ⟨threshold, hbegins⟩ := s.exists_begins settings
  obtain ⟨hreplies, hrest⟩ := calls_of_lines mode hlines rfl hlength hbegins
  rw [hreplies]
  exact ⟨visible_replies hlength, hrest⟩

/-- **What calls answer is a matter of their lines.**  The k-th call of a session reads
the k-th line of its input and leaves what is behind it.  It ends with status zero and
shows the value of what the line holds, or with status one and shows nothing.  With other
settings, as many, the calls answer the same and leave the same. -/
theorem calls_answer_lines (mode : Mode) (input : String) (settings : List (Option String)) :
    let run := (start mode input).calls mode
    ∃ lines : List (List Char), lines.length = settings.length ∧
      (∀ k ≤ settings.length, Lines (mode.receive input.toList) (lines.take k)
        (run (settings.take k)).2.input) ∧
      (run settings).1.map Reply.visible = lines.map answerTo ∧
      (∀ line ∈ lines, ∃ bare, WithoutFinal '\n' line bare ∧
        WithoutFinal '\r' bare (content line)) ∧
      ∀ others, others.length = settings.length →
        (run others).1.map Reply.visible = (run settings).1.map Reply.visible ∧
          (run others).2.input = (run settings).2.input := by
  intro run
  obtain ⟨lines, rest, hlines, hlength⟩ :=
    Lines.exists_of_length settings.length (start mode input).input
  obtain ⟨hvisible, hrest⟩ := visible_calls mode hlines hlength
  refine ⟨lines, hlength, ?_, hvisible, fun line _ => exists_bare line, ?_⟩
  · intro k hk
    obtain ⟨middle, htake, -⟩ := hlines.take k
    have hshort : (lines.take k).length = (settings.take k).length := by
      rw [List.length_take, List.length_take, hlength]
    have hmiddle : (run (settings.take k)).2.input = middle := (visible_calls mode htake hshort).2
    rw [hmiddle]
    exact htake
  · intro others hothers
    obtain ⟨hvisible', hrest'⟩ := visible_calls mode hlines (hlength.trans hothers.symm)
    exact ⟨hvisible'.trans hvisible.symm, hrest'.trans hrest.symm⟩

end Session

/-! ## What a call writes to the error output -/

/-- A line of the log about a calculation. -/
def detailLine (message : String) : String := "DEBUG calculator.runtime: " ++ message ++ "\n"

/-- The lines of the log about the calculation of a line: the tokens if it is scanned,
then the tree if the tokens are read, and then the value. -/
inductive Details (line : String) : List String → Prop
  | unscanned {error : LexicalError} (hscan : Token.scan line = .error error) : Details line []
  | unread {ts : List Token} {m : Misreading} (hscan : Token.scan line = .ok ts)
      (hparse : parse ts = .error m) :
      Details line [detailLine ("tokens: " ++ " ".intercalate (ts.map Token.text))]
  | evaluated {ts : List Token} {e : Expr} {x : Binary64} (hscan : Token.scan line = .ok ts)
      (hparse : parse ts = .ok e) (hvalue : e.evaluate = .ok x) :
      Details line [detailLine ("tokens: " ++ " ".intercalate (ts.map Token.text)),
        detailLine ("parsed " ++ toString ts.length ++ " tokens into " ++ e.nodeName),
        detailLine ("result: " ++ x.fullText)]

/-- The error output of a call with this setting that calculates the line, under the
threshold: a warning, details of the calculation, and a complaint, each if there is one. -/
structure Reply.WritesErrors (mode : Mode) (threshold : Level) (setting : Option String)
    (line : String) (r : Reply) (warning details complaint : List String) : Prop where
  errors_eq : r.errors = String.join (warning ++ details ++ complaint)
  /-- A name that is not known is warned about, if the log takes warnings. -/
  warned : ∀ name, setting = some name → Level.resolve? setting = none →
    threshold.severity ≤ Level.warning.severity →
    warning = ["WARNING " ++ mode.logger ++ ": Unknown log level CALCULATOR_LOG_LEVEL=" ++
      Text.quote name ++ ", using WARNING\n"]
  not_warned : setting = none ∨ Level.resolve? setting ≠ none ∨
    Level.warning.severity < threshold.severity → warning = []
  detailed : threshold.severity ≤ Level.debug.severity → Details line details
  not_detailed : Level.debug.severity < threshold.severity → details = []
  complained : ∀ failure, calculate line = .error failure → complaint = [failure.report ++ "\n"]
  not_complained : ∀ x, calculate line = .ok x → complaint = []
  /-- All details are told exactly to a log that takes them, about a line with a value. -/
  complete : details.length = 3 ↔ r.exit = 0 ∧ threshold.severity ≤ Level.debug.severity

namespace Session

/-- The milestones of a calculation are its details. -/
theorem details_milestones (line : String) :
    Details line ((Calculation.ofLine line).milestones.map milestoneLine) := by
  cases hscan : Token.scan line with
  | error error =>
      have hnone : (Calculation.ofLine line).milestones = [] := by
        simp [Calculation.ofLine, hscan]
      rw [hnone]
      exact .unscanned hscan
  | ok ts =>
      cases hparse : parse ts with
      | error m =>
          have hone : (Calculation.ofLine line).milestones = [.scanned ts] := by
            simp [Calculation.ofLine, Calculation.ofTokens, hscan, hparse]
          rw [hone]
          exact .unread hscan hparse
      | ok e =>
          obtain ⟨x, hx⟩ := exists_evaluate_of_parse hparse
          have hall : (Calculation.ofLine line).milestones =
              [.scanned ts, .parsed ts.length e, .evaluated x] := by
            simp [Calculation.ofLine, Calculation.ofTokens, Calculation.ofExpr, hscan, hparse, hx]
          rw [hall]
          exact .evaluated hscan hparse hx

/-- A warning about the setting, if it is a name that is not known and the log takes
warnings. -/
def warnings (mode : Mode) (threshold : Level) : Option String → List String
  | none => []
  | some name =>
    if Level.ofName? name = none ∧ threshold.severity ≤ Level.warning.severity then
      [unknownLevel mode name]
    else []

/-- The details of a calculation, if the log takes them. -/
def details (threshold : Level) (milestones : List Milestone) : List String :=
  if threshold.severity ≤ Level.debug.severity then milestones.map milestoneLine else []

/-- The report on a failure. -/
def complaints : Except Failure Binary64 → List String
  | .ok _ => []
  | .error failure => [failure.report ++ "\n"]

theorem levelLog_eq (mode : Mode) (threshold : Level) (setting : Option String) :
    levelLog mode threshold setting = String.join (warnings mode threshold setting) := by
  cases setting with
  | none => rfl
  | some name =>
      simp only [levelLog, warnings, Level.writes, Bool.and_eq_true, Option.isNone_iff_eq_none,
        decide_eq_true_eq]
      split
      · simp [String.join_cons]
      · rfl

theorem calculationLog_eq (threshold : Level) (milestones : List Milestone) :
    calculationLog threshold milestones = String.join (details threshold milestones) := by
  simp only [calculationLog, details, Level.writes, decide_eq_true_eq]
  split <;> rfl

theorem errors_reply (mode : Mode) (threshold : Level) (setting : Option String) (line : String) :
    (reply mode threshold setting line).errors =
      String.join (warnings mode threshold setting ++
        details threshold (Calculation.ofLine line).milestones ++ complaints (calculate line)) := by
  rw [reply, calculate, String.join_append, String.join_append, ← levelLog_eq, ← calculationLog_eq]
  cases (Calculation.ofLine line).outcome with
  | ok x => simp [complaints]
  | error failure => simp [complaints, String.join_cons, String.append_assoc]

theorem unknownLevel_eq (mode : Mode) (name : String) :
    unknownLevel mode name =
      "WARNING " ++ mode.logger ++ ": Unknown log level CALCULATOR_LOG_LEVEL=" ++
        Text.quote name ++ ", using WARNING\n" := by
  rw [← String.toList_inj]
  simp [unknownLevel, logLine, levelSetting]

/-- All three details are told about a line with a value, and about no other. -/
theorem length_details_iff {line : String} {lines : List String} (h : Details line lines) :
    lines.length = 3 ↔ ∃ x, calculate line = .ok x := by
  cases h with
  | unscanned hscan => simp [calculate, Calculation.ofLine, hscan]
  | unread hscan hparse => simp [calculate, Calculation.ofLine, Calculation.ofTokens, hscan, hparse]
  | evaluated hscan hparse hvalue =>
      simp [calculate, Calculation.ofLine, Calculation.ofTokens, Calculation.ofExpr, hscan, hparse,
        hvalue]

theorem exit_reply_eq_zero_iff (mode : Mode) (threshold : Level) (setting : Option String)
    (line : String) :
    (reply mode threshold setting line).exit = 0 ↔ ∃ x, calculate line = .ok x := by
  have hanswers := answers_reply mode threshold setting line
  generalize reply mode threshold setting line = r at hanswers ⊢
  cases hanswers with
  | value h => simp [h]
  | failure h hreported => simp [h]

/-- **One reply** writes a warning, details and a complaint. -/
theorem writesErrors_reply (mode : Mode) (threshold : Level) (setting : Option String)
    (line : String) :
    (reply mode threshold setting line).WritesErrors mode threshold setting line
      (warnings mode threshold setting) (details threshold (Calculation.ofLine line).milestones)
      (complaints (calculate line)) where
  errors_eq := errors_reply mode threshold setting line
  warned := by
    rintro name rfl hunknown hle
    rw [warnings, if_pos ⟨hunknown, hle⟩, unknownLevel_eq]
  not_warned := by
    intro h
    cases setting with
    | none => rfl
    | some name =>
        refine if_neg fun hwarned => ?_
        rcases h with hnone | hknown | hlt
        · cases hnone
        · exact hknown hwarned.1
        · exact absurd hwarned.2 (Nat.not_le_of_lt hlt)
  detailed := by
    intro hle
    rw [details, if_pos hle]
    exact details_milestones line
  not_detailed := fun hlt => if_neg (Nat.not_le_of_lt hlt)
  complained := by
    intro failure hfailure
    rw [hfailure, complaints]
  not_complained := by
    intro x hx
    rw [hx, complaints]
  complete := by
    rw [exit_reply_eq_zero_iff]
    by_cases hle : threshold.severity ≤ Level.debug.severity
    · rw [details, if_pos hle, length_details_iff (details_milestones line)]
      simp [hle]
    · simp [details, hle]

/-- **What calls write to the error output.**  The first call of a session sets the
threshold of all its calls, by its setting or, if there is none or it is not known, at the
level of warnings.  Each call then writes, in this order, a warning about a setting of its
own that is not known, the details of its calculation as far as that came, and the report
on a failure. -/
theorem calls_errors (mode : Mode) (input : String) (first : Option String)
    (settings : List (Option String)) :
    let run := (start mode input).calls mode (first :: settings)
    let threshold := (Level.resolve? first).getD .warning
    ∃ lines : List (List Char), Lines (mode.receive input.toList) lines run.2.input ∧
      lines.length = settings.length + 1 ∧ run.1.length = settings.length + 1 ∧
      ∀ (k : Nat) (setting : Option String) (line : List Char) (r : Reply),
        (first :: settings)[k]? = some setting → lines[k]? = some line → run.1[k]? = some r →
        ∃ warning details complaint, r.WritesErrors mode threshold setting
          (String.ofList (content line)) warning details complaint := by
  intro run threshold
  obtain ⟨lines, rest, hlines, hlength⟩ :=
    Lines.exists_of_length (first :: settings).length (start mode input).input
  have hbegins : (start mode input).Begins threshold (first :: settings) := by
    simp [Begins, start, thresholdFor, threshold]
  obtain ⟨hreplies, hrest⟩ := calls_of_lines mode hlines rfl hlength hbegins
  have hcount : run.1.length = settings.length + 1 := by
    simp only [run, hreplies, replies, List.length_zipWith, hlength, Nat.min_self,
      List.length_cons]
  have hlines : Lines (mode.receive input.toList) lines run.2.input := hrest ▸ hlines
  refine ⟨lines, hlines, hlength, hcount, ?_⟩
  intro k setting line r hsetting hline hreply
  have hr := reply_of_calls hlines rfl hlength hbegins hsetting hline hreply
  rw [hr]
  exact ⟨_, _, _, writesErrors_reply mode threshold setting (String.ofList (content line))⟩

end Session

end Abacus
