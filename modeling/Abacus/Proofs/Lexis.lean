import Abacus.Proofs.Scanning

/-!
# Which lines can be scanned

A line is sound if it has no offence: no character from outside the alphabet, and
no run of digits and points, taken as long as it is, without a digit or with two
points.  Scanning answers with the first offence of a line, and with tokens if
there is none (`scan_exact`).

Offences are described by what stands before and behind them in the whole line.
The work is to see that they fall apart along the pieces of the line: a piece
that is no offence itself neither hides one nor makes one.
-/

namespace Abacus

/-- The characters that a line may hold. -/
def InAlphabet (c : Char) : Prop :=
  c.isDigit = true ∨ c ∈ ['.', '+', '-', '*', '/', '(', ')', ' ']

/-- At least one digit, and at most one point. -/
def IsNumeral (run : List Char) : Prop := (∃ c ∈ run, c.isDigit = true) ∧ run.count '.' ≤ 1

/-- `run` stands between `before` and `after`, and neither of them could lend it a
digit or point. -/
structure IsMaximalRun (before run after : List Char) : Prop where
  isRun : IsRun run
  before_ends : ∀ c ∈ before.getLast?, isNumeric c = false
  after_ends : RunEnds after

/-- What is wrong in a line whose first character has the given position. -/
inductive Offence (position : Nat) (cs : List Char) : LexicalError → Prop
  | character {before after : List Char} {c : Char} (hcs : cs = before ++ c :: after)
      (hc : ¬ InAlphabet c) :
      Offence position cs (.invalidCharacter (position + before.length) c)
  | numeral {before run after : List Char} (hcs : cs = before ++ (run ++ after))
      (hrun : IsMaximalRun before run after) (hnumeral : ¬ IsNumeral run) :
      Offence position cs (.malformedNumber (position + before.length) run)

/-! ## Numerals -/

/-- Up to the first point, everything is whole part. -/
theorem parts_append {whole : List Char} (h : '.' ∉ whole) (cs : List Char) :
    Decimal.wholePart (whole ++ cs) = whole ++ Decimal.wholePart cs ∧
      Decimal.fraction (whole ++ cs) = Decimal.fraction cs := by
  have hall : ∀ c ∈ whole, (c != '.') = true := by
    intro c hc
    simpa using fun heq : c = '.' => h (heq ▸ hc)
  exact ⟨List.takeWhile_append_of_pos hall,
    congrArg (List.drop 1) (List.dropWhile_append_of_pos hall)⟩

/-- What has no point is all whole part. -/
theorem parts_of_not_mem {whole : List Char} (h : '.' ∉ whole) :
    Decimal.wholePart whole = whole ∧ Decimal.fraction whole = [] := by
  obtain ⟨hw, hf⟩ := parts_append h []
  exact ⟨by simpa [Decimal.wholePart] using hw, by simpa [Decimal.fraction] using hf⟩

/-- The first point parts the whole part from the fraction. -/
theorem parts_point {whole : List Char} (h : '.' ∉ whole) (fraction : List Char) :
    Decimal.wholePart (whole ++ '.' :: fraction) = whole ∧
      Decimal.fraction (whole ++ '.' :: fraction) = fraction := by
  obtain ⟨hw, hf⟩ := parts_append h ('.' :: fraction)
  exact ⟨by simpa [Decimal.wholePart] using hw, by simpa [Decimal.fraction] using hf⟩

/-- The characters of a run other than points are digits. -/
theorem all_isDigit_iff {cs : List Char} (h : ∀ c ∈ cs, isNumeric c = true) :
    (∀ c ∈ cs, c.isDigit = true) ↔ '.' ∉ cs := by
  constructor
  · intro hdigits hpoint
    exact absurd (hdigits '.' hpoint) (by decide)
  · intro hpoint c hc
    have hnumeric := h c hc
    simp only [isNumeric, Bool.or_eq_true, beq_iff_eq] at hnumeric
    exact hnumeric.resolve_right fun heq => hpoint (heq ▸ hc)

theorem ofLexeme?_isSome_iff (run : List Char) :
    (Decimal.ofLexeme? run).isSome = true ↔
      Decimal.wholePart run ++ Decimal.fraction run ≠ [] ∧
        ∀ c ∈ Decimal.wholePart run ++ Decimal.fraction run, c.isDigit = true := by
  rw [← List.all_eq_true]
  simp only [Decimal.ofLexeme?]
  split <;> simp_all

/-- **A run reads as a decimal** exactly if it is a numeral. -/
theorem IsRun.isSome_iff_isNumeral {run : List Char} (h : IsRun run) :
    (Decimal.ofLexeme? run).isSome = true ↔ IsNumeral run := by
  rw [ofLexeme?_isSome_iff]
  by_cases hpoint : '.' ∈ run
  · obtain ⟨whole, rest, rfl, hwhole⟩ := List.eq_append_cons_of_mem hpoint
    have hparts := parts_point hwhole rest
    have hnumeric : ∀ c ∈ whole ++ rest, isNumeric c = true := by
      intro c hc
      exact h.numeric c (by grind)
    have hcount : (whole ++ '.' :: rest).count '.' = rest.count '.' + 1 := by
      simp [List.count_eq_zero.mpr hwhole]
    rw [hparts.1, hparts.2, all_isDigit_iff hnumeric, IsNumeral, hcount]
    constructor
    · intro h
      obtain ⟨hne, hnone⟩ := h
      obtain ⟨c, hc⟩ := List.exists_mem_of_ne_nil _ hne
      have hdigit := (all_isDigit_iff hnumeric).mpr hnone c hc
      refine ⟨⟨c, by grind, hdigit⟩, ?_⟩
      rw [List.count_eq_zero.mpr fun h => hnone (List.mem_append_right _ h)]
    · intro h
      obtain ⟨⟨c, hc, hdigit⟩, hle⟩ := h
      have hpoint : '.' ∉ rest := List.count_eq_zero.mp (by omega)
      have hne : c ≠ '.' := by
        intro heq
        rw [heq] at hdigit
        exact absurd hdigit (by decide)
      have hmem : c ∈ whole ++ rest := by grind
      exact ⟨List.ne_nil_of_mem hmem, by simp [hwhole, hpoint]⟩
  · have hparts : Decimal.wholePart run ++ Decimal.fraction run = run := by
      simp [parts_of_not_mem hpoint]
    have hdigits := (all_isDigit_iff h.numeric).mpr hpoint
    obtain ⟨c, hc⟩ := List.exists_mem_of_ne_nil _ h.ne_nil
    rw [hparts, IsNumeral, List.count_eq_zero.mpr hpoint]
    exact ⟨fun _ => ⟨⟨c, hc, hdigits c hc⟩, by decide⟩, fun _ => ⟨h.ne_nil, hdigits⟩⟩

/-! ## Offences along the pieces -/

/-- The characters that scanning has a place for. -/
theorem inAlphabet_iff {c : Char} :
    InAlphabet c ↔ isNumeric c = true ∨ (∃ kind, Kind.ofSymbol? c = some kind) ∨ c = ' ' := by
  constructor
  · intro h
    rcases h with hdigit | hmem
    · exact .inl (by simp [isNumeric, hdigit])
    · simp only [List.mem_cons, List.not_mem_nil, or_false] at hmem
      rcases hmem with rfl | rfl | rfl | rfl | rfl | rfl | rfl | rfl
      · exact .inl (by decide)
      all_goals first | exact .inr (.inl ⟨_, rfl⟩) | exact .inr (.inr rfl)
  · intro h
    rcases h with hnumeric | ⟨kind, hsymbol⟩ | rfl
    · simp only [isNumeric, Bool.or_eq_true, beq_iff_eq] at hnumeric
      rcases hnumeric with hdigit | rfl
      · exact .inl hdigit
      · exact .inr (by decide)
    · right
      rcases Token.symbol_cases hsymbol with
        ⟨rfl, -⟩ | ⟨rfl, -⟩ | ⟨rfl, -⟩ | ⟨rfl, -⟩ | ⟨rfl, -⟩ | ⟨rfl, -⟩
      all_goals decide
    · exact .inr (by decide)

variable {position : Nat} {cs rest run : List Char} {c : Char} {error : LexicalError}

/-- An offence does not lie before its line. -/
theorem Offence.position_le (h : Offence position cs error) : position ≤ error.index := by
  cases h with
  | character hcs hc => exact Nat.le_add_right _ _
  | numeral hcs hrun hnumeral => exact Nat.le_add_right _ _

theorem Offence.first_character (hc : ¬ InAlphabet c) :
    Offence position (c :: rest) (.invalidCharacter position c) := by
  have h : Offence position ([] ++ c :: rest) (.invalidCharacter (position + 0) c) :=
    .character rfl hc
  exact h

theorem Offence.first_run (hrun : IsRun run) (hrest : RunEnds rest) (hnumeral : ¬ IsNumeral run) :
    Offence position (run ++ rest) (.malformedNumber position run) := by
  have h : Offence position ([] ++ (run ++ rest)) (.malformedNumber (position + 0) run) :=
    .numeral rfl ⟨hrun, by simp, hrest⟩ hnumeral
  exact h

/-- A maximal run stays one behind a piece, if no run can reach across. -/
theorem IsMaximalRun.behind {before after : List Char} (piece : List Char)
    (h : IsMaximalRun before run after)
    (hpiece : (∀ c ∈ piece.getLast?, isNumeric c = false) ∨ RunEnds (before ++ (run ++ after))) :
    IsMaximalRun (piece ++ before) run after := by
  refine ⟨h.isRun, ?_, h.after_ends⟩
  cases before with
  | nil =>
      rcases hpiece with hpiece | hrest
      · simpa using hpiece
      · -- The run would begin where none can.
        obtain ⟨c, run, rfl⟩ := List.exists_cons_of_ne_nil h.isRun.ne_nil
        have hnumeric := h.isRun.numeric c List.mem_cons_self
        have hfalse : isNumeric c = false := hrest c rfl
        simp [hfalse] at hnumeric
  | cons b before =>
      have hlast : (piece ++ b :: before).getLast? = (b :: before).getLast? := by
        simp [List.getLast?_append, List.getLast?_cons]
      rw [hlast]
      exact h.before_ends

/-- What stands in front of a line does not mend its offences, if no run can
reach across. -/
theorem Offence.behind (piece : List Char) (h : Offence (position + piece.length) rest error)
    (hpiece : (∀ c ∈ piece.getLast?, isNumeric c = false) ∨ RunEnds rest) :
    Offence position (piece ++ rest) error := by
  cases h with
  | @character before after c hcs hc =>
      have hindex :
          position + piece.length + before.length = position + (piece ++ before).length := by
        simp [Nat.add_assoc]
      rw [hindex]
      exact .character (by rw [hcs, List.append_assoc]) hc
  | @numeral before run after hcs hrun hnumeral =>
      have hindex :
          position + piece.length + before.length = position + (piece ++ before).length := by
        simp [Nat.add_assoc]
      rw [hindex]
      rw [hcs] at hpiece
      exact .numeral (by rw [hcs, List.append_assoc]) (hrun.behind piece hpiece) hnumeral

/-- The offences of a line that does not begin with a digit or point. -/
theorem offence_single_iff (hnumeric : isNumeric c = false) :
    Offence position (c :: rest) error ↔
      (¬ InAlphabet c ∧ error = .invalidCharacter position c) ∨
        Offence (position + 1) rest error := by
  constructor
  · intro h
    cases h with
    | @character before after d hcs hd =>
        cases before with
        | nil =>
            cases hcs
            exact .inl ⟨hd, rfl⟩
        | cons b before =>
            cases hcs
            rw [List.length_cons, Nat.add_comm before.length, ← Nat.add_assoc]
            exact .inr (.character rfl hd)
    | @numeral before run after hcs hrun hnumeral =>
        cases before with
        | nil =>
            obtain ⟨d, run, rfl⟩ := List.exists_cons_of_ne_nil hrun.isRun.ne_nil
            cases hcs
            have hc := hrun.isRun.numeric c List.mem_cons_self
            simp [hnumeric] at hc
        | cons b before =>
            cases hcs
            rw [List.length_cons, Nat.add_comm before.length, ← Nat.add_assoc]
            refine .inr (.numeral rfl ⟨hrun.isRun, fun d hd => ?_, hrun.after_ends⟩ hnumeral)
            refine hrun.before_ends d ?_
            rw [List.getLast?_cons, Option.mem_def.mp hd]
            rfl
  · intro h
    rcases h with ⟨hc, rfl⟩ | h
    · exact .first_character hc
    · exact h.behind [c] (.inl (by simpa using hnumeric))

/-- A character of the alphabet outside of runs has no part in an offence. -/
theorem offence_behind_single_iff (hnumeric : isNumeric c = false) (hc : InAlphabet c) :
    Offence position (c :: rest) error ↔ Offence (position + 1) rest error := by
  rw [offence_single_iff hnumeric]
  constructor
  · intro h
    rcases h with ⟨hout, _⟩ | h
    · exact absurd hc hout
    · exact h
  · intro h
    exact .inr h

/-- The offences of a line that begins with a run. -/
theorem offence_run_iff (hrun : IsRun run) (hrest : RunEnds rest) :
    Offence position (run ++ rest) error ↔
      (¬ IsNumeral run ∧ error = .malformedNumber position run) ∨
        Offence (position + run.length) rest error := by
  constructor
  · intro h
    cases h with
    | @character before after d hcs hd =>
        rcases List.append_eq_append_iff.mp hcs with ⟨more, rfl, rfl⟩ | ⟨more, rfl, hmore⟩
        · rw [List.length_append, ← Nat.add_assoc]
          exact .inr (.character rfl hd)
        · cases more with
          | nil =>
              cases hmore
              rw [List.append_nil]
              exact .inr (.first_character hd)
          | cons b more =>
              cases hmore
              have hnumeric := hrun.numeric d (by simp)
              exact (hd (inAlphabet_iff.mpr (.inl hnumeric))).elim
    | @numeral before word after hcs hword hnumeral =>
        rcases List.append_eq_append_iff.mp hcs with ⟨more, rfl, rfl⟩ | ⟨more, rfl, hmore⟩
        · rw [List.length_append, ← Nat.add_assoc]
          refine .inr (.numeral rfl ⟨hword.isRun, fun d hd => ?_, hword.after_ends⟩ hnumeral)
          exact hword.before_ends d (by simp [List.getLast?_append, Option.mem_def.mp hd])
        · rcases List.eq_nil_or_concat before with rfl | ⟨before, b, rfl⟩
          · have hrun : IsRun more := hrun
            have hsplit := (hword.isRun.split hword.after_ends).1
            rw [hmore, (hrun.split hrest).1] at hsplit
            subst hsplit
            exact .inl ⟨hnumeral, rfl⟩
          · have hfalse := hword.before_ends b (by simp)
            have hnumeric := hrun.numeric b (by simp)
            simp [hfalse] at hnumeric
  · intro h
    rcases h with ⟨hnumeral, rfl⟩ | h
    · exact .first_run hrun hrest hnumeral
    · exact h.behind run (.inr hrest)

/-- A run that is a numeral has no part in an offence. -/
theorem offence_behind_run_iff (hrun : IsRun run) (hrest : RunEnds rest)
    (hnumeral : IsNumeral run) :
    Offence position (run ++ rest) error ↔ Offence (position + run.length) rest error := by
  rw [offence_run_iff hrun hrest]
  constructor
  · intro h
    rcases h with ⟨hnot, _⟩ | h
    · exact absurd hnumeral hnot
    · exact h
  · intro h
    exact .inr h

/-! ## The first offence -/

namespace Token

theorem isNumeral_of_ofLexeme? {d : Decimal} (hrun : IsRun run)
    (hnumber : Decimal.ofLexeme? run = some d) : IsNumeral run := by
  rw [← hrun.isSome_iff_isNumeral, hnumber]
  rfl

theorem inAlphabet_of_symbol {kind : Kind} (hsymbol : Kind.ofSymbol? c = some kind) :
    InAlphabet c :=
  inAlphabet_iff.mpr (.inr (.inl ⟨kind, hsymbol⟩))

theorem inAlphabet_space : InAlphabet ' ' := inAlphabet_iff.mpr (.inr (.inr rfl))

/-- A line that has tokens has no offence. -/
theorem Scans.no_offence {ts : List Token} (h : Scans position cs ts) :
    ¬ Offence position cs error := by
  induction h with
  | nil =>
      intro h
      rcases h with ⟨hcs, _⟩ | ⟨hcs, hrun, _⟩
      · simp at hcs
      · simp [hrun.isRun.ne_nil] at hcs
  | number hrun hrest hnumber tail ih =>
      rw [offence_behind_run_iff hrun hrest (isNumeral_of_ofLexeme? hrun hnumber)]
      exact ih
  | symbol hsymbol tail ih =>
      rw [offence_behind_single_iff (not_isNumeric_of_symbol hsymbol) (inAlphabet_of_symbol hsymbol)]
      exact ih
  | space tail ih =>
      rw [offence_behind_single_iff (by decide) inAlphabet_space]
      exact ih

/-- The fault at which scanning stops is an offence, and all others come later. -/
theorem Stumbles.first_offence (h : Stumbles position cs error) :
    Offence position cs error ∧
      ∀ other, Offence position cs other → other = error ∨ error.index < other.index := by
  induction h with
  | @malformed position run rest hrun hrest hnumber =>
      have hnumeral : ¬ IsNumeral run := by
        rw [← hrun.isSome_iff_isNumeral, hnumber]
        decide
      refine ⟨.first_run hrun hrest hnumeral, ?_⟩
      intro other hother
      rcases (offence_run_iff hrun hrest).mp hother with ⟨_, rfl⟩ | hother
      · exact .inl rfl
      · have hpos : 0 < run.length := List.length_pos_iff.mpr hrun.ne_nil
        have hle : position + run.length ≤ other.index := hother.position_le
        have hlater : position < other.index := by omega
        exact .inr hlater
  | @invalid position c rest hnumeric hsymbol hspace =>
      have hc : ¬ InAlphabet c := by
        rw [inAlphabet_iff]
        simp [hnumeric, hsymbol, hspace]
      refine ⟨.first_character hc, ?_⟩
      intro other hother
      rcases (offence_single_iff hnumeric).mp hother with ⟨_, rfl⟩ | hother
      · exact .inl rfl
      · have hlater : position < other.index := hother.position_le
        exact .inr hlater
  | behindNumber hrun hrest hnumber tail ih =>
      simp only [offence_behind_run_iff hrun hrest (isNumeral_of_ofLexeme? hrun hnumber)]
      exact ih
  | behindSymbol hsymbol tail ih =>
      simp only [offence_behind_single_iff (not_isNumeric_of_symbol hsymbol)
        (inAlphabet_of_symbol hsymbol)]
      exact ih
  | behindSpace tail ih =>
      have hnumeric : isNumeric ' ' = false := by decide
      simp only [offence_behind_single_iff hnumeric inAlphabet_space]
      exact ih

end Token

/-- A line without offences is made of the alphabet, and its maximal runs are
numerals. -/
theorem forall_not_offence_iff (position : Nat) (cs : List Char) :
    (∀ error, ¬ Offence position cs error) ↔
      (∀ c ∈ cs, InAlphabet c) ∧ ∀ before run after, cs = before ++ (run ++ after) →
        IsMaximalRun before run after → IsNumeral run := by
  constructor
  · intro hnone
    refine ⟨?_, ?_⟩
    · intro c hc
      by_contra hout
      obtain ⟨before, after, hcs⟩ := List.append_of_mem hc
      exact hnone _ (.character hcs hout)
    · intro before run after hcs hrun
      by_contra hnumeral
      exact hnone _ (.numeral hcs hrun hnumeral)
  · intro h error hoffence
    obtain ⟨halphabet, hnumerals⟩ := h
    rcases hoffence with ⟨hcs, hc⟩ | ⟨hcs, hrun, hnumeral⟩
    · exact hc (halphabet _ (by simp [hcs]))
    · exact hnumeral (hnumerals _ _ _ hcs hrun)

namespace Token

/-- A line has tokens if it has no offence. -/
theorem exists_scan_iff (line : String) :
    (∃ ts, scan line = .ok ts) ↔ ∀ error, ¬ Offence 0 line.toList error := by
  constructor
  · intro h error
    obtain ⟨ts, h⟩ := h
    exact (scanFrom_eq_ok_iff.mp h).no_offence
  · intro hnone
    rcases scans_or_stumbles 0 line.toList with ⟨ts, h⟩ | ⟨error, h⟩
    · exact ⟨ts, h.scanFrom_eq⟩
    · exact (hnone error h.first_offence.1).elim

/-- Scanning stops at the offence with the least index. -/
theorem scan_eq_error_iff (line : String) (error : LexicalError) :
    scan line = .error error ↔ Offence 0 line.toList error ∧
      ∀ other, Offence 0 line.toList other → error.index ≤ other.index := by
  constructor
  · intro h
    obtain ⟨hoffence, hfirst⟩ := (scanFrom_eq_error_iff.mp h).first_offence
    refine ⟨hoffence, ?_⟩
    intro other hother
    rcases hfirst other hother with rfl | hlt
    · exact Nat.le_refl _
    · exact Nat.le_of_lt hlt
  · intro h
    obtain ⟨hoffence, hleast⟩ := h
    rcases scans_or_stumbles 0 line.toList with ⟨ts, h⟩ | ⟨found, h⟩
    · exact (h.no_offence hoffence).elim
    · obtain ⟨hfound, hfirst⟩ := h.first_offence
      rcases hfirst error hoffence with rfl | hlt
      · exact h.scanFrom_eq
      · exact absurd (hleast found hfound) (by omega)

end Token

/-- **Scanning is exact.**  A line has tokens if its characters are those of the
alphabet and its maximal runs of digits and points are numerals.  Otherwise the
answer is the first offence: the character, or the whole run, at the least index
at which there is one, and its message quotes it. -/
theorem scan_exact (line : String) :
    ((∃ ts, Token.scan line = .ok ts) ↔
      (∀ c ∈ line.toList, InAlphabet c) ∧
        ∀ before run after, line.toList = before ++ (run ++ after) →
          IsMaximalRun before run after → IsNumeral run) ∧
    (∀ error, Token.scan line = .error error ↔
      Offence 0 line.toList error ∧
        ∀ other, Offence 0 line.toList other → error.index ≤ other.index) ∧
    ∀ error, Token.scan line = .error error → error.message =
      match error with
      | .invalidCharacter _ c => "Unexpected character: " ++ Text.quote (String.ofList [c])
      | .malformedNumber _ run => "Malformed number: " ++ Text.quote (String.ofList run) := by
  refine ⟨?_, Token.scan_eq_error_iff line, ?_⟩
  · rw [Token.exists_scan_iff, forall_not_offence_iff]
  · intro error _
    cases error <;> rfl

/-- The malformed run comes before the character out of place. -/
example : Token.scan " 1.2.3 x" = .error (.malformedNumber 1 ['1', '.', '2', '.', '3']) := by
  cbv

end Abacus
