import Abacus.Calculation
import Abacus.Proofs.Unplaced

/-!
# The tidy line of tokens

The tidy line of words has one space between neighbours, and none behind an opening
bracket or before a closing one (`lineChars_eq_spaced`).  Each of the three passes
that tidy up leaves the characters of a word alone, so they only change the gaps:
this is shown pass by pass, by induction on the words.

A gap is closed only beside a bracket.  So no two numbers run together, the tidy
line spells out its words, and scanning it gives them back.
-/

namespace Abacus

/-- Digits and points are not blank. -/
theorem not_isBlank_of_isNumeric {c : Char} (h : isNumeric c = true) : Text.isBlank c = false := by
  have hrange : (48 ≤ c.toNat ∧ c.toNat ≤ 57) ∨ c.toNat = 46 := by
    simp only [isNumeric, Char.isDigit, Bool.or_eq_true, Bool.and_eq_true, decide_eq_true_eq,
      beq_iff_eq] at h
    rcases h with ⟨hlow, hhigh⟩ | rfl
    · exact .inl ⟨hlow, hhigh⟩
    · exact .inr rfl
  simp only [Text.isBlank, Text.inRanges, Text.blankRanges, List.any_cons, List.any_nil,
    Bool.or_false, Bool.or_eq_false_iff, Bool.and_eq_false_imp, decide_eq_true_eq,
    decide_eq_false_iff_not, Nat.not_le]
  omega

namespace Token

/-! ## The characters of a word -/

section Word

variable {t : Token} {cs : List Char}

theorem IsWord.lexeme_ne_nil (h : IsWord t) : t.lexeme.toList ≠ [] := by
  cases h with
  | number hrun hnumber => simpa using hrun.ne_nil
  | symbol hsymbol => simp

/-- No character of a word is blank. -/
theorem IsWord.not_isBlank (h : IsWord t) : ∀ c ∈ t.lexeme.toList, Text.isBlank c = false := by
  cases h with
  | number hrun hnumber =>
      intro c hc
      exact not_isBlank_of_isNumeric (hrun.numeric c (by simpa using hc))
  | symbol hsymbol =>
      simp only [String.toList_ofList, List.forall_mem_singleton]
      rcases symbol_cases hsymbol with
        ⟨rfl, -⟩ | ⟨rfl, -⟩ | ⟨rfl, -⟩ | ⟨rfl, -⟩ | ⟨rfl, -⟩ | ⟨rfl, -⟩
      all_goals decide

/-- Only a closing bracket begins with one. -/
theorem IsWord.head?_eq_close_iff (h : IsWord t) (cs : List Char) :
    (t.lexeme.toList ++ cs).head? = some ')' ↔ t.kind = .bracketClose := by
  cases h with
  | number hrun hnumber =>
      obtain ⟨c, run, rfl⟩ := List.exists_cons_of_ne_nil hrun.ne_nil
      have hc : isNumeric c = true := hrun.numeric c List.mem_cons_self
      have hne : c ≠ ')' := by
        rintro rfl
        exact absurd hc (by decide)
      simp [hne]
  | symbol hsymbol =>
      rcases symbol_cases hsymbol with
        ⟨rfl, rfl⟩ | ⟨rfl, rfl⟩ | ⟨rfl, rfl⟩ | ⟨rfl, rfl⟩ | ⟨rfl, rfl⟩ | ⟨rfl, rfl⟩
      all_goals simp

/-- Trimming leaves a word alone. -/
theorem trimEnd_append {word : List Char} (h : ∀ c ∈ word, Text.isBlank c = false) :
    Text.trimEnd (word ++ cs) = word ++ Text.trimEnd cs := by
  induction word with
  | nil => rfl
  | cons c word ih =>
      obtain ⟨hc, hword⟩ := List.forall_mem_cons.mp h
      simp [Text.trimEnd, hc, ih hword]

theorem closeUpBeforeClose_append {word : List Char} (h : ∀ c ∈ word, Text.isBlank c = false) :
    Text.closeUpBeforeClose (word ++ cs) = word ++ Text.closeUpBeforeClose cs := by
  induction word with
  | nil => rfl
  | cons c word ih =>
      obtain ⟨hc, hword⟩ := List.forall_mem_cons.mp h
      simp [Text.closeUpBeforeClose, hc, ih hword]

/-- Behind a number no blank is closed up. -/
theorem closeUpAfterOpen_run {run : List Char} (h : IsRun run) (afterOpen : Bool) :
    Text.closeUpAfterOpen afterOpen (run ++ cs) = run ++ Text.closeUpAfterOpen false cs := by
  obtain ⟨hne, hnumeric⟩ := h
  induction run generalizing afterOpen with
  | nil => exact absurd rfl hne
  | cons c run ih =>
      obtain ⟨hc, hnumeric⟩ := List.forall_mem_cons.mp hnumeric
      have hblank : Text.isBlank c = false := not_isBlank_of_isNumeric hc
      have hopen : (c == '(') = false := by
        rw [beq_eq_false_iff_ne]
        rintro rfl
        exact absurd hc (by decide)
      simp only [List.cons_append, Text.closeUpAfterOpen, hblank, Bool.and_false, hopen,
        Bool.false_eq_true, if_false, List.cons.injEq, true_and]
      cases run with
      | nil => rfl
      | cons d run => exact ih false (by simp) hnumeric

/-- Behind a word, blanks are closed up if it is an opening bracket. -/
theorem IsWord.closeUpAfterOpen_append (h : IsWord t) (afterOpen : Bool) :
    Text.closeUpAfterOpen afterOpen (t.lexeme.toList ++ cs) =
      t.lexeme.toList ++ Text.closeUpAfterOpen (decide (t.kind = .bracketOpen)) cs := by
  cases h with
  | number hrun hnumber =>
      rw [String.toList_ofList]
      exact closeUpAfterOpen_run hrun afterOpen
  | @symbol c kind position hsymbol =>
      have hword : IsWord (ofSymbol 0 c kind) := .symbol hsymbol
      have hblank := hword.not_isBlank
      simp only [ofSymbol, String.toList_ofList, List.forall_mem_singleton] at hblank
      rcases symbol_cases hsymbol with
        ⟨rfl, rfl⟩ | ⟨rfl, rfl⟩ | ⟨rfl, rfl⟩ | ⟨rfl, rfl⟩ | ⟨rfl, rfl⟩ | ⟨rfl, rfl⟩
      all_goals simp [Text.closeUpAfterOpen, hblank]

end Word

/-! ## Gaps between words -/

/-- The kind of the first word, or the one that comes behind them all. -/
def ahead (words : List Token) (next : Kind) : Kind := (words.head?.map kind).getD next

/-- Each word with the gap between it and the kind that follows. -/
def spaced (gap : Kind → Kind → List Char) : List Token → Kind → List Char
  | [], _ => []
  | t :: ts, next => t.lexeme.toList ++ (gap t.kind (ahead ts next) ++ spaced gap ts next)

/-- One space between any two words. -/
def evenGap (_ right : Kind) : List Char := if right = .exprEnd then [] else [' ']

/-- One space, but none behind an opening bracket. -/
def openGap (left right : Kind) : List Char :=
  if left = .bracketOpen ∨ right = .exprEnd then [] else [' ']

/-- One space, but none behind an opening bracket or before a closing one. -/
def tidyGap (left right : Kind) : List Char :=
  if left = .bracketOpen ∨ right = .bracketClose ∨ right = .exprEnd then [] else [' ']

theorem ahead_append (before after : List Token) (next : Kind) :
    ahead (before ++ after) next = ahead before (ahead after next) := by
  cases before <;> rfl

/-- What is spaced falls apart where the words do. -/
theorem spaced_append (gap : Kind → Kind → List Char) (before after : List Token) (next : Kind) :
    spaced gap (before ++ after) next =
      spaced gap before (ahead after next) ++ spaced gap after next := by
  induction before with
  | nil => rfl
  | cons t before ih =>
      simp only [List.cons_append, spaced, ahead_append, ih, List.append_assoc]

variable {words : List Token}

/-- Trimming removes what an end would add. -/
theorem trimEnd_intercalate (hwords : ∀ t ∈ words, IsWord t) {last : List Token}
    (hlast : last = [] ∨ ∃ position, last = [finish position]) :
    Text.trimEnd ([' '].intercalate ((words ++ last).map fun t => t.lexeme.toList)) =
      spaced evenGap words .exprEnd := by
  induction words with
  | nil => rcases hlast with rfl | ⟨position, rfl⟩ <;> rfl
  | cons t words ih =>
      obtain ⟨ht, hwords⟩ := List.forall_mem_cons.mp hwords
      have ih := ih hwords
      cases words with
      | nil =>
          rw [List.nil_append] at ih
          rcases hlast with rfl | ⟨position, rfl⟩
          · have htrim : Text.trimEnd (t.lexeme.toList ++ []) = _ := trimEnd_append ht.not_isBlank
            simpa [spaced, ahead, evenGap, Text.trimEnd] using htrim
          · have hspace : Text.trimEnd [' '] = [] := by decide
            have htrim : Text.trimEnd (t.lexeme.toList ++ [' ']) = _ :=
              trimEnd_append ht.not_isBlank
            simpa [spaced, ahead, evenGap, finish, hspace] using htrim
      | cons u words =>
          have hu := hwords u List.mem_cons_self
          have hne : spaced evenGap (u :: words) .exprEnd ≠ [] :=
            List.append_ne_nil_of_left_ne_nil hu.lexeme_ne_nil _
          rw [List.cons_append, List.map_cons] at ih
          rw [List.cons_append, List.cons_append, List.map_cons, List.map_cons,
            List.intercalate_cons_cons, List.append_assoc, trimEnd_append ht.not_isBlank,
            List.singleton_append, Text.trimEnd, ih]
          change _ =
            t.lexeme.toList ++ (evenGap t.kind u.kind ++ spaced evenGap (u :: words) .exprEnd)
          rw [evenGap, if_neg hu.kind_ne_exprEnd]
          simp [hne]

/-- The pass over opening brackets closes the gaps behind them. -/
theorem closeUpAfterOpen_spaced (hwords : ∀ t ∈ words, IsWord t) (afterOpen : Bool) :
    Text.closeUpAfterOpen afterOpen (spaced evenGap words .exprEnd) =
      spaced openGap words .exprEnd := by
  induction words generalizing afterOpen with
  | nil => rfl
  | cons t words ih =>
      obtain ⟨ht, hwords⟩ := List.forall_mem_cons.mp hwords
      have ih := ih hwords
      rw [spaced, spaced, ht.closeUpAfterOpen_append]
      by_cases hend : ahead words .exprEnd = .exprEnd
      · simp [evenGap, openGap, hend, ih]
      · have hspace : Text.isBlank ' ' = true := by decide
        by_cases hopen : t.kind = .bracketOpen
        · simp [evenGap, openGap, hend, hopen, Text.closeUpAfterOpen, hspace, ih]
        · simp [evenGap, openGap, hend, hopen, Text.closeUpAfterOpen, ih]

/-- A closing bracket comes first exactly if one is ahead. -/
theorem head?_spaced (gap : Kind → Kind → List Char) (hwords : ∀ t ∈ words, IsWord t) :
    (spaced gap words .exprEnd).head? = some ')' ↔ ahead words .exprEnd = .bracketClose := by
  cases words with
  | nil => simp [spaced, ahead]
  | cons t words => exact (hwords t List.mem_cons_self).head?_eq_close_iff _

/-- The pass over closing brackets closes the gaps before them. -/
theorem closeUpBeforeClose_spaced (hwords : ∀ t ∈ words, IsWord t) :
    Text.closeUpBeforeClose (spaced openGap words .exprEnd) = spaced tidyGap words .exprEnd := by
  induction words with
  | nil => rfl
  | cons t words ih =>
      obtain ⟨ht, hwords⟩ := List.forall_mem_cons.mp hwords
      have ih := ih hwords
      have hhead := head?_spaced tidyGap hwords
      rw [spaced, spaced, closeUpBeforeClose_append ht.not_isBlank]
      by_cases hnone : t.kind = .bracketOpen ∨ ahead words .exprEnd = .exprEnd
      · have htidy : tidyGap t.kind (ahead words .exprEnd) = [] := if_pos (hnone.imp_right .inr)
        rw [openGap, if_pos hnone, htidy, List.nil_append, ih, List.nil_append]
      · have hspace : Text.isBlank ' ' = true := by decide
        rw [openGap, if_neg hnone, List.singleton_append, Text.closeUpBeforeClose, ih]
        by_cases hclose : ahead words .exprEnd = .bracketClose
        · simp [tidyGap, hclose, hspace, hhead.mpr hclose]
        · simp_all [tidyGap]

/-- **The tidy line** of words, with or without an end behind them. -/
theorem lineChars_eq_spaced (hwords : ∀ t ∈ words, IsWord t) {last : List Token}
    (hlast : last = [] ∨ ∃ position, last = [finish position]) :
    lineChars (words ++ last) = spaced tidyGap words .exprEnd := by
  rw [lineChars, Text.tidy, trimEnd_intercalate hwords hlast, closeUpAfterOpen_spaced hwords,
    closeUpBeforeClose_spaced hwords]

/-! ## The tidy line is scanned back -/

/-- Where a gap is closed, a number in front of it still ends. -/
theorem runEnds_tidyGap {t : Token} {next : Kind} {rest : List Char} (ht : t.kind = .number)
    (hwords : ∀ t ∈ words, IsWord t)
    (hrest : next = .bracketClose ∨ next = .exprEnd → RunEnds rest) :
    RunEnds (tidyGap t.kind (ahead words next) ++ (spaced tidyGap words next ++ rest)) := by
  by_cases hgap : ahead words next = .bracketClose ∨ ahead words next = .exprEnd
  · rw [tidyGap, if_pos (.inr hgap), List.nil_append]
    cases words with
    | nil => exact hrest hgap
    | cons u words =>
        have hu := hwords u List.mem_cons_self
        have hclose : u.kind = .bracketClose := hgap.resolve_right hu.kind_ne_exprEnd
        intro c hc
        rw [spaced, List.append_assoc, (hu.head?_eq_close_iff _).mpr hclose] at hc
        obtain rfl : ')' = c := Option.some.inj hc
        decide
  · rw [tidyGap, if_neg (by simp [ht, hgap])]
    intro c hc
    obtain rfl : ' ' = c := Option.some.inj hc
    decide

/-- The words at their places on a tidy line, the first of them at `position`. -/
def settled (position : Nat) : List Token → Kind → List Token
  | [], _ => []
  | t :: ts, next =>
    t.moveTo position :: settled
      (position + t.lexeme.toList.length + (tidyGap t.kind (ahead ts next)).length) ts next

theorem settled_append (position : Nat) (before after : List Token) (next : Kind) :
    settled position (before ++ after) next = settled position before (ahead after next) ++
      settled (position + (spaced tidyGap before (ahead after next)).length) after next := by
  induction before generalizing position with
  | nil => rfl
  | cons t before ih =>
      rw [List.cons_append, settled, settled, ahead_append, ih, List.cons_append, spaced]
      simp only [List.length_append, Nat.add_assoc]

theorem map_unplaced_settled (position : Nat) (words : List Token) (next : Kind) :
    (settled position words next).map unplaced = words.map unplaced := by
  induction words generalizing position with
  | nil => rfl
  | cons t words ih => rw [settled, List.map_cons, List.map_cons, ih]; rfl

/-- **Words on a tidy line are scanned back**, in front of whatever is scanned
behind them. -/
theorem Scans.spaced_append (hwords : ∀ t ∈ words, IsWord t) {next : Kind} {rest : List Char}
    {position : Nat} {ts : List Token}
    (hrest : next = .bracketClose ∨ next = .exprEnd → RunEnds rest)
    (h : Scans (position + (spaced tidyGap words next).length) rest ts) :
    Scans position (spaced tidyGap words next ++ rest) (settled position words next ++ ts) := by
  induction words generalizing position with
  | nil => exact h
  | cons t words ih =>
      obtain ⟨ht, hwords⟩ := List.forall_mem_cons.mp hwords
      have hlength : position + (spaced tidyGap (t :: words) next).length =
          position + t.lexeme.toList.length + (tidyGap t.kind (ahead words next)).length +
            (spaced tidyGap words next).length := by
        simp only [spaced, List.length_append]
        omega
      have ih := ih hwords (hlength ▸ h)
      rw [spaced, settled, List.append_assoc, List.append_assoc]
      refine .word ht (fun hkind => runEnds_tidyGap hkind hwords hrest) ?_
      by_cases hgap : tidyGap t.kind (ahead words next) = []
      · rwa [hgap] at ih ⊢
      · have hgap : tidyGap t.kind (ahead words next) = [' '] := by
          rw [tidyGap] at hgap ⊢
          split <;> simp_all
        rw [hgap] at ih ⊢
        exact .space ih

/-- The tidy line of a line's tokens is scanned as the same words, at their places
on it. -/
theorem scan_line_eq {position : Int} (hwords : ∀ t ∈ words, IsWord t) :
    scan (Token.line (words ++ [finish position])) =
      .ok (settled 0 words .exprEnd ++ [finish (spaced tidyGap words .exprEnd).length]) := by
  have hline : lineChars (words ++ [finish position]) = spaced tidyGap words .exprEnd :=
    lineChars_eq_spaced hwords (.inr ⟨_, rfl⟩)
  have hend : Scans (0 + (spaced tidyGap words .exprEnd).length) [] _ := .nil
  have hscans := Scans.spaced_append hwords (fun _ => runEnds_nil) hend
  rw [List.append_nil, Nat.zero_add, ← hline] at hscans
  rw [scan, Token.line, String.toList_ofList, ← hline]
  exact hscans.scanFrom_eq

/-- The tidy line of a line's tokens is scanned as the same tokens, their places
apart. -/
theorem exists_scan_line {line : String} {ts : List Token} (h : scan line = .ok ts) :
    ∃ again, scan (Token.line ts) = .ok again ∧ again.map unplaced = ts.map unplaced := by
  obtain ⟨words, rfl, hwords⟩ := (scanFrom_eq_ok_iff.mp h).exists_words
  refine ⟨_, scan_line_eq hwords, ?_⟩
  rw [List.map_append, map_unplaced_settled, List.map_append]
  rfl

/-! ## What depends on the lexemes only -/

theorem lexemes_of_unplaced {ts us : List Token} (h : ts.map unplaced = us.map unplaced) :
    ts.map lexeme = us.map lexeme := by
  have hlexemes := congrArg (List.map lexeme) h
  rw [List.map_map, List.map_map] at hlexemes
  exact hlexemes

/-- The tidy line is written from the lexemes. -/
theorem line_congr {ts us : List Token} (h : ts.map lexeme = us.map lexeme) :
    line ts = line us := by
  have hchars := congrArg (List.map String.toList) h
  rw [List.map_map, List.map_map] at hchars
  exact congrArg (fun words => String.ofList (Text.tidy ([' '].intercalate words))) hchars

end Token

/-- The report on a misreading is written from the lexemes. -/
theorem Failure.misreadingReport_congr {ts us : List Token}
    (h : ts.map Token.lexeme = us.map Token.lexeme) (m : Misreading) :
    Failure.misreadingReport ts m = Failure.misreadingReport us m := by
  have hlength : ts.length = us.length := by simpa using congrArg List.length h
  have hbefore :
      (Text.upTo ts m.index).map Token.lexeme = (Text.upTo us m.index).map Token.lexeme := by
    rw [Text.upTo, Text.upTo, List.map_take, List.map_take, h, hlength]
  have hempty : (Text.upTo ts m.index).isEmpty = (Text.upTo us m.index).isEmpty := by
    simpa using congrArg List.isEmpty hbefore
  have hcolumn : Report.tokenColumn ts m.index = Report.tokenColumn us m.index := by
    rw [Report.tokenColumn, Report.tokenColumn, Token.line_congr hbefore, hempty]
  rw [misreadingReport, misreadingReport, Report.ofTokens, Report.ofTokens, Token.line_congr h,
    hcolumn]

/-- **The tidy line is a normal form.**  It is scanned back as the same tokens, their
places apart, so it is its own tidy line.  Two lines have the same one if their
tokens are written alike.  Reading the tokens of the tidy line comes to the same
tree, or the same misreading with the same report. -/
theorem line_normal {line : String} {ts : List Token} (h : Token.scan line = .ok ts) :
    ∃ again, Token.scan (Token.line ts) = .ok again ∧
      again.map Token.unplaced = ts.map Token.unplaced ∧
      Token.line again = Token.line ts ∧
      (∀ other us, Token.scan other = .ok us →
        (Token.line us = Token.line ts ↔ us.map Token.lexeme = ts.map Token.lexeme)) ∧
      parse again = parse ts ∧
      ∀ m, Failure.misreadingReport again m = Failure.misreadingReport ts m := by
  obtain ⟨again, hagain, hsame⟩ := Token.exists_scan_line h
  have hlexemes := Token.lexemes_of_unplaced hsame
  refine ⟨again, hagain, hsame, Token.line_congr hlexemes, ?_, ?_, ?_⟩
  · intro other us hother
    constructor
    · intro hline
      obtain ⟨again', hagain', hsame'⟩ := Token.exists_scan_line hother
      rw [hline, hagain] at hagain'
      obtain rfl := Except.ok.inj hagain'
      rw [← Token.lexemes_of_unplaced hsame', hlexemes]
    · exact Token.line_congr
  · exact Parser.parse_eq_of_unplaced (Token.scanFrom_eq_ok_iff.mp hagain).numbersHaveValues
      (Token.scanFrom_eq_ok_iff.mp h).numbersHaveValues hsame
  · exact Failure.misreadingReport_congr hlexemes

/-- The tidy line of ` 1  ( 2 )` is `1 (2)`. -/
theorem line_normal_brackets :
    let line := " 1  ( 2 )"
    let ts : List Token := [.ofNumber 1 ['1'] ⟨1, 0⟩, .ofSymbol 4 '(' .bracketOpen,
      .ofNumber 6 ['2'] ⟨2, 0⟩, .ofSymbol 8 ')' .bracketClose, .finish 9]
    Token.scan line = .ok ts ∧ Token.line ts = "1 (2)" ∧
      ∃ again, Token.scan (Token.line ts) = .ok again ∧
        again.map Token.unplaced = ts.map Token.unplaced ∧ Token.line again = Token.line ts ∧
        parse again = parse ts := by
  intro line ts
  have hscan : Token.scan line = .ok ts := by
    simp [line, ts, Token.scan, Token.scanFrom, isNumeric, Decimal.ofLexeme?, Decimal.wholePart,
      Decimal.fraction, Kind.ofSymbol?, Except.map, Nat.ofDigitChars]
  have hline : Token.line ts = "1 (2)" := by decide
  obtain ⟨again, hagain, hsame, hnormal, -, hparse, -⟩ := line_normal hscan
  exact ⟨hscan, hline, again, hagain, hsame, hnormal, hparse⟩

end Abacus
