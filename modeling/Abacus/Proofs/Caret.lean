import Abacus.Proofs.TidyLine
import Abacus.Proofs.ViablePrefix

/-!
# Where the caret of a misreading stands

A report on a misreading shows the tidy line of all tokens, and a caret one space
behind the tidy line of those in front of the token that it concerns.  The tidy line
puts that token behind the same words and a gap (`getElem?_settled`), so the caret
stands under the token if the gap is one space.  Beside a bracket the gap may be
closed, and then the caret does not (`caret_under_token_iff`).

It is not far off then.  Tokens are written alike by themselves and in front of others
(`prefix_line_take`), so only the gap counts, and the caret stands in the next column
(`caret_column`).
-/

namespace Abacus

namespace Token

/-- On the tidy line, no space is in front of the token at the index. -/
def ClosedUp (ts : List Token) (index : Nat) : Prop :=
  ∃ k left right, index = k + 1 ∧ ts[k]? = some left ∧ ts[k + 1]? = some right ∧
    (left.kind = .bracketOpen ∨ right.kind = .bracketClose)

variable {before after : List Token} {t : Token}

/-- On the tidy line a word stands behind those before it and the last gap. -/
theorem getElem?_settled (before after : List Token) (t : Token) :
    (settled 0 (before ++ t :: after) .exprEnd)[before.length]? =
      some (t.moveTo (spaced tidyGap before t.kind).length) := by
  have hlength : (settled 0 before t.kind).length = before.length := by
    simpa using congrArg List.length (map_unplaced_settled 0 before t.kind)
  have hahead : ahead (t :: after) .exprEnd = t.kind := rfl
  rw [settled_append, hahead, List.getElem?_append_right hlength.le, hlength, Nat.sub_self,
    Nat.zero_add]
  rfl

/-- The gap to the next word is the last thing on the way to it. -/
theorem length_spaced_concat (before : List Token) (t : Token) (next : Kind) :
    (spaced tidyGap (before ++ [t]) next).length =
      (spaced tidyGap (before ++ [t]) .exprEnd).length + (tidyGap t.kind next).length := by
  have hend : tidyGap t.kind .exprEnd = [] := if_pos (.inr (.inr rfl))
  have hahead : ∀ next, ahead [t] next = t.kind := fun _ => rfl
  have hnone : ∀ next, ahead [] next = next := fun _ => rfl
  simp only [spaced_append, hahead, spaced, hnone, hend, List.length_append, List.length_nil]
  omega

/-- Words are written alike without an end. -/
theorem lineChars_words (hbefore : ∀ t ∈ before, IsWord t) :
    lineChars before = spaced tidyGap before .exprEnd := by
  rw [← lineChars_eq_spaced hbefore (.inl rfl), List.append_nil]

/-- The caret stands behind the tidy line of the words before it, and a space if
there are any. -/
theorem tokenColumn_eq (hbefore : ∀ t ∈ before, IsWord t) (rest : List Token) :
    Report.tokenColumn (before ++ rest) before.length =
      (spaced tidyGap before .exprEnd).length + if before = [] then 0 else 1 := by
  rw [Report.tokenColumn, Text.upTo_natCast _ (by simp), List.take_left, Token.line,
    lineChars_words hbefore, String.length_ofList]
  simp only [List.isEmpty_iff]

/-- The gap behind a word is closed up beside a bracket. -/
theorem closedUp_concat_iff (init : List Token) (last t : Token) (rest : List Token) :
    ClosedUp (init ++ [last] ++ t :: rest) (init ++ [last]).length ↔
      last.kind = .bracketOpen ∨ t.kind = .bracketClose := by
  simp [ClosedUp]

/-- The caret stands in the column of the word behind `before`, or in the next one if the gap in
front of the word is closed up. -/
theorem tokenColumn_cases (hbefore : ∀ t ∈ before, IsWord t) (ht : IsWord t) (rest : List Token) :
    let column := Report.tokenColumn (before ++ t :: rest) before.length
    let place := (spaced tidyGap before t.kind).length
    ¬ ClosedUp (before ++ t :: rest) before.length ∧ column = place ∨
      ClosedUp (before ++ t :: rest) before.length ∧ column = place + 1 := by
  intro column place
  have hcolumn : column = _ := tokenColumn_eq hbefore (t :: rest)
  rcases List.eq_nil_or_concat before with rfl | ⟨init, last, hlast⟩
  · have hfirst : ¬ ClosedUp ([] ++ t :: rest) 0 := by
      intro h
      obtain ⟨k, left, right, hk, -⟩ := h
      cases hk
    exact .inl ⟨hfirst, hcolumn⟩
  · rw [List.concat_eq_append] at hlast
    subst hlast
    have hplace : place = _ := length_spaced_concat init last t.kind
    rw [if_neg (by simp)] at hcolumn
    rw [closedUp_concat_iff]
    by_cases hgap : last.kind = .bracketOpen ∨ t.kind = .bracketClose
    · have hclosed : tidyGap last.kind t.kind = [] := if_pos (hgap.imp_right .inl)
      exact .inr ⟨hgap, by rw [hcolumn, hplace, hclosed, List.length_nil]⟩
    · have hopen : tidyGap last.kind t.kind = [' '] := if_neg (by simp_all [ht.kind_ne_exprEnd])
      exact .inl ⟨hgap, by rw [hcolumn, hplace, hopen, List.length_singleton]⟩

/-- The caret stands in the column of the word behind `before`, unless the gap in
front of the word is closed up. -/
theorem tokenColumn_eq_iff (hbefore : ∀ t ∈ before, IsWord t) (ht : IsWord t) (rest : List Token) :
    Report.tokenColumn (before ++ t :: rest) before.length = (spaced tidyGap before t.kind).length ↔
      ¬ ClosedUp (before ++ t :: rest) before.length := by
  rcases tokenColumn_cases hbefore ht rest with ⟨hopen, hcolumn⟩ | ⟨hclosed, hcolumn⟩
  · exact iff_of_true hcolumn hopen
  · exact iff_of_false (by omega) (not_not_intro hclosed)

/-- A token of a line that is no end is a word between words. -/
theorem exists_split_of_scan {line : String} {ts : List Token} {index : Nat}
    (h : scan line = .ok ts) (ht : ts[index]? = some t) (hkind : t.kind ≠ .exprEnd) :
    ∃ before after position, ts = before ++ t :: after ++ [finish position] ∧
      before.length = index ∧ ∀ u ∈ before ++ t :: after, IsWord u := by
  obtain ⟨words, rfl, hwords⟩ := (scanFrom_eq_ok_iff.mp h).exists_words
  by_cases hindex : index < words.length
  · rw [List.getElem?_append_left hindex, List.getElem?_eq_getElem hindex] at ht
    have hsplit : words.take index ++ t :: words.drop (index + 1) = words := by
      rw [← Option.some.inj ht, List.getElem_cons_drop, List.take_append_drop]
    refine ⟨words.take index, words.drop (index + 1), _, by rw [hsplit], ?_, by rwa [hsplit]⟩
    rw [List.length_take, Nat.min_eq_left hindex.le]
  · rw [List.getElem?_append_right (Nat.le_of_not_lt hindex), List.getElem?_singleton] at ht
    split at ht
    · exact absurd (by rw [← Option.some.inj ht]; rfl) hkind
    · cases ht

end Token

/-- **The caret stands under the token** that a misreading concerns exactly if the
tidy line has a space in front of that token, or nothing.  The column of the token is
the place at which it is scanned on the tidy line. -/
theorem caret_under_token_iff {line : String} {ts : List Token} {m : Misreading} {t : Token}
    (hscan : Token.scan line = .ok ts) (hparse : parse ts = .error m)
    (ht : ts[m.index]? = some t) (hkind : t.kind ≠ .exprEnd) :
    ∃ again u column, Token.scan (Token.line ts) = .ok again ∧ again[m.index]? = some u ∧
      u.unplaced = t.unplaced ∧
      Failure.misreadingReport ts m = Report.join ("Parser error: " ++ m.cause.message)
        (Token.line ts) (Report.caret column) ∧
      (column = u.position ↔ ¬ Token.ClosedUp ts m.index) := by
  have hvalues := (Token.scanFrom_eq_ok_iff.mp hscan).numbersHaveValues
  have hcause : m.cause.isInternal = false := Parser.not_internal_of_parse hvalues hparse
  obtain ⟨before, after, position, hts, hindex, hwords⟩ :=
    Token.exists_split_of_scan hscan ht hkind
  have hbefore : ∀ u ∈ before, u.IsWord := fun u hu => hwords u (List.mem_append_left _ hu)
  have hcolumn := Token.tokenColumn_eq_iff hbefore (hwords t (by simp))
    (after ++ [Token.finish position])
  rw [← List.cons_append, ← List.append_assoc, ← hts, hindex] at hcolumn
  have hsettled := Token.getElem?_settled before after t
  rw [hindex] at hsettled
  refine ⟨_, t.moveTo (Token.spaced Token.tidyGap before t.kind).length,
    Report.tokenColumn ts m.index, hts ▸ Token.scan_line_eq hwords, ?_, rfl, ?_, ?_⟩
  · rw [List.getElem?_append_left (List.getElem?_eq_some_iff.mp hsettled).1, hsettled]
  · rw [Failure.misreadingReport, hcause]
    rfl
  · rw [← hcolumn]
    exact Int.natCast_inj

/-- In `-*` the star is unexpected, and the caret stands under it. -/
theorem caret_under_token_star :
    let ts : List Token := [.ofSymbol 0 '-' .minus, .ofSymbol 1 '*' .star, .finish 2]
    let m : Misreading := ⟨1, .operandExpected .star⟩
    Token.scan "-*" = .ok ts ∧ parse ts = .error m ∧
      ∃ again u column, Token.scan (Token.line ts) = .ok again ∧ again[m.index]? = some u ∧
        u.unplaced = (Token.ofSymbol 1 '*' .star).unplaced ∧
        Failure.misreadingReport ts m = Report.join ("Parser error: " ++ m.cause.message)
          (Token.line ts) (Report.caret column) ∧
        (column = u.position ↔ ¬ Token.ClosedUp ts m.index) := by
  intro ts m
  have hscan : Token.scan "-*" = .ok ts := by
    simp [ts, Token.scan, Token.scanFrom, isNumeric, Kind.ofSymbol?, Except.map]
  have hparse : parse ts = .error m := by cbv
  exact ⟨hscan, hparse, caret_under_token_iff hscan hparse rfl (by decide)⟩

/-- The caret does not always stand under the token: in `()` the closing bracket is
scanned in the second column of the tidy line, and the caret stands in the third. -/
theorem caret_beside_bracket :
    let ts : List Token := [.ofSymbol 0 '(' .bracketOpen, .ofSymbol 1 ')' .bracketClose, .finish 2]
    let m : Misreading := ⟨1, .operandExpected .bracketClose⟩
    (Token.scan "()" = .ok ts ∧ parse ts = .error m ∧ Token.scan (Token.line ts) = .ok ts ∧
      Failure.misreadingReport ts m =
        "Parser error: Operand expected, found BRACKET_CLOSE\n()\n  ^") ∧
    ¬ ∀ line ts m t again u, Token.scan line = .ok ts → parse ts = .error m →
      ts[m.index]? = some t → t.kind ≠ .exprEnd → Token.scan (Token.line ts) = .ok again →
      again[m.index]? = some u →
      Failure.misreadingReport ts m = Report.join ("Parser error: " ++ m.cause.message)
        (Token.line ts) (Report.caret u.position) := by
  intro ts m
  have hscan : Token.scan "()" = .ok ts := by
    simp [ts, Token.scan, Token.scanFrom, isNumeric, Kind.ofSymbol?, Except.map]
  have hparse : parse ts = .error m := by cbv
  have hline : Token.line ts = "()" := by decide
  have hagain : Token.scan (Token.line ts) = .ok ts := hline ▸ hscan
  have hcolumn : Report.tokenColumn ts 1 = 2 := by decide
  have hreport : Failure.misreadingReport ts m =
      "Parser error: Operand expected, found BRACKET_CLOSE\n()\n  ^" := by
    change Report.join ("Parser error: " ++ m.cause.message) (Token.line ts)
      (Report.caret (Report.tokenColumn ts 1)) = _
    rw [hline, hcolumn]
    rfl
  have hunder : Report.join ("Parser error: " ++ m.cause.message) (Token.line ts) (Report.caret 1) =
      "Parser error: Operand expected, found BRACKET_CLOSE\n()\n ^" := by
    rw [hline]
    rfl
  refine ⟨⟨hscan, hparse, hagain, hreport⟩, fun hclaim => ?_⟩
  have heq := hclaim "()" ts m (.ofSymbol 1 ')' .bracketClose) ts (.ofSymbol 1 ')' .bracketClose)
    hscan hparse rfl (by decide) hagain rfl
  change _ =
    Report.join ("Parser error: " ++ m.cause.message) (Token.line ts) (Report.caret 1) at heq
  rw [hreport, hunder] at heq
  simp at heq

/-! ## How far off the caret is -/

namespace Token

variable {words : List Token} {t : Token} {line : String} {ts : List Token}

/-- Whatever follows some words, they are written as they are by themselves. -/
theorem prefix_spaced (words : List Token) (next : Kind) :
    spaced tidyGap words .exprEnd <+: spaced tidyGap words next := by
  induction words with
  | nil => exact List.prefix_rfl
  | cons t words ih =>
      cases words with
      | nil =>
          have hend : tidyGap t.kind .exprEnd = [] := if_pos (.inr (.inr rfl))
          simp [spaced, ahead, hend]
      | cons u words =>
          -- The gap behind `t` is the one in front of `u`, whatever comes next.
          have hgap : tidyGap t.kind u.kind ++ spaced tidyGap (u :: words) .exprEnd <+:
              tidyGap t.kind u.kind ++ spaced tidyGap (u :: words) next :=
            (List.prefix_append_right_inj _).mpr ih
          exact (List.prefix_append_right_inj t.lexeme.toList).mpr hgap

/-- The first tokens of a line are written as they are in front of the others. -/
theorem prefix_line_take (h : scan line = .ok ts) (k : Nat) :
    (Token.line (ts.take k)).toList <+: (Token.line ts).toList := by
  by_cases hall : ts.length ≤ k
  · have hsame : Token.line (ts.take k) = Token.line ts :=
      congrArg Token.line (List.take_of_length_le hall)
    exact hsame ▸ List.prefix_rfl
  · obtain ⟨words, rfl, hwords⟩ := (scanFrom_eq_ok_iff.mp h).exists_words
    have hk : k ≤ words.length := by
      rw [List.length_append, List.length_singleton] at hall
      omega
    have hbefore : ∀ t ∈ words.take k, IsWord t := fun t ht => hwords t (List.mem_of_mem_take ht)
    have hsplit := spaced_append tidyGap (words.take k) (words.drop k) .exprEnd
    rw [List.take_append_drop] at hsplit
    simp only [Token.line, String.toList_ofList]
    rw [List.take_append_of_le_length hk, lineChars_words hbefore,
      lineChars_eq_spaced hwords (.inr ⟨_, rfl⟩), hsplit]
    exact (prefix_spaced _ _).trans (List.prefix_append _ _)

/-- At the end the caret stands behind the line and one space more, unless there is no word. -/
theorem tokenColumn_finish (hwords : ∀ t ∈ words, IsWord t) (position : Int) :
    Report.tokenColumn (words ++ [finish position]) words.length =
      if words = [] then 0 else (Token.line (words ++ [finish position])).length + 1 := by
  rw [tokenColumn_eq hwords, Token.line, lineChars_eq_spaced hwords (.inr ⟨_, rfl⟩),
    String.length_ofList]
  by_cases hnone : words = []
  · rw [if_pos hnone, if_pos hnone, hnone]
    rfl
  · rw [if_neg hnone, if_neg hnone]

/-- The token that is no end is found again on the tidy line, where the caret stands, or one
column to the left of it. -/
theorem exists_scan_line_column {index : Nat} (h : scan line = .ok ts) (ht : ts[index]? = some t)
    (hkind : t.kind ≠ .exprEnd) :
    ∃ again u, scan (Token.line ts) = .ok again ∧ again[index]? = some u ∧
      u.unplaced = t.unplaced ∧
      (¬ ClosedUp ts index ∧ (Report.tokenColumn ts index : Int) = u.position ∨
        ClosedUp ts index ∧ (Report.tokenColumn ts index : Int) = u.position + 1) := by
  obtain ⟨before, after, position, hts, rfl, hwords⟩ := exists_split_of_scan h ht hkind
  have hbefore : ∀ u ∈ before, IsWord u := fun u hu => hwords u (List.mem_append_left _ hu)
  have hcolumn := tokenColumn_cases hbefore (hwords t (by simp)) (after ++ [finish position])
  rw [← List.cons_append, ← List.append_assoc, ← hts] at hcolumn
  have hsettled := getElem?_settled before after t
  refine ⟨_, t.moveTo (spaced tidyGap before t.kind).length, hts ▸ scan_line_eq hwords, ?_, rfl, ?_⟩
  · rw [List.getElem?_append_left (List.getElem?_eq_some_iff.mp hsettled).1, hsettled]
  · rcases hcolumn with ⟨hopen, hcolumn⟩ | ⟨hclosed, hcolumn⟩
    · exact .inl ⟨hopen, Int.natCast_inj.mpr hcolumn⟩
    · exact .inr ⟨hclosed, Int.natCast_inj.mpr hcolumn⟩

/-- An end is behind all words. -/
theorem tokenColumn_of_exprEnd {index : Nat} (h : scan line = .ok ts) (ht : ts[index]? = some t)
    (hkind : t.kind = .exprEnd) :
    Report.tokenColumn ts index = if index = 0 then 0 else (Token.line ts).length + 1 := by
  obtain ⟨words, rfl, hwords⟩ := (scanFrom_eq_ok_iff.mp h).exists_words
  obtain rfl : index = words.length := by
    rcases Nat.lt_trichotomy index words.length with hlt | heq | hgt
    · rw [List.getElem?_append_left hlt] at ht
      exact absurd hkind (hwords t (List.mem_of_getElem? ht)).kind_ne_exprEnd
    · exact heq
    · rw [List.getElem?_eq_none (by simp; omega)] at ht
      cases ht
  simpa using tokenColumn_finish hwords _

end Token

/-- **The caret is never left of the token, and at most one column right of it.**  The tokens in
front of the one that a misreading concerns are written as on the tidy line of all.  At the end
the caret stands past the tidy line by one column, or in the first column if there is nothing in
front.  Else it stands in the column where the token is scanned on the tidy line, or in the next
one if no space is in front of that token. -/
theorem caret_column {line : String} {ts : List Token} {m : Misreading}
    (hscan : Token.scan line = .ok ts) (hparse : parse ts = .error m) :
    ∃ (t : Token) (column : Nat), ts[m.index]? = some t ∧
      Failure.misreadingReport ts m = Report.join ("Parser error: " ++ m.cause.message)
        (Token.line ts) (Report.caret column) ∧
      (Token.line (ts.take m.index)).toList <+: (Token.line ts).toList ∧
      (t.kind = .exprEnd → column = if m.index = 0 then 0 else (Token.line ts).length + 1) ∧
      (t.kind ≠ .exprEnd → ∃ again u, Token.scan (Token.line ts) = .ok again ∧
        again[m.index]? = some u ∧ u.unplaced = t.unplaced ∧
        (¬ Token.ClosedUp ts m.index ∧ (column : Int) = u.position ∨
          Token.ClosedUp ts m.index ∧ (column : Int) = u.position + 1)) := by
  have hvalues := (Token.scanFrom_eq_ok_iff.mp hscan).numbersHaveValues
  have hcause : m.cause.isInternal = false := Parser.not_internal_of_parse hvalues hparse
  have hindex : m.index < ts.length := Parser.index_lt_length_of_scan hscan hparse
  have ht : ts[m.index]? = some ts[m.index] := List.getElem?_eq_getElem hindex
  have hreport : Failure.misreadingReport ts m = Report.join ("Parser error: " ++ m.cause.message)
      (Token.line ts) (Report.caret (Report.tokenColumn ts m.index)) := by
    rw [Failure.misreadingReport, hcause]
    rfl
  exact ⟨_, _, ht, hreport, Token.prefix_line_take hscan m.index,
    Token.tokenColumn_of_exprEnd hscan ht, Token.exists_scan_line_column hscan ht⟩

/-- In `-)` the bracket is unexpected, and the caret stands one column right of it. -/
theorem caret_column_closing :
    let ts : List Token := [.ofSymbol 0 '-' .minus, .ofSymbol 1 ')' .bracketClose, .finish 2]
    let m : Misreading := ⟨1, .operandExpected .bracketClose⟩
    Token.scan "-)" = .ok ts ∧ parse ts = .error m ∧
      ∃ (column : Nat) (again : List Token) (u : Token),
        Failure.misreadingReport ts m = Report.join ("Parser error: " ++ m.cause.message)
          (Token.line ts) (Report.caret column) ∧
        Token.scan (Token.line ts) = .ok again ∧ again[1]? = some u ∧
        (column : Int) = u.position + 1 := by
  intro ts m
  have hscan : Token.scan "-)" = .ok ts := by
    simp [ts, Token.scan, Token.scanFrom, isNumeric, Kind.ofSymbol?, Except.map]
  have hparse : parse ts = .error m := by cbv
  have hclosed : Token.ClosedUp ts 1 := ⟨0, _, _, rfl, rfl, rfl, .inr rfl⟩
  obtain ⟨t, column, ht, hreport, -, -, hword⟩ := caret_column hscan hparse
  obtain rfl : _ = t := Option.some.inj ht
  obtain ⟨again, u, hagain, hu, -, hplace⟩ := hword (by decide)
  refine ⟨hscan, hparse, column, again, u, hreport, hagain, hu, ?_⟩
  exact (hplace.resolve_left fun hopen => hopen.1 hclosed).2

end Abacus
