import Abacus.Proofs.Spacing

/-!
# Lines put together

Scanning a line that is put together from two texts is scanning one after the other, as long
as no run of digits and points reaches across the seam.  A fault in the first text stays what
and where it is; what is found in the second one is found behind the first.

The key local fact is `Apart.runEnds_append`: a run at the end of the first text is as long
as possible also with the second one behind it.  Then the course of scanning the first text
goes over, step by step, into the course of scanning the second.
-/

namespace Abacus

variable {before after run rest front : List Char}

/-! ## The seam -/

theorem Apart.of_append (h : Apart (front ++ before) after) : Apart before after := by
  intro c hc d hd
  refine h c ?_ d hd
  rw [Option.mem_def] at hc ⊢
  rw [List.getLast?_append, hc, Option.some_or]

theorem Apart.of_cons {c : Char} (h : Apart (c :: before) after) : Apart before after :=
  Apart.of_append (show Apart ([c] ++ before) after from h)

/-- A run that ends where it can still ends there with a text behind that is apart. -/
theorem Apart.runEnds_append (hrun : IsRun run) (hrest : RunEnds rest)
    (h : Apart (run ++ rest) after) : RunEnds (rest ++ after) := by
  cases rest with
  | cons c rest => exact runEnds_cons (hrest c rfl) (rest ++ after)
  | nil =>
      rw [List.append_nil] at h
      intro d hd
      have hlast := h _ (List.getLast?_eq_getLast_of_ne_nil hrun.ne_nil) d hd
      have hnumeric := hrun.numeric _ (List.getLast_mem hrun.ne_nil)
      simpa [hnumeric] using hlast

/-! ## What stands behind a text -/

/-- The same fault, with `n` more characters in front of its line. -/
def LexicalError.behind (n : Nat) (error : LexicalError) : LexicalError :=
  error.moveTo (n + error.index)

namespace Token

/-- The same token, with `n` more characters in front of its line. -/
def behind (n : Nat) (t : Token) : Token := t.moveTo (n + t.position)

variable {position : Nat} {cs : List Char} {ts us : List Token} {error : LexicalError}

theorem Scans.ne_nil (h : Scans position cs ts) : ts ≠ [] := by
  obtain ⟨words, rfl, -⟩ := h.exists_words
  simp

/-- A line further behind has the same tokens further behind. -/
theorem Scans.behind (n : Nat) (h : Scans position cs ts) :
    Scans (n + position) cs (ts.map (Token.behind n)) := by
  induction h with
  | @nil position =>
      have hfinish : Token.behind n (finish position) = finish ↑(n + position) := by
        simp [Token.behind, moveTo, finish]
      rw [List.map_singleton, hfinish]
      exact .nil
  | @number position run rest d ts hrun hrest hnumber tail ih =>
      have hhead : Token.behind n (ofNumber position run d) = ofNumber (n + position) run d := by
        simp [Token.behind, moveTo, ofNumber]
      rw [← Nat.add_assoc] at ih
      rw [List.map_cons, hhead]
      exact .number hrun hrest hnumber ih
  | @symbol position c kind rest ts hsymbol tail ih =>
      have hhead : Token.behind n (ofSymbol position c kind) = ofSymbol (n + position) c kind := by
        simp [Token.behind, moveTo, ofSymbol]
      rw [← Nat.add_assoc] at ih
      rw [List.map_cons, hhead]
      exact .symbol hsymbol ih
  | space tail ih =>
      rw [← Nat.add_assoc] at ih
      exact .space ih

/-- A line further behind has the same fault further behind. -/
theorem Stumbles.behind (n : Nat) (h : Stumbles position cs error) :
    Stumbles (n + position) cs (error.behind n) := by
  induction h with
  | malformed hrun hrest hnumber => exact .malformed hrun hrest hnumber
  | invalid hnumeric hsymbol hspace => exact .invalid hnumeric hsymbol hspace
  | behindNumber hrun hrest hnumber tail ih =>
      rw [← Nat.add_assoc] at ih
      exact .behindNumber hrun hrest hnumber ih
  | behindSymbol hsymbol tail ih =>
      rw [← Nat.add_assoc] at ih
      exact .behindSymbol hsymbol ih
  | behindSpace tail ih =>
      rw [← Nat.add_assoc] at ih
      exact .behindSpace ih

/-! ## Scanning on -/

/-- **Behind the words of a text** come the tokens of what is apart from it. -/
theorem Scans.append (h : Scans position before ts) (hapart : Apart before after)
    (hafter : Scans (position + before.length) after us) :
    Scans position (before ++ after) (ts.dropLast ++ us) := by
  induction h with
  | nil => exact hafter
  | @number position run rest d ts hrun hrest hnumber tail ih =>
      rw [List.length_append, ← Nat.add_assoc] at hafter
      rw [List.dropLast_cons_of_ne_nil tail.ne_nil, List.append_assoc]
      exact .number hrun (hapart.runEnds_append hrun hrest) hnumber (ih hapart.of_append hafter)
  | @symbol position c kind rest ts hsymbol tail ih =>
      rw [List.length_cons, Nat.add_comm rest.length, ← Nat.add_assoc] at hafter
      rw [List.dropLast_cons_of_ne_nil tail.ne_nil]
      exact .symbol hsymbol (ih hapart.of_cons hafter)
  | @space position rest ts tail ih =>
      rw [List.length_cons, Nat.add_comm rest.length, ← Nat.add_assoc] at hafter
      exact .space (ih hapart.of_cons hafter)

/-- Behind the words of a text comes the fault of what is apart from it. -/
theorem Scans.append_stumbles (h : Scans position before ts) (hapart : Apart before after)
    (hafter : Stumbles (position + before.length) after error) :
    Stumbles position (before ++ after) error := by
  induction h with
  | nil => exact hafter
  | @number position run rest d ts hrun hrest hnumber tail ih =>
      rw [List.length_append, ← Nat.add_assoc] at hafter
      rw [List.append_assoc]
      exact .behindNumber hrun (hapart.runEnds_append hrun hrest) hnumber
        (ih hapart.of_append hafter)
  | @symbol position c kind rest ts hsymbol tail ih =>
      rw [List.length_cons, Nat.add_comm rest.length, ← Nat.add_assoc] at hafter
      exact .behindSymbol hsymbol (ih hapart.of_cons hafter)
  | @space position rest ts tail ih =>
      rw [List.length_cons, Nat.add_comm rest.length, ← Nat.add_assoc] at hafter
      exact .behindSpace (ih hapart.of_cons hafter)

/-- **The fault of a text** stays the same with what is apart from it behind. -/
theorem Stumbles.append (h : Stumbles position before error) (hapart : Apart before after) :
    Stumbles position (before ++ after) error := by
  induction h with
  | malformed hrun hrest hnumber =>
      rw [List.append_assoc]
      exact .malformed hrun (hapart.runEnds_append hrun hrest) hnumber
  | invalid hnumeric hsymbol hspace => exact .invalid hnumeric hsymbol hspace
  | behindNumber hrun hrest hnumber tail ih =>
      rw [List.append_assoc]
      exact .behindNumber hrun (hapart.runEnds_append hrun hrest) hnumber (ih hapart.of_append)
  | behindSymbol hsymbol tail ih => exact .behindSymbol hsymbol (ih hapart.of_cons)
  | behindSpace tail ih => exact .behindSpace (ih hapart.of_cons)

end Token

/-- **Scanning is compositional.**  Of two texts across whose seam no run of digits and points
reaches, a fault of the first one is the fault of both together.  If the first one has tokens,
the fault of the second one is theirs, behind the characters of the first; and if both have
tokens, those of both together are the words of the first and, behind its characters, the
tokens of the second. -/
theorem scan_append {line other : String} (hapart : Apart line.toList other.toList) :
    (∀ error, Token.scan line = .error error → Token.scan (line ++ other) = .error error) ∧
      (∀ ts error, Token.scan line = .ok ts → Token.scan other = .error error →
        Token.scan (line ++ other) = .error (error.behind line.length) ∧
          (error.behind line.length).message = error.message ∧
          (error.behind line.length).index = line.length + error.index) ∧
      ∀ ts us, Token.scan line = .ok ts → Token.scan other = .ok us →
        ∃ words, ts = words ++ [Token.finish line.length] ∧
          Token.scan (line ++ other) = .ok (words ++ us.map (Token.behind line.length)) := by
  have hscan : Token.scan (line ++ other) = Token.scanFrom 0 (line.toList ++ other.toList) := by
    rw [Token.scan, String.toList_append]
  have hlength : line.length + 0 = 0 + line.toList.length := by
    rw [String.length_toList, Nat.add_comm]
  refine ⟨fun error herror => ?_, fun ts error hts herror => ?_, fun ts us hts hus => ?_⟩
  · rw [hscan]
    exact ((Token.scanFrom_eq_error_iff.mp herror).append hapart).scanFrom_eq
  · have hother := (Token.scanFrom_eq_error_iff.mp herror).behind line.length
    rw [hlength] at hother
    rw [hscan]
    exact ⟨((Token.scanFrom_eq_ok_iff.mp hts).append_stumbles hapart hother).scanFrom_eq,
      error.message_moveTo _, error.index_moveTo _⟩
  · have hline : Token.Scans 0 line.toList ts := Token.scanFrom_eq_ok_iff.mp hts
    have hother := (Token.scanFrom_eq_ok_iff.mp hus).behind line.length
    rw [hlength] at hother
    obtain ⟨words, hwords, -⟩ := hline.exists_words
    rw [Nat.zero_add, String.length_toList] at hwords
    refine ⟨words, hwords, ?_⟩
    have hboth := (hline.append hapart hother).scanFrom_eq
    rwa [hwords, List.dropLast_concat, ← hscan] at hboth

/-- Behind `1` and a space, a `2` is a number of its own. -/
theorem scan_append_numbers :
    let one : Token := .ofNumber 0 ['1'] ⟨1, 0⟩
    let two (position : Nat) : Token := .ofNumber position ['2'] ⟨2, 0⟩
    Apart "1 ".toList "2".toList ∧ Token.scan "1 " = .ok [one, .finish 2] ∧
      Token.scan "2" = .ok [two 0, .finish 1] ∧
      Token.scan ("1 " ++ "2") = .ok [one, two 2, .finish 3] := by
  intro one two
  have hapart : Apart "1 ".toList "2".toList := by simp [Apart, isNumeric]
  have hline : Token.scan "1 " = .ok [one, .finish 2] := by
    simp [one, Token.scan, Token.scanFrom, isNumeric, Decimal.ofLexeme?, Decimal.wholePart,
      Decimal.fraction, Kind.ofSymbol?, Except.map, Nat.ofDigitChars]
  have hother : Token.scan "2" = .ok [two 0, .finish 1] := by
    simp [two, Token.scan, Token.scanFrom, isNumeric, Decimal.ofLexeme?, Decimal.wholePart,
      Decimal.fraction, Except.map, Nat.ofDigitChars]
  obtain ⟨words, hwords, hboth⟩ := (scan_append hapart).2.2 _ _ hline hother
  obtain rfl : [one] = words := List.append_inj_left' hwords rfl
  exact ⟨hapart, hline, hother, hboth⟩

end Abacus
