import Abacus.Proofs.Lexis
import Abacus.Text.Slice

/-!
# Tokens tile their line

The words of a scanned line are stretches of it, one behind the other, and what
lies between them is spaces.  So a line can be written out again from the places
of its tokens alone (`Scans.fillFrom_eq`), and no two lines have the same tokens.

Each word is found by induction on the course of scanning: what stands in front
of a line moves the words behind it, and does not lengthen their runs
(`StandsIn.behind`).  That two numbers never touch is no new induction: the one
behind would lend the one in front a digit or point, and both are maximal.
-/

namespace Abacus

namespace Token

/-- The place behind the last character of a token. -/
def stop (t : Token) : Int := t.position + t.lexeme.length

/-- The index is that of one of the token's characters. -/
def Covers (t : Token) (index : Int) : Prop := t.position ≤ index ∧ index < t.stop

/-- Where a token begins, and its characters. -/
def place (t : Token) : Int × String := (t.position, t.lexeme)

/-- Characters at their places, with spaces in front of each place. -/
def fillFrom (position : Int) : List (Int × String) → List Char
  | [] => []
  | (start, lexeme) :: places =>
    List.replicate (start - position).toNat ' ' ++
      (lexeme.toList ++ fillFrom (start + lexeme.length) places)

end Token

/-- The words are stretches of the line `cs`, in order, with spaces between them. -/
structure Tiles (cs : List Char) (words : List Token) : Prop where
  /-- Each is found at its place. -/
  slice_eq : ∀ t ∈ words, t.lexeme ≠ "" ∧ 0 ≤ t.position ∧ t.stop ≤ cs.length ∧
    Text.slice cs t.position t.stop = t.lexeme.toList
  /-- They follow each other and do not overlap. -/
  ordered : words.Pairwise fun t u => t.position < u.position ∧ t.stop ≤ u.position
  /-- Outside of them there are only spaces. -/
  spaces : ∀ (i : Nat) (c : Char), cs[i]? = some c → (∀ t ∈ words, ¬ t.Covers i) → c = ' '
  /-- There is a space between a number and one that comes next. -/
  apart : ∀ before t u after, words = before ++ t :: u :: after → t.kind = .number →
    u.kind = .number → ∃ i : Nat, t.stop ≤ (i : Int) ∧ (i : Int) < u.position ∧ cs[i]? = some ' '
  /-- A number takes all digits and points that there are. -/
  maximal : ∀ t ∈ words, t.kind = .number → ∃ before after,
    cs = before ++ (t.lexeme.toList ++ after) ∧ t.position = before.length ∧
      IsMaximalRun before t.lexeme.toList after
  /-- Kind and value are those of the characters. -/
  fits : ∀ t ∈ words, t.IsWord
  /-- None of them is an end. -/
  not_exprEnd : ∀ t ∈ words, t.kind ≠ .exprEnd

/-! ## Where a word stands -/

/-- The token is a word of a line whose first character has the given position. -/
inductive StandsIn (position : Nat) (cs : List Char) : Token → Prop
  | number {before run after : List Char} {d : Decimal} (hcs : cs = before ++ (run ++ after))
      (hrun : IsMaximalRun before run after) (hnumber : Decimal.ofLexeme? run = some d) :
      StandsIn position cs (.ofNumber (position + before.length) run d)
  | symbol {before after : List Char} {c : Char} {kind : Kind} (hcs : cs = before ++ c :: after)
      (hsymbol : Kind.ofSymbol? c = some kind) :
      StandsIn position cs (.ofSymbol (position + before.length) c kind)

namespace StandsIn

variable {position : Nat} {cs rest : List Char} {t : Token}

/-- What stands in front of a line moves its words, if no run can reach across. -/
theorem behind (piece : List Char) (h : StandsIn (position + piece.length) rest t)
    (hpiece : (∀ c ∈ piece.getLast?, isNumeric c = false) ∨ RunEnds rest) :
    StandsIn position (piece ++ rest) t := by
  cases h with
  | @number before run after d hcs hrun hnumber =>
      rw [hcs] at hpiece
      rw [hcs, Nat.add_assoc, ← List.length_append]
      exact .number (by rw [List.append_assoc]) (hrun.behind piece hpiece) hnumber
  | @symbol before after c kind hcs hsymbol =>
      rw [hcs, Nat.add_assoc, ← List.length_append]
      exact .symbol (by rw [List.append_assoc]) hsymbol

/-- A word takes up some of the line, from its place on. -/
theorem exists_split (h : StandsIn 0 cs t) : t.lexeme ≠ "" ∧ ∃ before after,
    cs = before ++ (t.lexeme.toList ++ after) ∧ t.position = before.length := by
  cases h with
  | @number before run after d hcs hrun hnumber =>
      refine ⟨?_, before, after, ?_, ?_⟩
      · simpa [Token.ofNumber] using hrun.isRun.ne_nil
      · simpa [Token.ofNumber] using hcs
      · simp [Token.ofNumber]
  | @symbol before after c kind hcs hsymbol =>
      refine ⟨?_, before, after, ?_, ?_⟩
      · simp [Token.ofSymbol]
      · simpa [Token.ofSymbol] using hcs
      · simp [Token.ofSymbol]

/-- A word is the slice of the line from its place to behind its last character. -/
theorem slice_eq (h : StandsIn 0 cs t) : t.lexeme ≠ "" ∧ 0 ≤ t.position ∧ t.stop ≤ cs.length ∧
    Text.slice cs t.position t.stop = t.lexeme.toList := by
  obtain ⟨hne, before, after, rfl, hposition⟩ := h.exists_split
  have hstop : t.stop = ↑(before ++ t.lexeme.toList).length := by
    rw [Token.stop, hposition, List.length_append, String.length_toList, Int.natCast_add]
  have hle :
      (before ++ t.lexeme.toList).length ≤ (before ++ (t.lexeme.toList ++ after)).length := by
    simp only [List.length_append]
    omega
  refine ⟨hne, by omega, by omega, ?_⟩
  rw [hposition, hstop, Text.slice_natCast _ (by simp) hle, ← List.append_assoc, List.take_left,
    List.drop_left]

/-- A number takes a maximal run. -/
theorem maximal (h : StandsIn 0 cs t) (hkind : t.kind = .number) : ∃ before after,
    cs = before ++ (t.lexeme.toList ++ after) ∧ t.position = before.length ∧
      IsMaximalRun before t.lexeme.toList after := by
  cases h with
  | @number before run after d hcs hrun hnumber =>
      exact ⟨before, after, by simpa [Token.ofNumber] using hcs, by simp [Token.ofNumber],
        by simpa [Token.ofNumber] using hrun⟩
  | symbol hcs hsymbol =>
      exact absurd hkind (Token.kind_ne_of_symbol hsymbol).1

end StandsIn

/-- Two maximal runs do not touch. -/
theorem IsMaximalRun.not_touching {before run after before' run' after' : List Char}
    (h : IsMaximalRun before run after) (h' : IsMaximalRun before' run' after')
    (hsame : before ++ (run ++ after) = before' ++ (run' ++ after')) :
    before.length + run.length ≠ before'.length := by
  intro htouch
  rw [← List.append_assoc] at hsame
  obtain ⟨-, hafter⟩ := List.append_inj hsame (by rw [List.length_append, htouch])
  obtain ⟨c, run', rfl⟩ := List.exists_cons_of_ne_nil h'.isRun.ne_nil
  have hnumeric : isNumeric c = true := h'.isRun.numeric c List.mem_cons_self
  have hfalse : isNumeric c = false := h.after_ends c (by rw [hafter]; rfl)
  simp [hfalse] at hnumeric

/-! ## The course of scanning tiles the line -/

namespace Token

variable {position : Nat} {cs : List Char} {ts : List Token}

/-- Every token of a line that is no end is a word of it. -/
theorem Scans.standsIn (h : Scans position cs ts) :
    ∀ t ∈ ts, t.kind ≠ .exprEnd → StandsIn position cs t := by
  induction h with
  | nil =>
      intro t ht hkind
      rw [List.mem_singleton.mp ht] at hkind
      exact absurd rfl hkind
  | @number position run rest d ts hrun hrest hnumber tail ih =>
      intro t ht hkind
      rcases List.mem_cons.mp ht with rfl | ht
      · have hfirst : run ++ rest = [] ++ (run ++ rest) := rfl
        exact .number hfirst ⟨hrun, by simp, hrest⟩ hnumber
      · exact (ih t ht hkind).behind run (.inr hrest)
  | @symbol position c kind rest ts hsymbol tail ih =>
      intro t ht hkind
      rcases List.mem_cons.mp ht with rfl | ht
      · have hfirst : c :: rest = [] ++ c :: rest := rfl
        exact .symbol hfirst hsymbol
      · exact (ih t ht hkind).behind [c] (.inl (by simpa using not_isNumeric_of_symbol hsymbol))
  | space tail ih =>
      intro t ht hkind
      exact (ih t ht hkind).behind [' '] (.inl (by simp [isNumeric]))

theorem Scans.position_le (h : Scans position cs ts) : ∀ t ∈ ts, (position : Int) ≤ t.position := by
  induction h with
  | nil => simp [finish]
  | number hrun hrest hnumber tail ih =>
      refine List.forall_mem_cons.mpr ⟨Int.le_refl _, fun t ht => ?_⟩
      have hle := ih t ht
      omega
  | symbol hsymbol tail ih =>
      refine List.forall_mem_cons.mpr ⟨Int.le_refl _, fun t ht => ?_⟩
      have hle := ih t ht
      omega
  | space tail ih =>
      intro t ht
      have hle := ih t ht
      omega

/-- Each token of a line begins behind those before it. -/
theorem Scans.ordered (h : Scans position cs ts) :
    ts.Pairwise fun t u => t.position < u.position ∧ t.stop ≤ u.position := by
  induction h with
  | nil => exact List.pairwise_singleton _ _
  | @number position run rest d ts hrun hrest hnumber tail ih =>
      refine List.pairwise_cons.mpr ⟨fun u hu => ?_, ih⟩
      have hle := tail.position_le u hu
      have hpos : 0 < run.length := List.length_pos_iff.mpr hrun.ne_nil
      simp only [ofNumber, stop, String.length_ofList]
      omega
  | symbol hsymbol tail ih =>
      refine List.pairwise_cons.mpr ⟨fun u hu => ?_, ih⟩
      have hle := tail.position_le u hu
      simp only [ofSymbol, stop, String.length_ofList, List.length_singleton]
      omega
  | space tail ih => exact ih

/-- Every character of a line is a space or one of a token. -/
theorem Scans.covers (h : Scans position cs ts) : ∀ (i : Nat) (c : Char), cs[i]? = some c →
    c = ' ' ∨ ∃ t ∈ ts, t.Covers ↑(position + i) := by
  induction h with
  | nil => simp
  | @number position run rest d ts hrun hrest hnumber tail ih =>
      intro i c hc
      by_cases hi : i < run.length
      · refine .inr ⟨ofNumber position run d, List.mem_cons_self, ?_⟩
        simp only [Covers, ofNumber, stop, String.length_ofList]
        omega
      · rw [List.getElem?_append_right (Nat.le_of_not_lt hi)] at hc
        have hindex : position + run.length + (i - run.length) = position + i := by omega
        rcases ih _ c hc with hspace | ⟨t, ht, hcovers⟩
        · exact .inl hspace
        · exact .inr ⟨t, List.mem_cons_of_mem _ ht, hindex ▸ hcovers⟩
  | @symbol position c kind rest ts hsymbol tail ih =>
      intro i d hd
      cases i with
      | zero =>
          refine .inr ⟨ofSymbol position c kind, List.mem_cons_self, ?_⟩
          simp only [Covers, ofSymbol, stop, String.length_ofList, List.length_singleton]
          omega
      | succ i =>
          rw [Nat.add_comm i 1, ← Nat.add_assoc]
          rcases ih i d hd with hspace | ⟨t, ht, hcovers⟩
          · exact .inl hspace
          · exact .inr ⟨t, List.mem_cons_of_mem _ ht, hcovers⟩
  | @space position rest ts tail ih =>
      intro i d hd
      cases i with
      | zero => exact .inl (Option.some.inj hd).symm
      | succ i =>
          rw [Nat.add_comm i 1, ← Nat.add_assoc]
          exact ih i d hd

/-- **A line is written out again** from the places of its tokens. -/
theorem Scans.fillFrom_eq (h : Scans position cs ts) : fillFrom position (ts.map place) = cs := by
  induction h with
  | nil => simp [fillFrom, finish, place]
  | number hrun hrest hnumber tail ih => simpa [fillFrom, ofNumber, place] using ih
  | symbol hsymbol tail ih => simpa [fillFrom, ofSymbol, place] using ih
  | @space position rest ts tail ih =>
      have hne : ts ≠ [] := by
        obtain ⟨words, rfl, -⟩ := tail.exists_words
        simp
      obtain ⟨t, ts, rfl⟩ := List.exists_cons_of_ne_nil hne
      have hle := tail.position_le t List.mem_cons_self
      have hone : (t.position - position).toNat = (t.position - ↑(position + 1)).toNat + 1 := by
        omega
      simp only [List.map_cons, place, fillFrom] at ih ⊢
      rw [hone, List.replicate_succ, List.cons_append, ih]

/-- Behind a number that is followed by another there is a space. -/
theorem exists_space_between {words before after : List Token} {t u : Token}
    (hordered : words.Pairwise fun t u => t.position < u.position ∧ t.stop ≤ u.position)
    (hspaces : ∀ (i : Nat) (c : Char), cs[i]? = some c → (∀ t ∈ words, ¬ t.Covers i) → c = ' ')
    (hsplit : words = before ++ t :: u :: after)
    (ht : StandsIn 0 cs t) (hu : StandsIn 0 cs u) (htkind : t.kind = .number)
    (hukind : u.kind = .number) :
    ∃ i : Nat, t.stop ≤ (i : Int) ∧ (i : Int) < u.position ∧ cs[i]? = some ' ' := by
  rw [hsplit] at hordered hspaces
  obtain ⟨-, hbehind, hbefore⟩ := List.pairwise_append.mp hordered
  obtain ⟨htu, hbehind⟩ := List.pairwise_cons.mp hbehind
  obtain ⟨hafter, -⟩ := List.pairwise_cons.mp hbehind
  obtain ⟨front, rest, hcs, hfront, hrun⟩ := ht.maximal htkind
  obtain ⟨front', rest', hcs', hfront', hrun'⟩ := hu.maximal hukind
  -- The first character behind the number is not one of the next number, so it
  -- lies outside of all words.
  have hstop : t.stop = ↑(front.length + t.lexeme.toList.length) := by
    rw [Token.stop, hfront, String.length_toList, Int.natCast_add]
  have hapart := hrun.not_touching hrun' (hcs.symm.trans hcs')
  have hnext : t.stop ≤ u.position := (htu u List.mem_cons_self).2
  have hlength : front'.length ≤ cs.length := by
    rw [hcs', List.length_append]
    exact Nat.le_add_right _ _
  have hlt : front.length + t.lexeme.toList.length < cs.length := by omega
  have hspace := hspaces _ _ (List.getElem?_eq_getElem hlt) (by
    intro w hw hcovers
    obtain ⟨hbegin, hend⟩ := hcovers
    rw [← hstop] at hbegin hend
    simp only [List.mem_append, List.mem_cons] at hw
    rcases hw with hw | rfl | rfl | hw
    · have hbefore := hbefore w hw t List.mem_cons_self
      have htstop : t.position ≤ t.stop := by rw [Token.stop]; omega
      omega
    · omega
    · omega
    · have hafter := hafter w hw
      omega)
  refine ⟨_, Int.le_of_eq hstop, by omega, ?_⟩
  rw [List.getElem?_eq_getElem hlt, hspace]

/-- **A scanned line is tiled** by the words in front of its end. -/
theorem Scans.tiles (h : Scans 0 cs ts) :
    ∃ words, ts = words ++ [finish cs.length] ∧ Tiles cs words := by
  obtain ⟨words, hts, hwords⟩ := h.exists_words
  rw [Nat.zero_add] at hts
  have hstands : ∀ t ∈ words, StandsIn 0 cs t := by
    intro t ht
    exact h.standsIn t (by rw [hts]; exact List.mem_append_left _ ht) (hwords t ht).kind_ne_exprEnd
  have hordered : words.Pairwise fun t u => t.position < u.position ∧ t.stop ≤ u.position :=
    (List.pairwise_append.mp (hts ▸ h.ordered)).1
  have hspaces : ∀ (i : Nat) (c : Char), cs[i]? = some c → (∀ t ∈ words, ¬ t.Covers i) →
      c = ' ' := by
    intro i c hc hnone
    rcases h.covers i c hc with hspace | ⟨t, ht, hcovers⟩
    · exact hspace
    · rw [hts, List.mem_append, List.mem_singleton] at ht
      rw [Nat.zero_add] at hcovers
      rcases ht with ht | rfl
      · exact absurd hcovers (hnone t ht)
      · obtain ⟨hbegin, hend⟩ := hcovers
        simp only [stop, finish, String.length_empty] at hbegin hend
        omega
  refine ⟨words, hts, ?_⟩
  exact
    { slice_eq := fun t ht => (hstands t ht).slice_eq
      ordered := hordered
      spaces := hspaces
      apart := fun before t u after hsplit => exists_space_between hordered hspaces hsplit
        (hstands t (by simp [hsplit])) (hstands u (by simp [hsplit]))
      maximal := fun t ht => (hstands t ht).maximal
      fits := hwords
      not_exprEnd := fun t ht => (hwords t ht).kind_ne_exprEnd }

end Token

/-- **Scanning is lossless.**  The tokens of a line are words that tile it, and one
end behind its last character.  The line is written out again from their places,
so another line with tokens at the same places is the same line. -/
theorem scan_lossless {line : String} {ts : List Token} (h : Token.scan line = .ok ts) :
    (∃ words, ts = words ++ [Token.finish line.toList.length] ∧ Tiles line.toList words) ∧
      Token.fillFrom 0 (ts.map Token.place) = line.toList ∧
      ∀ other us, Token.scan other = .ok us → us.map Token.place = ts.map Token.place →
        other = line := by
  have hscans : Token.Scans 0 line.toList ts := Token.scanFrom_eq_ok_iff.mp h
  have hline : Token.fillFrom 0 (ts.map Token.place) = line.toList := hscans.fillFrom_eq
  refine ⟨hscans.tiles, hline, ?_⟩
  intro other us hother hplaces
  have hscans' : Token.Scans 0 other.toList us := Token.scanFrom_eq_ok_iff.mp hother
  have hother : Token.fillFrom 0 (us.map Token.place) = other.toList := hscans'.fillFrom_eq
  rw [hplaces, hline] at hother
  exact (String.toList_inj.mp hother).symm

/-- In ` (1.  .5` the last two words are numbers, with two spaces between them. -/
theorem scan_lossless_numbers :
    let line := " (1.  .5"
    let ts : List Token := [.ofSymbol 1 '(' .bracketOpen, .ofNumber 2 ['1', '.'] ⟨1, 0⟩,
      .ofNumber 6 ['.', '5'] ⟨5, -1⟩, .finish 8]
    Token.scan line = .ok ts ∧
      (∃ words, ts = words ++ [.finish line.toList.length] ∧ Tiles line.toList words) ∧
      Token.fillFrom 0 (ts.map Token.place) = line.toList ∧
      ∀ other us, Token.scan other = .ok us → us.map Token.place = ts.map Token.place →
        other = line := by
  intro line ts
  have hscan : Token.scan line = .ok ts := by
    simp [line, ts, Token.scan, Token.scanFrom, isNumeric, Decimal.ofLexeme?, Decimal.wholePart,
      Decimal.fraction, Kind.ofSymbol?, Except.map, Nat.ofDigitChars]
  exact ⟨hscan, scan_lossless hscan⟩

end Abacus
