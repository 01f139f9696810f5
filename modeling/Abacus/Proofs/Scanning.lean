import Mathlib.Data.List.TakeWhile
import Abacus.Token.Scan
import Abacus.Proofs.Lookahead

/-!
# Scanning piece by piece

A line falls into pieces: runs of digits and points that are as long as
possible, and single other characters.  What follows a run begins with another
kind of character, so a run is one piece wherever it stands, and
`pieces_induction` is the induction over pieces.

`Scans` tells how a line that is scanned falls into numbers, symbols and spaces,
and `Stumbles` how one that is not does, up to the fault.  Every line takes one
of the two courses (`scans_or_stumbles`), and they say exactly what scanning
answers (`scanFrom_eq_ok_iff`, `scanFrom_eq_error_iff`).
-/

namespace Abacus

/-- No digit or point comes first. -/
def RunEnds (cs : List Char) : Prop := ∀ c ∈ cs.head?, isNumeric c = false

theorem runEnds_nil : RunEnds [] := by simp [RunEnds]

theorem runEnds_cons {c : Char} (hc : isNumeric c = false) (cs : List Char) :
    RunEnds (c :: cs) := by
  intro d hd
  obtain rfl : c = d := Option.some.inj hd
  exact hc

/-- A run of digits and points, not empty. -/
structure IsRun (run : List Char) : Prop where
  ne_nil : run ≠ []
  numeric : ∀ c ∈ run, isNumeric c = true

/-- A run with what follows it is split where the digits and points end. -/
theorem IsRun.split {run rest : List Char} (h : IsRun run) (hrest : RunEnds rest) :
    (run ++ rest).takeWhile isNumeric = run ∧ (run ++ rest).dropWhile isNumeric = rest := by
  rw [List.takeWhile_append_of_pos h.numeric, List.dropWhile_append_of_pos h.numeric]
  cases rest with
  | nil => simp
  | cons c rest =>
      have hc : isNumeric c = false := hrest c rfl
      simp [hc]

/-- A line that begins with a digit or point begins with a run. -/
theorem exists_run {c : Char} (hc : isNumeric c = true) (cs : List Char) :
    ∃ run rest, c :: cs = run ++ rest ∧ IsRun run ∧ RunEnds rest := by
  refine ⟨(c :: cs).takeWhile isNumeric, (c :: cs).dropWhile isNumeric,
    List.takeWhile_append_dropWhile.symm, ⟨by simp [hc], ?_⟩, ?_⟩
  · exact fun d hd => List.mem_takeWhile_imp hd
  · intro d hd
    have hstop := List.head?_dropWhile_not isNumeric (c :: cs)
    rwa [Option.mem_def.mp hd] at hstop

/-- **Induction over the pieces of a line.** -/
theorem pieces_induction {motive : List Char → Prop} (nil : motive [])
    (run : ∀ run rest, IsRun run → RunEnds rest → motive rest → motive (run ++ rest))
    (single : ∀ c rest, isNumeric c = false → motive rest → motive (c :: rest))
    (cs : List Char) : motive cs := by
  induction hlength : cs.length using Nat.strongRecOn generalizing cs with
  | ind length ih =>
      cases cs with
      | nil => exact nil
      | cons c cs =>
          cases hc : isNumeric c with
          | false => exact single c cs hc (ih cs.length (by simp [← hlength]) cs rfl)
          | true =>
              obtain ⟨word, rest, hsplit, hword, hrest⟩ := exists_run hc cs
              have hpos : 0 < word.length := List.length_pos_iff.mpr hword.ne_nil
              have hshorter : rest.length < length := by
                rw [hsplit, List.length_append] at hlength
                omega
              rw [hsplit]
              exact run word rest hword hrest (ih rest.length hshorter rest rfl)

namespace Token

/-- The course of scanning a line that has tokens. -/
inductive Scans : Nat → List Char → List Token → Prop
  | nil {position : Nat} : Scans position [] [finish position]
  | number {position : Nat} {run rest : List Char} {d : Decimal} {ts : List Token}
      (hrun : IsRun run) (hrest : RunEnds rest) (hnumber : Decimal.ofLexeme? run = some d)
      (tail : Scans (position + run.length) rest ts) :
      Scans position (run ++ rest) (ofNumber position run d :: ts)
  | symbol {position : Nat} {c : Char} {kind : Kind} {rest : List Char} {ts : List Token}
      (hsymbol : Kind.ofSymbol? c = some kind) (tail : Scans (position + 1) rest ts) :
      Scans position (c :: rest) (ofSymbol position c kind :: ts)
  | space {position : Nat} {rest : List Char} {ts : List Token}
      (tail : Scans (position + 1) rest ts) : Scans position (' ' :: rest) ts

/-- The course of scanning a line with a fault. -/
inductive Stumbles : Nat → List Char → LexicalError → Prop
  | malformed {position : Nat} {run rest : List Char} (hrun : IsRun run) (hrest : RunEnds rest)
      (hnumber : Decimal.ofLexeme? run = none) :
      Stumbles position (run ++ rest) (.malformedNumber position run)
  | invalid {position : Nat} {c : Char} {rest : List Char} (hnumeric : isNumeric c = false)
      (hsymbol : Kind.ofSymbol? c = none) (hspace : c ≠ ' ') :
      Stumbles position (c :: rest) (.invalidCharacter position c)
  | behindNumber {position : Nat} {run rest : List Char} {d : Decimal} {error : LexicalError}
      (hrun : IsRun run) (hrest : RunEnds rest) (hnumber : Decimal.ofLexeme? run = some d)
      (tail : Stumbles (position + run.length) rest error) :
      Stumbles position (run ++ rest) error
  | behindSymbol {position : Nat} {c : Char} {kind : Kind} {rest : List Char}
      {error : LexicalError} (hsymbol : Kind.ofSymbol? c = some kind)
      (tail : Stumbles (position + 1) rest error) : Stumbles position (c :: rest) error
  | behindSpace {position : Nat} {rest : List Char} {error : LexicalError}
      (tail : Stumbles (position + 1) rest error) : Stumbles position (' ' :: rest) error

/-- Every line takes one of the two courses. -/
theorem scans_or_stumbles (position : Nat) (cs : List Char) :
    (∃ ts, Scans position cs ts) ∨ ∃ error, Stumbles position cs error := by
  induction cs using pieces_induction generalizing position with
  | nil => exact .inl ⟨_, .nil⟩
  | run run rest hrun hrest ih =>
      cases hnumber : Decimal.ofLexeme? run with
      | none => exact .inr ⟨_, .malformed hrun hrest hnumber⟩
      | some d =>
          rcases ih (position + run.length) with ⟨ts, h⟩ | ⟨error, h⟩
          · exact .inl ⟨_, .number hrun hrest hnumber h⟩
          · exact .inr ⟨error, .behindNumber hrun hrest hnumber h⟩
  | single c rest hc ih =>
      rcases ih (position + 1) with ⟨ts, h⟩ | ⟨error, h⟩
      · cases hsymbol : Kind.ofSymbol? c with
        | some kind => exact .inl ⟨_, .symbol hsymbol h⟩
        | none =>
            by_cases hspace : c = ' '
            · exact .inl ⟨ts, hspace ▸ .space h⟩
            · exact .inr ⟨_, .invalid hc hsymbol hspace⟩
      · cases hsymbol : Kind.ofSymbol? c with
        | some kind => exact .inr ⟨error, .behindSymbol hsymbol h⟩
        | none =>
            by_cases hspace : c = ' '
            · exact .inr ⟨error, hspace ▸ .behindSpace h⟩
            · exact .inr ⟨_, .invalid hc hsymbol hspace⟩

/-! ## The answer of a course -/

/-- A run is a number, or the fault. -/
theorem scanFrom_run (position : Nat) {run rest : List Char} (hrun : IsRun run)
    (hrest : RunEnds rest) :
    scanFrom position (run ++ rest) =
      match Decimal.ofLexeme? run with
      | none => .error (.malformedNumber position run)
      | some d => (scanFrom (position + run.length) rest).map (ofNumber position run d :: ·) := by
  obtain ⟨htake, hdrop⟩ := hrun.split hrest
  cases run with
  | nil => exact absurd rfl hrun.ne_nil
  | cons c run =>
      have hc : isNumeric c = true := hrun.numeric c List.mem_cons_self
      rw [List.cons_append, List.takeWhile_cons_of_pos hc, List.cons.injEq] at htake
      rw [List.cons_append, List.dropWhile_cons_of_pos hc] at hdrop
      rw [List.cons_append, scanFrom]
      cases hnumber : Decimal.ofLexeme? (c :: run) with
      | none => simp only [hc, if_true, htake.2, hnumber]
      | some d => simp only [hc, if_true, htake.2, hdrop, hnumber]

/-- The characters that are tokens by themselves. -/
theorem symbol_cases {c : Char} {kind : Kind} (h : Kind.ofSymbol? c = some kind) :
    (c = '+' ∧ kind = .plus) ∨ (c = '-' ∧ kind = .minus) ∨ (c = '*' ∧ kind = .star) ∨
      (c = '/' ∧ kind = .slash) ∨ (c = '(' ∧ kind = .bracketOpen) ∨
        (c = ')' ∧ kind = .bracketClose) := by
  unfold Kind.ofSymbol? at h
  split at h <;> simp_all

/-- Symbols are neither numbers nor ends. -/
theorem kind_ne_of_symbol {c : Char} {kind : Kind} (hc : Kind.ofSymbol? c = some kind) :
    kind ≠ .number ∧ kind ≠ .exprEnd := by
  rcases symbol_cases hc with ⟨-, rfl⟩ | ⟨-, rfl⟩ | ⟨-, rfl⟩ | ⟨-, rfl⟩ | ⟨-, rfl⟩ | ⟨-, rfl⟩
  all_goals decide

theorem not_isNumeric_of_symbol {c : Char} {kind : Kind} (hc : Kind.ofSymbol? c = some kind) :
    isNumeric c = false := by
  rcases symbol_cases hc with ⟨rfl, -⟩ | ⟨rfl, -⟩ | ⟨rfl, -⟩ | ⟨rfl, -⟩ | ⟨rfl, -⟩ | ⟨rfl, -⟩
  all_goals decide

/-- A course with tokens answers with them. -/
theorem Scans.scanFrom_eq {position : Nat} {cs : List Char} {ts : List Token}
    (h : Scans position cs ts) : scanFrom position cs = .ok ts := by
  induction h with
  | nil => rw [scanFrom]
  | number hrun hrest hnumber tail ih =>
      rw [scanFrom_run _ hrun hrest, hnumber, ih]
      rfl
  | symbol hsymbol tail ih =>
      rw [scanFrom]
      simp [not_isNumeric_of_symbol hsymbol, hsymbol, ih, Except.map]
  | space tail ih =>
      rw [scanFrom]
      simpa [isNumeric, Kind.ofSymbol?] using ih

/-- A course with a fault answers with it. -/
theorem Stumbles.scanFrom_eq {position : Nat} {cs : List Char} {error : LexicalError}
    (h : Stumbles position cs error) : scanFrom position cs = .error error := by
  induction h with
  | malformed hrun hrest hnumber => rw [scanFrom_run _ hrun hrest, hnumber]
  | invalid hnumeric hsymbol hspace =>
      rw [scanFrom]
      simp [hnumeric, hsymbol, hspace]
  | behindNumber hrun hrest hnumber tail ih =>
      rw [scanFrom_run _ hrun hrest, hnumber, ih]
      rfl
  | behindSymbol hsymbol tail ih =>
      rw [scanFrom]
      simp [not_isNumeric_of_symbol hsymbol, hsymbol, ih, Except.map]
  | behindSpace tail ih =>
      rw [scanFrom]
      simpa [isNumeric, Kind.ofSymbol?] using ih

theorem scanFrom_eq_ok_iff {position : Nat} {cs : List Char} {ts : List Token} :
    scanFrom position cs = .ok ts ↔ Scans position cs ts := by
  refine ⟨fun h => ?_, Scans.scanFrom_eq⟩
  rcases scans_or_stumbles position cs with ⟨ts', hs⟩ | ⟨error, hs⟩
  · obtain rfl : ts' = ts := Except.ok.inj (hs.scanFrom_eq.symm.trans h)
    exact hs
  · cases hs.scanFrom_eq.symm.trans h

theorem scanFrom_eq_error_iff {position : Nat} {cs : List Char} {error : LexicalError} :
    scanFrom position cs = .error error ↔ Stumbles position cs error := by
  refine ⟨fun h => ?_, Stumbles.scanFrom_eq⟩
  rcases scans_or_stumbles position cs with ⟨ts, hs⟩ | ⟨error', hs⟩
  · cases hs.scanFrom_eq.symm.trans h
  · obtain rfl : error' = error := Except.error.inj (hs.scanFrom_eq.symm.trans h)
    exact hs

/-! ## The tokens of a line -/

/-- The numbers of a line have values. -/
theorem Scans.numbersHaveValues {position : Nat} {cs : List Char} {ts : List Token}
    (h : Scans position cs ts) : NumbersHaveValues ts := by
  induction h with
  | nil => simp [NumbersHaveValues, finish]
  | number hrun hrest hnumber tail ih => simpa [NumbersHaveValues, ofNumber] using ih
  | @symbol position c kind rest ts hsymbol tail ih =>
      have hkind : kind ≠ .number := (kind_ne_of_symbol hsymbol).1
      simpa [NumbersHaveValues, ofSymbol, hkind] using ih
  | space tail ih => exact ih

/-- The token of a number or of a symbol, wherever it stands. -/
inductive IsWord : Token → Prop
  | number {run : List Char} {d : Decimal} {position : Int} (hrun : IsRun run)
      (hnumber : Decimal.ofLexeme? run = some d) :
      IsWord ⟨.number, String.ofList run, some d.toBinary64, position⟩
  | symbol {c : Char} {kind : Kind} {position : Int} (hsymbol : Kind.ofSymbol? c = some kind) :
      IsWord ⟨kind, String.ofList [c], none, position⟩

/-- The token at another place. -/
def moveTo (t : Token) (position : Int) : Token := { t with position := position }

/-- A word is scanned at the place where it stands. -/
theorem Scans.word {t : Token} (ht : IsWord t) {position : Nat} {rest : List Char}
    {ts : List Token} (hends : t.kind = .number → RunEnds rest)
    (tail : Scans (position + t.lexeme.toList.length) rest ts) :
    Scans position (t.lexeme.toList ++ rest) (t.moveTo position :: ts) := by
  cases ht with
  | number hrun hnumber =>
      rw [String.toList_ofList] at tail ⊢
      exact .number hrun (hends rfl) hnumber tail
  | symbol hsymbol =>
      rw [String.toList_ofList] at tail ⊢
      exact .symbol hsymbol tail

/-- A word is no end. -/
theorem IsWord.kind_ne_exprEnd {t : Token} (h : IsWord t) : t.kind ≠ .exprEnd := by
  cases h with
  | number hrun hnumber => exact Kind.noConfusion
  | symbol hsymbol => exact (kind_ne_of_symbol hsymbol).2

/-- The last token of a line is an end, behind the last character, and the others
are words. -/
theorem Scans.exists_words {position : Nat} {cs : List Char} {ts : List Token}
    (h : Scans position cs ts) :
    ∃ words, ts = words ++ [finish ↑(position + cs.length)] ∧ ∀ t ∈ words, IsWord t := by
  induction h with
  | nil => exact ⟨[], rfl, by simp⟩
  | @number position run rest d ts hrun hrest hnumber tail ih =>
      obtain ⟨words, rfl, hwords⟩ := ih
      rw [List.length_append, ← Nat.add_assoc]
      refine ⟨ofNumber position run d :: words, rfl, ?_⟩
      exact List.forall_mem_cons.mpr ⟨.number hrun hnumber, hwords⟩
  | @symbol position c kind rest ts hsymbol tail ih =>
      obtain ⟨words, rfl, hwords⟩ := ih
      rw [List.length_cons, Nat.add_comm rest.length, ← Nat.add_assoc]
      refine ⟨ofSymbol position c kind :: words, rfl, ?_⟩
      exact List.forall_mem_cons.mpr ⟨.symbol hsymbol, hwords⟩
  | @space position rest ts tail ih =>
      obtain ⟨words, rfl, hwords⟩ := ih
      rw [List.length_cons, Nat.add_comm rest.length, ← Nat.add_assoc]
      exact ⟨words, rfl, hwords⟩

end Token

end Abacus
