import Abacus.Proofs.Grammar
import Abacus.Proofs.Lexis
import Abacus.Proofs.Unplaced

/-!
# Formulas and how they are written

A formula is a tree of numerals, minus signs in front of one operand, and signs
between two.  A script is one way to write it on a line: it says where there are
brackets, and how many spaces stand in front of each word.  Some brackets are needed,
because without them a sign would take its operand apart (`Script.HasBrackets`); all
others are redundant.

A script with the brackets that it needs is read back as its formula
(`script_reads_back`).  Scanning gives its words, in front of whatever cannot lengthen
a number (`Script.yields`).  The brackets that are needed are those that a derivation
of the words needs: a script with a sign outside of brackets derives from the layer of
that sign, and any other is a factor (`Script.HasBrackets.derivesFrom_layer`).
-/

namespace Abacus

/-- A number as it is written: digits and points, of which at least one is a digit and
at most one a point. -/
structure Numeral where
  run : List Char
  isRun : IsRun run
  isNumeral : IsNumeral run

namespace Numeral

/-- The decimal that a numeral stands for. -/
def decimal (n : Numeral) : Decimal :=
  (Decimal.ofLexeme? n.run).get (n.isRun.isSome_iff_isNumeral.mpr n.isNumeral)

theorem ofLexeme?_run (n : Numeral) : Decimal.ofLexeme? n.run = some n.decimal :=
  (Option.some_get _).symm

/-- The number that a numeral is read as. -/
def value (n : Numeral) : Binary64 := n.decimal.toBinary64

end Numeral

/-- The signs between two operands. -/
inductive Sign where
  | plus
  | minus
  | star
  | slash
deriving DecidableEq

namespace Sign

/-- The character that is written for a sign. -/
def char : Sign → Char
  | plus => '+'
  | minus => '-'
  | star => '*'
  | slash => '/'

/-- The kind of a sign's token. -/
def kind : Sign → Kind
  | plus => .plus
  | minus => .minus
  | star => .star
  | slash => .slash

/-- The operator that a sign stands for. -/
def operator : Sign → Operator
  | plus => .add
  | minus => .sub
  | star => .mul
  | slash => .div

/-- Star and slash bind more tightly than plus and minus. -/
def precedence : Sign → Nat
  | plus => 1
  | minus => 1
  | star => 2
  | slash => 2

/-- The layer of what a sign joins. -/
def layer : Sign → Phrase
  | plus => .sum
  | minus => .sum
  | star => .product
  | slash => .product

theorem ofSymbol?_char (sign : Sign) : Kind.ofSymbol? sign.char = some sign.kind := by
  cases sign <;> rfl

theorem operator?_kind (sign : Sign) : sign.layer.operator? sign.kind = some sign.operator := by
  cases sign <;> rfl

/-- The tighter a sign binds, the further in is its layer, but no sign joins factors
to a factor. -/
theorem rank_layer (sign : Sign) :
    0 < sign.layer.rank ∧ sign.layer.rank + sign.precedence = 3 := by
  cases sign <;> decide

end Sign

/-- A formula, with its numbers as they are written. -/
inductive Formula where
  | number (n : Numeral)
  | negation (operand : Formula)
  | binary (sign : Sign) (left right : Formula)

/-- The tree of a formula. -/
def Formula.tree : Formula → Expr
  | number n => .number n.value
  | negation operand => .unary .neg operand.tree
  | binary sign left right => .binary sign.operator left.tree right.tree

/-- A formula with its brackets, and the number of spaces in front of each word. -/
inductive Script where
  | number (spaces : Nat) (n : Numeral)
  | negation (spaces : Nat) (operand : Script)
  | binary (left : Script) (spaces : Nat) (sign : Sign) (right : Script)
  | brackets (spaces : Nat) (inside : Script) (spacesInside : Nat)

namespace Script

/-- The formula that a script writes. -/
def formula : Script → Formula
  | number _ n => .number n
  | negation _ operand => .negation operand.formula
  | binary left _ sign right => .binary sign left.formula right.formula
  | brackets _ inside _ => inside.formula

/-- The characters of a script. -/
def chars : Script → List Char
  | number spaces n => List.replicate spaces ' ' ++ n.run
  | negation spaces operand => List.replicate spaces ' ' ++ '-' :: operand.chars
  | binary left spaces sign right =>
    left.chars ++ (List.replicate spaces ' ' ++ sign.char :: right.chars)
  | brackets spaces inside spacesInside =>
    List.replicate spaces ' ' ++ '(' :: (inside.chars ++ (List.replicate spacesInside ' ' ++ [')']))

/-- The line of a script with some spaces behind it. -/
def line (s : Script) (spaces : Nat) : String :=
  String.ofList (s.chars ++ List.replicate spaces ' ')

/-- The sign of a script that joins two operands outside of brackets. -/
def outer? : Script → Option Sign
  | binary _ _ sign _ => some sign
  | _ => none

/-- What is outside of brackets binds at least with this precedence. -/
def Binds (precedence : Nat) (s : Script) : Prop := ∀ sign ∈ s.outer?, precedence ≤ sign.precedence

/-- There are brackets around the operand of a minus sign if it joins two operands,
around an operand that binds less tightly than its sign, and around a right operand
that binds alike. -/
def HasBrackets : Script → Prop
  | number _ _ => True
  | negation _ operand => operand.outer? = none ∧ operand.HasBrackets
  | binary left _ sign right =>
    left.Binds sign.precedence ∧ right.Binds (sign.precedence + 1) ∧
      left.HasBrackets ∧ right.HasBrackets
  | brackets _ inside _ => inside.HasBrackets

/-- How many expressions open inside each other when a script is read, not counting
the one that is read. -/
def levels : Script → Nat
  | number _ _ => 0
  | negation _ operand => operand.levels + 1
  | binary left _ _ right => max left.levels (right.levels + 1)
  | brackets _ inside _ => inside.levels + 1

end Script

/-- A script of a formula with brackets around every operand. -/
def Formula.script : Formula → Script
  | number n => .number 0 n
  | negation operand => .negation 0 (.brackets 0 operand.script 0)
  | binary sign left right =>
    .binary (.brackets 0 left.script 0) 0 sign (.brackets 0 right.script 0)

/-- Every formula can be written. -/
theorem Formula.script_writes (f : Formula) : f.script.formula = f ∧ f.script.HasBrackets := by
  induction f with
  | number n => exact ⟨rfl, trivial⟩
  | negation operand ih =>
      obtain ⟨hformula, hbrackets⟩ := ih
      exact ⟨congrArg negation hformula, rfl, hbrackets⟩
  | binary sign left right ihLeft ihRight =>
      obtain ⟨hleft, hleftBrackets⟩ := ihLeft
      obtain ⟨hright, hrightBrackets⟩ := ihRight
      have hnone : ∀ (p : Nat) (s : Script), (Script.brackets 0 s 0).Binds p := by
        intro p s sign hsign
        cases hsign
      exact ⟨congrArg₂ (binary sign) hleft hright, hnone _ _, hnone _ _, hleftBrackets,
        hrightBrackets⟩

/-! ## Scanning a script -/

/-- Wherever the characters stand, they are scanned as these tokens, their places
apart. -/
def Token.Yields (cs : List Char) (ts : List Token) : Prop :=
  ∀ position, ∃ found, Token.Scans position cs found ∧ found.map Token.unplaced = ts

namespace Token.Yields

variable {cs : List Char} {ts : List Token}

theorem nil : Yields [] [finish 0] := fun _ => ⟨_, .nil, rfl⟩

theorem spaces (h : Yields cs ts) (n : Nat) : Yields (List.replicate n ' ' ++ cs) ts := by
  induction n with
  | zero => exact h
  | succ n ih =>
      intro position
      obtain ⟨found, hfound, hts⟩ := ih (position + 1)
      exact ⟨found, .space hfound, hts⟩

theorem symbol {c : Char} {kind : Kind} (hsymbol : Kind.ofSymbol? c = some kind)
    (h : Yields cs ts) : Yields (c :: cs) (ofSymbol 0 c kind :: ts) := by
  intro position
  obtain ⟨found, hfound, rfl⟩ := h (position + 1)
  exact ⟨_, .symbol hsymbol hfound, rfl⟩

theorem number (n : Numeral) (hends : RunEnds cs) (h : Yields cs ts) :
    Yields (n.run ++ cs) (ofNumber 0 n.run n.decimal :: ts) := by
  intro position
  obtain ⟨found, hfound, rfl⟩ := h (position + n.run.length)
  exact ⟨_, .number n.isRun hends n.ofLexeme?_run hfound, rfl⟩

end Token.Yields

/-- What ends a run ends it with spaces in front as well. -/
theorem RunEnds.spaces {cs : List Char} (h : RunEnds cs) (n : Nat) :
    RunEnds (List.replicate n ' ' ++ cs) := by
  cases n with
  | zero => exact h
  | succ n => exact runEnds_cons (by decide) _

namespace Script

/-- The words of a script. -/
def words : Script → List Token
  | number _ n => [.ofNumber 0 n.run n.decimal]
  | negation _ operand => .ofSymbol 0 '-' .minus :: operand.words
  | binary left _ sign right => left.words ++ .ofSymbol 0 sign.char sign.kind :: right.words
  | brackets _ inside _ =>
    .ofSymbol 0 '(' .bracketOpen :: (inside.words ++ [.ofSymbol 0 ')' .bracketClose])

/-- **A script is scanned as its words**, in front of whatever cannot lengthen a
number. -/
theorem yields (s : Script) {cs : List Char} {ts : List Token} (hends : RunEnds cs)
    (h : Token.Yields cs ts) : Token.Yields (s.chars ++ cs) (s.words ++ ts) := by
  induction s generalizing cs ts with
  | number spaces n =>
      have hnumber : Token.Yields (n.run ++ cs) _ := .number n hends h
      simpa [chars, words] using hnumber.spaces spaces
  | negation spaces operand ih =>
      have hminus : Token.Yields ('-' :: (operand.chars ++ cs)) _ := .symbol rfl (ih hends h)
      simpa [chars, words] using hminus.spaces spaces
  | binary left spaces sign right ihLeft ihRight =>
      have hsymbol : Kind.ofSymbol? sign.char = some sign.kind := sign.ofSymbol?_char
      have hsign : Token.Yields (sign.char :: (right.chars ++ cs)) _ :=
        .symbol hsymbol (ihRight hends h)
      have hstop : RunEnds (sign.char :: (right.chars ++ cs)) :=
        runEnds_cons (Token.not_isNumeric_of_symbol hsymbol) _
      have hleft := ihLeft (hstop.spaces spaces) (hsign.spaces spaces)
      simpa [chars, words] using hleft
  | brackets spaces inside spacesInside ih =>
      have hclosing : Token.Yields (')' :: cs) _ := .symbol rfl h
      have hstop : RunEnds (')' :: cs) := runEnds_cons (by decide) _
      have hinside := ih (hstop.spaces spacesInside) (hclosing.spaces spacesInside)
      have hopening : Token.Yields ('(' :: _) _ := .symbol rfl hinside
      simpa [chars, words] using hopening.spaces spaces

/-- The line of a script is scanned as its words and an end. -/
theorem exists_scan_line (s : Script) (spaces : Nat) :
    ∃ ts, Token.scan (s.line spaces) = .ok ts ∧
      ts.map Token.unplaced = s.words ++ [.finish 0] := by
  have hends := runEnds_nil.spaces spaces
  have hend := Token.Yields.nil.spaces spaces
  obtain ⟨ts, hscans, hts⟩ := s.yields hends hend 0
  refine ⟨ts, ?_, hts⟩
  rw [Token.scan, line, String.toList_ofList]
  rw [List.append_nil] at hscans
  exact hscans.scanFrom_eq

/-! ## The derivation of a script -/

/-- The script's words derive from the phrase as the tree of its formula, with the
script's levels. -/
def DerivesFrom (phrase : Phrase) (s : Script) : Prop :=
  ∃ d : Derivation phrase, d.word = s.words ∧ d.tree = s.formula.tree ∧ d.levels = s.levels

theorem DerivesFrom.outward {phrase outer : Phrase} {s : Script} (h : s.DerivesFrom phrase)
    (hle : phrase.rank ≤ outer.rank) : s.DerivesFrom outer := by
  obtain ⟨d, hword, htree, hlevels⟩ := h
  obtain ⟨d', hword', htree', hlevels'⟩ := d.exists_outward hle
  exact ⟨d', hword'.trans hword, htree'.trans htree, hlevels'.trans hlevels⟩

/-- The innermost layer that a script derives from. -/
def layer (s : Script) : Phrase := (s.outer?.map Sign.layer).getD .factor

/-- The tighter a script binds, the further in is its layer. -/
theorem Binds.rank_layer_le {s : Script} {p : Nat} (h : s.Binds p) (hp : p ≤ 3) :
    s.layer.rank + p ≤ 3 := by
  cases houter : s.outer? with
  | none => simpa [layer, houter, Phrase.rank] using hp
  | some sign =>
      have hle : p ≤ sign.precedence := h sign houter
      have hrank := sign.rank_layer.2
      simp only [layer, houter, Option.map_some, Option.getD_some]
      omega

/-- **A script with the brackets that it needs derives** from its layer. -/
theorem HasBrackets.derivesFrom_layer {s : Script} (h : s.HasBrackets) : s.DerivesFrom s.layer := by
  induction s with
  | number spaces n =>
      let t : Token := .ofNumber 0 n.run n.decimal
      change (number spaces n).DerivesFrom .factor
      exact ⟨.number t n.value rfl rfl, rfl, rfl, rfl⟩
  | negation spaces operand ih =>
      obtain ⟨hnone, hoperand⟩ := h
      have hrank : operand.layer.rank ≤ Phrase.factor.rank := by simp [layer, hnone]
      obtain ⟨d, hword, htree, hlevels⟩ := (ih hoperand).outward hrank
      let t : Token := .ofSymbol 0 '-' .minus
      change (negation spaces operand).DerivesFrom .factor
      refine ⟨.negation t d rfl, ?_, ?_, ?_⟩
      · exact congrArg (t :: ·) hword
      · exact congrArg (Expr.unary .neg) htree
      · exact congrArg (· + 1) hlevels
  | binary left spaces sign right ihLeft ihRight =>
      obtain ⟨hbindsLeft, hbindsRight, hleft, hright⟩ := h
      -- The left side may be of the layer of the sign, the right side is from further in.
      obtain ⟨hpos, hsum⟩ := sign.rank_layer
      have hrankLeft := hbindsLeft.rank_layer_le (by omega)
      have hrankRight := hbindsRight.rank_layer_le (by omega)
      have houter : left.layer.rank ≤ sign.layer.rank := by omega
      obtain ⟨l, hlword, hltree, hllevels⟩ := (ihLeft hleft).outward houter
      obtain ⟨r, hrword, hrtree, hrlevels⟩ := ihRight hright
      let t : Token := .ofSymbol 0 sign.char sign.kind
      have hop : sign.layer.operator? t.kind = some sign.operator := sign.operator?_kind
      have hjoin := l.exists_join t r hop (by omega)
      rwa [hlword, hltree, hllevels, hrword, hrtree, hrlevels] at hjoin
  | brackets spaces inside spacesInside ih =>
      have hrank : inside.layer.rank ≤ Phrase.sum.rank := by cases inside.layer <;> decide
      obtain ⟨d, hword, htree, hlevels⟩ := (ih h).outward hrank
      let opening : Token := .ofSymbol 0 '(' .bracketOpen
      let closing : Token := .ofSymbol 0 ')' .bracketClose
      change (brackets spaces inside spacesInside).DerivesFrom .factor
      refine ⟨.brackets opening d closing rfl rfl, ?_, ?_, ?_⟩
      · exact congrArg (fun word => opening :: (word ++ [closing])) hword
      · exact htree
      · exact congrArg (· + 1) hlevels

/-- A script with the brackets that it needs derives as a sum. -/
theorem HasBrackets.derivesFrom_sum {s : Script} (h : s.HasBrackets) : s.DerivesFrom .sum := by
  have hrank : s.layer.rank ≤ Phrase.sum.rank := by cases s.layer <;> decide
  exact h.derivesFrom_layer.outward hrank

end Script

/-- **What is written is read back.**  Every formula has a script with the brackets that
it needs.  The line of any such script, whatever its redundant brackets and its spaces,
is scanned, and its tokens are read as the tree of the formula; only if the script
needs more levels than there are, the nesting may be too deep. -/
theorem script_reads_back (f : Formula) :
    (∃ s : Script, s.formula = f ∧ s.HasBrackets) ∧
    ∀ (s : Script) (spaces : Nat), s.formula = f → s.HasBrackets →
      ∃ ts, Token.scan (s.line spaces) = .ok ts ∧ (parse ts = .ok f.tree ∨
        maxDepth ≤ s.levels ∧ ∃ index, parse ts = .error ⟨index, .nestingTooDeep⟩) := by
  refine ⟨⟨f.script, f.script_writes⟩, ?_⟩
  rintro s spaces rfl hbrackets
  obtain ⟨ts, hscan, hts⟩ := s.exists_scan_line spaces
  have hvalues := (Token.scanFrom_eq_ok_iff.mp hscan).numbersHaveValues
  have hparse : parse (s.words ++ [Token.finish 0]) = parse ts := by
    rw [← hts, Parser.parse_map Token.kind_unplaced Token.value_unplaced hvalues]
  have hend : Parser.nextKind [Token.finish 0] = .exprEnd := rfl
  obtain ⟨d, hword, htree, hlevels⟩ := hbrackets.derivesFrom_sum
  have hread := Parser.parse_of_derivation d hend
  rw [hword, htree, hlevels, hparse] at hread
  exact ⟨ts, hscan, hread⟩

/-- In `-( ( 1 -.5) )*2` one pair of brackets is redundant. -/
theorem script_reads_back_product :
    let one : Numeral := ⟨['1'], ⟨by simp, by simp [isNumeric]⟩, ⟨⟨'1', by decide⟩, by decide⟩⟩
    let half : Numeral :=
      ⟨['.', '5'], ⟨by simp, by simp [isNumeric]⟩, ⟨⟨'5', by decide⟩, by decide⟩⟩
    let two : Numeral := ⟨['2'], ⟨by simp, by simp [isNumeric]⟩, ⟨⟨'2', by decide⟩, by decide⟩⟩
    let difference : Script := .binary (.number 1 one) 1 .minus (.number 0 half)
    let s : Script :=
      .binary (.negation 0 (.brackets 0 (.brackets 1 difference 0) 1)) 0 .star (.number 0 two)
    let f : Formula :=
      .binary .star (.negation (.binary .minus (.number one) (.number half))) (.number two)
    s.line 0 = "-( ( 1 -.5) )*2" ∧ s.formula = f ∧ s.HasBrackets ∧
      ∃ ts, Token.scan (s.line 0) = .ok ts ∧ parse ts = .ok f.tree := by
  intro one half two difference s f
  have hline : s.line 0 = "-( ( 1 -.5) )*2" := rfl
  have hbrackets : s.HasBrackets := by
    simp [s, difference, Script.HasBrackets, Script.Binds, Script.outer?]
  obtain ⟨ts, hscan, hread⟩ := (script_reads_back f).2 s 0 rfl hbrackets
  refine ⟨hline, rfl, hbrackets, ts, hscan, hread.resolve_right ?_⟩
  intro hdeep
  exact absurd hdeep.1 (by decide)

end Abacus
