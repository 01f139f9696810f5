import Abacus.Proofs.Totality

/-!
# When two trees are equal

Trees can be compared with their numbers taken as numbers.  Then the two zeros are equal,
although a quotient over them tells them apart, and a tree with a `nan` in it is not even
equal to itself.

Neither stands in a tree that was read from a line.  A written number is rounded without a
sign (`isPlain_toBinary64`), and reading only puts numbers of tokens into its tree
(`Derivation.numbers_of_word`).  Among such trees equality of numbers is equality of bits,
node by node (`Numbers.numEq_iff`), so lines with equal trees have one value
(`numEq_sound`).
-/

namespace Abacus

namespace Binary64

/-- A number as it can be written: not `nan`, and without a minus sign. -/
def IsPlain (x : Binary64) : Prop := x.isNan = false ∧ x.isNegative = false

/-- Plain numbers that are equal as numbers are the same. -/
theorem IsPlain.numEq_iff {x y : Binary64} (hx : x.IsPlain) (hy : y.IsPlain) :
    x.numEq y = true ↔ x = y := by
  obtain ⟨hxnan, hxsign⟩ := hx
  obtain ⟨hynan, hysign⟩ := hy
  cases x with
  | nan => cases hxnan
  | infinite s =>
      obtain rfl : s = false := hxsign
      cases y with
      | nan => cases hynan
      | infinite t =>
          obtain rfl : t = false := hysign
          simp [numEq]
      | finite t n => simp [numEq]
  | finite s m =>
      obtain rfl : s = false := hxsign
      cases y with
      | nan => cases hynan
      | infinite t => simp [numEq]
      | finite t n =>
          obtain rfl : t = false := hysign
          have hrank : m.rank = n.rank ↔ m = n := ⟨Magnitude.ext, congrArg Magnitude.rank⟩
          simp [numEq, hrank]

/-- No two numbers are encoded alike. -/
theorem toBits_inj {x y : Binary64} : x.toBits = y.toBits ↔ x = y := by
  constructor
  · intro h
    rw [← ofBits_toBits x, h, ofBits_toBits]
  · exact congrArg toBits

/-- Rounding without a minus sign gives a plain number. -/
theorem isPlain_round (num den : Nat) : (round false num den).IsPlain := by
  unfold round
  dsimp only
  split
  · exact ⟨rfl, rfl⟩
  · exact ⟨rfl, rfl⟩

end Binary64

/-- A written number is plain. -/
theorem Decimal.isPlain_toBinary64 (d : Decimal) : d.toBinary64.IsPlain :=
  Binary64.isPlain_round _ _

namespace Expr

/-- All numbers of a tree have a property. -/
def Numbers (p : Binary64 → Prop) : Expr → Prop
  | number x => p x
  | unary _ e => e.Numbers p
  | binary _ l r => l.Numbers p ∧ r.Numbers p
  | foreign _ => True

/-- The trees have the same nodes, and where they have numbers, these have the same bits. -/
inductive SameBits : Expr → Expr → Prop
  | number {x y : Binary64} (h : x.toBits = y.toBits) : SameBits (number x) (number y)
  | unary {op : Operator} {e e' : Expr} (operand : SameBits e e') :
      SameBits (unary op e) (unary op e')
  | binary {op : Operator} {l l' r r' : Expr} (left : SameBits l l') (right : SameBits r r') :
      SameBits (binary op l r) (binary op l' r')
  | foreign {text : String} : SameBits (foreign text) (foreign text)

variable {e e' : Expr}

/-- A tree is determined by its nodes and the bits of its numbers. -/
theorem sameBits_iff : e.SameBits e' ↔ e = e' := by
  constructor
  · intro h
    induction h with
    | number h => rw [Binary64.toBits_inj.mp h]
    | unary operand ih => rw [ih]
    | binary left right ihl ihr => rw [ihl, ihr]
    | foreign => rfl
  · rintro rfl
    induction e with
    | number x => exact .number rfl
    | unary op e ih => exact .unary ih
    | binary op l r ihl ihr => exact .binary ihl ihr
    | foreign text => exact .foreign

/-- **Trees of plain numbers** that are equal as to their numbers are the same. -/
theorem Numbers.numEq_iff (h : e.Numbers Binary64.IsPlain) (h' : e'.Numbers Binary64.IsPlain) :
    e.numEq e' = true ↔ e = e' := by
  induction e generalizing e' with
  | number x =>
      cases e' with
      | number y => simp [numEq, Binary64.IsPlain.numEq_iff h h']
      | _ => simp [numEq]
  | unary op e ih =>
      cases e' with
      | unary op' e' =>
          have hoperand : e.numEq e' = true ↔ e = e' := ih h h'
          simp [numEq, hoperand]
      | _ => simp [numEq]
  | binary op l r ihl ihr =>
      cases e' with
      | binary op' l' r' =>
          have hleft : l.numEq l' = true ↔ l = l' := ihl h.1 h'.1
          have hright : r.numEq r' = true ↔ r = r' := ihr h.2 h'.2
          simp [numEq, hleft, hright, and_assoc]
      | _ => simp [numEq]
  | foreign text => cases e' <;> simp [numEq]

end Expr

/-- The numbers of a tree are values of the tokens that it derives from. -/
theorem Derivation.numbers_of_word {phrase : Phrase} {p : Binary64 → Prop}
    (d : Derivation phrase) (h : ∀ t ∈ d.word, ∀ x, t.value = some x → p x) : d.tree.Numbers p := by
  induction d with
  | ofProduct d ih => exact ih h
  | sum l t op r hop ihl ihr =>
      simp only [word, List.forall_mem_append, List.forall_mem_cons] at h
      exact ⟨ihl h.1, ihr h.2.2⟩
  | ofFactor d ih => exact ih h
  | product l t op r hop ihl ihr =>
      simp only [word, List.forall_mem_append, List.forall_mem_cons] at h
      exact ⟨ihl h.1, ihr h.2.2⟩
  | number t x hkind hvalue => exact h t List.mem_cons_self x hvalue
  | brackets opening d closing hopening hclosing ih =>
      simp only [word, List.forall_mem_append, List.forall_mem_cons] at h
      exact ih h.2.1
  | negation t d hkind ih =>
      simp only [word, List.forall_mem_cons] at h
      exact ih h.2

/-- The numbers of a tree are values of the tokens that it is read from. -/
theorem Parser.numbers_of_parse {p : Binary64 → Prop} {ts : List Token} {e : Expr}
    (h : ∀ t ∈ ts, ∀ x, t.value = some x → p x) (hparse : parse ts = .ok e) : e.Numbers p := by
  obtain ⟨d, hword, rfl⟩ := derives_of_parse hparse
  apply d.numbers_of_word
  intro t ht
  rw [hword] at ht
  exact h t ((List.takeWhile_sublist _).subset ht)

/-- The values of a scanned line are plain. -/
theorem Token.Scans.isPlain {position : Nat} {cs : List Char} {ts : List Token}
    (h : Scans position cs ts) : ∀ t ∈ ts, ∀ x, t.value = some x → x.IsPlain := by
  obtain ⟨words, rfl, hwords⟩ := h.exists_words
  intro t ht x hx
  rcases List.mem_append.mp ht with ht | ht
  · cases hwords t ht with
    | @number run d position hrun hnumber =>
        obtain rfl := Option.some.inj hx
        exact d.isPlain_toBinary64
    | symbol hsymbol => cases hx
  · rw [List.mem_singleton.mp ht] at hx
    cases hx

/-- A line with the tree that it is read as. -/
structure ParsedLine where
  line : String
  tree : Expr
  read : parseLine line = .ok tree

namespace ParsedLine

/-- A line whose tokens are read as the tree. -/
def ofTokens {line : String} {ts : List Token} {e : Expr} (hscan : Token.scan line = .ok ts)
    (hparse : parse ts = .ok e) : ParsedLine :=
  ⟨line, e, by simp [parseLine, hscan, hparse, Except.mapError]⟩

/-- The tree was read from the tokens of the line. -/
theorem exists_scan (a : ParsedLine) :
    ∃ ts, Token.scan a.line = .ok ts ∧ parse ts = .ok a.tree := by
  have hread := a.read
  rw [parseLine] at hread
  cases hscan : Token.scan a.line with
  | error error => simp [hscan] at hread
  | ok ts =>
      cases hparse : parse ts with
      | error m => simp [hscan, hparse, Except.mapError] at hread
      | ok e =>
          have htree : e = a.tree := by simpa [hscan, hparse, Except.mapError] using hread
          exact ⟨ts, rfl, htree ▸ hparse⟩

/-- The numbers of the tree are plain. -/
theorem numbers (a : ParsedLine) : a.tree.Numbers Binary64.IsPlain := by
  obtain ⟨ts, hscan, hparse⟩ := a.exists_scan
  exact Parser.numbers_of_parse (Token.scanFrom_eq_ok_iff.mp hscan).isPlain hparse

/-- The value of the tree is that of the line. -/
theorem exists_calculate (a : ParsedLine) :
    ∃ x, a.tree.evaluate = .ok x ∧ calculate a.line = .ok x := by
  obtain ⟨ts, hscan, hparse⟩ := a.exists_scan
  obtain ⟨x, hx⟩ := exists_evaluate_of_parse hparse
  exact ⟨x, hx, calculate_of_value hscan hparse hx⟩

end ParsedLine

/-- **Equality of numbers is sound for what is read.**  Between the trees of lines it is an
equivalence, and reading a line once more gives an equal tree.  It holds exactly if the
trees have the same nodes with the same bits, and then the lines have the same value. -/
theorem numEq_sound :
    Equivalence (fun a b : ParsedLine => a.tree.numEq b.tree = true) ∧
      ∀ a b : ParsedLine, (a.line = b.line → a.tree.numEq b.tree = true) ∧
        (a.tree.numEq b.tree = true ↔ a.tree.SameBits b.tree) ∧
        (a.tree.numEq b.tree = true →
          ∃ x, calculate a.line = .ok x ∧ calculate b.line = .ok x) := by
  have hsame (a b : ParsedLine) : a.tree.numEq b.tree = true ↔ a.tree = b.tree :=
    a.numbers.numEq_iff b.numbers
  refine ⟨⟨?_, ?_, ?_⟩, fun a b => ⟨?_, ?_, ?_⟩⟩
  · intro a
    exact (hsame a a).mpr rfl
  · intro a b h
    exact (hsame b a).mpr ((hsame a b).mp h).symm
  · intro a b c h h'
    exact (hsame a c).mpr (((hsame a b).mp h).trans ((hsame b c).mp h'))
  · intro hline
    have hread := a.read
    rw [hline, b.read] at hread
    exact (hsame a b).mpr (Except.ok.inj hread).symm
  · rw [hsame, Expr.sameBits_iff]
  · intro h
    obtain ⟨x, hx, hline⟩ := a.exists_calculate
    obtain ⟨y, hy, hline'⟩ := b.exists_calculate
    rw [(hsame a b).mp h, hy] at hx
    obtain rfl := Except.ok.inj hx
    exact ⟨y, hline, hline'⟩

/-- A quotient over zero, written in two ways. -/
theorem numEq_sound_spellings :
    ∃ a b : ParsedLine, a.line = "1/0" ∧ b.line = "(1.) / 00" ∧ a.tree.numEq b.tree = true ∧
      ∃ x, calculate a.line = .ok x ∧ calculate b.line = .ok x := by
  let one : Token := .ofNumber 0 ['1'] ⟨1, 0⟩
  let one' : Token := .ofNumber 1 ['1', '.'] ⟨1, 0⟩
  let zero : Token := .ofNumber 2 ['0'] ⟨0, 0⟩
  let zero' : Token := .ofNumber 7 ['0', '0'] ⟨0, 0⟩
  have hscan : Token.scan "1/0" = .ok [one, .ofSymbol 1 '/' .slash, zero, .finish 3] := by
    simp [one, zero, Token.scan, Token.scanFrom, isNumeric, Decimal.ofLexeme?, Decimal.wholePart,
      Decimal.fraction, Kind.ofSymbol?, Except.map, Nat.ofDigitChars]
  have hscan' : Token.scan "(1.) / 00" = .ok [.ofSymbol 0 '(' .bracketOpen, one',
      .ofSymbol 3 ')' .bracketClose, .ofSymbol 5 '/' .slash, zero', .finish 9] := by
    simp [one', zero', Token.scan, Token.scanFrom, isNumeric, Decimal.ofLexeme?,
      Decimal.wholePart, Decimal.fraction, Kind.ofSymbol?, Except.map, Nat.ofDigitChars]
  have hparse (x y : Binary64) :
      parse [⟨.number, "1", some x, 0⟩, .ofSymbol 1 '/' .slash, ⟨.number, "0", some y, 2⟩,
        .finish 3] = .ok (.binary .div (.number x) (.number y)) := by cbv
  have hparse' (x y : Binary64) :
      parse [.ofSymbol 0 '(' .bracketOpen, ⟨.number, "1.", some x, 1⟩,
        .ofSymbol 3 ')' .bracketClose, .ofSymbol 5 '/' .slash, ⟨.number, "00", some y, 7⟩,
        .finish 9] = .ok (.binary .div (.number x) (.number y)) := by cbv
  let a : ParsedLine := .ofTokens hscan (hparse _ _)
  let b : ParsedLine := .ofTokens hscan' (hparse' _ _)
  have hequal : a.tree.numEq b.tree = true :=
    (numEq_sound.2 a b).2.1.mpr (Expr.sameBits_iff.mpr rfl)
  exact ⟨a, b, rfl, rfl, hequal, (numEq_sound.2 a b).2.2 hequal⟩

/-- Trees put together by hand can be equal as to their numbers and differ in value. -/
example :
    let quotient (negative : Bool) : Expr :=
      .binary .div (.number (.infinite false)) (.number (.zero negative))
    (quotient false).numEq (quotient true) = true ∧
      (quotient false).value ≠ (quotient true).value := by
  decide

end Abacus
