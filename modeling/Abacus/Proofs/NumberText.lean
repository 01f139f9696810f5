import Abacus.Proofs.Lexis
import Abacus.Proofs.Totality

/-!
# Reading back the text of a number

The shortest decimal of a magnitude reads as the magnitude (`toBinary64_shortest`).
Writing it out does not change what is read: a run of digits and points spells the
same number with zeros behind it or in front of it, and wherever the point stands, as
long as the scale makes up for it (`Spells.positional`).  A minus sign in front of the
run is calculated as the change of sign (`Spells.calculate_eq`).

A text that is not written out has a letter: that of an exponent, or the first one of
a word.  In front of it stand at most a minus sign and a number, which scanning passes
over, and then it stops at the letter.  So the calculator reads back its own answers
exactly where they are written out (`format_reads_back`).
-/

namespace Abacus

namespace Decimal

/-! ## Decimals of the same value -/

/-- A zero more in the coefficient is a power of ten less. -/
theorem toBinary64_mul_ten (coefficient : Nat) (scale : Int) :
    toBinary64 ⟨coefficient * 10, scale⟩ = toBinary64 ⟨coefficient, scale + 1⟩ := by
  by_cases hscale : 0 ≤ scale
  · have hup : (scale + 1).toNat = scale.toNat + 1 := by omega
    have hden : (-(scale + 1)).toNat = (-scale).toNat := by omega
    have hnum : coefficient * 10 * 10 ^ scale.toNat = coefficient * 10 ^ (scale.toNat + 1) := by
      rw [Nat.pow_succ', Nat.mul_assoc]
    simp only [toBinary64, hup, hden, hnum]
  · have hnum : scale.toNat = 0 ∧ (scale + 1).toNat = 0 := by omega
    have hden : (-scale).toNat = (-(scale + 1)).toNat + 1 := by omega
    have hratio := Binary64.round_mul_mul false (coefficient * grainsPerOne)
      (10 ^ (-(scale + 1)).toNat) (show 0 < 10 by decide)
    simp only [toBinary64, hnum, hden, Nat.pow_zero, Nat.mul_one, Nat.pow_succ]
    rw [← hratio, Nat.mul_right_comm]

/-- Zeros at the end of the coefficient are powers of ten. -/
theorem toBinary64_mul_pow (coefficient n : Nat) (scale : Int) :
    toBinary64 ⟨coefficient * 10 ^ n, scale⟩ = toBinary64 ⟨coefficient, scale + n⟩ := by
  induction n generalizing scale with
  | zero => simp
  | succ n ih =>
      rw [Nat.pow_succ, ← Nat.mul_assoc, toBinary64_mul_ten, ih, Int.add_assoc, Int.add_comm 1]
      rfl

/-- Trimming keeps the value. -/
theorem toBinary64_trim (d : Decimal) : d.trim.toBinary64 = d.toBinary64 := by
  induction d using trim.induct with
  | case1 d htrim ih =>
      have hcoefficient : d.coefficient / 10 * 10 = d.coefficient := by omega
      rw [trim, if_pos htrim, ih, ← toBinary64_mul_ten, hcoefficient]
  | case2 d htrim => rw [trim, if_neg htrim]

/-- **The shortest decimal of a magnitude reads as it.** -/
theorem toBinary64_shortest (m : Magnitude) : (shortest m).toBinary64 = .finite false m := by
  rw [shortest, toBinary64_trim]
  exact beq_iff_eq.mp (readsAs_search m _)

/-- No grains are the zero without a minus sign. -/
theorem toBinary64_zero : toBinary64 ⟨0, 0⟩ = .finite false Magnitude.zero := by
  have hround := Binary64.round_grains false Magnitude.zero
  rw [Magnitude.grains_zero] at hround
  simpa [toBinary64] using hround

/-- The digits of a decimal: there are some, and they are those of its coefficient. -/
theorem digits_spec (d : Decimal) :
    d.digits ≠ [] ∧ (∀ c ∈ d.digits, c.isDigit = true) ∧
      Nat.ofDigitChars 10 d.digits 0 = d.coefficient := by
  refine ⟨Nat.toDigits_ne_nil, ?_, Nat.ofDigitChars_ten_toDigits⟩
  intro c hc
  exact Nat.isDigit_of_mem_toDigits (by decide) (by decide) hc

end Decimal

/-! ## Runs that spell a number -/

/-- A run of digits and points that is read as the number. -/
structure Spells (run : List Char) (x : Binary64) : Prop where
  isRun : IsRun run
  read : ∃ d, Decimal.ofLexeme? run = some d ∧ d.toBinary64 = x

namespace Spells

variable {run digits before behind : List Char} {x : Binary64}

theorem point_not_mem (h : ∀ c ∈ digits, c.isDigit = true) : '.' ∉ digits := by
  intro hpoint
  exact absurd (h '.' hpoint) (by decide)

/-- Digits alone are a whole number. -/
theorem whole (hne : digits ≠ []) (hdigits : ∀ c ∈ digits, c.isDigit = true) :
    Spells digits (Decimal.toBinary64 ⟨Nat.ofDigitChars 10 digits 0, 0⟩) := by
  obtain ⟨hwhole, hfraction⟩ := parts_of_not_mem (point_not_mem hdigits)
  have hall : digits.all Char.isDigit = true := List.all_eq_true.mpr hdigits
  constructor
  · refine ⟨hne, ?_⟩
    intro c hc
    simp [isNumeric, hdigits c hc]
  · refine ⟨_, ?_, rfl⟩
    simp [Decimal.ofLexeme?, hwhole, hfraction, hne, hall]

/-- Digits behind a point take as many powers of ten away. -/
theorem point {d : Decimal} (hne : before ++ behind ≠ [])
    (hdigits : ∀ c ∈ before ++ behind, c.isDigit = true)
    (hvalue : Nat.ofDigitChars 10 (before ++ behind) 0 = d.coefficient)
    (hplaces : d.scale = -(behind.length : Int)) :
    Spells (before ++ '.' :: behind) d.toBinary64 := by
  have hpoint : '.' ∉ before := point_not_mem fun c hc => hdigits c (List.mem_append_left _ hc)
  obtain ⟨hwhole, hfraction⟩ := parts_point hpoint behind
  have hall : (before ++ behind).all Char.isDigit = true := List.all_eq_true.mpr hdigits
  constructor
  · refine ⟨by simp, ?_⟩
    intro c hc
    by_cases hc' : c = '.'
    · simp [isNumeric, hc']
    · have hmem : c ∈ before ++ behind := by simpa [hc'] using hc
      simp [isNumeric, hdigits c hmem]
  · refine ⟨d, ?_, rfl⟩
    simp only [Decimal.ofLexeme?, hwhole, hfraction, hvalue, ← hplaces]
    rw [if_pos ⟨hne, hall⟩]

/-- **A decimal that is written out spells its value.** -/
theorem positional (d : Decimal) : Spells (d.positional "") d.toBinary64 := by
  obtain ⟨hne, hdigits, hvalue⟩ := d.digits_spec
  have hpos : 0 < d.digits.length := List.length_pos_iff.mpr hne
  have hexponent : d.exponent = d.digits.length - 1 + d.scale := rfl
  have hzeros : ∀ n, ∀ c ∈ List.replicate n '0', c.isDigit = true := by
    intro n c hc
    rw [List.eq_of_mem_replicate hc]
    rfl
  unfold Decimal.positional
  by_cases hscale : 0 ≤ d.scale
  · -- Zeros fill up the places in front of the point.
    have hall : ∀ c ∈ d.digits ++ List.replicate d.scale.toNat '0', c.isDigit = true :=
      List.forall_mem_append.mpr ⟨hdigits, hzeros _⟩
    have hspells := whole (by simp [hne]) hall
    rw [Nat.ofDigitChars_append, Nat.ofDigitChars_replicate_zero, hvalue, Nat.mul_comm,
      Decimal.toBinary64_mul_pow, Int.zero_add, Int.toNat_of_nonneg hscale] at hspells
    rw [if_pos hscale]
    simpa using hspells
  · rw [if_neg hscale]
    by_cases hsplit : 0 ≤ d.exponent
    · -- The point stands between two digits.
      rw [if_pos hsplit]
      have hplaces : d.scale = -((d.digits.drop (d.exponent + 1).toNat).length : Int) := by
        rw [List.length_drop]
        omega
      apply point _ _ _ hplaces
      all_goals rwa [List.take_append_drop]
    · -- Zeros stand between the point and the first digit.
      rw [if_neg hsplit]
      let behind := List.replicate (-d.exponent - 1).toNat '0' ++ d.digits
      have hplaces : d.scale = -(behind.length : Int) := by
        rw [List.length_append, List.length_replicate]
        omega
      have hall : ∀ c ∈ ['0'] ++ behind, c.isDigit = true :=
        List.forall_mem_append.mpr ⟨hzeros 1, List.forall_mem_append.mpr ⟨hzeros _, hdigits⟩⟩
      apply point (by simp) hall _ hplaces
      rw [Nat.ofDigitChars_append, Nat.ofDigitChars_append, Nat.ofDigitChars_replicate_zero]
      exact hvalue

end Spells

/-- **A magnitude that is written out is spelled by its text.** -/
theorem Magnitude.spells_text {m : Magnitude}
    (h : m.rank = 0 ∨ (Decimal.shortest m).isPositional Style.plain = true) :
    Spells (m.text Style.plain) (.finite false m) := by
  unfold Magnitude.text
  by_cases hzero : m.rank = 0
  · have hm : m = Magnitude.zero := Magnitude.ext hzero
    have hspells := Spells.positional ⟨0, 0⟩
    rw [Decimal.toBinary64_zero, ← hm] at hspells
    rw [if_pos hzero]
    exact hspells
  · have hspells := Spells.positional (Decimal.shortest m)
    rw [Decimal.toBinary64_shortest] at hspells
    rw [if_neg hzero, Decimal.layout, if_pos (h.resolve_left hzero)]
    exact hspells

/-! ## The value of a line with one number -/

/-- A line whose tokens derive has the value of the derived tree, if there are levels
enough. -/
theorem Token.Scans.calculate_eq {cs : List Char} {d : Derivation .sum} {position : Nat}
    {x : Binary64} (h : Scans 0 cs (d.word ++ [finish position])) (hlevels : d.levels < maxDepth)
    (hvalue : d.tree.value = .ok x) : calculate (String.ofList cs) = .ok x := by
  have hscan : scan (String.ofList cs) = .ok (d.word ++ [finish position]) := by
    rw [scan, String.toList_ofList]
    exact h.scanFrom_eq
  have hend : Parser.nextKind [finish position] = .exprEnd := rfl
  have hparse : parse (d.word ++ [finish position]) = .ok d.tree := by
    apply (Parser.parse_of_derivation d hend).resolve_right
    omega
  have hevaluate : d.tree.evaluate = .ok x := (Expr.evaluate_eq _).trans hvalue
  exact calculate_of_value hscan hparse hevaluate

/-- A change of sign where a minus sign says so. -/
def Binary64.signed (negative : Bool) (x : Binary64) : Binary64 := if negative then -x else x

/-- **A line with one number**, and perhaps a minus sign in front of it, has that number
as its value, with the sign changed if there is a minus sign. -/
theorem Spells.calculate_eq {run : List Char} {x : Binary64} (h : Spells run x)
    (negative : Bool) :
    calculate (String.ofList (signText negative ++ run)) = .ok (x.signed negative) := by
  obtain ⟨d, hnumber, hx⟩ := h.read
  let number (position : Nat) : Derivation .factor :=
    .number ⟨.number, String.ofList run, some x, position⟩ x rfl rfl
  have hscans (position : Nat) : Token.Scans position run
      ((number position).word ++ [.finish ↑(position + run.length)]) := by
    have hscans : Token.Scans position (run ++ []) _ := .number h.isRun runEnds_nil hnumber .nil
    rwa [List.append_nil, Token.ofNumber, hx] at hscans
  have hlevels : 1 < maxDepth := by decide
  cases negative with
  | false =>
      let line : Derivation .sum := .ofProduct (.ofFactor (number 0))
      have hline : Token.Scans 0 run (line.word ++ [.finish ↑(0 + run.length)]) := hscans 0
      exact hline.calculate_eq (Nat.lt_of_succ_lt hlevels) rfl
  | true =>
      let minus : Token := .ofSymbol 0 '-' .minus
      let line : Derivation .sum := .ofProduct (.ofFactor (.negation minus (number 1) rfl))
      have hline : Token.Scans 0 ('-' :: run) (line.word ++ [.finish ↑(1 + run.length)]) :=
        .symbol rfl (hscans 1)
      exact hline.calculate_eq hlevels rfl

/-! ## The first letter of a line -/

/-- A letter is neither a digit nor a point. -/
theorem isNumeric_eq_false_of_isAlpha {c : Char} (h : c.isAlpha = true) : isNumeric c = false := by
  have hpoint : c ≠ '.' := by
    rintro rfl
    exact absurd h (by decide)
  have hlow : 65 ≤ c.toNat := by
    rcases Bool.or_eq_true_iff.mp h with hupper | hlower
    · exact (of_decide_eq_true hupper).1
    · have hlow : 97 ≤ c.toNat := of_decide_eq_true (Bool.and_eq_true_iff.mp hlower).1
      omega
  have hdigit : ¬ c.isDigit = true := by
    intro hdigit
    have hhigh : c.toNat ≤ 57 := (Char.isDigit_iff_toNat.mp hdigit).2
    omega
  simp [isNumeric, hdigit, hpoint]

/-- The first letter of the characters is `c`, at the given index. -/
def FirstLetter (cs : List Char) (index : Nat) (c : Char) : Prop :=
  cs[index]? = some c ∧ c.isAlpha = true ∧ ∀ b ∈ cs.take index, b.isAlpha = false

theorem FirstLetter.of_append {before : List Char} (hbefore : ∀ b ∈ before, b.isAlpha = false)
    {c : Char} (hc : c.isAlpha = true) (rest : List Char) :
    FirstLetter (before ++ c :: rest) before.length c := by
  refine ⟨by simp, hc, ?_⟩
  rwa [List.take_left]

namespace Token.Stumbles

variable {position : Nat} {c : Char} {run rest : List Char}

/-- Scanning stops at a letter. -/
theorem letter (hc : c.isAlpha = true) (rest : List Char) :
    Stumbles position (c :: rest) (.invalidCharacter position c) := by
  apply invalid (isNumeric_eq_false_of_isAlpha hc)
  · cases hsymbol : Kind.ofSymbol? c with
    | none => rfl
    | some kind =>
        rcases symbol_cases hsymbol with
          ⟨rfl, -⟩ | ⟨rfl, -⟩ | ⟨rfl, -⟩ | ⟨rfl, -⟩ | ⟨rfl, -⟩ | ⟨rfl, -⟩
        all_goals exact absurd hc (by decide)
  · rintro rfl
    exact absurd hc (by decide)

/-- A line whose scanning stumbles has no value. -/
theorem calculate_eq {cs : List Char} {error : LexicalError} (h : Stumbles 0 cs error) :
    calculate (String.ofList cs) = .error (.lexical (String.ofList cs) error) := by
  have hscan : scan (String.ofList cs) = .error error := by
    rw [scan, String.toList_ofList]
    exact h.scanFrom_eq
  exact calculate_of_fault hscan

end Token.Stumbles

/-- The line has a letter, and calculating it ends with a complaint about the first one. -/
def StopsAtLetter (line : String) : Prop :=
  ∃ index c, FirstLetter line.toList index c ∧
    calculate line = .error (.lexical line (.invalidCharacter index c))

/-- **A letter behind a minus sign or a number**, or behind both or nothing, is the first
letter of its line, and scanning stops there. -/
theorem stopsAtLetter {c : Char} (hc : c.isAlpha = true) (negative : Bool) {run : List Char}
    (hrun : run = [] ∨ ∃ x, Spells run x) (rest : List Char) :
    StopsAtLetter (String.ofList (signText negative ++ (run ++ c :: rest))) := by
  have hnumeric : ∀ b ∈ run, isNumeric b = true := by
    rcases hrun with rfl | ⟨x, hspells⟩
    · simp
    · exact hspells.isRun.numeric
  have hbefore : ∀ b ∈ signText negative ++ run, b.isAlpha = false := by
    rw [List.forall_mem_append]
    constructor
    · cases negative <;> simp [signText]
    · intro b hb
      by_contra hletter
      have hnot := isNumeric_eq_false_of_isAlpha (eq_true_of_ne_false hletter)
      simp [hnumeric b hb] at hnot
  have hbehind (position : Nat) :
      Token.Stumbles position (run ++ c :: rest) (.invalidCharacter (position + run.length) c) := by
    rcases hrun with rfl | ⟨x, hspells⟩
    · exact .letter hc rest
    · obtain ⟨d, hnumber, -⟩ := hspells.read
      have hends : RunEnds (c :: rest) := runEnds_cons (isNumeric_eq_false_of_isAlpha hc) rest
      exact .behindNumber hspells.isRun hends hnumber (.letter hc rest)
  refine ⟨(signText negative ++ run).length, c, ?_, ?_⟩
  · rw [String.toList_ofList, ← List.append_assoc]
    exact .of_append hbefore hc rest
  · apply Token.Stumbles.calculate_eq
    cases negative with
    | false => simpa [signText] using hbehind 0
    | true => simpa [signText, Nat.add_comm] using Token.Stumbles.behindSymbol rfl (hbehind 1)

/-! ## The texts of numbers -/

/-- What stands in front of an exponent spells a number. -/
theorem Decimal.exists_scientific (d : Decimal) :
    ∃ run x rest, d.scientific = run ++ 'e' :: rest ∧ Spells run x := by
  obtain ⟨hne, hdigits, -⟩ := d.digits_spec
  unfold Decimal.scientific
  obtain ⟨first, more, hfirst⟩ := List.exists_cons_of_ne_nil hne
  rw [hfirst] at hdigits ⊢
  cases more with
  | nil => exact ⟨_, _, exponentText d.exponent, rfl, .whole (by simp) hdigits⟩
  | cons second more =>
      let value : Decimal :=
        ⟨Nat.ofDigitChars 10 ([first] ++ second :: more) 0, -((second :: more).length : Int)⟩
      have hspells : Spells ([first] ++ '.' :: second :: more) value.toBinary64 :=
        .point (by simp) hdigits rfl rfl
      refine ⟨_, _, exponentText d.exponent, ?_, hspells⟩
      simp

/-- The exponents of ten that are written out. -/
theorem Decimal.isPositional_plain_iff (d : Decimal) :
    d.isPositional Style.plain = true ↔ -4 ≤ d.exponent ∧ d.exponent < 16 := by
  have hgreatest : d.exponent ≤ 15 ↔ d.exponent < 16 := by omega
  rw [isPositional, Bool.and_eq_true, decide_eq_true_eq, decide_eq_true_eq, ← hgreatest]
  rfl

namespace Binary64

/-- The number is written out: it is a zero, or finite with an exponent of ten from `-4`
to below `16`. -/
def IsPositional : Binary64 → Prop
  | finite _ m =>
    m.rank = 0 ∨ -4 ≤ (Decimal.shortest m).exponent ∧ (Decimal.shortest m).exponent < 16
  | _ => False

/-- A number that is written out is calculated from its text. -/
theorem IsPositional.calculate_format {x : Binary64} (h : x.IsPositional) :
    calculate x.format = .ok x := by
  cases x with
  | nan => cases h
  | infinite negative => cases h
  | finite negative m =>
      have hspells : Spells (m.text Style.plain) (finite false m) := by
        apply Magnitude.spells_text
        rw [Decimal.isPositional_plain_iff]
        exact h
      have hvalue := hspells.calculate_eq negative
      have hsign : (finite false m).signed negative = finite negative m := by
        cases negative <;> rfl
      rw [hsign] at hvalue
      exact hvalue

/-- The text of any other number stops the calculation at its first letter. -/
theorem stopsAtLetter_format {x : Binary64} (h : ¬ x.IsPositional) : StopsAtLetter x.format := by
  cases x with
  | nan => exact stopsAtLetter (c := 'n') (by decide) false (.inl rfl) ['a', 'n']
  | infinite negative =>
      exact stopsAtLetter (c := 'i') (by decide) negative (.inl rfl) ['n', 'f']
  | finite negative m =>
      have hzero : m.rank ≠ 0 := fun hzero => h (.inl hzero)
      have hrange : ¬ (Decimal.shortest m).isPositional Style.plain = true := by
        rw [Decimal.isPositional_plain_iff]
        exact fun hrange => h (.inr hrange)
      obtain ⟨run, x, rest, htext, hspells⟩ := (Decimal.shortest m).exists_scientific
      have hformat : (finite negative m).format =
          String.ofList (signText negative ++ (run ++ 'e' :: rest)) := by
        simp [format, text, Magnitude.text, hzero, Decimal.layout, hrange, htext]
      rw [hformat]
      exact stopsAtLetter (by decide) negative (.inr ⟨x, hspells⟩) rest

end Binary64

/-- **The calculator reads back its answers where they are written out.**  Then the value
of the text is the number itself, with its sign also if it is a zero.  The text of any
other number has a letter, and calculating it is refused at the first one. -/
theorem format_reads_back (x : Binary64) :
    (x.IsPositional → calculate x.format = .ok x) ∧
      (¬ x.IsPositional → ∃ index c, FirstLetter x.format.toList index c ∧
        calculate x.format = .error (.lexical x.format (.invalidCharacter index c))) :=
  ⟨Binary64.IsPositional.calculate_format, Binary64.stopsAtLetter_format⟩

end Abacus
