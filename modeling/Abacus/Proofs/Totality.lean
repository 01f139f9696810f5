import Abacus.Calculation
import Abacus.Proofs.Evaluation
import Abacus.Proofs.Grammar
import Abacus.Proofs.Scanning

/-!
# Every line is answered

A calculation ends with a number or with one of four faults that are reported: a
character out of place, a malformed number, an unexpected token, or too much
nesting.  Each stage rules out what the next one could not cope with.  Scanned
numbers have values, so reading never meets one without; what is read derives
from the grammar, so its tree is made only of what evaluation knows; and
evaluation catches zero divisors.
-/

namespace Abacus

theorem Operator.ne_neg_of_between {k : Kind} {op : Operator} {left right : Int}
    (h : k.Between op left right) : op ≠ .neg := by
  intro hneg
  have hop := h.1
  rw [hneg] at hop
  cases k <;> cases hop

/-- The trees of the grammar are proper. -/
theorem Derivation.tree_isProper {phrase : Phrase} (d : Derivation phrase) : d.tree.IsProper := by
  induction d with
  | ofProduct d ih => exact ih
  | sum l t op r hop ihl ihr =>
      exact ⟨Operator.ne_neg_of_between (Phrase.between_of_sum hop), ihl, ihr⟩
  | ofFactor d ih => exact ih
  | product l t op r hop ihl ihr =>
      exact ⟨Operator.ne_neg_of_between (Phrase.between_of_product hop), ihl, ihr⟩
  | number t x hkind hvalue => trivial
  | brackets opening d closing hopening hclosing ih => exact ih
  | negation t d hkind ih => exact ⟨rfl, ih⟩

/-- What is read from tokens has a value. -/
theorem exists_evaluate_of_parse {ts : List Token} {e : Expr} (h : parse ts = .ok e) :
    ∃ x, e.evaluate = .ok x := by
  obtain ⟨d, _, rfl⟩ := Parser.derives_of_parse h
  rw [Expr.evaluate_eq]
  exact d.tree_isProper.exists_value

/-! ## Answers, stage by stage -/

section Stages

variable {line : String} {ts : List Token}

/-- Where scanning fails, that is the answer. -/
theorem calculate_of_fault {error : LexicalError} (hscan : Token.scan line = .error error) :
    calculate line = .error (.lexical line error) := by
  simp only [calculate, Calculation.ofLine, hscan]

/-- Where reading fails, that is the answer. -/
theorem calculate_of_misreading {m : Misreading} (hscan : Token.scan line = .ok ts)
    (hparse : parse ts = .error m) : calculate line = .error (.misread ts m) := by
  simp only [calculate, Calculation.ofLine, hscan, Calculation.ofTokens, hparse]

/-- The value of what is read is the answer. -/
theorem calculate_of_value {e : Expr} {x : Binary64} (hscan : Token.scan line = .ok ts)
    (hparse : parse ts = .ok e) (hvalue : e.evaluate = .ok x) : calculate line = .ok x := by
  simp only [calculate, Calculation.ofLine, hscan, Calculation.ofTokens, hparse,
    Calculation.ofExpr, hvalue]

end Stages

/-- What a line may be answered with: a number, or one of the four faults. -/
inductive IsAnswer (line : String) : Except Failure Binary64 → Prop
  | value (x : Binary64) : IsAnswer line (.ok x)
  | invalidCharacter (index : Nat) (c : Char) :
      IsAnswer line (.error (.lexical line (.invalidCharacter index c)))
  | malformedNumber (index : Nat) (run : List Char) :
      IsAnswer line (.error (.lexical line (.malformedNumber index run)))
  | unexpectedToken {ts : List Token} {m : Misreading} (hscan : Token.scan line = .ok ts)
      (hcause : m.cause.isUnexpectedToken = true) : IsAnswer line (.error (.misread ts m))
  | nestingTooDeep {ts : List Token} {m : Misreading} (hscan : Token.scan line = .ok ts)
      (hcause : m.cause = .nestingTooDeep) : IsAnswer line (.error (.misread ts m))

/-- The failure is not one of the line but of the calculator, which nothing reports. -/
def Failure.isInternal : Failure → Bool
  | lexical _ _ => false
  | misread _ m => m.cause.isInternal
  | evaluation _ => true

/-- None of the four faults is an internal one. -/
theorem IsAnswer.not_internal {line : String} {failure : Failure}
    (h : IsAnswer line (.error failure)) : failure.isInternal = false := by
  cases h with
  | invalidCharacter index c => rfl
  | malformedNumber index run => rfl
  | @unexpectedToken ts m hscan hcause =>
      change m.cause.isInternal = false
      cases hm : m.cause <;> simp_all [ParseError.isInternal, ParseError.isUnexpectedToken]
  | @nestingTooDeep ts m hscan hcause =>
      change m.cause.isInternal = false
      rw [hcause]
      rfl

/-- A line with tokens is answered. -/
theorem isAnswer_ofTokens {line : String} {ts : List Token} (hscan : Token.scan line = .ok ts) :
    IsAnswer line (Calculation.ofTokens ts).outcome := by
  have hvalues : Token.NumbersHaveValues ts :=
    (Token.scanFrom_eq_ok_iff.mp hscan).numbersHaveValues
  cases hparse : parse ts with
  | error m =>
      rw [Calculation.ofTokens, hparse]
      rcases Parser.cause_of_parse hvalues hparse with hcause | hcause
      · exact .unexpectedToken hscan hcause
      · exact .nestingTooDeep hscan hcause
  | ok e =>
      obtain ⟨x, hx⟩ := exists_evaluate_of_parse hparse
      simp only [Calculation.ofTokens, hparse, Calculation.ofExpr, hx]
      exact .value x

/-- A line is answered, whether or not it has tokens. -/
theorem isAnswer_calculate (line : String) : IsAnswer line (calculate line) := by
  rw [calculate, Calculation.ofLine]
  cases hscan : Token.scan line with
  | ok ts => exact isAnswer_ofTokens hscan
  | error error =>
      cases error with
      | invalidCharacter index c => exact .invalidCharacter index c
      | malformedNumber index run => exact .malformedNumber index run

/-- **Every line has a value or one of the four faults.**  The fault is never an
internal one: no number lacks its value, no token is taken for an operator that
it is not, no tree is beyond evaluation, no operand is missing, and nothing is
divided by a zero that was not caught. -/
theorem calculate_total (line : String) :
    IsAnswer line (calculate line) ∧
      (∀ ts m, calculate line = .error (.misread ts m) →
        (∀ t, m.cause ≠ .numberWithoutValue t) ∧ (∀ k, m.cause ≠ .notBetweenOperands k) ∧
          ∀ k, m.cause ≠ .noBindingPower k) ∧
      ∀ error, calculate line ≠ .error (.evaluation error) := by
  have hanswer := isAnswer_calculate line
  refine ⟨hanswer, ?_, ?_⟩
  · intro ts m h
    rw [h] at hanswer
    have hinternal : m.cause.isInternal = false := hanswer.not_internal
    refine ⟨?_, ?_, ?_⟩
    · intro t ht
      rw [ht] at hinternal
      cases hinternal
    · intro k hk
      rw [hk] at hinternal
      cases hinternal
    · intro k hk
      rw [hk] at hinternal
      cases hinternal
  · intro error h
    rw [h] at hanswer
    cases hanswer

end Abacus
