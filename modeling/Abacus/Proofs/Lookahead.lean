import Abacus.Proofs.Reading

/-!
# What a reading depends on

A course takes no end token, and of what it leaves ahead only the kind of the
next token matters: a failure stays the same before any other rest that begins
alike (`Fails.of_nextKind_eq`), and a tree is read the same before every rest
that does not go on where the old one did not (`Reads.of_stopsWith`).  More
levels change a course only if it ran out of them (`Reads.mono`, `Fails.mono`).
The causes that concern the tokens themselves need a number without a value
among the tokens taken (`Fails.exists_noValue`).
-/

namespace Abacus

namespace ParseError

/-- The token ahead is one that cannot stand there. -/
def isUnexpectedToken : ParseError → Bool
  | operandExpected _ => true
  | expected _ _ => true
  | trailing _ => true
  | _ => false

/-- A cause that lies in the tokens' order is an unexpected token or too much
nesting. -/
theorem isUnexpectedToken_or_nestingTooDeep {cause : ParseError}
    (h : cause.isInternal = false) : cause.isUnexpectedToken = true ∨ cause = .nestingTooDeep := by
  cases cause <;> simp_all [isInternal, isUnexpectedToken]

end ParseError

/-- Every number among the tokens has a value. -/
def Token.NumbersHaveValues (ts : List Token) : Prop :=
  ∀ t ∈ ts, t.kind = .number → t.value ≠ none

instance (ts : List Token) : Decidable (Token.NumbersHaveValues ts) :=
  inferInstanceAs (Decidable (∀ t ∈ ts, t.kind = .number → t.value ≠ none))

/-- Operators are not ends. -/
theorem Kind.Between.ne_exprEnd {k : Kind} {op : Operator} {left right : Int}
    (h : k.Between op left right) : k ≠ .exprEnd := by
  intro hend
  have hop := h.1
  rw [hend] at hop
  cases hop

namespace Parser

variable {n m : Nat} {stage : Stage} {power : Int} {word rest rest' : List Token} {e : Expr}
  {cause : ParseError}

/-! ## The tokens taken -/

theorem Reads.not_exprEnd (h : Reads n stage word e rest) : ∀ t ∈ word, t.kind ≠ .exprEnd := by
  induction h with
  | number hkind hvalue => simp [hkind]
  | brackets hopening hclosing inner ih => grind
  | negation hkind inner ih => grind
  | expression operand climb ihOperand ihClimb => grind
  | stop hstop => simp
  | join hop hpower inner climb ihInner ihClimb =>
      have hkind := hop.ne_exprEnd
      grind

theorem Fails.not_exprEnd (h : Fails n stage word cause rest) :
    ∀ t ∈ word, t.kind ≠ .exprEnd := by
  induction h with
  | noOperand hkind => simp
  | noValue hkind hvalue => simp [hkind]
  | insideBrackets hopening inner ih => grind
  | unclosed hopening inner hkind =>
      have htaken := inner.not_exprEnd
      grind
  | insideNegation hkind inner ih => grind
  | tooDeep => simp
  | atOperand operand ih => exact ih
  | behindOperand operand climb ih =>
      have htaken := operand.not_exprEnd
      grind
  | atRight hop hpower inner ih =>
      have hkind := hop.ne_exprEnd
      grind
  | behindRight hop hpower inner climb ih =>
      have hkind := hop.ne_exprEnd
      have htaken := inner.not_exprEnd
      grind

/-- A cause that is no mistake in the tokens' order is a number without a value
among the tokens taken. -/
theorem Fails.exists_noValue (h : Fails n stage word cause rest)
    (hinternal : cause.isInternal = true) : ∃ t ∈ word, t.kind = .number ∧ t.value = none := by
  induction h with
  | noOperand hkind => cases hinternal
  | @noValue n t rest hkind hvalue => exact ⟨t, by simp, hkind, hvalue⟩
  | insideBrackets hopening inner ih => grind
  | unclosed hopening inner hkind => cases hinternal
  | insideNegation hkind inner ih => grind
  | tooDeep => cases hinternal
  | atOperand operand ih => exact ih hinternal
  | behindOperand operand climb ih => grind
  | atRight hop hpower inner ih => grind
  | behindRight hop hpower inner climb ih => grind

/-- Where numbers have values, a misreading lies in the tokens' order. -/
theorem not_internal_of_parse {ts : List Token} (hvalues : Token.NumbersHaveValues ts)
    {m : Misreading} (h : parse ts = .error m) : m.cause.isInternal = false := by
  obtain ⟨index, cause⟩ := m
  obtain ⟨word, rest, rfl, rfl, hfails | ⟨e, hread, hend, rfl⟩⟩ := parse_eq_error_iff.mp h
  · rw [← Bool.not_eq_true]
    intro hinternal
    obtain ⟨t, ht, hkind, hvalue⟩ := hfails.exists_noValue hinternal
    exact hvalues t (List.mem_append_left _ ht) hkind hvalue
  · rfl

/-! ## The token ahead -/

/-- Whatever ends in front of `rest` also ends in front of `rest'`. -/
def StopsWith (rest rest' : List Token) : Prop :=
  ∀ power, continues power (nextKind rest) = false → continues power (nextKind rest') = false

theorem StopsWith.of_nextKind_eq (h : nextKind rest = nextKind rest') : StopsWith rest rest' := by
  intro power hstop
  rwa [h] at hstop

/-- Everything ends in front of a token that is no operator. -/
theorem StopsWith.of_noOperator (h : (nextKind rest').operator? = none) :
    StopsWith rest rest' := by
  intro power _
  exact continues_of_noOperator h power

theorem nextKind_append (more : List Token) (h : nextKind rest = nextKind rest') :
    nextKind (more ++ rest) = nextKind (more ++ rest') := by
  cases more with
  | nil => exact h
  | cons t more => rfl

theorem StopsWith.append (more : List Token) (h : StopsWith rest rest') :
    StopsWith (more ++ rest) (more ++ rest') := by
  cases more with
  | nil => exact h
  | cons t more => exact .of_nextKind_eq rfl

/-- Tokens in between hide what comes behind them. -/
theorem StopsWith.of_ne_nil {more added : List Token} (h : more ≠ []) :
    StopsWith (more ++ rest) (more ++ added ++ rest') := by
  cases more with
  | nil => exact absurd rfl h
  | cons t more => exact .of_nextKind_eq rfl

/-- **A tree is read the same** before any rest that ends what the old one
ended. -/
theorem Reads.of_stopsWith (h : Reads n stage word e rest) (hrest : StopsWith rest rest') :
    Reads n stage word e rest' := by
  induction h generalizing rest' with
  | number hkind hvalue => exact .number hkind hvalue
  | brackets hopening hclosing inner ih =>
      exact .brackets hopening hclosing (ih (.of_nextKind_eq rfl))
  | negation hkind inner ih => exact .negation hkind (ih hrest)
  | expression operand climb ihOperand ihClimb =>
      exact .expression (ihOperand (hrest.append _)) (ihClimb hrest)
  | stop hstop => exact .stop (hrest _ hstop)
  | join hop hpower inner climb ihInner ihClimb =>
      exact .join hop hpower (ihInner (hrest.append _)) (ihClimb hrest)

/-- **A failure is the same** before any rest that begins with the same kind. -/
theorem Fails.of_nextKind_eq (h : Fails n stage word cause rest)
    (hrest : nextKind rest = nextKind rest') : Fails n stage word cause rest' := by
  induction h generalizing rest' with
  | noOperand hkind =>
      rw [hrest] at hkind ⊢
      exact .noOperand hkind
  | noValue hkind hvalue => exact .noValue hkind hvalue
  | insideBrackets hopening inner ih => exact .insideBrackets hopening (ih hrest)
  | unclosed hopening inner hkind =>
      rw [hrest] at hkind ⊢
      exact .unclosed hopening (inner.of_stopsWith (.of_nextKind_eq hrest)) hkind
  | insideNegation hkind inner ih => exact .insideNegation hkind (ih hrest)
  | tooDeep => exact .tooDeep
  | atOperand operand ih => exact .atOperand (ih hrest)
  | behindOperand operand climb ih =>
      exact .behindOperand (operand.of_stopsWith (.of_nextKind_eq (nextKind_append _ hrest)))
        (ih hrest)
  | atRight hop hpower inner ih => exact .atRight hop hpower (ih hrest)
  | behindRight hop hpower inner climb ih =>
      exact .behindRight hop hpower (inner.of_stopsWith (.of_nextKind_eq (nextKind_append _ hrest)))
        (ih hrest)

/-- Climbing goes on as long as the next operator pulls harder. -/
theorem Reads.climb_stops {left : Expr} (h : Reads n (.climb power left) word e rest) :
    continues power (nextKind rest) = false := by
  generalize hstage : Stage.climb power left = stage at h
  induction h generalizing left with
  | number => cases hstage
  | brackets => cases hstage
  | negation => cases hstage
  | expression => cases hstage
  | stop hstop =>
      cases hstage
      exact hstop
  | join hop hpower inner climb ihInner ihClimb =>
      cases hstage
      exact ihClimb rfl

/-- The token behind an expression is no operator that pulls harder. -/
theorem Reads.stops (h : Reads n (.expression power) word e rest) :
    continues power (nextKind rest) = false := by
  cases h with
  | expression operand climb => exact climb.climb_stops

/-! ## The levels -/

/-- **More levels read the same tree.** -/
theorem Reads.mono (h : Reads n stage word e rest) (hle : n ≤ m) : Reads m stage word e rest := by
  induction h generalizing m with
  | number hkind hvalue => exact .number hkind hvalue
  | brackets hopening hclosing inner ih => exact .brackets hopening hclosing (ih hle)
  | negation hkind inner ih => exact .negation hkind (ih hle)
  | expression operand climb ihOperand ihClimb =>
      cases m with
      | zero => cases hle
      | succ m =>
          have hle : _ ≤ m := Nat.le_of_succ_le_succ hle
          exact .expression (ihOperand hle) (ihClimb hle)
  | stop hstop => exact .stop hstop
  | join hop hpower inner climb ihInner ihClimb =>
      exact .join hop hpower (ihInner hle) (ihClimb hle)

/-- More levels change no failure but the one for want of levels. -/
theorem Fails.mono (h : Fails n stage word cause rest) (hcause : cause ≠ .nestingTooDeep)
    (hle : n ≤ m) : Fails m stage word cause rest := by
  induction h generalizing m with
  | noOperand hkind => exact .noOperand hkind
  | noValue hkind hvalue => exact .noValue hkind hvalue
  | insideBrackets hopening inner ih => exact .insideBrackets hopening (ih hcause hle)
  | unclosed hopening inner hkind => exact .unclosed hopening (inner.mono hle) hkind
  | insideNegation hkind inner ih => exact .insideNegation hkind (ih hcause hle)
  | tooDeep => exact absurd rfl hcause
  | atOperand operand ih =>
      cases m with
      | zero => cases hle
      | succ m => exact .atOperand (ih hcause (Nat.le_of_succ_le_succ hle))
  | behindOperand operand climb ih =>
      cases m with
      | zero => cases hle
      | succ m =>
          have hle : _ ≤ m := Nat.le_of_succ_le_succ hle
          exact .behindOperand (operand.mono hle) (ih hcause hle)
  | atRight hop hpower inner ih => exact .atRight hop hpower (ih hcause hle)
  | behindRight hop hpower inner climb ih =>
      exact .behindRight hop hpower (inner.mono hle) (ih hcause hle)

end Parser

end Abacus
