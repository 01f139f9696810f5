import Abacus.Proofs.Scanning

/-!
# Tokens apart from their places

A token has a place in its line, but reading asks only for its kind, and for its
value if it is a number.  So tokens that differ in their places are read the same
(`parse_eq_of_unplaced`): the course of a reading stays one, step by step, when each
token is replaced by one of the same kind and value.
-/

namespace Abacus

namespace Token

/-- The token without regard to its place. -/
def unplaced (t : Token) : Token := t.moveTo 0

@[simp] theorem kind_unplaced (t : Token) : t.unplaced.kind = t.kind := rfl

@[simp] theorem value_unplaced (t : Token) : t.unplaced.value = t.value := rfl

end Token

namespace Parser

variable {n : Nat} {stage : Stage} {word rest : List Token} {e : Expr} {cause : ParseError}
  {f : Token → Token}

theorem nextKind_map (hkind : ∀ t, (f t).kind = t.kind) (ts : List Token) :
    nextKind (ts.map f) = nextKind ts := by
  cases ts with
  | nil => rfl
  | cons t ts => exact hkind t

/-- A tree is read the same from tokens of the same kinds and values. -/
theorem Reads.map (hkind : ∀ t, (f t).kind = t.kind) (hvalue : ∀ t, (f t).value = t.value)
    (h : Reads n stage word e rest) : Reads n stage (word.map f) e (rest.map f) := by
  induction h with
  | @number n t x rest ht hx => exact .number ((hkind t).trans ht) ((hvalue t).trans hx)
  | @brackets n opening closing word rest e hopening hclosing inner ih =>
      rw [List.map_cons, List.map_append]
      exact .brackets ((hkind opening).trans hopening) ((hkind closing).trans hclosing) ih
  | @negation n t word rest e ht inner ih => exact .negation ((hkind t).trans ht) ih
  | expression operand climb ihOperand ihClimb =>
      rw [List.map_append] at ihOperand ⊢
      exact .expression ihOperand ihClimb
  | stop hstop => exact .stop ((nextKind_map hkind _).symm ▸ hstop)
  | @join n power left right op t word more rest l r e hop hpower inner climb ihInner ihClimb =>
      rw [List.map_append] at ihInner
      rw [List.map_cons, List.map_append]
      exact .join ((hkind t).symm ▸ hop) hpower ihInner ihClimb

/-- A failure that lies in the tokens' order is the same for tokens of the same
kinds and values. -/
theorem Fails.map (hkind : ∀ t, (f t).kind = t.kind) (hvalue : ∀ t, (f t).value = t.value)
    (h : Fails n stage word cause rest) (hcause : cause.isInternal = false) :
    Fails n stage (word.map f) cause (rest.map f) := by
  induction h with
  | @noOperand n rest hnone =>
      rw [← nextKind_map hkind] at hnone ⊢
      exact .noOperand hnone
  | noValue ht hnone => cases hcause
  | @insideBrackets n opening word rest cause hopening inner ih =>
      exact .insideBrackets ((hkind opening).trans hopening) (ih hcause)
  | @unclosed n opening word rest e hopening inner hnext =>
      rw [← nextKind_map hkind] at hnext ⊢
      exact .unclosed ((hkind opening).trans hopening) (inner.map hkind hvalue) hnext
  | @insideNegation n t word rest cause ht inner ih =>
      exact .insideNegation ((hkind t).trans ht) (ih hcause)
  | tooDeep => exact .tooDeep
  | atOperand operand ih => exact .atOperand (ih hcause)
  | behindOperand operand climb ih =>
      have hoperand := operand.map hkind hvalue
      rw [List.map_append] at hoperand ⊢
      exact .behindOperand hoperand (ih hcause)
  | @atRight n power left right op t word rest l cause hop hpower inner ih =>
      exact .atRight ((hkind t).symm ▸ hop) hpower (ih hcause)
  | @behindRight n power left right op t word more rest l r cause hop hpower inner climb ih =>
      have hinner := inner.map hkind hvalue
      rw [List.map_append] at hinner
      rw [List.map_cons, List.map_append]
      exact .behindRight ((hkind t).symm ▸ hop) hpower hinner (ih hcause)

/-- Reading asks only for kinds and values. -/
theorem parse_map (hkind : ∀ t, (f t).kind = t.kind) (hvalue : ∀ t, (f t).value = t.value)
    {ts : List Token} (hvalues : Token.NumbersHaveValues ts) : parse (ts.map f) = parse ts := by
  cases hparse : parse ts with
  | ok e =>
      obtain ⟨word, rest, rfl, hread, hend⟩ := parse_eq_ok_iff.mp hparse
      exact parse_eq_ok_iff.mpr ⟨word.map f, rest.map f, List.map_append, hread.map hkind hvalue,
        (nextKind_map hkind rest).trans hend⟩
  | error m =>
      obtain ⟨index, cause⟩ := m
      obtain ⟨word, rest, rfl, rfl, hcourse⟩ := parse_eq_error_iff.mp hparse
      refine parse_eq_error_iff.mpr ⟨word.map f, rest.map f, List.map_append, List.length_map _, ?_⟩
      rcases hcourse with hfails | ⟨e, hread, hend, hcause⟩
      · have hcause : cause.isInternal = false := not_internal_of_parse hvalues hparse
        exact .inl (hfails.map hkind hvalue hcause)
      · rw [← nextKind_map hkind] at hend hcause
        exact .inr ⟨e, hread.map hkind hvalue, hend, hcause⟩

/-- **Places do not matter to reading.** -/
theorem parse_eq_of_unplaced {ts us : List Token} (hts : Token.NumbersHaveValues ts)
    (hus : Token.NumbersHaveValues us) (h : ts.map Token.unplaced = us.map Token.unplaced) :
    parse ts = parse us := by
  rw [← parse_map Token.kind_unplaced Token.value_unplaced hts, h,
    parse_map Token.kind_unplaced Token.value_unplaced hus]

end Parser

end Abacus
