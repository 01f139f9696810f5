import Abacus.Proofs.Lookahead
import Abacus.Proofs.Scanning

/-!
# The earliest fault

A token is unexpected only where every way to read on from there fails, and not
before: the tokens in front of it are still the beginning of an expression.

That they are (`Fails.completable`) is shown by induction on the course of the
failure.  The missing operand or bracket is put in the place of the token, and
each bracket that is still open is closed on the way out.  What completes the
inner reading never opens another expression, so the levels suffice.
-/

namespace Abacus

namespace Parser

variable {n : Nat} {stage : Stage} {power left right : Int} {op : Operator} {l r e : Expr}
  {t : Token} {first word more rest : List Token} {cause : ParseError}

/-- Some tokens complete `word` to a reading, in front of anything but an
operator. -/
def Completable (n : Nat) (stage : Stage) (word : List Token) : Prop :=
  ∃ added, ∀ rest, (nextKind rest).operator? = none → ∃ e, Reads n stage (word ++ added) e rest

namespace Completable

/-- A number stands wherever an operand can. -/
theorem operand_nil : Completable n .operand [] := by
  refine ⟨[⟨.number, "0", some (.zero false), 0⟩], fun rest _ => ⟨.number (.zero false), ?_⟩⟩
  exact .number rfl rfl

/-- An expression in brackets is completed by what completes it inside, and a
closing bracket. -/
theorem bracket (hopening : t.kind = .bracketOpen) (h : Completable n (.expression 0) word) :
    Completable n .operand (t :: word) := by
  obtain ⟨added, hadded⟩ := h
  let closing : Token := ⟨.bracketClose, ")", none, 0⟩
  refine ⟨added ++ [closing], fun rest _ => ?_⟩
  obtain ⟨e, inner⟩ := hadded (closing :: rest) rfl
  refine ⟨e, ?_⟩
  rw [List.cons_append, ← List.append_assoc]
  exact .brackets hopening rfl inner

theorem negation (hkind : t.kind = .minus) (h : Completable n (.expression minusPower) word) :
    Completable n .operand (t :: word) := by
  obtain ⟨added, hadded⟩ := h
  refine ⟨added, fun rest hrest => ?_⟩
  obtain ⟨e, inner⟩ := hadded rest hrest
  exact ⟨.unary .neg e, .negation hkind inner⟩

/-- An operand is an expression where no operator follows. -/
theorem operand (h : Completable n .operand word) :
    Completable (n + 1) (.expression power) word := by
  obtain ⟨added, hadded⟩ := h
  refine ⟨added, fun rest hrest => ?_⟩
  obtain ⟨e, hoperand⟩ := hadded rest hrest
  refine ⟨e, ?_⟩
  rw [← List.append_nil (word ++ added)]
  exact .expression hoperand (.stop (continues_of_noOperator hrest power))

/-- Behind an operand, what completes the climbing from it completes the
expression.  The operand is the same, since the token behind it is. -/
theorem behindOperand (hoperand : Reads n .operand first l (more ++ rest)) (hmore : more ≠ [])
    (h : Completable n (.climb power l) more) :
    Completable (n + 1) (.expression power) (first ++ more) := by
  obtain ⟨added, hadded⟩ := h
  refine ⟨added, fun rest' hrest' => ?_⟩
  obtain ⟨e, hclimb⟩ := hadded rest' hrest'
  refine ⟨e, ?_⟩
  rw [List.append_assoc]
  exact .expression (hoperand.of_stopsWith (.of_ne_nil hmore)) hclimb

/-- Behind an operator, what completes its right side completes the climbing. -/
theorem atRight (hop : t.kind.Between op left right) (hpower : power < left)
    (h : Completable n (.expression right) word) :
    Completable n (.climb power l) (t :: word) := by
  obtain ⟨added, hadded⟩ := h
  refine ⟨added, fun rest hrest => ?_⟩
  obtain ⟨r, inner⟩ := hadded rest hrest
  refine ⟨.binary op l r, ?_⟩
  rw [← List.append_nil (t :: word ++ added)]
  exact .join hop hpower inner (.stop (continues_of_noOperator hrest power))

theorem behindRight (hop : t.kind.Between op left right) (hpower : power < left)
    (inner : Reads n (.expression right) word r (more ++ rest)) (hmore : more ≠ [])
    (h : Completable n (.climb power (.binary op l r)) more) :
    Completable n (.climb power l) (t :: (word ++ more)) := by
  obtain ⟨added, hadded⟩ := h
  refine ⟨added, fun rest' hrest' => ?_⟩
  obtain ⟨e, hclimb⟩ := hadded rest' hrest'
  refine ⟨e, ?_⟩
  rw [List.cons_append, List.append_assoc]
  exact .join hop hpower (inner.of_stopsWith (.of_ne_nil hmore)) hclimb

/-- What is read already needs nothing more. -/
theorem of_reads (h : Reads n stage word e rest) : Completable n stage word := by
  refine ⟨[], fun rest' hrest' => ⟨e, ?_⟩⟩
  rw [List.append_nil]
  exact h.of_stopsWith (.of_noOperator hrest')

end Completable

/-- Climbing fails only behind an operator. -/
theorem Fails.climb_ne_nil (h : Fails n (.climb power l) word cause rest) : word ≠ [] := by
  cases h with
  | atRight hop hpower inner => simp
  | behindRight hop hpower inner climb => simp

/-- **In front of an unexpected token** the tokens can be completed, with no more
levels than there were. -/
theorem Fails.completable (h : Fails n stage word cause rest)
    (hcause : cause.isUnexpectedToken = true) : Completable n stage word := by
  induction h with
  | noOperand hkind => exact .operand_nil
  | noValue hkind hvalue => cases hcause
  | insideBrackets hopening inner ih => exact .bracket hopening (ih hcause)
  | unclosed hopening inner hkind => exact .bracket hopening (.of_reads inner)
  | insideNegation hkind inner ih => exact .negation hkind (ih hcause)
  | tooDeep => cases hcause
  | atOperand operand ih => exact .operand (ih hcause)
  | behindOperand operand climb ih => exact .behindOperand operand climb.climb_ne_nil (ih hcause)
  | atRight hop hpower inner ih => exact .atRight hop hpower (ih hcause)
  | behindRight hop hpower inner climb ih =>
      exact .behindRight hop hpower inner climb.climb_ne_nil (ih hcause)

/-- A word that can be completed to an expression can be completed to tokens
that are read. -/
theorem Completable.exists_parse (h : Completable maxDepth (.expression 0) word) :
    ∃ added e, parse (word ++ added) = .ok e := by
  obtain ⟨added, hadded⟩ := h
  obtain ⟨e, hread⟩ := hadded [] rfl
  refine ⟨added, e, parse_eq_ok_iff.mpr ⟨word ++ added, [], ?_, hread, rfl⟩⟩
  rw [List.append_nil]

/-- The tokens in front of an unexpected one can be completed. -/
theorem exists_completion_of_parse {ts : List Token} {m : Misreading} (h : parse ts = .error m)
    (hcause : m.cause.isUnexpectedToken = true) :
    ∃ added e, parse (ts.take m.index ++ added) = .ok e := by
  obtain ⟨index, cause⟩ := m
  obtain ⟨word, rest, rfl, rfl, hcourse⟩ := parse_eq_error_iff.mp h
  rw [List.take_left]
  rcases hcourse with hfails | ⟨e, hreads, -, -⟩
  · exact (hfails.completable hcause).exists_parse
  · exact (Completable.of_reads hreads).exists_parse

/-- A misreading is settled by the tokens up to the one that it concerns. -/
theorem parse_take_append {ts : List Token} {m : Misreading} (h : parse ts = .error m)
    (hindex : m.index < ts.length) (added : List Token) :
    parse (ts.take (m.index + 1) ++ added) = .error m := by
  obtain ⟨index, cause⟩ := m
  obtain ⟨word, rest, rfl, rfl, hcourse⟩ := parse_eq_error_iff.mp h
  cases rest with
  | nil => simp at hindex
  | cons t rest =>
      have htake : (word ++ t :: rest).take (word.length + 1) ++ added = word ++ t :: added := by
        rw [List.take_length_add_append]
        simp
      have hnext : nextKind (t :: rest) = nextKind (t :: added) := rfl
      rw [htake]
      refine parse_eq_error_iff.mpr ⟨word, t :: added, rfl, rfl, ?_⟩
      rcases hcourse with hfails | ⟨e, hreads, hend, hcause⟩
      · exact .inl (hfails.of_nextKind_eq hnext)
      · exact .inr ⟨e, hreads.of_stopsWith (.of_nextKind_eq hnext), hend, hcause⟩

/-- A misreading of a line concerns one of its tokens: none is taken behind the
end that scanning puts last. -/
theorem index_lt_length_of_scan {line : String} {ts : List Token} {m : Misreading}
    (hscan : Token.scan line = .ok ts) (h : parse ts = .error m) : m.index < ts.length := by
  obtain ⟨words, hwords, -⟩ := (Token.scanFrom_eq_ok_iff.mp hscan).exists_words
  obtain ⟨index, cause⟩ := m
  obtain ⟨word, rest, hts, rfl, hcourse⟩ := parse_eq_error_iff.mp h
  have htaken : ∀ t ∈ word, t.kind ≠ .exprEnd := by
    rcases hcourse with hfails | ⟨e, hreads, -, -⟩
    · exact hfails.not_exprEnd
    · exact hreads.not_exprEnd
  cases rest with
  | nil =>
      rw [List.append_nil] at hts
      refine absurd rfl (htaken (Token.finish ↑(0 + line.toList.length)) ?_)
      rw [← hts, hwords]
      exact List.mem_append_right _ List.mem_cons_self
  | cons t rest =>
      rw [hts, List.length_append, List.length_cons]
      change word.length < word.length + (rest.length + 1)
      omega

end Parser

/-- **An unexpected token is reported as early as it can be.**  The tokens in
front of it can be completed to some that are read, and with it no completion
changes the misreading, neither its cause nor its index.  For the tokens of a
line there always is such a token: the index is one of theirs. -/
theorem unexpectedToken_earliest {ts : List Token} {m : Misreading} (h : parse ts = .error m) :
    (m.cause.isUnexpectedToken = true → m.index < ts.length →
      (∃ added e, parse (ts.take m.index ++ added) = .ok e) ∧
        ∀ added, parse (ts.take (m.index + 1) ++ added) = .error m) ∧
      ∀ line, Token.scan line = .ok ts → m.index < ts.length := by
  refine ⟨fun hcause hindex => ⟨?_, ?_⟩, fun line hscan => ?_⟩
  · exact Parser.exists_completion_of_parse h hcause
  · exact Parser.parse_take_append h hindex
  · exact Parser.index_lt_length_of_scan hscan h

/-- In `(0 * + 0` the plus sign is unexpected, whatever follows it. -/
theorem unexpectedToken_earliest_plus :
    let zero : Token := ⟨.number, "0", some (.zero false), 1⟩
    let ts := [⟨.bracketOpen, "(", none, 0⟩, zero, ⟨.star, "*", none, 2⟩, ⟨.plus, "+", none, 3⟩,
      zero, .finish 5]
    let m : Misreading := ⟨3, .operandExpected .plus⟩
    parse ts = .error m ∧ (∃ added e, parse (ts.take 3 ++ added) = .ok e) ∧
      ∀ added, parse (ts.take 4 ++ added) = .error m := by
  intro zero ts m
  have hparse : parse ts = .error m := by cbv
  exact ⟨hparse, (unexpectedToken_earliest hparse).1 rfl (by decide)⟩

end Abacus
