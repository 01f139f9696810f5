import Abacus.Expr.Parser

/-!
# The course of a reading

The reader answers with a number of tokens and an outcome.  This file tells the
same story as two relations over a split of the tokens into those that were
taken and the rest: `Reads` for a reading that ends in a tree, and `Fails` for
one that ends in a cause.  Both say nothing about the rest but which token comes
next.

The two are exact: every reading takes one of the two courses
(`reads_or_fails`), and a course determines the answer (`Reads.read_eq`,
`Fails.read_eq`).  What holds of every reading is shown by induction on its
course, one case for each way to take a token, to stop, or to fail.
-/

namespace Abacus

namespace Step

variable {α β : Type}

@[simp] theorem ok_next (used : Nat) (a : α) (ts : List Token) (f : α → List Token → Step β) :
    (ok used a).next ts f = (f a (ts.drop used)).after used := rfl

@[simp] theorem fail_next (used : Nat) (cause : ParseError) (ts : List Token)
    (f : α → List Token → Step β) : (fail used cause).next ts f = fail used cause := rfl

@[simp] theorem after_ok (n used : Nat) (a : α) : (ok used a).after n = ok (n + used) a := rfl

@[simp] theorem after_fail (n used : Nat) (cause : ParseError) :
    (fail used cause : Step α).after n = fail (n + used) cause := rfl

end Step

namespace Kind

/-- A kind that stands for `op` between two operands and pulls at them with the
given powers. -/
def Between (k : Kind) (op : Operator) (left right : Int) : Prop :=
  k.operator? = some op ∧ k.bindingPower? = some ⟨left, some right⟩

/-- A kind that an operand can begin with. -/
def beginsOperand : Kind → Bool
  | number => true
  | bracketOpen => true
  | minus => true
  | _ => false

/-- Each operator has a power on either side. -/
theorem exists_between {k : Kind} {op : Operator} (h : k.operator? = some op) :
    ∃ left right, k.Between op left right := by
  cases k <;> simp_all [Between, operator?, bindingPower?]

end Kind

namespace Parser

/-- An operator between operands that pulls harder than `power`. -/
def continues (power : Int) (k : Kind) : Bool :=
  match k.operator?, k.bindingPower? with
  | some _, some binding => power < binding.left
  | _, _ => false

/-- An operator goes on exactly where it pulls harder on its left. -/
theorem continues_iff {power : Int} {k : Kind} :
    continues power k = true ↔ ∃ op left right, k.Between op left right ∧ power < left := by
  constructor
  · intro h
    cases hop : k.operator? with
    | none => simp [continues, hop] at h
    | some op =>
        obtain ⟨left, right, hk⟩ := Kind.exists_between hop
        exact ⟨op, left, right, hk, by simpa [continues, hop, hk.2] using h⟩
  · intro h
    obtain ⟨op, left, right, ⟨hop, hbinding⟩, hpower⟩ := h
    simp [continues, hop, hbinding, hpower]

/-- **No operator is met without a binding power**, because each one has a power on
either side. -/
theorem goesOn_eq (power : Int) (k : Kind) : goesOn power k = .ok (continues power k) := by
  unfold goesOn continues
  cases hop : k.operator? with
  | none => rfl
  | some op =>
      obtain ⟨left, right, -, hbinding⟩ := Kind.exists_between hop
      simp only [hbinding]

/-- An operator stops exactly the powers that it does not pull harder than. -/
theorem stops_iff_le {power left right : Int} {k : Kind} {op : Operator}
    (hop : k.Between op left right) : continues power k = false ↔ left ≤ power := by
  simp [continues, hop.1, hop.2]

/-- What is no operator does not go on. -/
theorem continues_of_noOperator {k : Kind} (h : k.operator? = none) (power : Int) :
    continues power k = false := by
  simp [continues, h]

/-- Where reading stands: before an operand, before an expression, or behind a
tree that operators may still be joined to. -/
inductive Stage where
  | operand
  | expression (power : Int)
  | climb (power : Int) (left : Expr)

/-- What the reader answers at a stage, with levels left for the expressions
that it opens. -/
def read (levels : Nat) : Stage → List Token → Step Expr
  | .operand => operand (expression levels)
  | .expression power => expression levels power
  | .climb power left => climb (expression levels) power left

/-- A reading that ends in a tree.  It took the tokens `word` and stopped in
front of `rest`. -/
inductive Reads : Nat → Stage → List Token → Expr → List Token → Prop
  | number {n : Nat} {t : Token} {x : Binary64} {rest : List Token}
      (hkind : t.kind = .number) (hvalue : t.value = some x) :
      Reads n .operand [t] (.number x) rest
  | brackets {n : Nat} {opening closing : Token} {word rest : List Token} {e : Expr}
      (hopening : opening.kind = .bracketOpen) (hclosing : closing.kind = .bracketClose)
      (inner : Reads n (.expression 0) word e (closing :: rest)) :
      Reads n .operand (opening :: (word ++ [closing])) e rest
  | negation {n : Nat} {t : Token} {word rest : List Token} {e : Expr}
      (hkind : t.kind = .minus) (inner : Reads n (.expression minusPower) word e rest) :
      Reads n .operand (t :: word) (.unary .neg e) rest
  | expression {n : Nat} {power : Int} {first more rest : List Token} {left e : Expr}
      (operand : Reads n .operand first left (more ++ rest))
      (climb : Reads n (.climb power left) more e rest) :
      Reads (n + 1) (.expression power) (first ++ more) e rest
  | stop {n : Nat} {power : Int} {left : Expr} {rest : List Token}
      (hstop : continues power (nextKind rest) = false) :
      Reads n (.climb power left) [] left rest
  | join {n : Nat} {power left right : Int} {op : Operator} {t : Token}
      {word more rest : List Token} {l r e : Expr}
      (hop : t.kind.Between op left right) (hpower : power < left)
      (inner : Reads n (.expression right) word r (more ++ rest))
      (climb : Reads n (.climb power (.binary op l r)) more e rest) :
      Reads n (.climb power l) (t :: (word ++ more)) e rest

/-- A reading that ends in a cause, with the tokens `word` taken and `rest`
ahead. -/
inductive Fails : Nat → Stage → List Token → ParseError → List Token → Prop
  | noOperand {n : Nat} {rest : List Token} (hkind : (nextKind rest).beginsOperand = false) :
      Fails n .operand [] (.operandExpected (nextKind rest)) rest
  | noValue {n : Nat} {t : Token} {rest : List Token}
      (hkind : t.kind = .number) (hvalue : t.value = none) :
      Fails n .operand [t] (.numberWithoutValue t) rest
  | insideBrackets {n : Nat} {opening : Token} {word rest : List Token} {cause : ParseError}
      (hopening : opening.kind = .bracketOpen) (inner : Fails n (.expression 0) word cause rest) :
      Fails n .operand (opening :: word) cause rest
  | unclosed {n : Nat} {opening : Token} {word rest : List Token} {e : Expr}
      (hopening : opening.kind = .bracketOpen) (inner : Reads n (.expression 0) word e rest)
      (hkind : nextKind rest ≠ .bracketClose) :
      Fails n .operand (opening :: word) (.expected .bracketClose (nextKind rest)) rest
  | insideNegation {n : Nat} {t : Token} {word rest : List Token} {cause : ParseError}
      (hkind : t.kind = .minus) (inner : Fails n (.expression minusPower) word cause rest) :
      Fails n .operand (t :: word) cause rest
  | tooDeep {power : Int} {rest : List Token} :
      Fails 0 (.expression power) [] .nestingTooDeep rest
  | atOperand {n : Nat} {power : Int} {word rest : List Token} {cause : ParseError}
      (operand : Fails n .operand word cause rest) :
      Fails (n + 1) (.expression power) word cause rest
  | behindOperand {n : Nat} {power : Int} {first more rest : List Token} {left : Expr}
      {cause : ParseError} (operand : Reads n .operand first left (more ++ rest))
      (climb : Fails n (.climb power left) more cause rest) :
      Fails (n + 1) (.expression power) (first ++ more) cause rest
  | atRight {n : Nat} {power left right : Int} {op : Operator} {t : Token}
      {word rest : List Token} {l : Expr} {cause : ParseError}
      (hop : t.kind.Between op left right) (hpower : power < left)
      (inner : Fails n (.expression right) word cause rest) :
      Fails n (.climb power l) (t :: word) cause rest
  | behindRight {n : Nat} {power left right : Int} {op : Operator} {t : Token}
      {word more rest : List Token} {l r : Expr} {cause : ParseError}
      (hop : t.kind.Between op left right) (hpower : power < left)
      (inner : Reads n (.expression right) word r (more ++ rest))
      (climb : Fails n (.climb power (.binary op l r)) more cause rest) :
      Fails n (.climb power l) (t :: (word ++ more)) cause rest

/-! ## The answer of a course -/

section Equations

variable {inner : Reading} {t : Token} {ts : List Token}

theorem operand_of_number (hkind : t.kind = .number) {x : Binary64} (hvalue : t.value = some x) :
    operand inner (t :: ts) = .ok 1 (.number x) := by
  simp [operand, hkind, hvalue]

theorem operand_of_noValue (hkind : t.kind = .number) (hvalue : t.value = none) :
    operand inner (t :: ts) = .fail 1 (.numberWithoutValue t) := by
  simp [operand, hkind, hvalue]

theorem operand_of_bracket (hkind : t.kind = .bracketOpen) :
    operand inner (t :: ts) = ((inner 0 ts).next ts fun e rest =>
      (expect .bracketClose rest).next rest fun _ _ => .ok 0 e).after 1 := by
  simp [operand, hkind]

theorem operand_of_minus (hkind : t.kind = .minus) :
    operand inner (t :: ts) =
      ((inner minusPower ts).next ts fun e _ => .ok 0 (.unary .neg e)).after 1 := by
  simp [operand, hkind]

theorem operand_of_noOperand (hkind : (nextKind ts).beginsOperand = false) :
    operand inner ts = .fail 0 (.operandExpected (nextKind ts)) := by
  cases ts with
  | nil => rfl
  | cons t ts =>
      change t.kind.beginsOperand = false at hkind
      cases ht : t.kind <;> simp_all [operand, nextKind, Kind.beginsOperand]

/-- Climbing ends in front of a token that does not go on. -/
theorem climb_of_stop {power : Int} {left : Expr} (hstop : continues power (nextKind ts) = false) :
    climb inner power left ts = .ok 0 left := by
  cases ts with
  | nil => rw [climb]
  | cons t ts =>
      change continues power t.kind = false at hstop
      rw [climb]
      simp only [goesOn_eq, hstop]

/-- Climbing takes an operator, reads what stands on its right, and climbs on
from the joined tree. -/
theorem climb_of_operator {power left right : Int} {op : Operator} {l : Expr}
    (hop : t.kind.Between op left right) (hpower : power < left) :
    climb inner power l (t :: ts) =
      ((inner right ts).next ts fun r => climb inner power (.binary op l r)).after 1 := by
  have hgoes : continues power t.kind = true := continues_iff.mpr ⟨op, left, right, hop, hpower⟩
  have hjoin : join inner l t.kind ts =
      (inner right ts).next ts fun r _ => .ok 0 (.binary op l r) := by
    simp [join, hop.1, hop.2]
  rw [climb]
  simp only [goesOn_eq, hgoes, hjoin]
  cases hinner : (inner right ts).outcome with
  | error cause => simp [Step.next, hinner, Step.fail, Step.after]
  | ok r => simp [Step.next, hinner, Step.ok, Step.after, Nat.add_assoc]

end Equations

/-- A reading that ends in a tree answers with it. -/
theorem Reads.read_eq {n : Nat} {stage : Stage} {word rest : List Token} {e : Expr}
    (h : Reads n stage word e rest) : read n stage (word ++ rest) = .ok word.length e := by
  induction h with
  | number hkind hvalue => exact operand_of_number hkind hvalue
  | brackets hopening hclosing inner ih =>
      simp only [read, List.cons_append, List.append_assoc, List.nil_append] at ih ⊢
      rw [operand_of_bracket hopening, ih]
      simp [expect, nextKind, hclosing, Nat.add_comm]
  | negation hkind inner ih =>
      simp only [read, List.cons_append] at ih ⊢
      rw [operand_of_minus hkind, ih]
      simp [Nat.add_comm]
  | expression operand climb ihOperand ihClimb =>
      simp only [read, List.append_assoc] at ihOperand ihClimb ⊢
      rw [Parser.expression, ihOperand]
      simp [ihClimb]
  | stop hstop => exact climb_of_stop hstop
  | join hop hpower inner climb ihInner ihClimb =>
      simp only [read, List.cons_append, List.append_assoc] at ihInner ihClimb ⊢
      rw [climb_of_operator hop hpower, ihInner]
      simp [ihClimb, Nat.add_comm]

/-- A reading that ends in a cause answers with it. -/
theorem Fails.read_eq {n : Nat} {stage : Stage} {word rest : List Token} {cause : ParseError}
    (h : Fails n stage word cause rest) :
    read n stage (word ++ rest) = .fail word.length cause := by
  induction h with
  | noOperand hkind => exact operand_of_noOperand hkind
  | noValue hkind hvalue => exact operand_of_noValue hkind hvalue
  | insideBrackets hopening inner ih =>
      simp only [read, List.cons_append] at ih ⊢
      rw [operand_of_bracket hopening, ih]
      simp [Nat.add_comm]
  | unclosed hopening inner hkind =>
      have hinner := inner.read_eq
      simp only [read, List.cons_append] at hinner ⊢
      rw [operand_of_bracket hopening, hinner]
      simp [expect, hkind, Nat.add_comm]
  | insideNegation hkind inner ih =>
      simp only [read, List.cons_append] at ih ⊢
      rw [operand_of_minus hkind, ih]
      simp [Nat.add_comm]
  | tooDeep => rfl
  | atOperand operand ih =>
      simp only [read] at ih ⊢
      rw [Parser.expression, ih]
      simp
  | behindOperand operand climb ih =>
      have hoperand := operand.read_eq
      simp only [read, List.append_assoc] at hoperand ih ⊢
      rw [Parser.expression, hoperand]
      simp [ih]
  | atRight hop hpower inner ih =>
      simp only [read, List.cons_append] at ih ⊢
      rw [climb_of_operator hop hpower, ih]
      simp [Nat.add_comm]
  | behindRight hop hpower inner climb ih =>
      have hinner := inner.read_eq
      simp only [read, List.cons_append, List.append_assoc] at hinner ih ⊢
      rw [climb_of_operator hop hpower, hinner]
      simp [ih, Nat.add_comm]

/-! ## Every reading has a course -/

/-- A reading of `ts` takes one of the two courses. -/
def HasCourse (n : Nat) (stage : Stage) (ts : List Token) : Prop :=
  (∃ word e rest, ts = word ++ rest ∧ Reads n stage word e rest) ∨
    ∃ word cause rest, ts = word ++ rest ∧ Fails n stage word cause rest

/-- An operand has a course if the expressions in it have one. -/
theorem hasCourse_operand {n : Nat}
    (hinner : ∀ power ts, HasCourse n (.expression power) ts) (ts : List Token) :
    HasCourse n .operand ts := by
  cases hbegins : (nextKind ts).beginsOperand with
  | false => exact .inr ⟨[], _, ts, rfl, .noOperand hbegins⟩
  | true =>
      cases ts with
      | nil => cases hbegins
      | cons t ts =>
          change t.kind.beginsOperand = true at hbegins
          cases hkind : t.kind <;> simp only [hkind, Kind.beginsOperand, Bool.false_eq_true] at hbegins
          case number =>
            cases hvalue : t.value with
            | none => exact .inr ⟨[t], _, ts, rfl, .noValue hkind hvalue⟩
            | some x => exact .inl ⟨[t], _, ts, rfl, .number hkind hvalue⟩
          case minus =>
            rcases hinner minusPower ts with ⟨word, e, rest, rfl, h⟩ | ⟨word, cause, rest, rfl, h⟩
            · exact .inl ⟨t :: word, _, rest, rfl, .negation hkind h⟩
            · exact .inr ⟨t :: word, _, rest, rfl, .insideNegation hkind h⟩
          case bracketOpen =>
            rcases hinner 0 ts with ⟨word, e, rest, rfl, h⟩ | ⟨word, cause, rest, rfl, h⟩
            · by_cases hnext : nextKind rest = .bracketClose
              · obtain ⟨closing, rest, rfl⟩ : ∃ closing more, rest = closing :: more := by
                  cases rest with
                  | nil => cases hnext
                  | cons closing more => exact ⟨closing, more, rfl⟩
                exact .inl ⟨t :: (word ++ [closing]), e, rest, by simp, .brackets hkind hnext h⟩
              · exact .inr ⟨t :: word, _, rest, rfl, .unclosed hkind h hnext⟩
            · exact .inr ⟨t :: word, _, rest, rfl, .insideBrackets hkind h⟩

/-- Climbing has a course if the expressions on the right of operators have
one.  The tokens left get fewer with every operator. -/
theorem hasCourse_climb {n : Nat} (hinner : ∀ power ts, HasCourse n (.expression power) ts)
    (power : Int) (l : Expr) (ts : List Token) : HasCourse n (.climb power l) ts := by
  induction hlength : ts.length using Nat.strongRecOn generalizing l ts with
  | ind length ih =>
      cases hgoes : continues power (nextKind ts) with
      | false => exact .inl ⟨[], l, ts, rfl, .stop hgoes⟩
      | true =>
          cases ts with
          | nil => cases hgoes
          | cons t ts =>
              obtain ⟨op, left, right, hop, hpower⟩ := continues_iff.mp hgoes
              rcases hinner right ts with ⟨word, r, rest, rfl, h⟩ | ⟨word, cause, rest, rfl, h⟩
              · have hshorter : rest.length < length := by
                  simp only [List.length_cons, List.length_append] at hlength
                  omega
                rcases ih rest.length hshorter (.binary op l r) rest rfl with
                  ⟨more, e, rest, rfl, hclimb⟩ | ⟨more, cause, rest, rfl, hclimb⟩
                · exact .inl ⟨t :: (word ++ more), e, rest, by simp, .join hop hpower h hclimb⟩
                · exact .inr ⟨t :: (word ++ more), cause, rest, by simp,
                    .behindRight hop hpower h hclimb⟩
              · exact .inr ⟨t :: word, cause, rest, rfl, .atRight hop hpower h⟩

/-- **Every expression has a course.** -/
theorem reads_or_fails (n : Nat) (power : Int) (ts : List Token) :
    HasCourse n (.expression power) ts := by
  induction n generalizing power ts with
  | zero => exact .inr ⟨[], _, ts, rfl, .tooDeep⟩
  | succ n ih =>
      rcases hasCourse_operand ih ts with ⟨first, left, rest, rfl, h⟩ | ⟨word, cause, rest, rfl, h⟩
      · rcases hasCourse_climb ih power left rest with
          ⟨more, e, rest, rfl, hclimb⟩ | ⟨more, cause, rest, rfl, hclimb⟩
        · exact .inl ⟨first ++ more, e, rest, by simp, .expression h hclimb⟩
        · exact .inr ⟨first ++ more, cause, rest, by simp, .behindOperand h hclimb⟩
      · exact .inr ⟨word, cause, rest, rfl, .atOperand h⟩

/-- A reading has one course: the word it takes and its tree are determined. -/
theorem Reads.unique {n : Nat} {stage : Stage} {word word' rest rest' : List Token} {e e' : Expr}
    (h : Reads n stage word e rest) (h' : Reads n stage word' e' rest')
    (hsame : word ++ rest = word' ++ rest') : word = word' ∧ e = e' ∧ rest = rest' := by
  have heq := h.read_eq
  rw [hsame, h'.read_eq] at heq
  simp only [Step.ok, Step.mk.injEq, Except.ok.injEq] at heq
  obtain ⟨hword, hrest⟩ := List.append_inj hsame heq.1.symm
  exact ⟨hword, heq.2.symm, hrest⟩

/-- What reading all tokens comes to, by the course of the expression. -/
theorem parse_of_reads {word rest : List Token} {e : Expr}
    (h : Reads maxDepth (.expression 0) word e rest) :
    parse (word ++ rest) =
      if nextKind rest = .exprEnd then .ok e
      else .error ⟨word.length, .trailing (nextKind rest)⟩ := by
  have heq : expression maxDepth 0 (word ++ rest) = .ok word.length e := h.read_eq
  rw [parse, heq]
  simp only [Step.ok, List.drop_left]
  cases hkind : nextKind rest <;> simp

theorem parse_of_fails {word rest : List Token} {cause : ParseError}
    (h : Fails maxDepth (.expression 0) word cause rest) :
    parse (word ++ rest) = .error ⟨word.length, cause⟩ := by
  have heq : expression maxDepth 0 (word ++ rest) = .fail word.length cause := h.read_eq
  simp only [parse, heq, Step.fail]

/-- **All tokens are read** as a tree exactly if the expression is read and an
end follows. -/
theorem parse_eq_ok_iff {ts : List Token} {e : Expr} :
    parse ts = .ok e ↔ ∃ word rest, ts = word ++ rest ∧
      Reads maxDepth (.expression 0) word e rest ∧ nextKind rest = .exprEnd := by
  constructor
  · intro h
    rcases reads_or_fails maxDepth 0 ts with ⟨word, e', rest, rfl, hr⟩ | ⟨word, cause, rest, rfl, hf⟩
    · rw [parse_of_reads hr] at h
      split at h
      · rename_i hend
        cases h
        exact ⟨word, rest, rfl, hr, hend⟩
      · cases h
    · rw [parse_of_fails hf] at h
      cases h
  · intro h
    obtain ⟨word, rest, rfl, hr, hend⟩ := h
    rw [parse_of_reads hr, if_pos hend]

/-- **A misreading** is a failure of the expression, or a token behind it that
is not an end. -/
theorem parse_eq_error_iff {ts : List Token} {index : Nat} {cause : ParseError} :
    parse ts = .error ⟨index, cause⟩ ↔ ∃ word rest, ts = word ++ rest ∧ word.length = index ∧
      (Fails maxDepth (.expression 0) word cause rest ∨
        ∃ e, Reads maxDepth (.expression 0) word e rest ∧ nextKind rest ≠ .exprEnd ∧
          cause = .trailing (nextKind rest)) := by
  constructor
  · intro h
    rcases reads_or_fails maxDepth 0 ts with ⟨word, e, rest, rfl, hr⟩ | ⟨word, cause', rest, rfl, hf⟩
    · rw [parse_of_reads hr] at h
      split at h
      · cases h
      · rename_i hend
        cases h
        exact ⟨word, rest, rfl, rfl, .inr ⟨e, hr, hend, rfl⟩⟩
    · rw [parse_of_fails hf] at h
      cases h
      exact ⟨word, rest, rfl, rfl, .inl hf⟩
  · intro h
    obtain ⟨word, rest, rfl, rfl, hcourse⟩ := h
    rcases hcourse with hf | ⟨e, hr, hend, rfl⟩
    · exact parse_of_fails hf
    · rw [parse_of_reads hr, if_neg hend]

end Parser

end Abacus
