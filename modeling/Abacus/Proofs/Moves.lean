import Abacus.Proofs.Frames

/-!
# Cursors, move by move

Reading moves the two numbers of a cursor.  The position goes forward by one with each token
that is taken.  The depth goes up by one when an expression is opened, and down by one when it
is left, whether it was read or not.  A misreading is placed where the position is when it
strikes.  `Moves` tells a reading in these moves, and cursors read by them and not otherwise
(`moves_iff`).

The key local fact is `Moves.passes`: wherever a reading takes a token, it has seen that the
token is none that ends the expression, and each expression that it opened it has also left.
-/

namespace Abacus

namespace Cursor

open Abacus.Parser

variable {ts : List Token} {stage : Stage} {answer : Answer}
  {c c' c₁ c₂ : Cursor} {e : Expr}

/-- Behind the token at the cursor. -/
def forward (c : Cursor) : Cursor := ⟨c.position + 1, c.depth⟩

/-- With one more expression open. -/
def opened (c : Cursor) : Cursor := ⟨c.position, c.depth + 1⟩

/-- With the innermost expression left. -/
def closed (c : Cursor) : Cursor := ⟨c.position, c.depth - 1⟩

/-- The moves of a reading at a stage: from the first cursor it comes to the answer, and leaves
the second cursor. -/
inductive Moves (ts : List Token) : Stage → Cursor → Answer → Cursor → Prop
  | number {c : Cursor} {x : Binary64} (hkind : (c.current ts).kind = .number)
      (hvalue : (c.current ts).value = some x) :
      Moves ts .operand c (.tree (.number x)) c.forward
  | noValue {c : Cursor} (hkind : (c.current ts).kind = .number)
      (hvalue : (c.current ts).value = none) :
      Moves ts .operand c (.failed ⟨c.forward.position, .numberWithoutValue (c.current ts)⟩)
        c.forward
  | noOperand {c : Cursor} (hkind : (c.current ts).kind.beginsOperand = false) :
      Moves ts .operand c (.failed ⟨c.position, .operandExpected (c.current ts).kind⟩) c
  | brackets {c c' : Cursor} {e : Expr} (hopening : (c.current ts).kind = .bracketOpen)
      (inner : Moves ts (.expression 0) c.forward (.tree e) c')
      (hclosing : (c'.current ts).kind = .bracketClose) :
      Moves ts .operand c (.tree e) c'.forward
  | unclosed {c c' : Cursor} {e : Expr} (hopening : (c.current ts).kind = .bracketOpen)
      (inner : Moves ts (.expression 0) c.forward (.tree e) c')
      (hkind : (c'.current ts).kind ≠ .bracketClose) :
      Moves ts .operand c
        (.failed ⟨c'.position, .expected .bracketClose (c'.current ts).kind⟩) c'
  | insideBrackets {c c' : Cursor} {m : Misreading} (hopening : (c.current ts).kind = .bracketOpen)
      (inner : Moves ts (.expression 0) c.forward (.failed m) c') :
      Moves ts .operand c (.failed m) c'
  | negation {c c' : Cursor} {e : Expr} (hkind : (c.current ts).kind = .minus)
      (inner : Moves ts (.expression minusPower) c.forward (.tree e) c') :
      Moves ts .operand c (.tree (.unary .neg e)) c'
  | insideNegation {c c' : Cursor} {m : Misreading} (hkind : (c.current ts).kind = .minus)
      (inner : Moves ts (.expression minusPower) c.forward (.failed m) c') :
      Moves ts .operand c (.failed m) c'
  | tooDeep {c : Cursor} {power : Int} (hdepth : maxDepth ≤ c.depth) :
      Moves ts (.expression power) c (.failed ⟨c.position, .nestingTooDeep⟩) c
  | expression {c c₁ c₂ : Cursor} {power : Int} {l : Expr} {answer : Answer}
      (hdepth : c.depth < maxDepth) (operand : Moves ts .operand c.opened (.tree l) c₁)
      (climb : Moves ts (.climb power l) c₁ answer c₂) :
      Moves ts (.expression power) c answer c₂.closed
  | atOperand {c c' : Cursor} {power : Int} {m : Misreading} (hdepth : c.depth < maxDepth)
      (operand : Moves ts .operand c.opened (.failed m) c') :
      Moves ts (.expression power) c (.failed m) c'.closed
  | stop {c : Cursor} {power : Int} {l : Expr}
      (hstop : continues power (c.current ts).kind = false) :
      Moves ts (.climb power l) c (.tree l) c
  | join {c c₁ c₂ : Cursor} {power left right : Int} {op : Operator} {l r : Expr}
      {answer : Answer} (hop : (c.current ts).kind.Between op left right) (hpower : power < left)
      (inner : Moves ts (.expression right) c.forward (.tree r) c₁)
      (climb : Moves ts (.climb power (.binary op l r)) c₁ answer c₂) :
      Moves ts (.climb power l) c answer c₂
  | atRight {c c' : Cursor} {power left right : Int} {op : Operator} {l : Expr} {m : Misreading}
      (hop : (c.current ts).kind.Between op left right) (hpower : power < left)
      (inner : Moves ts (.expression right) c.forward (.failed m) c') :
      Moves ts (.climb power l) c (.failed m) c'

/-! ## What moves keep -/

/-- From one cursor to the other only tokens are passed that do not end the expression, and as
many expressions are open. -/
structure Passes (ts : List Token) (c c' : Cursor) : Prop where
  depth_eq : c'.depth = c.depth
  position_le : c.position ≤ c'.position
  passed : ∀ p, c.position ≤ p → p < c'.position → ∃ t, ts[p]? = some t ∧ t.kind ≠ .exprEnd

namespace Passes

theorem refl (c : Cursor) : Passes ts c c where
  depth_eq := rfl
  position_le := Nat.le_refl _
  passed := by
    intro p hle hlt
    omega

theorem trans (h : Passes ts c c₁) (h' : Passes ts c₁ c₂) : Passes ts c c₂ where
  depth_eq := h'.depth_eq.trans h.depth_eq
  position_le := Nat.le_trans h.position_le h'.position_le
  passed := by
    intro p hle hlt
    by_cases hmiddle : p < c₁.position
    · exact h.passed p hle hmiddle
    · exact h'.passed p (Nat.le_of_not_lt hmiddle) hlt

/-- What is opened is left. -/
theorem inside (h : Passes ts c.opened c') : Passes ts c c'.closed where
  depth_eq := by
    rw [closed, h.depth_eq]
    rfl
  position_le := h.position_le
  passed := h.passed

/-- Within the tokens, passing stays within them. -/
theorem position_le_length (h : Passes ts c c') (hwithin : c.position ≤ ts.length) :
    c'.position ≤ ts.length := by
  rcases Nat.eq_or_lt_of_le h.position_le with heq | hlt
  · omega
  · obtain ⟨t, ht, -⟩ := h.passed (c'.position - 1) (by omega) (by omega)
    obtain ⟨hlt, -⟩ := List.getElem?_eq_some_iff.mp ht
    omega

end Passes

/-- Past the last token an end is seen, so any other token is there. -/
theorem getElem?_of_kind_ne (h : (c.current ts).kind ≠ .exprEnd) :
    ts[c.position]? = some (c.current ts) := by
  rw [current] at h ⊢
  cases hget : ts[c.position]? with
  | some t => rfl
  | none =>
      rw [hget] at h
      exact absurd rfl h

/-- A token that is no end may be taken. -/
theorem Passes.one (h : (c.current ts).kind ≠ .exprEnd) : Passes ts c c.forward where
  depth_eq := rfl
  position_le := Nat.le_succ _
  passed := by
    intro p hle hlt
    obtain rfl : p = c.position := Nat.le_antisymm (Nat.le_of_lt_succ hlt) hle
    exact ⟨_, getElem?_of_kind_ne h, h⟩

/-- **Every reading passes** only tokens that are no ends, and leaves what it opened. -/
theorem Moves.passes (h : Moves ts stage c answer c') : Passes ts c c' := by
  induction h with
  | number hkind hvalue => exact .one (by simp [hkind])
  | noValue hkind hvalue => exact .one (by simp [hkind])
  | noOperand hkind => exact .refl _
  | brackets hopening inner hclosing ih =>
      exact ((Passes.one (by simp [hopening])).trans ih).trans (.one (by simp [hclosing]))
  | unclosed hopening inner hkind ih => exact (Passes.one (by simp [hopening])).trans ih
  | insideBrackets hopening inner ih => exact (Passes.one (by simp [hopening])).trans ih
  | negation hkind inner ih => exact (Passes.one (by simp [hkind])).trans ih
  | insideNegation hkind inner ih => exact (Passes.one (by simp [hkind])).trans ih
  | tooDeep hdepth => exact .refl _
  | expression hdepth operand climb ihOperand ihClimb => exact (ihOperand.trans ihClimb).inside
  | atOperand hdepth operand ih => exact ih.inside
  | stop hstop => exact .refl _
  | join hop hpower inner climb ihInner ihClimb =>
      exact ((Passes.one hop.ne_exprEnd).trans ihInner).trans ihClimb
  | atRight hop hpower inner ih => exact (Passes.one hop.ne_exprEnd).trans ih

/-- **A misreading is placed where the cursor is left.** -/
theorem Moves.index_eq {m : Misreading} (h : Moves ts stage c answer c')
    (hanswer : answer = .failed m) : m.index = c'.position := by
  induction h with
  | number hkind hvalue => cases hanswer
  | noValue hkind hvalue =>
      cases hanswer
      rfl
  | noOperand hkind =>
      cases hanswer
      rfl
  | brackets hopening inner hclosing ih => cases hanswer
  | unclosed hopening inner hkind ih =>
      cases hanswer
      rfl
  | insideBrackets hopening inner ih => exact ih hanswer
  | negation hkind inner ih => cases hanswer
  | insideNegation hkind inner ih => exact ih hanswer
  | tooDeep hdepth =>
      cases hanswer
      rfl
  | expression hdepth operand climb ihOperand ihClimb => exact ihClimb hanswer
  | atOperand hdepth operand ih => exact ih hanswer
  | stop hstop => cases hanswer
  | join hop hpower inner climb ihInner ihClimb => exact ihClimb hanswer
  | atRight hop hpower inner ih => exact ih hanswer

/-- An operand takes a token. -/
theorem Moves.operand_lt (h : Moves ts .operand c (.tree e) c') : c.position < c'.position := by
  cases h with
  | number hkind hvalue => exact Nat.lt_succ_self _
  | brackets hopening inner hclosing => exact Nat.lt_succ_of_lt inner.passes.position_le
  | negation hkind inner => exact inner.passes.position_le

theorem Moves.expression_lt {power : Int} (h : Moves ts (.expression power) c (.tree e) c') :
    c.position < c'.position := by
  cases h with
  | expression hdepth operand climb =>
      exact Nat.lt_of_lt_of_le operand.operand_lt climb.passes.position_le

/-! ## Moves and courses -/

theorem past_cons (c : Cursor) (t : Token) (word : List Token) :
    c.past (t :: word) = c.forward.past word := by
  simp [past, forward, Nat.add_comm, Nat.add_left_comm]

theorem closed_past_opened (c : Cursor) (word : List Token) :
    (c.opened.past word).closed = c.past word := rfl

/-- The levels left inside one more expression. -/
theorem levels_eq_succ (h : c.depth < maxDepth) : c.levels = c.opened.levels + 1 := by
  simp only [levels, opened]
  omega

/-- Where a level is left, an expression may be opened. -/
theorem opened_levels {n : Nat} (h : c.levels = n + 1) :
    c.depth < maxDepth ∧ c.opened.levels = n := by
  simp only [levels, opened] at h ⊢
  omega

/-- A token that is no end is the first of those that remain. -/
theorem remaining_eq_cons (h : (c.current ts).kind ≠ .exprEnd) :
    c.remaining ts = c.current ts :: c.forward.remaining ts := by
  obtain ⟨hlt, hget⟩ := List.getElem?_eq_some_iff.mp (getElem?_of_kind_ne h)
  rw [remaining, List.drop_eq_getElem_cons hlt, hget]
  rfl

/-- The first of the tokens that remain is the one at the cursor. -/
theorem current_of_remaining {t : Token} {rest : List Token} (h : c.remaining ts = t :: rest) :
    c.current ts = t ∧ c.forward.remaining ts = rest := by
  have hget : ts[c.position]? = some t := by
    rw [← List.head?_drop]
    exact congrArg List.head? h
  refine ⟨by rw [current, hget], ?_⟩
  have hsplit : c.remaining ts = [t] ++ rest := h
  exact remaining_past hsplit

/-- A tree that is read behind the token at the cursor. -/
theorem exists_word_of_tree (hkind : (c.current ts).kind ≠ .exprEnd)
    (h : c.forward.readAt ts stage = (.tree e, c')) :
    ∃ word rest, c.remaining ts = c.current ts :: word ++ rest ∧
      Reads c.levels stage word e rest ∧ c' = c.past (c.current ts :: word) := by
  obtain ⟨word, rest, hsplit, hr, rfl⟩ := readAt_eq_tree_iff.mp h
  refine ⟨word, rest, ?_, hr, (past_cons _ _ _).symm⟩
  rw [remaining_eq_cons hkind, hsplit, List.cons_append]

/-- A misreading behind the token at the cursor. -/
theorem exists_word_of_failed {m : Misreading} (hkind : (c.current ts).kind ≠ .exprEnd)
    (h : c.forward.readAt ts stage = (.failed m, c')) :
    ∃ word rest, c.remaining ts = c.current ts :: word ++ rest ∧
      Fails c.levels stage word m.cause rest ∧ c' = c.past (c.current ts :: word) ∧
      m.index = c'.position := by
  obtain ⟨word, rest, hsplit, hf, rfl, hindex⟩ := readAt_eq_failed_iff.mp h
  refine ⟨word, rest, ?_, hf, (past_cons _ _ _).symm, hindex⟩
  rw [remaining_eq_cons hkind, hsplit, List.cons_append]

/-- A reading answers with a tree or a misreading. -/
theorem readAt_cases (h : c.readAt ts stage = (answer, c')) :
    (∃ e, answer = .tree e) ∨ ∃ m, answer = .failed m := by
  rw [readAt, settle] at h
  split at h
  · cases h
    exact .inl ⟨_, rfl⟩
  · cases h
    exact .inr ⟨_, rfl⟩

/-- What is answered behind a word, by the course that goes on from there. -/
theorem exists_more_of_readAt {word rest : List Token} (hsplit : c.remaining ts = word ++ rest)
    (h : (c.past word).readAt ts stage = (answer, c')) :
    ∃ more rest', rest = more ++ rest' ∧ c.remaining ts = (word ++ more) ++ rest' ∧
      c' = c.past (word ++ more) ∧
      ((∃ e, answer = .tree e ∧ Reads c.levels stage more e rest') ∨
        ∃ m, answer = .failed m ∧ Fails c.levels stage more m.cause rest' ∧
          m.index = c'.position) := by
  have hrest := remaining_past hsplit
  rcases readAt_cases h with ⟨e, rfl⟩ | ⟨m, rfl⟩
  · obtain ⟨more, rest', hmore, hr, rfl⟩ := readAt_eq_tree_iff.mp h
    obtain rfl := hrest.symm.trans hmore
    rw [← past_append]
    rw [← List.append_assoc] at hsplit
    exact ⟨more, rest', rfl, hsplit, rfl, .inl ⟨e, rfl, hr⟩⟩
  · obtain ⟨more, rest', hmore, hf, rfl, hindex⟩ := readAt_eq_failed_iff.mp h
    obtain rfl := hrest.symm.trans hmore
    rw [← past_append] at hindex ⊢
    rw [← List.append_assoc] at hsplit
    exact ⟨more, rest', rfl, hsplit, rfl, .inr ⟨m, rfl, hf, hindex⟩⟩

/-- **Moves come to what the cursor answers.** -/
theorem Moves.readAt_eq (h : Moves ts stage c answer c') : c.readAt ts stage = (answer, c') := by
  induction h with
  | @number c x hkind hvalue =>
      have hcons : c.remaining ts = _ := remaining_eq_cons (by simp [hkind])
      exact readAt_eq_tree_iff.mpr ⟨[_], _, hcons, .number hkind hvalue, rfl⟩
  | @noValue c hkind hvalue =>
      have hcons : c.remaining ts = _ := remaining_eq_cons (by simp [hkind])
      exact readAt_eq_failed_iff.mpr ⟨[_], _, hcons, .noValue hkind hvalue, rfl, rfl⟩
  | @noOperand c hkind =>
      rw [kind_current] at hkind ⊢
      exact readAt_eq_failed_iff.mpr ⟨[], _, rfl, .noOperand hkind, rfl, rfl⟩
  | @brackets c c' e hopening inner hclosing ih =>
      have hcons : c'.remaining ts = _ := remaining_eq_cons (by simp [hclosing])
      obtain ⟨word, rest, hsplit, hr, rfl⟩ := exists_word_of_tree (by simp [hopening]) ih
      obtain rfl := (remaining_past hsplit).symm.trans hcons
      refine readAt_eq_tree_iff.mpr ⟨_ :: (word ++ [_]), _, ?_, .brackets hopening hclosing hr, ?_⟩
      · rw [hsplit]
        simp
      · rw [← List.cons_append, past_append]
        rfl
  | @unclosed c c' e hopening inner hkind ih =>
      obtain ⟨word, rest, hsplit, hr, rfl⟩ := exists_word_of_tree (by simp [hopening]) ih
      rw [kind_current, remaining_past hsplit] at hkind ⊢
      exact readAt_eq_failed_iff.mpr ⟨_, rest, hsplit, .unclosed hopening hr hkind, rfl, rfl⟩
  | @insideBrackets c c' m hopening inner ih =>
      obtain ⟨word, rest, hsplit, hf, rfl, hindex⟩ := exists_word_of_failed (by simp [hopening]) ih
      exact readAt_eq_failed_iff.mpr ⟨_, rest, hsplit, .insideBrackets hopening hf, rfl, hindex⟩
  | @negation c c' e hkind inner ih =>
      obtain ⟨word, rest, hsplit, hr, rfl⟩ := exists_word_of_tree (by simp [hkind]) ih
      exact readAt_eq_tree_iff.mpr ⟨_, rest, hsplit, .negation hkind hr, rfl⟩
  | @insideNegation c c' m hkind inner ih =>
      obtain ⟨word, rest, hsplit, hf, rfl, hindex⟩ := exists_word_of_failed (by simp [hkind]) ih
      exact readAt_eq_failed_iff.mpr ⟨_, rest, hsplit, .insideNegation hkind hf, rfl, hindex⟩
  | @tooDeep c power hdepth =>
      have hlevels : c.levels = 0 := Nat.sub_eq_zero_of_le hdepth
      exact readAt_eq_failed_iff.mpr ⟨[], _, rfl, hlevels ▸ .tooDeep, rfl, rfl⟩
  | @expression c c₁ c₂ power l answer hdepth operand climb ihOperand ihClimb =>
      obtain ⟨first, rest, hfirst, hr, rfl⟩ := readAt_eq_tree_iff.mp ihOperand
      have hlevels := levels_eq_succ hdepth
      -- What climbing comes to is what the expression comes to.
      obtain ⟨more, rest', rfl, hword, rfl, ⟨e, rfl, hclimb⟩ | ⟨m, rfl, hclimb, hindex⟩⟩ :=
        exists_more_of_readAt hfirst ihClimb
      · exact readAt_eq_tree_iff.mpr ⟨_, rest', hword, hlevels ▸ .expression hr hclimb, rfl⟩
      · exact readAt_eq_failed_iff.mpr
          ⟨_, rest', hword, hlevels ▸ .behindOperand hr hclimb, rfl, hindex⟩
  | @atOperand c c' power m hdepth operand ih =>
      obtain ⟨word, rest, hsplit, hf, rfl, hindex⟩ := readAt_eq_failed_iff.mp ih
      have hlevels := levels_eq_succ hdepth
      exact readAt_eq_failed_iff.mpr ⟨word, rest, hsplit, hlevels ▸ .atOperand hf, rfl, hindex⟩
  | @stop c power l hstop =>
      rw [kind_current] at hstop
      exact readAt_eq_tree_iff.mpr ⟨[], _, rfl, .stop hstop, rfl⟩
  | @join c c₁ c₂ power left right op l r answer hop hpower inner climb ihInner ihClimb =>
      obtain ⟨word, rest, hword, hr, rfl⟩ := exists_word_of_tree hop.ne_exprEnd ihInner
      obtain ⟨more, rest', rfl, hmore, rfl, ⟨e, rfl, hclimb⟩ | ⟨m, rfl, hclimb, hindex⟩⟩ :=
        exists_more_of_readAt hword ihClimb
      · exact readAt_eq_tree_iff.mpr ⟨_, rest', hmore, .join hop hpower hr hclimb, rfl⟩
      · exact readAt_eq_failed_iff.mpr
          ⟨_, rest', hmore, .behindRight hop hpower hr hclimb, rfl, hindex⟩
  | @atRight c c' power left right op l m hop hpower inner ih =>
      obtain ⟨word, rest, hsplit, hf, rfl, hindex⟩ := exists_word_of_failed hop.ne_exprEnd ih
      exact readAt_eq_failed_iff.mpr ⟨_, rest, hsplit, .atRight hop hpower hf, rfl, hindex⟩

/-- **A course that ends in a tree** goes by moves. -/
theorem moves_of_reads {n : Nat} {word rest : List Token} (h : Reads n stage word e rest)
    (hlevels : c.levels = n) (hsplit : c.remaining ts = word ++ rest) :
    Moves ts stage c (.tree e) (c.past word) := by
  induction h generalizing c with
  | number hkind hvalue =>
      obtain ⟨rfl, -⟩ := current_of_remaining hsplit
      exact .number hkind hvalue
  | brackets hopening hclosing inner ih =>
      rw [List.cons_append, List.append_assoc] at hsplit
      obtain ⟨rfl, hforward⟩ := current_of_remaining hsplit
      obtain ⟨rfl, -⟩ := current_of_remaining (remaining_past hforward)
      rw [past_cons, past_append]
      exact .brackets hopening (ih hlevels hforward) hclosing
  | negation hkind inner ih =>
      obtain ⟨rfl, hforward⟩ := current_of_remaining hsplit
      rw [past_cons]
      exact .negation hkind (ih hlevels hforward)
  | expression operand climb ihOperand ihClimb =>
      obtain ⟨hdepth, hopened⟩ := opened_levels hlevels
      rw [List.append_assoc] at hsplit
      rw [← closed_past_opened, past_append]
      exact .expression hdepth (ihOperand hopened hsplit) (ihClimb hopened (remaining_past hsplit))
  | stop hstop =>
      refine .stop ?_
      rwa [kind_current, hsplit]
  | join hop hpower inner climb ihInner ihClimb =>
      rw [List.cons_append, List.append_assoc] at hsplit
      obtain ⟨rfl, hforward⟩ := current_of_remaining hsplit
      rw [past_cons, past_append]
      exact .join hop hpower (ihInner hlevels hforward) (ihClimb hlevels (remaining_past hforward))

/-- **A course that ends in a cause** goes by moves, and the cause is reported where they end. -/
theorem moves_of_fails {n : Nat} {word rest : List Token} {cause : ParseError}
    (h : Fails n stage word cause rest) (hlevels : c.levels = n)
    (hsplit : c.remaining ts = word ++ rest) :
    Moves ts stage c (.failed ⟨(c.past word).position, cause⟩) (c.past word) := by
  induction h generalizing c with
  | noOperand hkind =>
      obtain rfl := hsplit
      rw [← kind_current] at hkind ⊢
      exact .noOperand hkind
  | noValue hkind hvalue =>
      obtain ⟨rfl, -⟩ := current_of_remaining hsplit
      exact .noValue hkind hvalue
  | insideBrackets hopening inner ih =>
      obtain ⟨rfl, hforward⟩ := current_of_remaining hsplit
      rw [past_cons]
      exact .insideBrackets hopening (ih hlevels hforward)
  | unclosed hopening inner hkind =>
      obtain ⟨rfl, hforward⟩ := current_of_remaining hsplit
      rw [← remaining_past hforward, ← kind_current] at hkind ⊢
      rw [past_cons]
      exact .unclosed hopening (moves_of_reads inner hlevels hforward) hkind
  | insideNegation hkind inner ih =>
      obtain ⟨rfl, hforward⟩ := current_of_remaining hsplit
      rw [past_cons]
      exact .insideNegation hkind (ih hlevels hforward)
  | tooDeep => exact .tooDeep (Nat.le_of_sub_eq_zero hlevels)
  | atOperand operand ih =>
      obtain ⟨hdepth, hopened⟩ := opened_levels hlevels
      rw [← closed_past_opened]
      exact .atOperand hdepth (ih hopened hsplit)
  | behindOperand operand climb ih =>
      obtain ⟨hdepth, hopened⟩ := opened_levels hlevels
      rw [List.append_assoc] at hsplit
      rw [← closed_past_opened, past_append]
      exact .expression hdepth (moves_of_reads operand hopened hsplit)
        (ih hopened (remaining_past hsplit))
  | atRight hop hpower inner ih =>
      obtain ⟨rfl, hforward⟩ := current_of_remaining hsplit
      rw [past_cons]
      exact .atRight hop hpower (ih hlevels hforward)
  | behindRight hop hpower inner climb ih =>
      rw [List.cons_append, List.append_assoc] at hsplit
      obtain ⟨rfl, hforward⟩ := current_of_remaining hsplit
      rw [past_cons, past_append]
      exact .join hop hpower (moves_of_reads inner hlevels hforward)
        (ih hlevels (remaining_past hforward))

/-- **A cursor reads by these moves** and no others. -/
theorem moves_iff : Moves ts stage c answer c' ↔ c.readAt ts stage = (answer, c') := by
  constructor
  · exact Moves.readAt_eq
  · intro h
    rcases readAt_cases h with ⟨e, rfl⟩ | ⟨m, rfl⟩
    · obtain ⟨word, rest, hsplit, hr, rfl⟩ := readAt_eq_tree_iff.mp h
      exact moves_of_reads hr rfl hsplit
    · obtain ⟨word, rest, hsplit, hf, rfl, hindex⟩ := readAt_eq_failed_iff.mp h
      obtain ⟨index, cause⟩ := m
      obtain rfl : index = (c.past word).position := hindex
      exact moves_of_fails hf rfl hsplit

end Cursor

end Abacus
