import Abacus.Expr.Cursor
import Abacus.Proofs.Lookahead

/-!
# Reading without a limit

The levels only bound how many expressions are open at once.  `unlimited` reads without
them: it is the one way to read in which every expression inside another is read in the same
way (`isUnlimited_iff`).  A level for each token and one more is as good as no limit, since
each level that is used up has taken a token (`Fails.levels_le`).

The key local fact is `expression_eq_unlimited`: a reading that does not run out of levels
comes to the same without a limit.  `Opens` tells which expressions the unlimited reading
asks for while it is at one, and `OpenAtOnce` how many of them are open inside each other.
The levels run out exactly where there are more of these than levels
(`tooDeep_iff_openAtOnce`).
-/

namespace Abacus

namespace Parser

variable {n m : Nat} {stage : Stage} {power power' : Int} {ts us word rest : List Token}
  {l e : Expr} {cause : ParseError} {inner inner' reading : Reading}

/-- The reading has run out of levels. -/
def TooDeep {α : Type} (s : Step α) : Prop := s.outcome = .error .nestingTooDeep

theorem TooDeep.after {α : Type} {s : Step α} (h : TooDeep s) (n : Nat) : TooDeep (s.after n) := h

/-- A reading that has run out of levels does not go on. -/
theorem TooDeep.next {α β : Type} {s : Step α} (h : TooDeep s) (ts : List Token)
    (f : α → List Token → Step β) : TooDeep (s.next ts f) := by
  rw [TooDeep, Step.next_of_error h]
  rfl

/-! ## Enough levels -/

/-- The levels that a stage uses up by itself. -/
def Stage.ownLevels : Stage → Nat
  | .operand => 0
  | .expression _ => 1
  | .climb _ _ => 0

/-- **Each level that is used up** has taken a token. -/
theorem Fails.levels_le (h : Fails n stage word cause rest) (hcause : cause = .nestingTooDeep) :
    n + 1 ≤ word.length + stage.ownLevels := by
  induction h with
  | noOperand hkind => cases hcause
  | noValue hkind hvalue => cases hcause
  | insideBrackets hopening inner ih => simpa [Stage.ownLevels] using ih hcause
  | unclosed hopening inner hkind => cases hcause
  | insideNegation hkind inner ih => simpa [Stage.ownLevels] using ih hcause
  | tooDeep => exact Nat.le_refl _
  | atOperand operand ih => simpa [Stage.ownLevels] using ih hcause
  | behindOperand operand climb ih =>
      have hclimb := ih hcause
      simp only [Stage.ownLevels, List.length_append] at hclimb ⊢
      omega
  | atRight hop hpower inner ih => simpa [Stage.ownLevels] using ih hcause
  | behindRight hop hpower inner climb ih =>
      have hclimb := ih hcause
      simp only [Stage.ownLevels, List.length_cons, List.length_append] at hclimb ⊢
      omega

theorem exists_fails_of_tooDeep (h : TooDeep (expression n power ts)) :
    ∃ word rest, ts = word ++ rest ∧ Fails n (.expression power) word .nestingTooDeep rest := by
  rcases reads_or_fails n power ts with ⟨word, e, rest, rfl, hr⟩ | ⟨word, cause, rest, rfl, hf⟩
  · have heq : expression n power (word ++ rest) = .ok word.length e := hr.read_eq
    rw [TooDeep, heq] at h
    cases h
  · have heq : expression n power (word ++ rest) = .fail word.length cause := hf.read_eq
    rw [TooDeep, heq] at h
    obtain rfl : cause = .nestingTooDeep := Except.error.inj h
    exact ⟨word, rest, rfl, hf⟩

/-- With more levels than tokens, a reading does not run out of them. -/
theorem not_tooDeep_of_length_lt (h : ts.length < n) : ¬ TooDeep (expression n power ts) := by
  intro hdeep
  obtain ⟨word, rest, rfl, hf⟩ := exists_fails_of_tooDeep hdeep
  have hle : n + 1 ≤ word.length + 1 := hf.levels_le rfl
  rw [List.length_append] at h
  omega

/-- What has a course that does not run out of levels is read the same with more of them. -/
theorem HasCourse.read_eq (h : HasCourse n stage ts) (hdeep : ¬ TooDeep (read n stage ts))
    (hle : n ≤ m) : read m stage ts = read n stage ts := by
  rcases h with ⟨word, e, rest, rfl, hr⟩ | ⟨word, cause, rest, rfl, hf⟩
  · exact (hr.mono hle).read_eq.trans hr.read_eq.symm
  · have hcause : cause ≠ .nestingTooDeep := by
      rintro rfl
      exact hdeep (congrArg Step.outcome hf.read_eq)
    exact (hf.mono hcause hle).read_eq.trans hf.read_eq.symm

/-- **More levels change nothing** but a reading that runs out of them. -/
theorem expression_eq_of_le (h : ¬ TooDeep (expression n power ts)) (hle : n ≤ m) :
    expression m power ts = expression n power ts :=
  (reads_or_fails n power ts).read_eq h hle

/-! ## The unlimited reading -/

/-- A way to read expressions in which those inside are read in the same way, and no levels
are counted. -/
def IsUnlimited (reading : Reading) : Prop :=
  ∀ power ts, reading power ts = (operand reading ts).next ts (climb reading power)

/-- Reads with a level for each token, and one more. -/
def unlimited : Reading := fun power ts => expression (ts.length + 1) power ts

/-- **A reading that does not run out of levels** comes to the same without a limit. -/
theorem expression_eq_unlimited (h : ¬ TooDeep (expression n power ts)) :
    expression n power ts = unlimited power ts := by
  rcases Nat.le_total n (ts.length + 1) with hle | hle
  · exact (expression_eq_of_le h hle).symm
  · exact expression_eq_of_le (not_tooDeep_of_length_lt (Nat.lt_succ_self _)) hle

/-- Reading an operand asks only for expressions in the tokens behind the first one. -/
theorem operand_congr (h : ∀ power us, us.length < ts.length → inner power us = inner' power us) :
    operand inner ts = operand inner' ts := by
  cases ts with
  | nil => rfl
  | cons t ts => simp only [operand, h 0 ts (by simp), h minusPower ts (by simp)]

/-- Climbing asks only for expressions in the tokens behind the first one. -/
theorem climb_congr (h : ∀ power us, us.length < ts.length → inner power us = inner' power us) :
    climb inner power l ts = climb inner' power l ts := by
  induction hlength : ts.length using Nat.strongRecOn generalizing l ts with
  | ind length ih =>
      cases hgoes : continues power (nextKind ts) with
      | false => rw [climb_of_stop hgoes, climb_of_stop hgoes]
      | true =>
          cases ts with
          | nil => cases hgoes
          | cons t ts =>
              obtain ⟨op, left, right, hop, hpower⟩ := continues_iff.mp hgoes
              rw [climb_of_operator hop hpower, climb_of_operator hop hpower,
                h right ts (by simp)]
              cases hright : (inner' right ts).outcome with
              | error cause => rw [Step.next_of_error hright, Step.next_of_error hright]
              | ok r =>
                  rw [Step.next_of_ok hright, Step.next_of_ok hright]
                  have hshorter : (ts.drop (inner' right ts).used).length < length := by
                    simp only [← hlength, List.length_cons, List.length_drop]
                    omega
                  rw [ih _ hshorter (fun power us hus => h power us (by omega)) rfl]

/-- Reading an expression asks only for shorter ones. -/
theorem operand_next_climb_congr
    (h : ∀ power us, us.length < ts.length → inner power us = inner' power us) :
    (operand inner ts).next ts (climb inner power) =
      (operand inner' ts).next ts (climb inner' power) := by
  rw [operand_congr h]
  cases hoperand : (operand inner' ts).outcome with
  | error cause => rw [Step.next_of_error hoperand, Step.next_of_error hoperand]
  | ok l =>
      rw [Step.next_of_ok hoperand, Step.next_of_ok hoperand]
      have hle : (ts.drop (operand inner' ts).used).length ≤ ts.length := by
        rw [List.length_drop]
        omega
      rw [climb_congr fun power us hus => h power us (by omega)]

theorem isUnlimited_unlimited : IsUnlimited unlimited := by
  intro power ts
  rw [unlimited, expression]
  refine operand_next_climb_congr fun power us hus => ?_
  exact expression_eq_unlimited (not_tooDeep_of_length_lt hus)

/-- **There is one way to read without a limit.** -/
theorem isUnlimited_iff : IsUnlimited reading ↔ reading = unlimited := by
  constructor
  · intro h
    funext power ts
    induction hlength : ts.length using Nat.strongRecOn generalizing power ts with
    | ind length ih =>
        rw [h, isUnlimited_unlimited]
        refine operand_next_climb_congr fun power us hus => ?_
        exact ih us.length (by omega) power us rfl
  · rintro rfl
    exact isUnlimited_unlimited

/-- What is read at a stage without a limit. -/
def readUnlimited : Stage → List Token → Step Expr
  | .operand => operand unlimited
  | .expression power => unlimited power
  | .climb power left => climb unlimited power left

theorem read_eq_readUnlimited (h : ts.length < n) : read n stage ts = readUnlimited stage ts := by
  have hinner : ∀ power us, us.length < ts.length → expression n power us = unlimited power us :=
    fun power us hus => expression_eq_unlimited (not_tooDeep_of_length_lt (by omega))
  cases stage with
  | operand => exact operand_congr hinner
  | expression power => exact expression_eq_unlimited (not_tooDeep_of_length_lt h)
  | climb power left => exact climb_congr hinner

/-- What has a course that does not run out of levels is read the same without a limit. -/
theorem HasCourse.read_eq_readUnlimited (h : HasCourse n stage ts)
    (hdeep : ¬ TooDeep (read n stage ts)) : read n stage ts = readUnlimited stage ts := by
  have hmore : read (max n (ts.length + 1)) stage ts = read n stage ts :=
    h.read_eq hdeep (Nat.le_max_left _ _)
  rw [← hmore]
  exact Parser.read_eq_readUnlimited (by omega)

theorem Reads.readUnlimited_eq (h : Reads n stage word e rest) :
    readUnlimited stage (word ++ rest) = .ok word.length e := by
  have heq := (h.mono (Nat.le_max_left n ((word ++ rest).length + 1))).read_eq
  rwa [read_eq_readUnlimited (by omega)] at heq

/-! ## Expressions inside each other -/

/-- While reading is at a stage, in front of some tokens, it asks for an expression that
begins with others of them.  Only what it asks for itself counts, and not what is asked for
inside of that. -/
inductive Opens : Stage → List Token → Int → List Token → Prop
  | inBrackets {opening : Token} {ts : List Token} (hopening : opening.kind = .bracketOpen) :
      Opens .operand (opening :: ts) 0 ts
  | behindMinus {t : Token} {ts : List Token} (hkind : t.kind = .minus) :
      Opens .operand (t :: ts) minusPower ts
  | atOperand {power power' : Int} {ts us : List Token} (h : Opens .operand ts power' us) :
      Opens (.expression power) ts power' us
  | behindOperand {power power' : Int} {ts us : List Token} {used : Nat} {l : Expr}
      (hoperand : operand unlimited ts = .ok used l)
      (h : Opens (.climb power l) (ts.drop used) power' us) : Opens (.expression power) ts power' us
  | atRight {power left right : Int} {op : Operator} {t : Token} {ts : List Token} {l : Expr}
      (hop : t.kind.Between op left right) (hpower : power < left) :
      Opens (.climb power l) (t :: ts) right ts
  | behindRight {power left right power' : Int} {op : Operator} {t : Token} {ts us : List Token}
      {used : Nat} {l r : Expr} (hop : t.kind.Between op left right) (hpower : power < left)
      (hright : unlimited right ts = .ok used r)
      (h : Opens (.climb power (.binary op l r)) (ts.drop used) power' us) :
      Opens (.climb power l) (t :: ts) power' us

/-- On the way of reading an expression without a limit, so many are open inside each other,
with its own. -/
inductive OpenAtOnce : Int → List Token → Nat → Prop
  | own {power : Int} {ts : List Token} : OpenAtOnce power ts 1
  | inside {power power' : Int} {ts us : List Token} {n : Nat}
      (h : Opens (.expression power) ts power' us) (inner : OpenAtOnce power' us n) :
      OpenAtOnce power ts (n + 1)

/-- **Levels run out at an expression that is opened.** -/
theorem Fails.opens (h : Fails m stage word cause rest) (hcause : cause = .nestingTooDeep)
    (hm : m = n + stage.ownLevels) :
    ∃ power us, Opens stage (word ++ rest) power us ∧ TooDeep (Parser.expression n power us) := by
  induction h with
  | noOperand hkind => cases hcause
  | noValue hkind hvalue => cases hcause
  | insideBrackets hopening inner ih =>
      subst hm hcause
      exact ⟨0, _, .inBrackets hopening, congrArg Step.outcome inner.read_eq⟩
  | unclosed hopening inner hkind => cases hcause
  | insideNegation hkind inner ih =>
      subst hm hcause
      exact ⟨minusPower, _, .behindMinus hkind, congrArg Step.outcome inner.read_eq⟩
  | tooDeep => cases hm
  | atOperand operand ih =>
      obtain ⟨power, us, hopens, hdeep⟩ := ih hcause (Nat.succ.inj hm)
      exact ⟨power, us, .atOperand hopens, hdeep⟩
  | behindOperand operand climb ih =>
      obtain ⟨power, us, hopens, hdeep⟩ := ih hcause (Nat.succ.inj hm)
      refine ⟨power, us, ?_, hdeep⟩
      rw [List.append_assoc]
      refine .behindOperand operand.readUnlimited_eq ?_
      rwa [List.drop_left]
  | atRight hop hpower inner ih =>
      subst hm hcause
      exact ⟨_, _, .atRight hop hpower, congrArg Step.outcome inner.read_eq⟩
  | behindRight hop hpower inner climb ih =>
      obtain ⟨power, us, hopens, hdeep⟩ := ih hcause hm
      refine ⟨power, us, ?_, hdeep⟩
      rw [List.cons_append, List.append_assoc]
      refine .behindRight hop hpower inner.readUnlimited_eq ?_
      rwa [List.drop_left]

/-- An expression that runs out of levels takes with it what has opened it. -/
theorem Opens.tooDeep (h : Opens stage ts power us) (hdeep : TooDeep (expression n power us)) :
    TooDeep (read (n + stage.ownLevels) stage ts) := by
  induction h with
  | inBrackets hopening =>
      rw [read, operand_of_bracket hopening]
      exact (hdeep.next _ _).after 1
  | behindMinus hkind =>
      rw [read, operand_of_minus hkind]
      exact (hdeep.next _ _).after 1
  | atOperand h ih =>
      rw [read, Stage.ownLevels, expression]
      exact TooDeep.next (ih hdeep) _ _
  | @behindOperand power power' ts us used l hoperand h ih =>
      rw [read, Stage.ownLevels, expression]
      -- If the levels do not run out in the operand, it is read as without a limit.
      by_cases hfirst : TooDeep (operand (expression n) ts)
      · exact hfirst.next _ _
      · have hcourse : HasCourse n .operand ts := hasCourse_operand (reads_or_fails n) ts
        have heq : operand (expression n) ts = .ok used l :=
          (hcourse.read_eq_readUnlimited hfirst).trans hoperand
        rw [heq, Step.ok_next]
        exact TooDeep.after (ih hdeep) used
  | atRight hop hpower =>
      rw [read, climb_of_operator hop hpower]
      exact (hdeep.next _ _).after 1
  | @behindRight power left right power' op t ts us used l r hop hpower hright h ih =>
      rw [read, Stage.ownLevels, Nat.add_zero, climb_of_operator hop hpower]
      by_cases hfirst : TooDeep (expression n right ts)
      · exact (hfirst.next _ _).after 1
      · rw [expression_eq_unlimited hfirst, hright, Step.ok_next]
        exact (TooDeep.after (ih hdeep) used).after 1

/-- **The levels run out** exactly where more expressions are open at once. -/
theorem tooDeep_iff_openAtOnce : TooDeep (expression n power ts) ↔ OpenAtOnce power ts (n + 1) := by
  -- Every level is used up by one of the expressions that are open.
  induction n generalizing power ts with
  | zero => exact ⟨fun _ => .own, fun _ => rfl⟩
  | succ n ih =>
      constructor
      · intro hdeep
        obtain ⟨word, rest, rfl, hf⟩ := exists_fails_of_tooDeep hdeep
        obtain ⟨power', us, hopens, hinner⟩ := hf.opens rfl rfl
        exact .inside hopens (ih.mp hinner)
      · intro h
        cases h with
        | inside hopens inner => exact hopens.tooDeep (ih.mpr inner)

/-! ## Cursors and whole lists -/

/-- What a cursor answers is too much nesting exactly if the levels run out. -/
theorem tooDeep_iff_answer {position depth : Nat} :
    TooDeep (expression (maxDepth - depth) power (ts.drop position)) ↔
      ∃ index, (Cursor.perform ts ⟨position, depth⟩ (.readExpression power)).1 =
        .failed ⟨index, .nestingTooDeep⟩ := by
  simp only [TooDeep, Cursor.perform, Cursor.inner, Cursor.levels, Cursor.remaining, Cursor.settle]
  cases (expression (maxDepth - depth) power (ts.drop position)).outcome <;> simp

/-- A cursor with fewer open expressions around it answers the same and ends at the same
place. -/
theorem perform_eq_of_le {position depth depth' : Nat} (hle : depth' ≤ depth) :
    let run (d : Nat) := Cursor.perform ts ⟨position, d⟩ (.readExpression power)
    (∀ index, (run depth).1 ≠ .failed ⟨index, .nestingTooDeep⟩) →
      (run depth').1 = (run depth).1 ∧ (run depth').2.position = (run depth).2.position := by
  intro run hanswer
  have hdeep : ¬ TooDeep (expression (maxDepth - depth) power (ts.drop position)) := by
    rw [tooDeep_iff_answer]
    exact not_exists.mpr hanswer
  have hlevels : maxDepth - depth ≤ maxDepth - depth' := by omega
  simp only [run, Cursor.perform, Cursor.inner, Cursor.levels, Cursor.remaining, Cursor.settle,
    expression_eq_of_le hdeep hlevels]
  cases (expression (maxDepth - depth) power (ts.drop position)).outcome <;> exact ⟨rfl, rfl⟩

/-- Reads all tokens up to the end of the expression, in the given way to read expressions. -/
def parseWith (reading : Reading) (ts : List Token) : Except Misreading Expr :=
  let step := reading 0 ts
  match step.outcome with
  | .error cause => .error ⟨step.used, cause⟩
  | .ok e =>
    match nextKind (ts.drop step.used) with
    | .exprEnd => .ok e
    | kind => .error ⟨step.used, .trailing kind⟩

theorem parse_eq_parseWith (ts : List Token) : parse ts = parseWith (expression maxDepth) ts := rfl

theorem tooDeep_iff_parse :
    TooDeep (expression maxDepth 0 ts) ↔ ∃ index, parse ts = .error ⟨index, .nestingTooDeep⟩ := by
  constructor
  · intro hdeep
    obtain ⟨word, rest, rfl, hf⟩ := exists_fails_of_tooDeep hdeep
    exact ⟨word.length, parse_of_fails hf⟩
  · rintro ⟨index, hparse⟩
    obtain ⟨word, rest, rfl, -, hf | ⟨e, -, -, hcause⟩⟩ := parse_eq_error_iff.mp hparse
    · exact congrArg Step.outcome hf.read_eq
    · cases hcause

/-- Tokens are read as without a limit if the levels do not run out. -/
theorem parse_eq_unlimited (h : ¬ TooDeep (expression maxDepth 0 ts)) :
    parse ts = parseWith unlimited ts := by
  simp only [parse_eq_parseWith, parseWith, expression_eq_unlimited h]

/-- There are enough levels exactly if no more expressions are open at once. -/
theorem forall_openAtOnce_le_iff :
    (∀ m, OpenAtOnce power ts m → m ≤ n) ↔ ¬ TooDeep (expression n power ts) := by
  constructor
  · intro hmost hdeep
    have hle : n + 1 ≤ n := hmost _ (tooDeep_iff_openAtOnce.mp hdeep)
    omega
  · intro hdeep m hm
    cases m with
    | zero => exact Nat.zero_le n
    | succ m =>
        rw [← tooDeep_iff_openAtOnce] at hm
        refine Nat.lt_of_not_le fun hle => ?_
        rw [expression_eq_of_le hdeep hle] at hm
        exact hdeep hm

end Parser

open Abacus.Parser in
/-- **The limit is transparent.**  Where a reading does not run out of levels, at whatever
place among the tokens and with whatever power, fewer open expressions around it change
nothing, and all tokens are read as they are without a limit.  There is one way to read
without a limit, and it has more expressions open at once than there are levels exactly if
these run out. -/
theorem limit_transparent :
    (∀ (ts : List Token) (position : Nat) (power : Int) (depth depth' : Nat), depth' ≤ depth →
      let run (d : Nat) := Cursor.perform ts ⟨position, d⟩ (.readExpression power)
      (∀ index, (run depth).1 ≠ .failed ⟨index, .nestingTooDeep⟩) →
        (run depth').1 = (run depth).1 ∧ (run depth').2.position = (run depth).2.position) ∧
      (∀ reading, IsUnlimited reading ↔ reading = unlimited) ∧
      ∀ ts, ((∀ index, parse ts ≠ .error ⟨index, .nestingTooDeep⟩) →
          parse ts = parseWith unlimited ts) ∧
        ((∀ n, OpenAtOnce 0 ts n → n ≤ maxDepth) ↔
          ∀ index, parse ts ≠ .error ⟨index, .nestingTooDeep⟩) := by
  refine ⟨fun ts position power depth depth' => perform_eq_of_le, fun reading => isUnlimited_iff,
    fun ts => ⟨fun hparse => ?_, ?_⟩⟩
  · refine parse_eq_unlimited ?_
    rw [tooDeep_iff_parse]
    exact not_exists.mpr hparse
  · rw [forall_openAtOnce_le_iff, tooDeep_iff_parse, not_exists]

/-- In `-0)` two expressions are open at once, so two levels are enough for it, and with them
the bracket stays unread. -/
theorem limit_transparent_minus :
    let ts : List Token := [⟨.minus, "-", none, 0⟩, ⟨.number, "0", some (.zero false), 1⟩,
      ⟨.bracketClose, ")", none, 2⟩]
    let run (depth : Nat) := Cursor.perform ts ⟨0, depth⟩ (.readExpression 0)
    let e := Expr.unary .neg (.number (.zero false))
    run 254 = (.tree e, ⟨2, 254⟩) ∧ (run 7).1 = .tree e ∧ (run 7).2.position = 2 ∧
      parse ts = .error ⟨2, .trailing .bracketClose⟩ ∧
      parse ts = Parser.parseWith Parser.unlimited ts ∧
      ∀ n, Parser.OpenAtOnce 0 ts n → n ≤ maxDepth := by
  intro ts run e
  have hrun : run 254 = (.tree e, ⟨2, 254⟩) := by
    change Cursor.perform ts ⟨0, 254⟩ (.readExpression 0) = (.tree e, ⟨2, 254⟩)
    cbv
  have hparse : parse ts = .error ⟨2, .trailing .bracketClose⟩ := by cbv
  have hdeep : ∀ index, parse ts ≠ .error ⟨index, .nestingTooDeep⟩ := by simp [hparse]
  obtain ⟨hless, -, hwhole⟩ := limit_transparent
  have hanswer : ∀ index, (run 254).1 ≠ .failed ⟨index, .nestingTooDeep⟩ := by simp [hrun]
  have hsame := hless ts 0 0 254 7 (by decide) hanswer
  refine ⟨hrun, ?_, ?_, hparse, (hwhole ts).1 hdeep, (hwhole ts).2.mpr hdeep⟩
  · exact hsame.1.trans (congrArg Prod.fst hrun)
  · exact hsame.2.trans (congrArg (·.2.position) hrun)

end Abacus
