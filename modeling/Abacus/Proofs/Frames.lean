import Abacus.Expr.Cursor
import Abacus.Proofs.Lookahead

/-!
# Readings in their place

A cursor reads the tokens from where it stands, so its answers are those of the courses
there (`Cursor.readAt_eq_tree_iff`, `Cursor.readAt_eq_failed_iff`): it ends behind the tokens
that the course takes.

Two facts make such a reading independent of the tokens around it.  Tokens in front of the
cursor only move its places (`Cursor.readAt_behind`).  And no course takes an end token, of
which it asks only the kind; the end of the list is of the same kind.  So nothing behind an
end token is seen, nor whether there is one (`read_append_exprEnd`).
-/

namespace Abacus

namespace Parser

variable {n : Nat} {stage : Stage} {ts : List Token}

/-- **Every reading has a course**, at whatever stage. -/
theorem hasCourse (n : Nat) (stage : Stage) (ts : List Token) : HasCourse n stage ts := by
  cases stage with
  | operand => exact hasCourse_operand (reads_or_fails n) ts
  | expression power => exact reads_or_fails n power ts
  | climb power left => exact hasCourse_climb (reads_or_fails n) power left ts

/-- In front of an end token, or of the end of the list, the next kind is the same. -/
theorem nextKind_append_exprEnd {finish : Token} (hfinish : finish.kind = .exprEnd)
    (rest after : List Token) : nextKind (rest ++ finish :: after) = nextKind rest := by
  cases rest with
  | nil => exact hfinish
  | cons t rest => rfl

/-- **Nothing behind an end token is seen**, nor whether there is one. -/
theorem read_append_exprEnd {finish : Token} (hfinish : finish.kind = .exprEnd)
    (after : List Token) : read n stage (ts ++ finish :: after) = read n stage ts := by
  rcases hasCourse n stage ts with ⟨word, e, rest, rfl, hr⟩ | ⟨word, cause, rest, rfl, hf⟩
  · have hnext := (nextKind_append_exprEnd hfinish rest after).symm
    rw [List.append_assoc, (hr.of_stopsWith (.of_nextKind_eq hnext)).read_eq, hr.read_eq]
  · have hnext := (nextKind_append_exprEnd hfinish rest after).symm
    rw [List.append_assoc, (hf.of_nextKind_eq hnext).read_eq, hf.read_eq]

theorem parse_append_exprEnd {finish : Token} (hfinish : finish.kind = .exprEnd)
    (after : List Token) : parse (ts ++ finish :: after) = parse ts := by
  rcases hasCourse maxDepth (.expression 0) ts with
    ⟨word, e, rest, rfl, hr⟩ | ⟨word, cause, rest, rfl, hf⟩
  · have hnext := nextKind_append_exprEnd hfinish rest after
    rw [List.append_assoc, parse_of_reads (hr.of_stopsWith (.of_nextKind_eq hnext.symm)),
      parse_of_reads hr, hnext]
  · have hnext := nextKind_append_exprEnd hfinish rest after
    rw [List.append_assoc, parse_of_fails (hf.of_nextKind_eq hnext.symm), parse_of_fails hf]

end Parser

namespace Cursor

open Abacus.Parser

variable {stage : Stage} {power : Int} {ts : List Token} {c c' : Cursor} {e : Expr}
  {m : Misreading}

/-! ## Where a cursor ends -/

/-- What a cursor answers at a stage of reading, and where it is left. -/
def readAt (ts : List Token) (c : Cursor) (stage : Stage) : Answer × Cursor :=
  c.settle (read c.levels stage (c.remaining ts)) .tree

theorem perform_readOperand : c.perform ts .readOperand = c.readAt ts .operand := rfl

theorem perform_readExpression :
    c.perform ts (.readExpression power) = c.readAt ts (.expression power) := rfl

/-- The kind of the token at the cursor; past the last token it is an end. -/
theorem kind_current (ts : List Token) (c : Cursor) :
    (c.current ts).kind = nextKind (c.remaining ts) := by
  rw [current, remaining, ← List.head?_drop]
  cases ts.drop c.position <;> rfl

/-- Behind so many tokens as the word has. -/
def past (c : Cursor) (word : List Token) : Cursor := ⟨c.position + word.length, c.depth⟩

theorem past_append (c : Cursor) (word more : List Token) :
    c.past (word ++ more) = (c.past word).past more := by
  simp [past, Nat.add_assoc]

/-- Behind the first of the tokens from the cursor on, the rest of them remains. -/
theorem remaining_past {word rest : List Token} (h : c.remaining ts = word ++ rest) :
    (c.past word).remaining ts = rest := by
  rw [remaining, past, ← List.drop_drop]
  change (c.remaining ts).drop word.length = rest
  rw [h, List.drop_left]

/-- **A cursor answers with a tree** that is read from the tokens in front of it, and ends
behind them. -/
theorem readAt_eq_tree_iff : c.readAt ts stage = (.tree e, c') ↔
    ∃ word rest, c.remaining ts = word ++ rest ∧ Reads c.levels stage word e rest ∧
      c' = c.past word := by
  constructor
  · intro h
    rcases hasCourse c.levels stage (c.remaining ts) with
      ⟨word, e', rest, hsplit, hr⟩ | ⟨word, cause, rest, hsplit, hf⟩
    · rw [readAt, hsplit, hr.read_eq] at h
      cases h
      exact ⟨word, rest, hsplit, hr, rfl⟩
    · rw [readAt, hsplit, hf.read_eq] at h
      cases h
  · rintro ⟨word, rest, hsplit, hr, rfl⟩
    rw [readAt, hsplit, hr.read_eq]
    rfl

/-- **A cursor answers with a misreading** that a course ends in, and stays where it struck. -/
theorem readAt_eq_failed_iff : c.readAt ts stage = (.failed m, c') ↔
    ∃ word rest, c.remaining ts = word ++ rest ∧ Fails c.levels stage word m.cause rest ∧
      c' = c.past word ∧ m.index = c'.position := by
  constructor
  · intro h
    rcases hasCourse c.levels stage (c.remaining ts) with
      ⟨word, e, rest, hsplit, hr⟩ | ⟨word, cause, rest, hsplit, hf⟩
    · rw [readAt, hsplit, hr.read_eq] at h
      cases h
    · rw [readAt, hsplit, hf.read_eq] at h
      cases h
      exact ⟨word, rest, hsplit, hf, rfl, rfl⟩
  · rintro ⟨word, rest, hsplit, hf, rfl, hindex⟩
    obtain ⟨index, cause⟩ := m
    cases hindex
    rw [readAt, hsplit, hf.read_eq]
    rfl

/-! ## Tokens in front -/

/-- The cursor, `n` places further behind. -/
def behind (n : Nat) (c : Cursor) : Cursor := ⟨n + c.position, c.depth⟩

/-- The same answer about tokens that stand `n` places further behind. -/
def Answer.behind (n : Nat) : Answer → Answer
  | .failed m => .failed ⟨n + m.index, m.cause⟩
  | answer => answer

/-- **Tokens in front of the cursor** only move its places. -/
theorem readAt_behind (before ts : List Token) (c : Cursor) (stage : Stage) :
    (c.behind before.length).readAt (before ++ ts) stage =
      ((c.readAt ts stage).1.behind before.length, (c.readAt ts stage).2.behind before.length) := by
  have hremaining : (c.behind before.length).remaining (before ++ ts) = c.remaining ts :=
    List.drop_length_add_append ..
  have hlevels : (c.behind before.length).levels = c.levels := rfl
  rw [readAt, readAt, hremaining, hlevels, settle, settle]
  cases (read c.levels stage (c.remaining ts)).outcome with
  | ok e => simp [behind, Answer.behind, Nat.add_assoc]
  | error cause => simp [behind, Answer.behind, Nat.add_assoc]

/-- From the first token on, what stands behind an end token is not seen. -/
theorem readAt_append_exprEnd {finish : Token} (hfinish : finish.kind = .exprEnd)
    (after : List Token) (hstart : c.position = 0) :
    c.readAt (ts ++ finish :: after) stage = c.readAt ts stage := by
  simp only [readAt, remaining, hstart, List.drop_zero, read_append_exprEnd hfinish]

end Cursor

/-- **A reading sees only the tokens from its cursor to the first end.**  With other tokens in
front, and an end token and whatever else behind, a cursor reads the same: the same tree or
the same cause, only that all places are further behind by the tokens in front.  In particular
all tokens are read the same with an end token and more behind them. -/
theorem reading_framed (before ts after : List Token) {finish : Token}
    (hfinish : finish.kind = .exprEnd) :
    (∀ (depth : Nat) (power : Int),
      let alone := Cursor.perform ts ⟨0, depth⟩ (.readExpression power)
      Cursor.perform (before ++ ts ++ finish :: after) ⟨before.length, depth⟩
          (.readExpression power) =
        (alone.1.behind before.length, alone.2.behind before.length)) ∧
      parse (ts ++ finish :: after) = parse ts := by
  constructor
  · intro depth power alone
    have hplaced :=
      Cursor.readAt_behind before (ts ++ finish :: after) ⟨0, depth⟩ (.expression power)
    rw [Cursor.readAt_append_exprEnd hfinish after rfl, ← List.append_assoc] at hplaced
    exact hplaced
  · exact Parser.parse_append_exprEnd hfinish after

/-- In `* ( 0`, an end and `)`, the bracket is as unclosed as it is in `( 0`. -/
theorem reading_framed_unclosed :
    let star : Token := ⟨.star, "*", none, 0⟩
    let ts : List Token := [⟨.bracketOpen, "(", none, 1⟩, ⟨.number, "0", some (.zero false), 2⟩]
    let closing : Token := ⟨.bracketClose, ")", none, 3⟩
    let read := Cursor.perform ([star] ++ ts ++ .finish 3 :: [closing]) ⟨1, 7⟩ (.readExpression 0)
    (Token.finish 3).kind = .exprEnd ∧
      read = (.failed ⟨3, .expected .bracketClose .exprEnd⟩, ⟨3, 7⟩) ∧
      parse (ts ++ .finish 3 :: [closing]) = parse ts := by
  intro star ts closing read
  have hend : (Token.finish 3).kind = .exprEnd := rfl
  obtain ⟨hread, hparse⟩ := reading_framed [star] ts [closing] hend
  have halone : Cursor.perform ts ⟨0, 7⟩ (.readExpression 0) =
      (.failed ⟨2, .expected .bracketClose .exprEnd⟩, ⟨2, 7⟩) := by cbv
  refine ⟨hend, (hread 7 0).trans ?_, hparse⟩
  rw [halone]
  rfl

end Abacus
