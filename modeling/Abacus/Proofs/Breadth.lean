import Mathlib.Data.List.Infix
import Abacus.Proofs.Brackets
import Abacus.Proofs.Unlimited

/-!
# Breadth is no depth

However long a list of tokens is, a reading only runs out of levels where the tokens are
nested.  Between two brackets that are open there are no more than three expressions and one
for each minus sign: the one inside the brackets, the right side of a plus or minus sign in it,
the right side of a star or slash in that, and then the operands of minus signs.

The key local fact is `Fails.levels_lt`.  It counts the brackets that the tokens taken have left
open, and gives to each so many levels.  What is left over is the room that the stage itself has
for expressions before the next bracket (`Stage.room`).
-/

namespace Abacus

namespace Token

variable {m : Nat} {t : Token} {ts word : List Token}

/-- In front of every token, at most `b` more brackets are opened than closed. -/
def BracketsAtMost (b : Nat) (ts : List Token) : Prop :=
  ∀ before, before <+: ts → openBrackets before ≤ b

/-- At most `m` minus signs stand side by side. -/
def SignsAtMost (m : Nat) (ts : List Token) : Prop :=
  ∀ run, run <:+: ts → (∀ t ∈ run, t.kind = .minus) → run.length ≤ m

instance (b : Nat) (ts : List Token) : Decidable (BracketsAtMost b ts) :=
  decidable_of_iff (∀ before ∈ ts.inits, openBrackets before ≤ b) (by simp [BracketsAtMost])

/-- The minus signs that the tokens begin with. -/
def signs (ts : List Token) : Nat := (ts.takeWhile fun t => t.kind == .minus).length

theorem signs_cons_of_minus (ht : t.kind = .minus) : signs (t :: ts) = signs ts + 1 := by
  simp [signs, ht]

namespace SignsAtMost

/-- What lies within the tokens has no more signs side by side. -/
theorem of_infix (h : SignsAtMost m ts) (hword : word <:+: ts) : SignsAtMost m word :=
  fun run hrun => h run (hrun.trans hword)

theorem signs_le (h : SignsAtMost m ts) : signs ts ≤ m := by
  refine h _ (List.takeWhile_prefix _).isInfix ?_
  intro t ht
  simpa using List.mem_takeWhile_imp ht

end SignsAtMost

instance (m : Nat) (ts : List Token) : Decidable (SignsAtMost m ts) :=
  decidable_of_iff (∀ back ∈ ts.tails, signs back ≤ m) <| by
    constructor
    · intro h run hrun hsigns
      obtain ⟨front, back, rfl⟩ := hrun
      have hback := h (run ++ back) (by simp)
      rw [signs, List.takeWhile_append_of_pos (by simpa using hsigns), List.length_append] at hback
      omega
    · intro h back hback
      exact (h.of_infix ((List.mem_tails _ _).mp hback).isInfix).signs_le

end Token

open Token

/-- What derives from a phrase leaves no bracket open. -/
theorem Derives.openBrackets_eq_zero {phrase : Phrase} {word : List Token} {e : Expr}
    (h : Derives phrase word e) : openBrackets word = 0 := by
  obtain ⟨d, rfl, -⟩ := h
  exact d.balanced.closed

namespace Phrase

variable {m : Nat} {word : List Token} {power : Int}

/-- So many expressions can be open between one of the phrase, which begins with the word, and
the next bracket, with its own. -/
def room (m : Nat) (word : List Token) : Phrase → Nat
  | factor => signs word + 1
  | product => m + 2
  | sum => m + 3

/-- There is room for the expression itself and for the minus signs that it begins with. -/
theorem signs_lt_room (hsigns : SignsAtMost m word) (phrase : Phrase) :
    signs word < phrase.room m word := by
  have hle := hsigns.signs_le
  cases phrase <;> simp only [room] <;> omega

/-- Where operators can follow, the room is that of their right sides and the expression. -/
theorem room_of_lt (hpower : power < 60) (word : List Token) :
    (ofPower power).room m word = m + (ofPower power).rank + 1 := by
  rw [ofPower, if_pos hpower]
  split <;> rfl

/-- The right side of an operator has less room than the expression around it. -/
theorem room_right_le {k : Kind} {op : Operator} {pull right : Int} (hop : k.Between op pull right)
    (hpower : power < pull) (hsigns : SignsAtMost m word) :
    (ofPower right).room m word ≤ m + (ofPower power).rank := by
  rcases operator?_of_between hop with ⟨-, rfl, rfl⟩ | ⟨-, rfl, rfl⟩
  · have hsum : ofPower power = sum := by simp [ofPower, hpower]
    rw [hsum]
    exact Nat.le_refl _
  · have hle := hsigns.signs_le
    have hright : (ofPower 61).room m word = signs word + 1 := rfl
    have hrank : 1 ≤ (ofPower power).rank := by
      rw [ofPower, if_pos hpower]
      split <;> decide
    omega

end Phrase

namespace Parser

variable {n m b : Nat} {stage : Stage} {power : Int} {ts word rest : List Token} {left : Expr}
  {cause : ParseError}

/-- So many expressions can a stage open in front of the next bracket, if no more than `m` minus
signs stand side by side. -/
def Stage.room (m : Nat) (word : List Token) : Stage → Nat
  | .operand => signs word
  | .expression power => (Phrase.ofPower power).room m word
  | .climb power _ => m + (Phrase.ofPower power).rank

/-- Climbing only fails behind an operator. -/
theorem Fails.climb_lt (h : Fails n (.climb power left) word cause rest) : power < 60 := by
  cases h with
  | atRight hop hpower inner => exact Phrase.lt_of_between hop hpower
  | behindRight hop hpower inner climb => exact Phrase.lt_of_between hop hpower

/-- **The levels that have run out** were used up by the brackets still open and by the stage. -/
theorem Fails.levels_lt (h : Fails n stage word cause rest) (hcause : cause = .nestingTooDeep)
    (hsigns : SignsAtMost m word) :
    (n : Int) < openBrackets word * (m + 3) + stage.room m word := by
  induction h with
  | noOperand hkind => cases hcause
  | noValue hkind hvalue => cases hcause
  | @insideBrackets n opening word rest cause hopening inner ih =>
      have hinner : (n : Int) < openBrackets word * (m + 3) + (m + 3 : Nat) :=
        ih hcause (hsigns.of_infix (List.suffix_cons _ _).isInfix)
      -- The bracket counts for as much as the expression inside it has room.
      simp only [openBrackets_cons, hopening, Kind.opens, Int.add_mul, Int.one_mul]
      omega
  | unclosed hopening inner hkind => cases hcause
  | @insideNegation n t word rest cause hkind inner ih =>
      have hinner : (n : Int) < openBrackets word * (m + 3) + (signs word + 1 : Nat) :=
        ih hcause (hsigns.of_infix (List.suffix_cons _ _).isInfix)
      simpa [Stage.room, signs_cons_of_minus hkind, hkind, Kind.opens] using hinner
  | @tooDeep power rest =>
      have hroom := Phrase.signs_lt_room hsigns (.ofPower power)
      simp only [openBrackets_nil, Stage.room]
      omega
  | @atOperand n power word rest cause operand ih =>
      have hoperand : (n : Int) < openBrackets word * (m + 3) + signs word := ih hcause hsigns
      have hroom := Phrase.signs_lt_room hsigns (.ofPower power)
      simp only [Stage.room]
      omega
  | @behindOperand n power first more rest left cause operand climb ih =>
      have hclimb : (n : Int) <
          openBrackets more * (m + 3) + (m + (Phrase.ofPower power).rank : Nat) :=
        ih hcause (hsigns.of_infix (List.suffix_append _ _).isInfix)
      -- The operand is complete, and what follows it is an operator.
      have hclosed : Derives .factor first left := operand.derived
      rw [openBrackets_append, hclosed.openBrackets_eq_zero, Int.zero_add, Stage.room,
        Phrase.room_of_lt climb.climb_lt]
      omega
  | @atRight n power pull right op t word rest l cause hop hpower inner ih =>
      have hword : SignsAtMost m word := hsigns.of_infix (List.suffix_cons _ _).isInfix
      have hinner : (n : Int) <
          openBrackets word * (m + 3) + (Phrase.ofPower right).room m word := ih hcause hword
      have hroom := Phrase.room_right_le hop hpower hword
      rw [openBrackets_cons, hop.opens_eq_zero, Int.zero_add, Stage.room]
      omega
  | @behindRight n power pull right op t word more rest l r cause hop hpower inner climb ih =>
      have hmore : more <:+ t :: (word ++ more) :=
        (List.suffix_append _ _).trans (List.suffix_cons _ _)
      have hclosed : Derives (.ofPower right) word r := inner.derived
      rw [openBrackets_cons, hop.opens_eq_zero, openBrackets_append, hclosed.openBrackets_eq_zero,
        Int.zero_add, Int.zero_add]
      exact ih hcause (hsigns.of_infix hmore.isInfix)

/-- **Levels enough for all open brackets do not run out.** -/
theorem not_tooDeep_of_breadth (hlevels : (b + 1) * (m + 3) ≤ n) (hbrackets : BracketsAtMost b ts)
    (hsigns : SignsAtMost m ts) : ¬ TooDeep (expression n 0 ts) := by
  intro hdeep
  obtain ⟨word, rest, rfl, hf⟩ := exists_fails_of_tooDeep hdeep
  have hword : word <+: word ++ rest := List.prefix_append _ _
  have hlt : (n : Int) < openBrackets word * (m + 3) + (m + 3 : Nat) :=
    hf.levels_lt rfl (hsigns.of_infix hword.isInfix)
  have hopen : openBrackets word * (m + 3) ≤ b * (m + 3) :=
    Int.mul_le_mul_of_nonneg_right (hbrackets word hword) (by omega)
  rw [Nat.add_mul, Nat.one_mul] at hlevels
  have hlevels : (b * (m + 3) + (m + 3) : Int) ≤ n := by exact_mod_cast hlevels
  omega

end Parser

/-- **Breadth never hits the limit.**  Tokens that open at most `b` brackets at once, and have at
most `m` minus signs side by side, are not nested too deeply if the limit has `m + 3` levels for
each of the brackets and for the outermost expression; however many tokens there are, and
whether or not they form an expression. -/
theorem not_tooDeep_of_brackets_of_signs {ts : List Token} {b m : Nat}
    (hlimit : (b + 1) * (m + 3) ≤ maxDepth) (hbrackets : BracketsAtMost b ts)
    (hsigns : SignsAtMost m ts) (index : Nat) : parse ts ≠ .error ⟨index, .nestingTooDeep⟩ := by
  intro hparse
  have hdeep := Parser.tooDeep_iff_parse.mpr ⟨index, hparse⟩
  exact Parser.not_tooDeep_of_breadth hlimit hbrackets hsigns hdeep

/-- `( - - 0 *` has one bracket open and two signs side by side; ten levels are enough for it,
though it is no expression. -/
theorem not_tooDeep_of_brackets_of_signs_star :
    let minus (position : Nat) : Token := ⟨.minus, "-", none, position⟩
    let ts := [⟨.bracketOpen, "(", none, 0⟩, minus 1, minus 2,
      ⟨.number, "0", some (.zero false), 3⟩, ⟨.star, "*", none, 4⟩]
    (1 + 1) * (2 + 3) ≤ maxDepth ∧ BracketsAtMost 1 ts ∧ SignsAtMost 2 ts ∧
      ∀ index, parse ts ≠ .error ⟨index, .nestingTooDeep⟩ := by
  intro minus ts
  have hlimit : (1 + 1) * (2 + 3) ≤ maxDepth := by decide
  have hbrackets : BracketsAtMost 1 ts := by decide
  have hsigns : SignsAtMost 2 ts := by decide
  exact ⟨hlimit, hbrackets, hsigns, not_tooDeep_of_brackets_of_signs hlimit hbrackets hsigns⟩

end Abacus
