import Mathlib.Logic.Relation
import Abacus.Proofs.Frames

/-!
# Reading with a higher power

A power only decides where climbing stops.  So two readings of the same tokens with different
powers go the same way, token by token, until the one with the higher power stops in front of
an operator that still pulls harder than the lower one (`Reads.climb_higher`).  What the other
has read by then is the tree it goes on from, and each operator that it joins puts this tree
further down on its left (`Reads.climb_leftward`).

A reading that fails with the higher power has not stopped before, and so it fails in the same
way with the lower one (`Fails.expression_lower`).
-/

namespace Abacus

/-- The second tree is the left operand of the first. -/
def Expr.HasLeft (e l : Expr) : Prop := ∃ op r, e = .binary op l r

/-- An operator that pulls harder than the lower power, but no harder than the higher one. -/
def Kind.PullsWithin (lower higher : Int) (k : Kind) : Prop :=
  ∃ op left right, k.Between op left right ∧ lower < left ∧ left ≤ higher

namespace Parser

variable {n : Nat} {power higher : Int} {word rest : List Token} {left e : Expr}
  {cause : ParseError}

/-- What stops a power stops the higher ones. -/
theorem continues_higher {k : Kind} (hstop : continues power k = false) (hle : power ≤ higher) :
    continues higher k = false := by
  rw [← Bool.not_eq_true, continues_iff]
  intro hgoes
  obtain ⟨op, pull, right, hop, hpower⟩ := hgoes
  have hpull := (stops_iff_le hop).mp hstop
  omega

/-- **Climbing leaves the tree it starts from** down on the left. -/
theorem Reads.climb_leftward (h : Reads n (.climb power left) word e rest) :
    Relation.ReflTransGen Expr.HasLeft e left := by
  generalize hstage : Stage.climb power left = stage at h
  induction h generalizing left with
  | number => cases hstage
  | brackets => cases hstage
  | negation => cases hstage
  | expression => cases hstage
  | stop hstop =>
      cases hstage
      exact .refl
  | join hop hpower inner climb ihInner ihClimb =>
      cases hstage
      exact (ihClimb rfl).tail ⟨_, _, rfl⟩

/-- What the higher power has read of a word, and what it leaves to the lower one: nothing, or
tokens that begin with an operator between the two. -/
structure StopsEarlier (power higher : Int) (e e' : Expr) (more rest : List Token) : Prop where
  leftward : Relation.ReflTransGen Expr.HasLeft e e'
  same_or_within : more = [] ∧ e' = e ∨ (nextKind (more ++ rest)).PullsWithin power higher

/-- **Climbing with a higher power** goes the same way, and may stop earlier. -/
theorem Reads.climb_higher (h : Reads n (.climb power left) word e rest) (hle : power ≤ higher) :
    ∃ word' more e', word = word' ++ more ∧
      Reads n (.climb higher left) word' e' (more ++ rest) ∧
      StopsEarlier power higher e e' more rest := by
  generalize hstage : Stage.climb power left = stage at h
  induction h generalizing left with
  | number => cases hstage
  | brackets => cases hstage
  | negation => cases hstage
  | expression => cases hstage
  | stop hstop =>
      cases hstage
      exact ⟨[], [], _, rfl, .stop (continues_higher hstop hle), .refl, .inl ⟨rfl, rfl⟩⟩
  | @join n power pull right op t word more rest l r e hop hpower inner climb ihInner ihClimb =>
      cases hstage
      by_cases hgoes : higher < pull
      · obtain ⟨word', more', e', rfl, hclimb, hearlier⟩ := ihClimb rfl
        rw [List.append_assoc] at inner
        exact ⟨t :: (word ++ word'), more', e', by simp, .join hop hgoes inner hclimb, hearlier⟩
      · -- The higher power stops here, in front of the operator.
        have hwithin : t.kind.PullsWithin power higher :=
          ⟨op, pull, right, hop, hpower, Int.not_lt.mp hgoes⟩
        have hstop := (stops_iff_le hop).mpr (Int.not_lt.mp hgoes)
        have hleftward := (Reads.join hop hpower inner climb).climb_leftward
        exact ⟨[], _, l, rfl, .stop hstop, hleftward, .inr hwithin⟩

/-- **Reading with a higher power** reads the tokens, or the first of them. -/
theorem Reads.expression_higher (h : Reads n (.expression power) word e rest)
    (hle : power ≤ higher) :
    ∃ word' more e', word = word' ++ more ∧
      Reads n (.expression higher) word' e' (more ++ rest) ∧
      StopsEarlier power higher e e' more rest := by
  cases h with
  | expression operand climb =>
      obtain ⟨word', more, e', rfl, hclimb, hearlier⟩ := climb.climb_higher hle
      rw [List.append_assoc] at operand
      exact ⟨_, more, e', (List.append_assoc ..).symm, .expression operand hclimb, hearlier⟩

/-- Climbing that fails with the higher power fails with the lower one. -/
theorem Fails.climb_lower (h : Fails n (.climb higher left) word cause rest)
    (hle : power ≤ higher) : Fails n (.climb power left) word cause rest := by
  generalize hstage : Stage.climb higher left = stage at h
  induction h generalizing left with
  | noOperand => cases hstage
  | noValue => cases hstage
  | insideBrackets => cases hstage
  | unclosed => cases hstage
  | insideNegation => cases hstage
  | tooDeep => cases hstage
  | atOperand => cases hstage
  | behindOperand => cases hstage
  | atRight hop hpower inner ih =>
      cases hstage
      exact .atRight hop (Int.lt_of_le_of_lt hle hpower) inner
  | behindRight hop hpower inner climb ih =>
      cases hstage
      exact .behindRight hop (Int.lt_of_le_of_lt hle hpower) inner (ih rfl)

/-- **A reading that fails with the higher power** fails the same way with the lower one. -/
theorem Fails.expression_lower (h : Fails n (.expression higher) word cause rest)
    (hle : power ≤ higher) : Fails n (.expression power) word cause rest := by
  cases h with
  | tooDeep => exact .tooDeep
  | atOperand operand => exact .atOperand operand
  | behindOperand operand climb => exact .behindOperand operand (climb.climb_lower hle)

end Parser

namespace Cursor

open Abacus.Parser

variable {ts : List Token} {c q : Cursor} {power : Int} {e : Expr}

/-- Behind an expression no operator pulls harder than its power. -/
theorem pull_le_of_readAt {op : Operator} {pull right : Int}
    (h : c.readAt ts (.expression power) = (.tree e, q))
    (hop : (q.current ts).kind.Between op pull right) : pull ≤ power := by
  obtain ⟨word, rest, hsplit, hr, rfl⟩ := readAt_eq_tree_iff.mp h
  rw [kind_current, remaining_past hsplit] at hop
  exact (stops_iff_le hop).mp hr.stops

/-- **A higher power reads less.**  If an expression can be read with a power, it can be read
with a higher one: no further, and the tree is the same or lies down on the left of it.  Behind
either stands no operator that pulls harder than its power; where the higher power stops
earlier, the operator there pulls harder than the lower.  So without an operator in between, the
two read the same.  And what cannot be read with the higher power cannot be read with the
lower, for the same cause at the same place. -/
theorem power_monotone (ts : List Token) (c : Cursor) {power higher : Int}
    (hle : power ≤ higher) :
    (∀ e q, c.perform ts (.readExpression power) = (.tree e, q) →
      ∃ e' q', c.perform ts (.readExpression higher) = (.tree e', q') ∧
        q'.position ≤ q.position ∧ Relation.ReflTransGen Expr.HasLeft e e' ∧
        (∀ op left right, (q'.current ts).kind.Between op left right → left ≤ higher) ∧
        (∀ op left right, (q.current ts).kind.Between op left right → left ≤ power) ∧
        (q'.position < q.position → (q'.current ts).kind.PullsWithin power higher) ∧
        ((∀ k : Kind, ¬ k.PullsWithin power higher) → e' = e ∧ q' = q)) ∧
      ∀ m q, c.perform ts (.readExpression higher) = (.failed m, q) →
        c.perform ts (.readExpression power) = (.failed m, q) := by
  simp only [perform_readExpression]
  constructor
  · intro e q h
    obtain ⟨word, rest, hsplit, hr, rfl⟩ := readAt_eq_tree_iff.mp h
    obtain ⟨word', more, e', rfl, hr', hearlier⟩ := hr.expression_higher hle
    have hsplit' : c.remaining ts = word' ++ (more ++ rest) := by rw [hsplit, List.append_assoc]
    have h' : c.readAt ts (.expression higher) = (.tree e', c.past word') :=
      readAt_eq_tree_iff.mpr ⟨word', more ++ rest, hsplit', hr', rfl⟩
    have hkind : ((c.past word').current ts).kind = nextKind (more ++ rest) := by
      rw [kind_current, remaining_past hsplit']
    refine ⟨e', c.past word', h', ?_, hearlier.leftward, fun _ _ _ => pull_le_of_readAt h',
      fun _ _ _ => pull_le_of_readAt h, ?_, ?_⟩
    · simp only [past, List.length_append]
      omega
    · intro hlt
      rcases hearlier.same_or_within with ⟨rfl, rfl⟩ | hwithin
      · simp at hlt
      · rwa [hkind]
    · intro hnone
      rcases hearlier.same_or_within with ⟨rfl, rfl⟩ | hwithin
      · exact ⟨rfl, by rw [List.append_nil]⟩
      · exact absurd hwithin (hnone _)
  · intro m q h
    obtain ⟨word, rest, hsplit, hf, rfl, hindex⟩ := readAt_eq_failed_iff.mp h
    exact readAt_eq_failed_iff.mpr ⟨word, rest, hsplit, hf.expression_lower hle, rfl, hindex⟩

/-- In `0 - 0 * 0`, the power on the right of a sign does not go past the first sign. -/
theorem power_monotone_minus :
    let zero (position : Nat) : Token := ⟨.number, "0", some (.zero false), position⟩
    let ts := [zero 0, ⟨.minus, "-", none, 1⟩, zero 2, ⟨.star, "*", none, 3⟩, zero 4]
    let zeroTree : Expr := .number (.zero false)
    let difference : Expr := .binary .sub zeroTree (.binary .mul zeroTree zeroTree)
    (0 : Int) ≤ 51 ∧ perform ts ⟨0, 0⟩ (.readExpression 0) = (.tree difference, ⟨5, 0⟩) ∧
      perform ts ⟨0, 0⟩ (.readExpression 51) = (.tree zeroTree, ⟨1, 0⟩) ∧
      Relation.ReflTransGen Expr.HasLeft difference zeroTree ∧
      (current ts ⟨1, 0⟩).kind.PullsWithin 0 51 := by
  intro zero ts zeroTree difference
  have hread : perform ts ⟨0, 0⟩ (.readExpression 0) = (.tree difference, ⟨5, 0⟩) := by cbv
  have hhigher : perform ts ⟨0, 0⟩ (.readExpression 51) = (.tree zeroTree, ⟨1, 0⟩) := by cbv
  obtain ⟨hreads, -⟩ := power_monotone ts ⟨0, 0⟩ (show (0 : Int) ≤ 51 by decide)
  obtain ⟨e', q', hread', -, hleftward, -, -, hwithin, -⟩ := hreads difference ⟨5, 0⟩ hread
  obtain ⟨htree, rfl⟩ := Prod.mk.inj (hread'.symm.trans hhigher)
  obtain rfl : e' = zeroTree := Answer.tree.inj htree
  exact ⟨by decide, hread, hhigher, hleftward, hwithin (by decide)⟩

end Cursor

end Abacus
