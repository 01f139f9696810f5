import Abacus.Proofs.Grammar
import Abacus.Proofs.Unlimited

/-!
# The cost of nesting

Brackets, a prefix minus, and every operator's right side open an expression inside the one
that is read; going on from left to right opens none.  The cost of a sum is the number of
expressions that are open at once when it is read.  The cost is exact: with so many levels
the sum is read, and with one less the nesting is too deep.

The key local fact is `Derivation.expression_append`: with the levels that the left part of a
chain needs, reading the chain is climbing from the tree of that part.  So what a reading
comes to is settled behind the last operator whose right side is still within the levels,
and the first one that is not runs out of them (`Derivation.expression_tooDeep`).
-/

namespace Abacus

open Abacus.Parser

theorem Step.after_after {α : Type} (m n : Nat) (s : Step α) :
    (s.after m).after n = s.after (n + m) := by
  simp [Step.after, Nat.add_assoc]

/-! ## The cost of chains -/

/-- The greatest of the costs of a chain's parts, where every part but the first costs one
more for standing to the right of an operator. -/
def chainCost : List Nat → Nat
  | [] => 0
  | first :: others => others.foldr (fun cost most => max (1 + cost) most) first

/-- A part at the end of a chain. -/
theorem chainCost_concat {costs : List Nat} (h : costs ≠ []) (cost : Nat) :
    chainCost (costs ++ [cost]) = max (chainCost costs) (1 + cost) := by
  obtain ⟨first, others, rfl⟩ := List.exists_cons_of_ne_nil h
  simp only [chainCost, List.cons_append, List.foldr_append, List.foldr_cons, List.foldr_nil]
  induction others with
  | nil => simp [Nat.max_comm]
  | cons other others ih =>
      simp only [List.foldr_cons]
      rw [ih (List.cons_ne_nil _ _), Nat.max_assoc]

namespace Derivation

/-- The products of a sum, from left to right. -/
def products : Derivation .sum → List (Derivation .product)
  | ofProduct d => [d]
  | sum l _ _ r _ => l.products ++ [r]

/-- The factors of a product, from left to right. -/
def factors : Derivation .product → List (Derivation .factor)
  | ofFactor d => [d]
  | product l _ _ r _ => l.factors ++ [r]

/-- How many expressions are open at once when a sum is read, with its own. -/
def cost (d : Derivation .sum) : Nat := 1 + d.levels

theorem products_ne_nil (d : Derivation .sum) : d.products ≠ [] := by
  cases d <;> simp [products]

theorem factors_ne_nil (d : Derivation .product) : d.factors ≠ [] := by
  cases d <;> simp [factors]

theorem levels_eq_products : (d : Derivation .sum) → d.levels = chainCost (d.products.map levels)
  | ofProduct d => by simp [products, levels, chainCost]
  | sum l t op r hop => by
      have hcosts : l.products.map levels ≠ [] := by simp [products_ne_nil]
      rw [products, List.map_append, List.map_singleton, chainCost_concat hcosts,
        ← levels_eq_products l, levels, Nat.add_comm 1]

theorem levels_eq_factors : (d : Derivation .product) → d.levels = chainCost (d.factors.map levels)
  | ofFactor d => by simp [factors, levels, chainCost]
  | product l t op r hop => by
      have hcosts : l.factors.map levels ≠ [] := by simp [factors_ne_nil]
      rw [factors, List.map_append, List.map_singleton, chainCost_concat hcosts,
        ← levels_eq_factors l, levels, Nat.add_comm 1]

/-- What factors, products and sums cost, by the chains that they are: a sum costs one for
itself, brackets cost what is in them, and a minus sign costs one. -/
structure IsCost (ofFactor : Derivation .factor → Nat) (ofProduct : Derivation .product → Nat)
    (ofSum : Derivation .sum → Nat) : Prop where
  number : ∀ t x hkind hvalue, ofFactor (.number t x hkind hvalue) = 0
  brackets : ∀ opening d closing hopening hclosing,
    ofFactor (.brackets opening d closing hopening hclosing) = ofSum d
  negation : ∀ t d hkind, ofFactor (.negation t d hkind) = 1 + ofFactor d
  product : ∀ d, ofProduct d = chainCost (d.factors.map ofFactor)
  sum : ∀ d, ofSum d = 1 + chainCost (d.products.map ofProduct)

theorem isCost : IsCost levels levels cost where
  number _ _ _ _ := rfl
  brackets _ d _ _ _ := Nat.add_comm d.levels 1
  negation _ d _ := Nat.add_comm d.levels 1
  product := levels_eq_factors
  sum d := by rw [cost, levels_eq_products]

/-! ## Reading with enough levels, and with too few -/

variable {phrase : Phrase} {n : Nat} {power : Int} {ts : List Token}

/-- In front of what does not go on, only the derived tokens are read. -/
theorem expression_alone (d : Derivation phrase) (hlevels : d.levels < n)
    (hpower : phrase.IsReadWith power) (hends : phrase.EndsBefore (nextKind ts))
    (hstop : continues power (nextKind ts) = false) :
    expression n power (d.word ++ ts) = .ok d.word.length d.tree :=
  (d.continued.alone hlevels hpower hends hstop).read_eq

/-- **Reading on behind a derived word** is climbing from its tree. -/
theorem expression_append (d : Derivation phrase) (hlevels : d.levels ≤ n)
    (hpower : phrase.IsReadWith power) (hends : phrase.EndsBefore (nextKind ts)) :
    expression (n + 1) power (d.word ++ ts) =
      (climb (expression n) power d.tree ts).after d.word.length := by
  induction d generalizing power ts with
  | ofProduct d ih =>
      have hpower : power < 50 := hpower
      exact ih hlevels (show power < 60 by omega) trivial
  | sum l t op r hop ihl ihr =>
      simp only [levels, Nat.max_le] at hlevels
      have hsign : Phrase.sum.EndsBefore (nextKind (t :: (r.word ++ ts))) :=
        Phrase.continues_of_sum hop
      have hright : expression n 51 (r.word ++ ts) = .ok r.word.length r.tree :=
        r.expression_alone hlevels.2 (show (51 : Int) < 60 by decide) trivial hends
      rw [word, List.append_assoc, List.cons_append, ihl hlevels.1 hpower hsign,
        climb_of_operator (Phrase.between_of_sum hop) hpower, hright]
      simp [tree, Step.after_after, Nat.add_comm]
  | ofFactor d ih => exact ih hlevels trivial trivial
  | product l t op r hop ihl ihr =>
      simp only [levels, Nat.max_le] at hlevels
      have hright : expression n 61 (r.word ++ ts) = .ok r.word.length r.tree :=
        r.expression_alone hlevels.2 trivial trivial (Phrase.continues_eq_false (by decide) _)
      rw [word, List.append_assoc, List.cons_append, ihl hlevels.1 hpower trivial,
        climb_of_operator (Phrase.between_of_product hop) hpower, hright]
      simp [tree, Step.after_after, Nat.add_comm]
  | number t x hkind hvalue =>
      rw [word, List.singleton_append, expression, operand_of_number hkind hvalue]
      rfl
  | brackets opening d closing hopening hclosing ih =>
      have hnone : (nextKind (closing :: ts)).operator? = none := by
        rw [nextKind, hclosing]
        rfl
      have hinner : expression n 0 (d.word ++ closing :: ts) = .ok d.word.length d.tree :=
        (d.reads hlevels hnone).read_eq
      have hoperand : operand (expression n) (opening :: (d.word ++ closing :: ts)) =
          .ok (d.word.length + 1 + 1) d.tree := by
        rw [operand_of_bracket hopening, hinner]
        simp [expect, nextKind, hclosing, Nat.add_comm]
      rw [word, List.cons_append, List.append_assoc, List.singleton_append, expression, hoperand]
      simp [tree]
  | negation t d hkind ih =>
      have hinner : expression n minusPower (d.word ++ ts) = .ok d.word.length d.tree :=
        d.expression_alone hlevels trivial trivial (Phrase.continues_eq_false (by decide) _)
      have hoperand : operand (expression n) (t :: (d.word ++ ts)) =
          .ok (d.word.length + 1) (.unary .neg d.tree) := by
        rw [operand_of_minus hkind, hinner]
        simp [Nat.add_comm]
      rw [word, List.cons_append, expression, hoperand]
      simp [tree]

/-- **With too few levels** the reading runs out of them. -/
theorem expression_tooDeep (d : Derivation phrase) (hlevels : n ≤ d.levels)
    (hpower : phrase.IsReadWith power) (hends : phrase.EndsBefore (nextKind ts)) :
    TooDeep (expression n power (d.word ++ ts)) := by
  induction d generalizing n power ts with
  | ofProduct d ih =>
      have hpower : power < 50 := hpower
      exact ih hlevels (show power < 60 by omega) trivial
  | sum l t op r hop ihl ihr =>
      have hsign : Phrase.sum.EndsBefore (nextKind (t :: (r.word ++ ts))) :=
        Phrase.continues_of_sum hop
      rw [word, List.append_assoc, List.cons_append]
      -- The left side runs out already, or it is read and what is right of the sign runs out.
      by_cases hleft : n ≤ l.levels
      · exact ihl hleft hpower hsign
      · obtain ⟨m, rfl⟩ : ∃ m, n = m + 1 := ⟨n - 1, by omega⟩
        have hright : m ≤ r.levels := by
          simp only [levels] at hlevels
          omega
        have hdeep : TooDeep (expression m 51 (r.word ++ ts)) :=
          ihr hright (show (51 : Int) < 60 by decide) trivial
        rw [l.expression_append (by omega) hpower hsign,
          climb_of_operator (Phrase.between_of_sum hop) hpower]
        exact ((hdeep.next _ _).after 1).after _
  | ofFactor d ih => exact ih hlevels trivial trivial
  | product l t op r hop ihl ihr =>
      rw [word, List.append_assoc, List.cons_append]
      by_cases hleft : n ≤ l.levels
      · exact ihl hleft hpower trivial
      · obtain ⟨m, rfl⟩ : ∃ m, n = m + 1 := ⟨n - 1, by omega⟩
        have hright : m ≤ r.levels := by
          simp only [levels] at hlevels
          omega
        have hdeep : TooDeep (expression m 61 (r.word ++ ts)) := ihr hright trivial trivial
        rw [l.expression_append (by omega) hpower trivial,
          climb_of_operator (Phrase.between_of_product hop) hpower]
        exact ((hdeep.next _ _).after 1).after _
  | number t x hkind hvalue =>
      obtain rfl : n = 0 := Nat.le_zero.mp hlevels
      rfl
  | brackets opening d closing hopening hclosing ih =>
      cases n with
      | zero => rfl
      | succ n =>
          have hstop : continues 51 (nextKind (closing :: ts)) = false := by
            rw [nextKind, hclosing]
            rfl
          have hdeep : TooDeep (expression n 0 (d.word ++ closing :: ts)) :=
            ih (Nat.le_of_succ_le_succ hlevels) (show (0 : Int) < 50 by decide) hstop
          rw [word, List.cons_append, List.append_assoc, List.singleton_append, expression,
            operand_of_bracket hopening]
          exact ((hdeep.next _ _).after 1).next _ _
  | negation t d hkind ih =>
      cases n with
      | zero => rfl
      | succ n =>
          have hdeep : TooDeep (expression n minusPower (d.word ++ ts)) :=
            ih (Nat.le_of_succ_le_succ hlevels) trivial trivial
          rw [word, List.cons_append, expression, operand_of_minus hkind]
          exact ((hdeep.next _ _).after 1).next _ _

/-- **A sum is read with as many levels as it costs**, and with less they run out. -/
theorem read_or_tooDeep (d : Derivation .sum) (n : Nat) (hts : (nextKind ts).operator? = none) :
    (d.cost ≤ n ∧ expression n 0 (d.word ++ ts) = .ok d.word.length d.tree) ∨
      (n < d.cost ∧ TooDeep (expression n 0 (d.word ++ ts))) := by
  have hstop := continues_of_noOperator hts
  have hzero : Phrase.sum.IsReadWith 0 := show (0 : Int) < 50 by decide
  by_cases hlevels : d.levels < n
  · refine .inl ⟨?_, d.expression_alone hlevels hzero (hstop 51) (hstop 0)⟩
    rw [cost]
    omega
  · refine .inr ⟨?_, d.expression_tooDeep (Nat.le_of_not_lt hlevels) hzero (hstop 51)⟩
    rw [cost]
    omega

/-- All tokens of a sum are read if it costs no more levels than there are. -/
theorem parse_of_cost (d : Derivation .sum) (hts : nextKind ts = .exprEnd) :
    (d.cost ≤ maxDepth ∧ parse (d.word ++ ts) = .ok d.tree) ∨
      (maxDepth < d.cost ∧ ∃ index, parse (d.word ++ ts) = .error ⟨index, .nestingTooDeep⟩) := by
  have hnone : (nextKind ts).operator? = none := by
    rw [hts]
    rfl
  rcases d.read_or_tooDeep maxDepth hnone with ⟨hcost, heq⟩ | ⟨hcost, hdeep⟩
  · refine .inl ⟨hcost, ?_⟩
    simp only [parse, heq, Step.ok, List.drop_left, hts]
  · exact .inr ⟨hcost, tooDeep_iff_parse.mp hdeep⟩

/-- A cursor in front of a sum reads it if what it costs fits in with the open expressions. -/
theorem answer_of_cost (d : Derivation .sum) (hts : (nextKind ts).operator? = none)
    (before : List Token) (depth : Nat) :
    let answer := (Cursor.perform (before ++ (d.word ++ ts)) ⟨before.length, depth⟩
      (.readExpression 0)).1
    (depth + d.cost ≤ maxDepth ∧ answer = .tree d.tree) ∨
      (maxDepth < depth + d.cost ∧ ∃ index, answer = .failed ⟨index, .nestingTooDeep⟩) := by
  intro answer
  have hpositive : 0 < d.cost := by
    rw [cost]
    omega
  rcases d.read_or_tooDeep (maxDepth - depth) hts with ⟨hcost, heq⟩ | ⟨hcost, hdeep⟩
  · refine .inl ⟨by omega, ?_⟩
    simp only [answer, Cursor.perform, Cursor.inner, Cursor.levels, Cursor.remaining,
      List.drop_left, heq]
    rfl
  · refine .inr ⟨by omega, tooDeep_iff_answer.mp ?_⟩
    rwa [List.drop_left]

end Derivation

/-- **The cost of nesting is exact.**  Tokens that derive as a sum are read as its tree if it
costs no more levels than there are, and else the nesting is too deep.  Where a cursor stands
in front of them with expressions open around it, these count too. -/
theorem nesting_exact (d : Derivation .sum) {rest : List Token} (hrest : nextKind rest = .exprEnd) :
    Derivation.IsCost Derivation.levels Derivation.levels Derivation.cost ∧
      (parse (d.word ++ rest) = .ok d.tree ↔ d.cost ≤ maxDepth) ∧
      ((∃ index, parse (d.word ++ rest) = .error ⟨index, .nestingTooDeep⟩) ↔ maxDepth < d.cost) ∧
      ∀ (before : List Token) (depth : Nat),
        let answer := (Cursor.perform (before ++ (d.word ++ rest)) ⟨before.length, depth⟩
          (.readExpression 0)).1
        (answer = .tree d.tree ↔ depth + d.cost ≤ maxDepth) ∧
          ((∃ index, answer = .failed ⟨index, .nestingTooDeep⟩) ↔ maxDepth < depth + d.cost) := by
  have hnone : (nextKind rest).operator? = none := by
    rw [hrest]
    rfl
  refine ⟨Derivation.isCost, and_assoc.mp ⟨?_, ?_⟩⟩
  · rcases d.parse_of_cost hrest with ⟨hcost, hparse⟩ | ⟨hcost, index, hparse⟩
    · simp [hparse, hcost]
    · simp [hparse, hcost]
  · intro before depth answer
    rcases d.answer_of_cost hnone before depth with ⟨hcost, hanswer⟩ | ⟨hcost, index, hanswer⟩
    · simp [answer, hanswer, hcost]
    · simp [answer, hanswer, hcost]

/-- A minus sign in front of a number in brackets costs three levels. -/
theorem nesting_exact_minus :
    let zero : Token := ⟨.number, "0", some (.zero false), 2⟩
    let d : Derivation .sum := .ofProduct (.ofFactor (.negation ⟨.minus, "-", none, 0⟩
      (.brackets ⟨.bracketOpen, "(", none, 1⟩
        (.ofProduct (.ofFactor (.number zero (.zero false) rfl rfl)))
        ⟨.bracketClose, ")", none, 3⟩ rfl rfl) rfl))
    let read (depth : Nat) := (Cursor.perform (d.word ++ []) ⟨0, depth⟩ (.readExpression 0)).1
    d.cost = 3 ∧ nextKind [] = .exprEnd ∧ parse (d.word ++ []) = .ok d.tree ∧
      read 253 = .tree d.tree ∧ ∃ index, read 254 = .failed ⟨index, .nestingTooDeep⟩ := by
  intro zero d read
  obtain ⟨-, hparse, -, hread⟩ := nesting_exact d (show nextKind [] = .exprEnd from rfl)
  exact ⟨rfl, rfl, hparse.mpr (by decide), (hread [] 253).1.mpr (by decide),
    (hread [] 254).2.mpr (by decide)⟩

end Abacus
