import Abacus.Proofs.Breadth

/-!
# What is unfinished when the levels run out

In front of any token some parts of the expression have been begun and are not finished:
brackets that are open, minus signs whose operand is not complete, and operators whose right
side is not.  `unfinished` finds them by looking at the kinds of the tokens alone, with a stack
of parts and no tree.

The key local fact is `Parser.Fails.leaves`: each level that has been used up when they run out
is one part on the stack.  So the parts are exactly as many as there are levels
(`tooDeep_unfinished`).  Operators are among them, up to two in each pair of open brackets and
two outside of them (`joins_le`), so it takes less than one bracket or minus sign for each level
to be nested too deeply (`tooDeep_with_fewer_nested`).
-/

namespace Abacus

open Abacus.Parser Abacus.Token

/-- The layer of the phrases whose parts the kind joins, if it stands between operands. -/
def Kind.layer? : Kind → Option Phrase
  | plus => some .sum
  | minus => some .sum
  | star => some .product
  | slash => some .product
  | _ => none

theorem Kind.layer?_of_operator? {phrase : Phrase} {k : Kind} {op : Operator}
    (h : phrase.operator? k = some op) : k.layer? = some phrase := by
  cases phrase <;> cases k <;> simp_all [Phrase.operator?, layer?]

/-- No operator joins the parts of a factor. -/
theorem Kind.rank_pos_of_layer? {phrase : Phrase} {k : Kind} (h : k.layer? = some phrase) :
    0 < phrase.rank := by
  cases k <;> cases h <;> decide

/-- A part of an expression that has been begun: brackets that are open, a minus sign in front
of its operand, or an operator in front of its right side. -/
inductive Unfinished where
  | brackets
  | negation
  | join (phrase : Phrase)
deriving DecidableEq

namespace Unfinished

variable {phrase outer : Phrase} {parts : List Unfinished}

/-- The part is finished where a phrase of the layer that it lies in is complete. -/
def isWithin (phrase : Phrase) : Unfinished → Bool
  | brackets => false
  | negation => true
  | join inner => inner.rank ≤ phrase.rank

/-- An operator in front of its right side. -/
def isJoin : Unfinished → Bool
  | join _ => true
  | _ => false

/-- The parts that are left where a phrase of the layer is complete, the latest first. -/
def close (phrase : Phrase) (parts : List Unfinished) : List Unfinished :=
  parts.dropWhile (isWithin phrase)

/-- What lies within a layer lies within those around it. -/
theorem isWithin_mono (h : phrase.rank ≤ outer.rank) {u : Unfinished}
    (hu : u.isWithin phrase = true) : u.isWithin outer = true := by
  cases u with
  | brackets => cases hu
  | negation => rfl
  | join inner =>
      simp only [isWithin, decide_eq_true_eq] at hu ⊢
      exact hu.trans h

@[simp] theorem close_brackets : close phrase (brackets :: parts) = brackets :: parts := rfl

@[simp] theorem close_negation : close phrase (negation :: parts) = close phrase parts := rfl

/-- Where a phrase is complete, so are the operators that join its parts. -/
theorem close_join_self : close phrase (join phrase :: parts) = close phrase parts :=
  List.dropWhile_cons_of_pos (by simp [isWithin])

/-- An operator is not finished by what lies further in. -/
theorem close_join_of_lt (h : phrase.rank < outer.rank) :
    close phrase (join outer :: parts) = join outer :: parts :=
  List.dropWhile_cons_of_neg (by simpa [isWithin] using h)

/-- A phrase that is complete takes with it those further in. -/
theorem close_close (h : phrase.rank ≤ outer.rank) (parts : List Unfinished) :
    close outer (close phrase parts) = close outer parts := by
  induction parts with
  | nil => rfl
  | cons u parts ih =>
      cases hu : u.isWithin phrase with
      | false => rw [close, close, List.dropWhile_cons_of_neg (by simp [hu])]; rfl
      | true =>
          have houter := isWithin_mono h hu
          have hphrase : close phrase (u :: parts) = close phrase parts :=
            List.dropWhile_cons_of_pos hu
          rw [hphrase, ih]
          exact (List.dropWhile_cons_of_pos houter).symm

theorem close_eq_outward {left : List Unfinished} (h : phrase.rank ≤ outer.rank)
    (hclose : close phrase left = close phrase parts) : close outer left = close outer parts := by
  rw [← close_close h left, hclose, close_close h]

/-- The latest part is unfinished if nothing is finished. -/
theorem not_isWithin_of_close_eq {u : Unfinished} (hself : close phrase (u :: parts) = u :: parts) :
    u.isWithin phrase = false := by
  rw [← Bool.not_eq_true]
  intro hu
  have hshorter : close phrase (u :: parts) = close phrase parts := List.dropWhile_cons_of_pos hu
  have hle := (List.dropWhile_sublist (isWithin phrase) (l := parts)).length_le
  rw [← close, ← hshorter, hself, List.length_cons] at hle
  omega

/-- Where nothing would be finished, nothing is by what lies further in. -/
theorem close_eq_self (h : phrase.rank ≤ outer.rank) (hself : close outer parts = parts) :
    close phrase parts = parts := by
  cases parts with
  | nil => rfl
  | cons u parts =>
      have hu : u.isWithin outer = false := not_isWithin_of_close_eq hself
      refine List.dropWhile_cons_of_neg fun hinner => ?_
      rw [isWithin_mono h hinner] at hu
      cases hu

end Unfinished

open Unfinished

/-- The parts of an expression that are unfinished, the latest first, and whether an operand has
just been completed. -/
structure Draft where
  parts : List Unfinished
  behindOperand : Bool

namespace Draft

variable {phrase : Phrase} {parts : List Unfinished} {t : Token} {op : Operator}

/-- Behind an operand, which completes the minus signs in front of it. -/
def completed (parts : List Unfinished) : Draft := ⟨close .factor parts, true⟩

/-- The draft with one more token.  A token that cannot stand there changes nothing. -/
def extend (d : Draft) (t : Token) : Draft :=
  if d.behindOperand then
    match t.kind.layer? with
    | some phrase => ⟨.join phrase :: close phrase d.parts, false⟩
    | none => if t.kind = .bracketClose then completed (close .sum d.parts).tail else d
  else
    match t.kind with
    | .number => completed d.parts
    | .bracketOpen => ⟨.brackets :: d.parts, false⟩
    | .minus => ⟨.negation :: d.parts, false⟩
    | _ => d

/-- The draft with more tokens. -/
def extendAll (d : Draft) (ts : List Token) : Draft := ts.foldl extend d

@[simp] theorem extendAll_nil (d : Draft) : d.extendAll [] = d := rfl

@[simp] theorem extendAll_cons (d : Draft) (t : Token) (ts : List Token) :
    d.extendAll (t :: ts) = (d.extend t).extendAll ts := rfl

@[simp] theorem extendAll_append (d : Draft) (ts us : List Token) :
    d.extendAll (ts ++ us) = (d.extendAll ts).extendAll us := List.foldl_append

theorem extend_number (hkind : t.kind = .number) : extend ⟨parts, false⟩ t = completed parts := by
  simp [extend, hkind]

theorem extend_opening (hkind : t.kind = .bracketOpen) :
    extend ⟨parts, false⟩ t = ⟨.brackets :: parts, false⟩ := by
  simp [extend, hkind]

theorem extend_minus (hkind : t.kind = .minus) :
    extend ⟨parts, false⟩ t = ⟨.negation :: parts, false⟩ := by
  simp [extend, hkind]

theorem extend_closing (hkind : t.kind = .bracketClose) :
    extend ⟨parts, true⟩ t = completed (close .sum parts).tail := by
  simp [extend, hkind, Kind.layer?]

theorem extend_operator (hop : phrase.operator? t.kind = some op) :
    extend ⟨parts, true⟩ t = ⟨.join phrase :: close phrase parts, false⟩ := by
  simp [extend, Kind.layer?_of_operator? hop]

end Draft

/-- The parts that are unfinished behind the tokens, the latest first. -/
def unfinished (ts : List Token) : List Unfinished := (Draft.extendAll ⟨[], false⟩ ts).parts

/-! ## Complete phrases -/

namespace Draft

variable {phrase inner outer : Phrase} {word right : List Token} {t : Token} {op : Operator}

/-- Wherever it stands, the word leaves nothing unfinished but what an operator of the layer
finishes, and the parts in front of it that the layer does not finish. -/
def Completes (phrase : Phrase) (word : List Token) : Prop :=
  ∀ parts, ∃ left, extendAll ⟨parts, false⟩ word = ⟨left, true⟩ ∧
    close phrase left = close phrase parts

/-- What is complete in a layer is complete in those around it. -/
theorem Completes.outward (h : Completes phrase word) (hle : phrase.rank ≤ outer.rank) :
    Completes outer word := by
  intro parts
  obtain ⟨left, hword, hclose⟩ := h parts
  exact ⟨left, hword, close_eq_outward hle hclose⟩

/-- An operator is finished together with its right side. -/
theorem Completes.join (h : Completes phrase word) (hop : phrase.operator? t.kind = some op)
    (hright : Completes inner right) (hlt : inner.rank < phrase.rank) :
    Completes phrase (word ++ t :: right) := by
  intro parts
  obtain ⟨left, hword, hcloseLeft⟩ := h parts
  obtain ⟨left', hright, hcloseRight⟩ := hright (.join phrase :: close phrase parts)
  refine ⟨left', ?_, ?_⟩
  · rw [extendAll_append, hword, extendAll_cons, extend_operator hop, hcloseLeft, hright]
  · rw [close_eq_outward hlt.le hcloseRight, close_join_self, close_close (Nat.le_refl _)]

end Draft

/-- **A phrase that is derived is complete.** -/
theorem Derivation.completes {phrase : Phrase} (d : Derivation phrase) :
    Draft.Completes phrase d.word := by
  induction d with
  | ofProduct d ih => exact ih.outward (by decide)
  | sum l t op r hop ihl ihr => exact ihl.join hop ihr (by decide)
  | ofFactor d ih => exact ih.outward (by decide)
  | product l t op r hop ihl ihr => exact ihl.join hop ihr (by decide)
  | number t x hkind hvalue =>
      intro parts
      exact ⟨close .factor parts, Draft.extend_number hkind, close_close (Nat.le_refl _) parts⟩
  | brackets opening d closing hopening hclosing ih =>
      intro parts
      obtain ⟨left, hword, hclose⟩ := ih (.brackets :: parts)
      refine ⟨close .factor parts, ?_, close_close (Nat.le_refl _) parts⟩
      rw [word, Draft.extendAll_cons, Draft.extend_opening hopening, Draft.extendAll_append, hword,
        Draft.extendAll_cons, Draft.extend_closing hclosing, hclose]
      rfl
  | negation t d hkind ih =>
      intro parts
      obtain ⟨left, hword, hclose⟩ := ih (.negation :: parts)
      refine ⟨left, ?_, hclose⟩
      rw [word, Draft.extendAll_cons, Draft.extend_minus hkind, hword]

theorem Derives.completes {phrase : Phrase} {word : List Token} {e : Expr}
    (h : Derives phrase word e) : Draft.Completes phrase word := by
  obtain ⟨d, rfl, -⟩ := h
  exact d.completes

/-! ## Levels that have run out -/

/-- An operator that is read joins the parts of a layer around the tree so far, and what is
read on its right lies further in. -/
theorem Phrase.exists_layer {phrase : Phrase} {power left right : Int} {k : Kind} {op : Operator}
    (hop : k.Between op left right) (hpower : power < left)
    (hsum : phrase = .sum → continues 51 k = false) :
    ∃ layer : Phrase, layer.operator? k = some op ∧ phrase.rank ≤ layer.rank ∧
      layer.rank ≤ (ofPower power).rank ∧ (ofPower right).rank < layer.rank ∧
      (layer = .sum → right = 51) := by
  rcases operator?_of_between hop with ⟨hlayer, rfl, rfl⟩ | ⟨hlayer, rfl, rfl⟩
  · refine ⟨.sum, hlayer, by cases phrase <;> decide, ?_, by decide, fun _ => rfl⟩
    rw [ofPower, if_pos hpower]
  · refine ⟨.product, hlayer, ?_, ?_, by decide, by decide⟩
    · -- A sum is not followed by a star or slash: the product on its right has taken it.
      have hgoes : continues 51 k = true := continues_iff.mpr ⟨op, 60, 61, hop, by decide⟩
      cases phrase with
      | sum => simp [hgoes] at hsum
      | product => exact Nat.le_refl _
      | factor => exact Nat.zero_le _
    · rw [ofPower, if_pos hpower]
      split <;> decide

/-- The word leaves so many more parts unfinished than there were, and brackets among them as
many as it has left open. -/
def Draft.Leaves (d : Draft) (word : List Token) (parts : List Unfinished) (more : Nat) : Prop :=
  ∃ added, d.extendAll word = ⟨added ++ parts, false⟩ ∧ added.length = more ∧
    (added.count .brackets : Int) = openBrackets word

namespace Draft.Leaves

variable {d : Draft} {parts : List Unfinished} {word first : List Token} {t : Token} {more : Nat}
  {u : Unfinished}

theorem nil : Leaves ⟨parts, false⟩ [] parts 0 := ⟨[], rfl, rfl, rfl⟩

/-- What is begun with the first token is still unfinished. -/
theorem cons (hfirst : d.extend t = ⟨u :: parts, false⟩)
    (hopens : t.kind.opens = [u].count .brackets)
    (h : Leaves ⟨u :: parts, false⟩ word (u :: parts) more) :
    Leaves d (t :: word) parts (more + 1) := by
  obtain ⟨added, hword, hlength, hcount⟩ := h
  refine ⟨added ++ [u], ?_, by simp [hlength], ?_⟩
  · rw [extendAll_cons, hfirst, hword, List.append_assoc, List.singleton_append]
  · rw [List.count_append, Int.natCast_add, hcount, openBrackets_cons, hopens, Int.add_comm]

/-- A complete word in front leaves no bracket open. -/
theorem append {left : List Unfinished} (hfirst : d.extendAll first = ⟨left, true⟩)
    (hclosed : openBrackets first = 0) (h : Leaves ⟨left, true⟩ word parts more) :
    Leaves d (first ++ word) parts more := by
  obtain ⟨added, hword, hlength, hcount⟩ := h
  refine ⟨added, by rw [extendAll_append, hfirst, hword], hlength, ?_⟩
  rw [openBrackets_append, hclosed, Int.zero_add, hcount]

end Draft.Leaves

/-- What a stage leaves unfinished when its levels have run out: a part for each of them, and one
more if the stage uses up none by itself. -/
def Parser.Stage.Leaves (n : Nat) (word rest : List Token) : Stage → Prop
  | .operand => ∀ parts, Draft.Leaves ⟨parts, false⟩ word parts (n + 1)
  | .expression power => ∀ parts, (power < 60 → close (.ofPower power) parts = parts) →
      Draft.Leaves ⟨parts, false⟩ word parts n
  | .climb power _ => ∀ (phrase : Phrase) (left parts : List Unfinished),
      (phrase = .sum → continues 51 (nextKind (word ++ rest)) = false) →
      close phrase left = close phrase parts → close (.ofPower power) parts = parts →
      Draft.Leaves ⟨left, true⟩ word parts (n + 1)

/-- **Each level that has run out** is one part that is unfinished. -/
theorem Parser.Fails.leaves {n : Nat} {stage : Stage} {word rest : List Token} {cause : ParseError}
    (h : Fails n stage word cause rest) (hcause : cause = .nestingTooDeep) :
    stage.Leaves n word rest := by
  induction h with
  | noOperand hkind => cases hcause
  | noValue hkind hvalue => cases hcause
  | insideBrackets hopening inner ih =>
      intro parts
      refine .cons (Draft.extend_opening hopening) (by rw [hopening]; rfl) ?_
      exact ih hcause (.brackets :: parts) fun _ => close_brackets
  | unclosed hopening inner hkind => cases hcause
  | insideNegation hkind inner ih =>
      intro parts
      refine .cons (Draft.extend_minus hkind) (by rw [hkind]; rfl) ?_
      exact ih hcause (.negation :: parts) fun hpower => absurd hpower (by decide)
  | tooDeep =>
      intro parts _
      exact .nil
  | atOperand operand ih =>
      intro parts _
      exact ih hcause parts
  | behindOperand operand climb ih =>
      intro parts hparts
      have hfirst : Derives .factor _ _ := operand.derived
      obtain ⟨left, hleft, hclose⟩ := hfirst.completes parts
      refine .append hleft hfirst.openBrackets_eq_zero ?_
      exact ih hcause .factor left parts (by simp) hclose (hparts climb.climb_lt)
  | @atRight n power pull right op t word rest l cause hop hpower inner ih =>
      intro phrase left parts hsum hclose hparts
      obtain ⟨layer, hlayer, hle, hpowerLayer, hlt, -⟩ := Phrase.exists_layer hop hpower hsum
      have hleft : close layer left = parts :=
        (close_eq_outward hle hclose).trans (close_eq_self hpowerLayer hparts)
      have hfirst : Draft.extend ⟨left, true⟩ t = ⟨.join layer :: parts, false⟩ := by
        rw [Draft.extend_operator hlayer, hleft]
      refine .cons hfirst hop.opens_eq_zero ?_
      exact ih hcause (.join layer :: parts) fun _ => close_join_of_lt hlt
  | @behindRight n power pull right op t word more rest l r cause hop hpower inner climb ih =>
      intro phrase left parts hsum hclose hparts
      obtain ⟨layer, hlayer, hle, hpowerLayer, hlt, hright⟩ := Phrase.exists_layer hop hpower hsum
      have hleft : close layer left = parts :=
        (close_eq_outward hle hclose).trans (close_eq_self hpowerLayer hparts)
      have hword : Derives (.ofPower right) word r := inner.derived
      obtain ⟨left', hleft', hclose'⟩ := hword.completes (.join layer :: parts)
      have hfirst : Draft.extendAll ⟨left, true⟩ (t :: word) = ⟨left', true⟩ := by
        rw [Draft.extendAll_cons, Draft.extend_operator hlayer, hleft, hleft']
      have hclosed : openBrackets (t :: word) = 0 := by
        rw [openBrackets_cons, hop.opens_eq_zero, hword.openBrackets_eq_zero, Int.zero_add]
      have hjoined : close layer left' = close layer parts := by
        rw [close_eq_outward hlt.le hclose', close_join_self]
      refine Draft.Leaves.append hfirst hclosed (ih hcause layer left' parts ?_ hjoined hparts)
      intro hlayer
      exact hright hlayer ▸ inner.stops

/-! ## How many operators there can be -/

namespace Unfinished

variable {parts parts' : List Unfinished} {phrase : Phrase}

/-- No operator stands on a part that it would have finished. -/
def Layered : List Unfinished → Prop
  | [] => True
  | u :: parts => (∀ phrase, u = join phrase → 0 < phrase.rank ∧ close phrase parts = parts) ∧
      Layered parts

theorem Layered.of_suffix (h : Layered parts) (hsuffix : parts' <:+ parts) : Layered parts' := by
  induction parts with
  | nil =>
      obtain rfl := List.suffix_nil.mp hsuffix
      trivial
  | cons u parts ih =>
      rcases List.suffix_cons_iff.mp hsuffix with rfl | hsuffix
      · exact h
      · exact ih h.2 hsuffix

theorem Layered.left (h : Layered parts) (phrase : Phrase) : Layered (close phrase parts) :=
  h.of_suffix (List.dropWhile_suffix _)

/-- **Operators between the same brackets** join layers further and further in, so there are at
most two of them, and fewer where an operator of a layer further out may follow. -/
theorem Layered.joins_add_le (h : Layered parts)
    (hphrase : phrase = .factor ∨ close phrase parts = parts) :
    parts.countP isJoin + phrase.rank ≤ 2 * (parts.count brackets + 1) := by
  induction parts generalizing phrase with
  | nil => cases phrase <;> decide
  | cons u parts ih =>
      obtain ⟨hu, hparts⟩ := h
      cases u with
      | brackets =>
          have hinside := ih hparts (.inl rfl)
          have hrank : phrase.rank ≤ 2 := by cases phrase <;> decide
          rw [List.countP_cons_of_neg (by decide), List.count_cons_self]
          omega
      | negation =>
          have hoperand := ih hparts (.inl rfl)
          have hfactor : phrase = .factor :=
            hphrase.resolve_right fun hself => nomatch not_isWithin_of_close_eq hself
          rw [List.countP_cons_of_neg (by decide), List.count_cons_of_ne (by decide), hfactor]
          exact hoperand
      | join inner =>
          obtain ⟨hpos, hclose⟩ := hu inner rfl
          have hright := ih hparts (.inr hclose)
          have hlt : phrase.rank < inner.rank := by
            rcases hphrase with rfl | hself
            · exact hpos
            · simpa [isWithin] using not_isWithin_of_close_eq hself
          rw [List.countP_cons_of_pos rfl, List.count_cons_of_ne (by simp)]
          omega

end Unfinished

/-- Each token keeps the parts layered. -/
theorem Draft.layered_extend {d : Draft} (h : Layered d.parts) (t : Token) :
    Layered (d.extend t).parts := by
  unfold extend
  split
  · split
    · next phrase hlayer =>
      refine ⟨fun inner hinner => ?_, h.left phrase⟩
      cases hinner
      exact ⟨Kind.rank_pos_of_layer? hlayer, close_close (Nat.le_refl _) d.parts⟩
    · split
      · exact ((h.left .sum).of_suffix (List.tail_suffix _)).left .factor
      · exact h
  · split
    · exact h.left .factor
    · exact ⟨by simp, h⟩
    · exact ⟨by simp, h⟩
    · exact h

theorem Draft.layered_extendAll {d : Draft} (h : Layered d.parts) (ts : List Token) :
    Layered (d.extendAll ts).parts := by
  induction ts generalizing d with
  | nil => exact h
  | cons t ts ih => exact ih (layered_extend h t)

/-- Of the parts that are unfinished, at most two in each pair of open brackets and two outside
of them are operators. -/
theorem joins_le (ts : List Token) :
    (unfinished ts).countP isJoin ≤ 2 * ((unfinished ts).count .brackets + 1) := by
  have hnone : Layered (Draft.parts ⟨[], false⟩) := trivial
  have hlayered : Layered (unfinished ts) := Draft.layered_extendAll hnone ts
  have hfactor : Phrase.factor = .factor ∨ close .factor (unfinished ts) = unfinished ts := .inl rfl
  exact hlayered.joins_add_le hfactor

/-- A part is a pair of brackets, a minus sign or an operator. -/
theorem Unfinished.length_eq (parts : List Unfinished) :
    parts.length = parts.count .brackets + parts.count .negation + parts.countP isJoin := by
  induction parts with
  | nil => rfl
  | cons u parts ih =>
      rw [List.length_cons, ih]
      cases u <;> simp [isJoin, List.countP_cons] <;> omega

/-- **The levels run out where as many parts are unfinished.**  These are the open brackets, the
minus signs without their operand, and also the operators without their right side, of which
there are at most two for each bracket and two more.  So brackets and minus signs alone are as
many as the levels exactly if no operator is among the parts. -/
theorem tooDeep_unfinished {ts : List Token} {index : Nat}
    (h : parse ts = .error ⟨index, .nestingTooDeep⟩) :
    let parts := unfinished (ts.take index)
    let nested := parts.count .brackets + parts.count .negation
    let joins := parts.countP isJoin
    nested + joins = maxDepth ∧ joins ≤ 2 * (parts.count .brackets + 1) ∧
      (parts.count .brackets : Int) = openBrackets (ts.take index) ∧
      (maxDepth ≤ nested ↔ joins = 0) := by
  intro parts nested joins
  obtain ⟨word, rest, rfl, rfl, hf | ⟨e, -, -, hcause⟩⟩ := parse_eq_error_iff.mp h
  · have hleaves : Draft.Leaves ⟨[], false⟩ word [] maxDepth := hf.leaves rfl [] fun _ => rfl
    obtain ⟨added, hword, hlength, hcount⟩ := hleaves
    have hparts : parts = added := by
      simp only [parts, List.take_left, unfinished, hword, List.append_nil]
    have hsum : nested + joins = maxDepth := by
      rw [← hlength, ← hparts, length_eq]
    refine ⟨hsum, joins_le _, ?_, by omega⟩
    rw [hparts, hcount, List.take_left]
  · cases hcause

/-! ## Nested less deeply than there are levels -/

/-- The tokens of `1 + 1 * (`, one after the other so many times. -/
def rungs : Nat → List Token
  | 0 => []
  | n + 1 => .ofNumber 0 ['1'] ⟨1, 0⟩ :: .ofSymbol 0 '+' .plus :: .ofNumber 0 ['1'] ⟨1, 0⟩ ::
      .ofSymbol 0 '*' .star :: .ofSymbol 0 '(' .bracketOpen :: rungs n

/-- Each of them uses up three levels. -/
theorem fails_rungs (n : Nat) (rest : List Token) :
    Fails (3 * n) (.expression 0) (rungs n) .nestingTooDeep rest := by
  induction n with
  | zero => exact .tooDeep
  | succ n ih =>
      let one : Token := .ofNumber 0 ['1'] ⟨1, 0⟩
      have hbrackets : Fails (3 * n + 1) (.expression 61)
          (.ofSymbol 0 '(' .bracketOpen :: rungs n) .nestingTooDeep rest :=
        .atOperand (.insideBrackets rfl ih)
      have hproduct : Fails (3 * n + 2) (.expression 51)
          ([one] ++ .ofSymbol 0 '*' .star :: .ofSymbol 0 '(' .bracketOpen :: rungs n)
          .nestingTooDeep rest :=
        .behindOperand (.number rfl rfl) (.atRight ⟨rfl, rfl⟩ (by decide) hbrackets)
      have hsum : Fails (3 * n + 3) (.expression 0)
          ([one] ++ .ofSymbol 0 '+' .plus :: ([one] ++ .ofSymbol 0 '*' .star ::
            .ofSymbol 0 '(' .bracketOpen :: rungs n)) .nestingTooDeep rest :=
        .behindOperand (.number rfl rfl) (.atRight ⟨rfl, rfl⟩ (by decide) hproduct)
      exact hsum

/-- `(1+1*(1+1*( … 1))…)`, with eighty-six brackets inside of each other and operators in front of
all of them but the first. -/
def tower : List Token :=
  (.ofSymbol 0 '(' .bracketOpen :: rungs 85) ++
    .ofNumber 0 ['1'] ⟨1, 0⟩ :: List.replicate 86 (.ofSymbol 0 ')' .bracketClose)

theorem parse_tower : parse tower = .error ⟨426, .nestingTooDeep⟩ := by
  have hf (rest : List Token) : Fails (3 * 85 + 1) (.expression 0)
      (.ofSymbol 0 '(' .bracketOpen :: rungs 85) .nestingTooDeep rest :=
    .atOperand (.insideBrackets rfl (fails_rungs 85 rest))
  have hlength : (Token.ofSymbol 0 '(' .bracketOpen :: rungs 85).length = 426 := by decide +kernel
  rw [tower, parse_of_fails (hf _), hlength]

theorem count_unfinished_tower :
    let parts := unfinished (tower.take 426)
    parts.count .brackets = 86 ∧ parts.count .negation = 0 ∧ parts.countP isJoin = 170 := by
  decide +kernel

/-- The levels run out in front of the operand in the last brackets: one hundred and seventy
operators and eighty-six brackets are unfinished there. -/
theorem tooDeep_unfinished_tower :
    let parts := unfinished (tower.take 426)
    parse tower = .error ⟨426, .nestingTooDeep⟩ ∧ parts.countP isJoin = 170 ∧
      parts.count .brackets + parts.count .negation + 170 = maxDepth := by
  intro parts
  obtain ⟨-, -, hjoins⟩ := count_unfinished_tower
  obtain ⟨hsum, -⟩ := tooDeep_unfinished parse_tower
  refine ⟨parse_tower, hjoins, ?_⟩
  rw [← hjoins]
  exact hsum

/-- Brackets and minus signs do not have to be as many as the levels: in this expression there
are eighty-six brackets and no minus sign. -/
theorem tooDeep_with_fewer_nested :
    let nested (before : List Token) :=
      (unfinished before).count .brackets + (unfinished before).count .negation
    (parse tower = .error ⟨426, .nestingTooDeep⟩ ∧ nested (tower.take 426) = 86) ∧
    ¬ ∀ ts index, parse ts = .error ⟨index, .nestingTooDeep⟩ →
      maxDepth ≤ nested (ts.take index) := by
  intro nested
  obtain ⟨hbrackets, hsigns, -⟩ := count_unfinished_tower
  have hnested : nested (tower.take 426) = 86 := by
    simp only [nested, hbrackets, hsigns]
  refine ⟨⟨parse_tower, hnested⟩, fun hclaim => ?_⟩
  have hle := hclaim tower 426 parse_tower
  rw [hnested] at hle
  exact absurd hle (by decide)

end Abacus
