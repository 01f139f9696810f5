import Abacus.Proofs.Lookahead

/-!
# The grammar of expressions

A sum is a product, or a sum, a plus or minus sign, and a product.  A product is
a factor, or a product, a star or slash, and a factor.  A factor is a number, a
sum in brackets, or a minus sign and a factor.  `Derivation` is the type of
derivations in this grammar, with the tokens that each derives and its tree;
brackets leave no node in the tree.

Reading by binding powers agrees with the grammar.  A power stands for a layer
(`Phrase.ofPower`), and what is read with it derives from that layer
(`Reads.derived`): the point is that a sum read so far is never followed by a
star or slash, since the product on its right would have taken it.  Conversely
climbing from the tree of a derivation continues the reading of its tokens
(`Derivation.continued`), with as many levels as the derivation needs.
-/

namespace Abacus

open Abacus.Parser

/-- The three layers of expressions. -/
inductive Phrase where
  | sum
  | product
  | factor
deriving DecidableEq

namespace Phrase

/-- The operators that join two parts of a layer. -/
def operator? : Phrase → Kind → Option Operator
  | sum, .plus => some .add
  | sum, .minus => some .sub
  | product, .star => some .mul
  | product, .slash => some .div
  | _, _ => none

/-- The layers from the innermost to the outermost. -/
def rank : Phrase → Nat
  | factor => 0
  | product => 1
  | sum => 2

/-- The layer of what is read with a power. -/
def ofPower (power : Int) : Phrase :=
  if power < 50 then sum else if power < 60 then product else factor

theorem between_of_sum {k : Kind} {op : Operator} (h : sum.operator? k = some op) :
    k.Between op 50 51 := by
  cases k <;> simp_all [operator?, Kind.Between, Kind.operator?, Kind.bindingPower?]

theorem between_of_product {k : Kind} {op : Operator} (h : product.operator? k = some op) :
    k.Between op 60 61 := by
  cases k <;> simp_all [operator?, Kind.Between, Kind.operator?, Kind.bindingPower?]

/-- An operator joins either products or factors. -/
theorem operator?_of_between {k : Kind} {op : Operator} {left right : Int}
    (h : k.Between op left right) :
    (sum.operator? k = some op ∧ left = 50 ∧ right = 51) ∨
      (product.operator? k = some op ∧ left = 60 ∧ right = 61) := by
  obtain ⟨hop, hbinding⟩ := h
  cases k <;> simp_all [operator?, Kind.operator?, Kind.bindingPower?]

end Phrase

/-- A derivation of a phrase from tokens. -/
inductive Derivation : Phrase → Type where
  | ofProduct (d : Derivation .product) : Derivation .sum
  | sum (l : Derivation .sum) (t : Token) (op : Operator) (r : Derivation .product)
      (hop : Phrase.sum.operator? t.kind = some op) : Derivation .sum
  | ofFactor (d : Derivation .factor) : Derivation .product
  | product (l : Derivation .product) (t : Token) (op : Operator) (r : Derivation .factor)
      (hop : Phrase.product.operator? t.kind = some op) : Derivation .product
  | number (t : Token) (x : Binary64) (hkind : t.kind = .number) (hvalue : t.value = some x) :
      Derivation .factor
  | brackets (opening : Token) (d : Derivation .sum) (closing : Token)
      (hopening : opening.kind = .bracketOpen) (hclosing : closing.kind = .bracketClose) :
      Derivation .factor
  | negation (t : Token) (d : Derivation .factor) (hkind : t.kind = .minus) : Derivation .factor

namespace Derivation

/-- The tokens derived, in order. -/
def word {phrase : Phrase} : Derivation phrase → List Token
  | ofProduct d => d.word
  | sum l t _ r _ => l.word ++ t :: r.word
  | ofFactor d => d.word
  | product l t _ r _ => l.word ++ t :: r.word
  | number t _ _ _ => [t]
  | brackets opening d closing _ _ => opening :: (d.word ++ [closing])
  | negation t d _ => t :: d.word

/-- The tree of a derivation. -/
def tree {phrase : Phrase} : Derivation phrase → Expr
  | ofProduct d => d.tree
  | sum l _ op r _ => .binary op l.tree r.tree
  | ofFactor d => d.tree
  | product l _ op r _ => .binary op l.tree r.tree
  | number _ x _ _ => .number x
  | brackets _ d _ _ _ => d.tree
  | negation _ d _ => .unary .neg d.tree

/-- How many expressions open inside each other when the tokens are read, not
counting the one that is read. -/
def levels {phrase : Phrase} : Derivation phrase → Nat
  | ofProduct d => d.levels
  | sum l _ _ r _ => max l.levels (r.levels + 1)
  | ofFactor d => d.levels
  | product l _ _ r _ => max l.levels (r.levels + 1)
  | number _ _ _ _ => 0
  | brackets _ d _ _ _ => d.levels + 1
  | negation _ d _ => d.levels + 1

end Derivation

/-- The tokens derive from the phrase, with the given tree. -/
def Derives (phrase : Phrase) (word : List Token) (e : Expr) : Prop :=
  ∃ d : Derivation phrase, d.word = word ∧ d.tree = e

/-- A derivation from a layer is one from the layers around it. -/
theorem Derivation.exists_outward {phrase outer : Phrase} (d : Derivation phrase)
    (hle : phrase.rank ≤ outer.rank) :
    ∃ d' : Derivation outer, d'.word = d.word ∧ d'.tree = d.tree ∧ d'.levels = d.levels := by
  cases phrase <;> cases outer <;> simp only [Phrase.rank] at hle <;> try omega
  case sum.sum => exact ⟨d, rfl, rfl, rfl⟩
  case product.sum => exact ⟨.ofProduct d, rfl, rfl, rfl⟩
  case product.product => exact ⟨d, rfl, rfl, rfl⟩
  case factor.sum => exact ⟨.ofProduct (.ofFactor d), rfl, rfl, rfl⟩
  case factor.product => exact ⟨.ofFactor d, rfl, rfl, rfl⟩
  case factor.factor => exact ⟨d, rfl, rfl, rfl⟩

/-- An operator of a layer joins a phrase of that layer to one from further in. -/
theorem Derivation.exists_join {phrase inner : Phrase} (l : Derivation phrase) (t : Token)
    {op : Operator} (r : Derivation inner) (hop : phrase.operator? t.kind = some op)
    (hlt : inner.rank < phrase.rank) :
    ∃ d : Derivation phrase, d.word = l.word ++ t :: r.word ∧ d.tree = .binary op l.tree r.tree ∧
      d.levels = max l.levels (r.levels + 1) := by
  cases phrase with
  | sum =>
      have hrank : inner.rank ≤ Phrase.product.rank := Nat.le_of_lt_succ hlt
      obtain ⟨r', hword, htree, hlevels⟩ := r.exists_outward hrank
      rw [← hword, ← htree, ← hlevels]
      exact ⟨.sum l t op r' hop, rfl, rfl, rfl⟩
  | product =>
      have hrank : inner.rank ≤ Phrase.factor.rank := Nat.le_of_lt_succ hlt
      obtain ⟨r', hword, htree, hlevels⟩ := r.exists_outward hrank
      rw [← hword, ← htree, ← hlevels]
      exact ⟨.product l t op r' hop, rfl, rfl, rfl⟩
  | factor => exact absurd hlt (Nat.not_lt_zero _)

/-- What derives from a layer derives from the layers around it. -/
theorem Derives.outward {phrase outer : Phrase} {word : List Token} {e : Expr}
    (h : Derives phrase word e) (hle : phrase.rank ≤ outer.rank) : Derives outer word e := by
  obtain ⟨d, rfl, rfl⟩ := h
  obtain ⟨d', hword, htree, -⟩ := d.exists_outward hle
  exact ⟨d', hword, htree⟩

/-- Joining what derives from further in keeps the layer. -/
theorem Derives.join {phrase inner : Phrase} {before word : List Token} {t : Token} {op : Operator}
    {l r : Expr} (hl : Derives phrase before l) (hop : phrase.operator? t.kind = some op)
    (hr : Derives inner word r) (hlt : inner.rank < phrase.rank) :
    Derives phrase (before ++ t :: word) (.binary op l r) := by
  obtain ⟨dl, rfl, rfl⟩ := hl
  obtain ⟨dr, rfl, rfl⟩ := hr
  obtain ⟨d, hword, htree, -⟩ := dl.exists_join t dr hop hlt
  exact ⟨d, hword, htree⟩

/-! ## What is read derives -/

/-- What a course has derived at its end.  Behind a tree, any phrase that led up
to it has grown by the tokens taken; a sum only grows if no star or slash
follows it. -/
def Parser.Stage.Derived (word : List Token) (e : Expr) (rest : List Token) : Stage → Prop
  | .operand => Derives .factor word e
  | .expression power => Derives (.ofPower power) word e
  | .climb power left => ∀ (phrase : Phrase) (before : List Token),
      phrase.rank ≤ (Phrase.ofPower power).rank →
      (phrase = .sum → continues 51 (nextKind (word ++ rest)) = false) →
      Derives phrase before left → Derives (.ofPower power) (before ++ word) e

/-- **What is read derives.** -/
theorem Parser.Reads.derived {n : Nat} {stage : Stage} {word rest : List Token} {e : Expr}
    (h : Reads n stage word e rest) : stage.Derived word e rest := by
  induction h with
  | @number n t x rest hkind hvalue => exact ⟨.number t x hkind hvalue, rfl, rfl⟩
  | brackets hopening hclosing inner ih =>
      obtain ⟨d, rfl, rfl⟩ : Derives .sum _ _ := ih
      exact ⟨.brackets _ d _ hopening hclosing, rfl, rfl⟩
  | negation hkind inner ih =>
      obtain ⟨d, rfl, rfl⟩ : Derives .factor _ _ := ih
      exact ⟨.negation _ d hkind, rfl, rfl⟩
  | expression operand climb ihOperand ihClimb =>
      exact ihClimb .factor _ (Nat.zero_le _) (by simp) ihOperand
  | stop hstop =>
      intro phrase before hrank _ hbefore
      simpa using hbefore.outward hrank
  | @join n power left right op t word more rest l r e hop hpower inner climb ihInner ihClimb =>
      intro phrase before hrank hsum hbefore
      have hgrown : before ++ t :: (word ++ more) = (before ++ t :: word) ++ more := by simp
      rw [hgrown]
      rcases Phrase.operator?_of_between hop with
        ⟨hlayer, rfl, rfl⟩ | ⟨hlayer, rfl, rfl⟩
      · have houter : Phrase.ofPower power = .sum := by simp [Phrase.ofPower, hpower]
        have hright : Derives .product word r := ihInner
        have hleft : Derives .sum before l := hbefore.outward (houter ▸ hrank)
        have hjoined := hleft.join hlayer hright (by decide)
        exact ihClimb .sum _ (by simp [houter]) (fun _ => inner.stops) hjoined
      · -- A sum cannot be here: the star or slash belongs to the product on its right.
        have hinner : phrase.rank ≤ Phrase.product.rank := by
          have hgoes : continues 51 t.kind = true :=
            continues_iff.mpr ⟨op, 60, 61, hop, by decide⟩
          cases phrase with
          | sum => simp [nextKind, hgoes] at hsum
          | product => exact Nat.le_refl _
          | factor => exact Nat.zero_le _
        have hright : Derives .factor word r := ihInner
        have hleft : Derives .product before l := hbefore.outward hinner
        have hjoined := hleft.join hlayer hright (by decide)
        have houter : Phrase.product.rank ≤ (Phrase.ofPower power).rank := by
          rw [Phrase.ofPower, if_pos hpower]
          split <;> decide
        exact ihClimb .product _ houter (by simp) hjoined

/-! ## What derives is read -/

namespace Phrase

/-- The powers with which a phrase of the layer is read as a whole. -/
def IsReadWith (power : Int) : Phrase → Prop
  | sum => power < 50
  | product => power < 60
  | factor => True

/-- The kinds in front of which a phrase of the layer can end. -/
def EndsBefore (k : Kind) : Phrase → Prop
  | sum => continues 51 k = false
  | product => True
  | factor => True

/-- No operator pulls harder than a star or slash. -/
theorem lt_of_between {power left right : Int} {k : Kind} {op : Operator}
    (hop : k.Between op left right) (hpower : power < left) : power < 60 := by
  rcases operator?_of_between hop with ⟨_, rfl, rfl⟩ | ⟨_, rfl, rfl⟩ <;> omega

/-- Nothing pulls harder than a prefix minus or the right side of a factor. -/
theorem continues_eq_false {power : Int} (h : 60 ≤ power) (k : Kind) :
    continues power k = false := by
  rw [← Bool.not_eq_true, continues_iff]
  intro hgoes
  obtain ⟨op, left, right, hop, hpower⟩ := hgoes
  exact absurd (lt_of_between hop hpower) (Int.not_lt.mpr h)

/-- A plus or minus sign ends the product before it. -/
theorem continues_of_sum {k : Kind} {op : Operator} (h : sum.operator? k = some op) :
    continues 51 k = false := (stops_iff_le (between_of_sum h)).mpr (by decide)

end Phrase

namespace Derivation

variable {phrase : Phrase} {d : Derivation phrase}

/-- Climbing from the tree continues the reading of the tokens that it derives
from. -/
def Continued (d : Derivation phrase) : Prop :=
  ∀ ⦃n : Nat⦄ ⦃power : Int⦄ ⦃more rest : List Token⦄ ⦃e : Expr⦄, d.levels ≤ n →
    phrase.IsReadWith power → phrase.EndsBefore (nextKind (more ++ rest)) →
    Reads n (.climb power d.tree) more e rest →
    Reads (n + 1) (.expression power) (d.word ++ more) e rest

/-- Where climbing ends at once, only the derived tokens are read. -/
theorem Continued.alone (h : d.Continued) {n : Nat} {power : Int} {rest : List Token}
    (hlevels : d.levels < n) (hpower : phrase.IsReadWith power)
    (hends : phrase.EndsBefore (nextKind rest)) (hstop : continues power (nextKind rest) = false) :
    Reads n (.expression power) d.word d.tree rest := by
  cases n with
  | zero => cases hlevels
  | succ n =>
      have hread : Reads (n + 1) (.expression power) (d.word ++ []) d.tree rest :=
        h (Nat.le_of_lt_succ hlevels) hpower hends (.stop hstop)
      rwa [List.append_nil] at hread

/-- **Every derivation is continued by climbing.**  The right side of an operator
and the inside of brackets or a minus sign are read alone, one level further in. -/
theorem continued (d : Derivation phrase) : d.Continued := by
  induction d with
  | ofProduct d ih =>
      intro n power more rest e hlevels hpower hends hclimb
      have hpower : power < 50 := hpower
      exact ih hlevels (show power < 60 by omega) trivial hclimb
  | sum l t op r hop ihl ihr =>
      intro n power more rest e hlevels hpower hends hclimb
      simp only [levels, Nat.max_le] at hlevels
      have hright : Reads n (.expression 51) r.word r.tree (more ++ rest) :=
        ihr.alone hlevels.2 (show (51 : Int) < 60 by decide) trivial hends
      have hjoined := Reads.join (Phrase.between_of_sum hop) hpower hright hclimb
      have hsign : continues 51 t.kind = false := Phrase.continues_of_sum hop
      have hread : Reads (n + 1) (.expression power) (l.word ++ t :: (r.word ++ more)) e rest :=
        ihl hlevels.1 hpower hsign hjoined
      simpa [word] using hread
  | ofFactor d ih =>
      intro n power more rest e hlevels hpower hends hclimb
      exact ih hlevels trivial trivial hclimb
  | product l t op r hop ihl ihr =>
      intro n power more rest e hlevels hpower hends hclimb
      simp only [levels, Nat.max_le] at hlevels
      have hright : Reads n (.expression 61) r.word r.tree (more ++ rest) :=
        ihr.alone hlevels.2 trivial trivial (Phrase.continues_eq_false (by decide) _)
      have hjoined := Reads.join (Phrase.between_of_product hop) hpower hright hclimb
      have hread := ihl hlevels.1 hpower trivial hjoined
      simpa [word] using hread
  | number t x hkind hvalue =>
      intro n power more rest e hlevels hpower hends hclimb
      exact .expression (.number hkind hvalue) hclimb
  | brackets opening d closing hopening hclosing ih =>
      intro n power more rest e hlevels hpower hends hclimb
      have hnone : (nextKind (closing :: (more ++ rest))).operator? = none := by
        rw [nextKind, hclosing]
        rfl
      have hstop := continues_of_noOperator hnone
      have hinner : Reads n (.expression 0) d.word d.tree (closing :: (more ++ rest)) :=
        ih.alone hlevels (show (0 : Int) < 50 by decide) (hstop 51) (hstop 0)
      exact .expression (.brackets hopening hclosing hinner) hclimb
  | negation t d hkind ih =>
      intro n power more rest e hlevels hpower hends hclimb
      have hinner : Reads n (.expression minusPower) d.word d.tree (more ++ rest) :=
        ih.alone hlevels trivial trivial (Phrase.continues_eq_false (by decide) _)
      exact .expression (.negation hkind hinner) hclimb

/-- What derives as a sum is read with enough levels, before anything that is no
operator. -/
theorem reads (d : Derivation .sum) {n : Nat} {rest : List Token} (hlevels : d.levels < n)
    (hrest : (nextKind rest).operator? = none) : Reads n (.expression 0) d.word d.tree rest := by
  have hstop := continues_of_noOperator hrest
  exact d.continued.alone hlevels (show (0 : Int) < 50 by decide) (hstop 51) (hstop 0)

end Derivation

/-! ## Reading all tokens -/

/-- The tokens before the first end. -/
def Token.beforeEnd (ts : List Token) : List Token := ts.takeWhile (·.kind != .exprEnd)

namespace Token

theorem beforeEnd_append {word rest : List Token} (hword : ∀ t ∈ word, t.kind ≠ .exprEnd)
    (hrest : nextKind rest = .exprEnd) : beforeEnd (word ++ rest) = word := by
  have hstop : rest.takeWhile (·.kind != .exprEnd) = [] := by
    cases rest with
    | nil => rfl
    | cons t rest =>
        change t.kind = .exprEnd at hrest
        simp [hrest]
  rw [beforeEnd, List.takeWhile_append_of_pos (by simpa using hword), hstop, List.append_nil]

/-- Behind the tokens before the first end, there is an end. -/
theorem exists_eq_beforeEnd_append (ts : List Token) :
    ∃ rest, ts = beforeEnd ts ++ rest ∧ nextKind rest = .exprEnd := by
  refine ⟨ts.dropWhile (·.kind != .exprEnd), List.takeWhile_append_dropWhile.symm, ?_⟩
  induction ts with
  | nil => rfl
  | cons t ts ih =>
      by_cases hkind : t.kind = .exprEnd
      · simp [hkind, nextKind]
      · simpa [hkind] using ih

end Token

namespace Parser

/-- A tree that is read from the start, up to an end, derives from the tokens
before the end. -/
theorem derives_of_parse {ts : List Token} {e : Expr} (h : parse ts = .ok e) :
    Derives .sum (Token.beforeEnd ts) e := by
  obtain ⟨word, rest, rfl, hread, hend⟩ := parse_eq_ok_iff.mp h
  rw [Token.beforeEnd_append hread.not_exprEnd hend]
  exact hread.derived

/-- One reading cannot both end in a tree and fail. -/
theorem Reads.not_fails {n : Nat} {stage : Stage} {word word' rest rest' : List Token} {e : Expr}
    {cause : ParseError} (h : Reads n stage word e rest) (h' : Fails n stage word' cause rest')
    (hsame : word ++ rest = word' ++ rest') : False := by
  have heq := h.read_eq
  rw [hsame, h'.read_eq] at heq
  simp [Step.ok, Step.fail] at heq

/-- What derives is read, unless the levels run out. -/
theorem parse_of_derives {ts : List Token} {e : Expr} (h : Derives .sum (Token.beforeEnd ts) e) :
    parse ts = .ok e ∨ ∃ index, parse ts = .error ⟨index, .nestingTooDeep⟩ := by
  obtain ⟨d, hword, rfl⟩ := h
  obtain ⟨rest, hts, hend⟩ := Token.exists_eq_beforeEnd_append ts
  rw [← hword] at hts
  -- With this many levels the derivation is read, and failures other than for
  -- want of levels stay.
  have henough : maxDepth ≤ max maxDepth (d.levels + 1) := Nat.le_max_left _ _
  have hread : Reads (max maxDepth (d.levels + 1)) (.expression 0) d.word d.tree rest :=
    d.reads (by omega) (by simp [hend, Kind.operator?])
  rcases reads_or_fails maxDepth 0 ts with ⟨word, e, rest', hsplit, hr⟩ | ⟨word, cause, rest', hsplit, hf⟩
  · obtain ⟨rfl, rfl, rfl⟩ := hread.unique (hr.mono henough) (hts.symm.trans hsplit)
    exact .inl (parse_eq_ok_iff.mpr ⟨_, _, hsplit, hr, hend⟩)
  · by_cases hcause : cause = .nestingTooDeep
    · subst hcause
      exact .inr ⟨word.length, parse_eq_error_iff.mpr ⟨_, _, hsplit, rfl, .inl hf⟩⟩
    · exact (hread.not_fails (hf.mono hcause henough) (hts.symm.trans hsplit)).elim

/-- What derives is read up to an end, unless it needs more levels than there are. -/
theorem parse_of_derivation (d : Derivation .sum) {rest : List Token}
    (hend : nextKind rest = .exprEnd) :
    parse (d.word ++ rest) = .ok d.tree ∨
      maxDepth ≤ d.levels ∧ ∃ index, parse (d.word ++ rest) = .error ⟨index, .nestingTooDeep⟩ := by
  have hrest : (nextKind rest).operator? = none := by rw [hend]; rfl
  by_cases hlevels : d.levels < maxDepth
  · exact .inl (parse_eq_ok_iff.mpr ⟨_, _, rfl, d.reads hlevels hrest, hend⟩)
  · have hword : Token.beforeEnd (d.word ++ rest) = d.word :=
      Token.beforeEnd_append (d.reads (Nat.lt_succ_self _) hrest).not_exprEnd hend
    exact (parse_of_derives ⟨d, hword.symm, rfl⟩).imp_right fun hdeep =>
      ⟨Nat.le_of_not_lt hlevels, hdeep⟩

/-- A misreading of tokens whose numbers have values is an unexpected token or
too much nesting. -/
theorem cause_of_parse {ts : List Token} (hvalues : Token.NumbersHaveValues ts) {m : Misreading}
    (h : parse ts = .error m) :
    m.cause.isUnexpectedToken = true ∨ m.cause = .nestingTooDeep :=
  ParseError.isUnexpectedToken_or_nestingTooDeep (not_internal_of_parse hvalues h)

end Parser

/-- A word has at most one tree. -/
theorem Derives.unique {word : List Token} {e e' : Expr} (h : Derives .sum word e)
    (h' : Derives .sum word e') : e = e' := by
  obtain ⟨d, rfl, rfl⟩ := h
  obtain ⟨d', hword, rfl⟩ := h'
  have hread : Reads (max d.levels d'.levels + 1) (.expression 0) d.word d.tree [] :=
    d.reads (by omega) rfl
  have hread' : Reads (max d.levels d'.levels + 1) (.expression 0) d'.word d'.tree [] :=
    d'.reads (by omega) rfl
  exact (hread.unique hread' (by rw [hword])).2.1

/-- **Reading accepts exactly the grammar.**  The tree that is read from tokens is
the one that derives from those before the first end.  If one derives, it is
read or the nesting is too deep; if none does, a token is unexpected or the
nesting is too deep.  No word has two trees. -/
theorem parse_exact (ts : List Token) (hvalues : Token.NumbersHaveValues ts) :
    (∀ e, parse ts = .ok e → Derives .sum (Token.beforeEnd ts) e) ∧
    (∀ e, Derives .sum (Token.beforeEnd ts) e →
      parse ts = .ok e ∨ ∃ index, parse ts = .error ⟨index, .nestingTooDeep⟩) ∧
    ((¬ ∃ e, Derives .sum (Token.beforeEnd ts) e) → ∃ m, parse ts = .error m ∧
      (m.cause.isUnexpectedToken = true ∨ m.cause = .nestingTooDeep)) ∧
    ∀ word e e', Derives .sum word e → Derives .sum word e' → e = e' := by
  refine ⟨fun e => derives_of_parse, fun e => parse_of_derives, fun hnone => ?_,
    fun word e e' => Derives.unique⟩
  cases hparse : parse ts with
  | ok e => exact (hnone ⟨e, derives_of_parse hparse⟩).elim
  | error m => exact ⟨m, rfl, cause_of_parse hvalues hparse⟩

/-- In `0 - 0`, an end, and `*`, only the difference counts. -/
theorem parse_exact_difference :
    let zero : Token := ⟨.number, "0", some (.zero false), 0⟩
    let ts := [zero, ⟨.minus, "-", none, 1⟩, zero, .finish 3, ⟨.star, "*", none, 3⟩]
    let e := Expr.binary .sub (.number (.zero false)) (.number (.zero false))
    Token.NumbersHaveValues ts ∧ parse ts = .ok e ∧ Derives .sum (Token.beforeEnd ts) e := by
  intro zero ts e
  have hvalues : Token.NumbersHaveValues ts := by decide
  have hparse : parse ts = .ok e := by cbv
  exact ⟨hvalues, hparse, (parse_exact ts hvalues).1 e hparse⟩

end Abacus
