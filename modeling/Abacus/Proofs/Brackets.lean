import Abacus.Proofs.Totality

/-!
# Bracketed subexpressions

A bracket closes the one that was opened last, so a bracketed word lies inside a phrase
as a whole or not at all (`Balanced.split_bracketed`).  Where it lies is a hole: any
other sum may stand between the same brackets, and the value of the phrase depends on
it only through its value (`Derivation.hasHole`).  So a subexpression in brackets
may be replaced by one of the same value, unless the new one runs out of levels
(`bracketed_replaceable`).
-/

namespace Abacus

/-- How a token of the kind changes the number of open brackets. -/
def Kind.opens : Kind → Int
  | bracketOpen => 1
  | bracketClose => -1
  | _ => 0

namespace Token

variable {opening closing t : Token} {before after word word' inside : List Token}

/-- The opening brackets less the closing ones. -/
def openBrackets : List Token → Int
  | [] => 0
  | t :: ts => t.kind.opens + openBrackets ts

@[simp] theorem openBrackets_nil : openBrackets [] = 0 := rfl

@[simp] theorem openBrackets_cons (t : Token) (ts : List Token) :
    openBrackets (t :: ts) = t.kind.opens + openBrackets ts := rfl

@[simp] theorem openBrackets_append (ts us : List Token) :
    openBrackets (ts ++ us) = openBrackets ts + openBrackets us := by
  induction ts with
  | nil => simp
  | cons t ts ih => simp [ih, Int.add_assoc]

/-- No bracket is closed before it is opened, and none stays open. -/
structure Balanced (word : List Token) : Prop where
  nonneg : ∀ {before after}, word = before ++ after → 0 ≤ openBrackets before
  closed : openBrackets word = 0

namespace Balanced

theorem single (ht : t.kind.opens = 0) : Balanced [t] where
  nonneg := by
    intro before after h
    rcases List.append_eq_cons_iff.mp h.symm with ⟨rfl, -⟩ | ⟨rest, rfl, hrest⟩
    · simp
    · obtain ⟨rfl, -⟩ := List.append_eq_nil_iff.mp hrest.symm
      simp [ht]
  closed := by simp [ht]

theorem append (h : Balanced word) (h' : Balanced word') : Balanced (word ++ word') where
  nonneg := by
    intro before after hsplit
    rcases List.append_eq_append_iff.mp hsplit with ⟨more, rfl, hmore⟩ | ⟨more, hmore, -⟩
    · have hfront := h.closed
      have hback := h'.nonneg hmore
      rw [openBrackets_append]
      omega
    · exact h.nonneg hmore
  closed := by rw [openBrackets_append, h.closed, h'.closed, Int.zero_add]

/-- What is no bracket joins balanced words to one. -/
theorem join (h : Balanced word) (ht : t.kind.opens = 0) (h' : Balanced word') :
    Balanced (word ++ t :: word') := h.append ((single ht).append h')

/-- In front of the bracket that closes it, a balanced word leaves none closed too much. -/
theorem nonneg_of_prefix_closing (h : Balanced inside) {more rest : List Token}
    (hsplit : inside ++ [closing] = more ++ rest) (hrest : rest ≠ []) : 0 ≤ openBrackets more := by
  rcases List.eq_nil_or_concat rest with rfl | ⟨rest, last, rfl⟩
  · exact absurd rfl hrest
  · rw [List.concat_eq_append, ← List.append_assoc] at hsplit
    exact h.nonneg (List.append_inj_left' hsplit rfl)

theorem brackets (hopening : opening.kind = .bracketOpen) (hclosing : closing.kind = .bracketClose)
    (h : Balanced inside) : Balanced (opening :: (inside ++ [closing])) where
  nonneg := by
    intro before after hsplit
    rcases List.append_eq_cons_iff.mp hsplit.symm with ⟨rfl, -⟩ | ⟨more, rfl, hmore⟩
    · simp
    · by_cases hafter : after = []
      · rw [hafter, List.append_nil] at hmore
        simp [← hmore, h.closed, hopening, hclosing, Kind.opens]
      · have hinside := h.nonneg_of_prefix_closing hmore hafter
        simp only [openBrackets_cons, hopening, Kind.opens]
        omega
  closed := by simp [h.closed, hopening, hclosing, Kind.opens]

/-- **A bracketed word lies in a balanced one as a whole or not at all.** -/
theorem split_bracketed (h : Balanced word) (hinside : Balanced inside)
    (hopening : opening.kind = .bracketOpen) {more : List Token}
    (hsplit : word ++ more = before ++ opening :: (inside ++ closing :: after)) :
    (∃ behind, word = before ++ opening :: (inside ++ closing :: behind) ∧
      after = behind ++ more) ∨
    ∃ between, before = word ++ between ∧
      more = between ++ opening :: (inside ++ closing :: after) := by
  rcases List.append_eq_append_iff.mp hsplit with ⟨between, hbefore, hmore⟩ | ⟨piece, hword, hpiece⟩
  · exact .inr ⟨between, hbefore, hmore⟩
  · rcases List.append_eq_cons_iff.mp hpiece.symm with ⟨rfl, hmore⟩ | ⟨piece, rfl, hcut⟩
    · exact .inr ⟨[], by simpa using hword.symm, hmore⟩
    · have hbehind : (inside ++ [closing]) ++ after = piece ++ more := by
        rw [← hcut, List.append_assoc, List.singleton_append]
      rcases List.append_eq_append_iff.mp hbehind with
        ⟨behind, hpiece, hafter⟩ | ⟨rest, hpiece, hmore⟩
      · refine .inl ⟨behind, ?_, hafter⟩
        rw [hword, hpiece, List.append_assoc, List.singleton_append]
      · by_cases hrest : rest = []
        · subst hrest
          refine .inl ⟨[], ?_, hmore.symm⟩
          rw [hword, ← List.append_nil piece, ← hpiece]
        · -- The word would end with the bracket open.
          have hfront := h.nonneg hword
          have hopen := hinside.nonneg_of_prefix_closing hpiece hrest
          have hclosed := h.closed
          rw [hword] at hclosed
          simp only [openBrackets_append, openBrackets_cons, hopening, Kind.opens] at hclosed
          omega

/-- Likewise in front of a token that is no bracket. -/
theorem split_bracketed_cons (h : Balanced word) (ht : t.kind.opens = 0)
    (hinside : Balanced inside) (hopening : opening.kind = .bracketOpen) {more : List Token}
    (hsplit : word ++ t :: more = before ++ opening :: (inside ++ closing :: after)) :
    (∃ behind, word = before ++ opening :: (inside ++ closing :: behind) ∧
      after = behind ++ t :: more) ∨
    ∃ between, before = word ++ t :: between ∧
      more = between ++ opening :: (inside ++ closing :: after) := by
  rcases h.split_bracketed hinside hopening hsplit with hfirst | ⟨between, rfl, hmore⟩
  · exact .inl hfirst
  · rcases List.append_eq_cons_iff.mp hmore.symm with ⟨-, hcons⟩ | ⟨between, rfl, hrest⟩
    · cases hcons
      simp [hopening, Kind.opens] at ht
    · exact .inr ⟨between, rfl, hrest⟩

/-- A closing bracket does not stand inside a balanced word behind another. -/
theorem not_closing (h : Balanced word) (hword : Balanced word')
    (hclosing : closing.kind = .bracketClose) : word ≠ word' ++ closing :: after := by
  intro heq
  have hsplit : word = (word' ++ [closing]) ++ after := by simpa using heq
  have hprefix := h.nonneg hsplit
  have hclosed := hword.closed
  simp only [openBrackets_append, openBrackets_cons, hclosing, Kind.opens, openBrackets_nil]
    at hprefix
  omega

/-- The bracket that closes a balanced word is the first that can. -/
theorem eq_of_closing (h : Balanced word) (h' : Balanced inside) {closing' : Token}
    (hclosing : closing.kind = .bracketClose) (hclosing' : closing'.kind = .bracketClose)
    (heq : word ++ [closing'] = inside ++ closing :: after) :
    word = inside ∧ closing' = closing ∧ after = [] := by
  rcases List.append_eq_append_iff.mp heq with ⟨more, hinside, hmore⟩ | ⟨more, hword, hmore⟩
  · cases more with
    | nil => simpa [hinside] using hmore
    | cons t more =>
        obtain ⟨rfl, -⟩ := List.cons.inj hmore
        exact absurd hinside (h'.not_closing h hclosing')
  · cases more with
    | nil => simpa [hword, eq_comm] using hmore
    | cons t more =>
        obtain ⟨rfl, -⟩ := List.cons.inj hmore
        exact absurd hword (h.not_closing h' hclosing)

end Balanced

end Token

open Token

/-- The operators of the grammar are no brackets. -/
theorem Phrase.opens_eq_zero {phrase : Phrase} {k : Kind} {op : Operator}
    (h : phrase.operator? k = some op) : k.opens = 0 := by
  cases phrase <;> cases k <;> simp_all [operator?, Kind.opens]

/-- No operator is a bracket. -/
theorem Kind.Between.opens_eq_zero {k : Kind} {op : Operator} {left right : Int}
    (h : k.Between op left right) : k.opens = 0 := by
  rcases Phrase.operator?_of_between h with ⟨hop, -⟩ | ⟨hop, -⟩ <;> exact Phrase.opens_eq_zero hop

/-- What derives from a phrase is balanced. -/
theorem Derivation.balanced {phrase : Phrase} (d : Derivation phrase) : Balanced d.word := by
  induction d with
  | ofProduct d ih => exact ih
  | sum l t op r hop ihl ihr => exact ihl.join (Phrase.opens_eq_zero hop) ihr
  | ofFactor d ih => exact ih
  | product l t op r hop ihl ihr => exact ihl.join (Phrase.opens_eq_zero hop) ihr
  | number t x hkind hvalue => exact .single (by rw [hkind]; rfl)
  | brackets opening d closing hopening hclosing ih => exact .brackets hopening hclosing ih
  | negation t d hkind ih => exact (Balanced.single (by rw [hkind]; rfl)).append ih

/-! ## Holes -/

/-- A node has the same value over an operand of the same value. -/
theorem Expr.value_unary_congr (op : Operator) {e e' : Expr} (h : e.value = e'.value) :
    (unary op e).value = (unary op e').value := by
  simp only [value, h]

theorem Expr.value_binary_congr (op : Operator) {l l' r r' : Expr} (hl : l.value = l'.value)
    (hr : r.value = r'.value) : (binary op l r).value = (binary op l' r').value := by
  simp only [value, hl, hr]

/-- A place in the words of a phrase where any sum may stand between the two brackets.
The value of the phrase depends on the sum only through its value. -/
structure Hole (phrase : Phrase) (before : List Token) (opening closing : Token)
    (after : List Token) where
  fill : Derivation .sum → Derivation phrase
  word_fill : ∀ d, (fill d).word = before ++ opening :: (d.word ++ closing :: after)
  value_fill : ∀ d d', d.tree.value = d'.tree.value →
    (fill d).tree.value = (fill d').tree.value

namespace Derivation

variable {phrase outer : Phrase} {d : Derivation phrase} {inner : Derivation .sum}
  {opening closing : Token} {before after : List Token}

/-- The inner sum stands between the brackets of a hole of the phrase. -/
def HasHole (d : Derivation phrase) (inner : Derivation .sum) (opening closing : Token)
    (before after : List Token) : Prop :=
  ∃ hole : Hole phrase before opening closing after, (hole.fill inner).tree = d.tree

/-- The brackets around a sum are a hole for sums with its words: they have its tree. -/
theorem HasHole.here {d : Derivation .sum} (hopening : opening.kind = .bracketOpen)
    (hclosing : closing.kind = .bracketClose) (hword : d.word = inner.word) :
    (brackets opening d closing hopening hclosing).HasHole inner opening closing [] [] := by
  have htree : inner.tree = d.tree := Derives.unique ⟨inner, rfl, rfl⟩ ⟨d, hword, rfl⟩
  exact
    ⟨{ fill := fun d => .brackets opening d closing hopening hclosing
       word_fill := fun d => rfl
       value_fill := fun d d' h => h }, htree⟩

/-- A hole of a phrase is one of what is made of the phrase with more words around it. -/
theorem HasHole.map (h : d.HasHole inner opening closing before after) (front back : List Token)
    (f : Derivation phrase → Derivation outer) (node : Expr → Expr)
    (hword : ∀ d, (f d).word = front ++ (d.word ++ back)) (htree : ∀ d, (f d).tree = node d.tree)
    (hvalue : ∀ e e', e.value = e'.value → (node e).value = (node e').value) :
    (f d).HasHole inner opening closing (front ++ before) (after ++ back) := by
  obtain ⟨hole, hfill⟩ := h
  refine ⟨⟨fun d => f (hole.fill d), fun d => ?_, fun d d' hsame => ?_⟩, ?_⟩
  · simp [hword, hole.word_fill]
  · rw [htree, htree]
    exact hvalue _ _ (hole.value_fill d d' hsame)
  · change (f (hole.fill inner)).tree = (f d).tree
    rw [htree, htree, hfill]

/-- What an operator joins has a hole where one of its sides has one. -/
theorem HasHole.join {left right : Phrase} {l : Derivation left} {r : Derivation right} {t : Token}
    {op : Operator} (f : Derivation left → Derivation right → Derivation outer)
    (hfword : ∀ l r, (f l r).word = l.word ++ t :: r.word)
    (htree : ∀ l r, (f l r).tree = .binary op l.tree r.tree) (ht : t.kind.opens = 0)
    (hopening : opening.kind = .bracketOpen)
    (hl : ∀ {before after}, l.word = before ++ opening :: (inner.word ++ closing :: after) →
      l.HasHole inner opening closing before after)
    (hr : ∀ {before after}, r.word = before ++ opening :: (inner.word ++ closing :: after) →
      r.HasHole inner opening closing before after)
    (hword : l.word ++ t :: r.word = before ++ opening :: (inner.word ++ closing :: after)) :
    (f l r).HasHole inner opening closing before after := by
  rcases l.balanced.split_bracketed_cons ht inner.balanced hopening hword with
    ⟨behind, hleft, rfl⟩ | ⟨between, rfl, hright⟩
  · exact (hl hleft).map [] (t :: r.word) (fun l => f l r) (fun e => .binary op e r.tree)
      (fun l => hfword l r) (fun l => htree l r) (fun _ _ h => Expr.value_binary_congr op h rfl)
  · have hhole := (hr hright).map (l.word ++ [t]) [] (f l) (fun e => .binary op l.tree e)
      (fun r => by simp [hfword]) (htree l) (fun _ _ h => Expr.value_binary_congr op rfl h)
    simpa using hhole

/-- **A bracketed word of a phrase stands in a hole.** -/
theorem hasHole (d : Derivation phrase) (inner : Derivation .sum)
    (hopening : opening.kind = .bracketOpen) (hclosing : closing.kind = .bracketClose)
    (hword : d.word = before ++ opening :: (inner.word ++ closing :: after)) :
    d.HasHole inner opening closing before after := by
  induction d generalizing before after with
  | ofProduct d ih =>
      have hhole := (ih hword).map [] [] .ofProduct id (by simp [word]) (fun _ => rfl)
        (fun _ _ => id)
      simpa using hhole
  | sum l t op r hop ihl ihr =>
      exact .join (fun l r => .sum l t op r hop) (fun _ _ => rfl) (fun _ _ => rfl)
        (Phrase.opens_eq_zero hop) hopening ihl ihr hword
  | ofFactor d ih =>
      have hhole := (ih hword).map [] [] .ofFactor id (by simp [word]) (fun _ => rfl)
        (fun _ _ => id)
      simpa using hhole
  | product l t op r hop ihl ihr =>
      exact .join (fun l r => .product l t op r hop) (fun _ _ => rfl) (fun _ _ => rfl)
        (Phrase.opens_eq_zero hop) hopening ihl ihr hword
  | number t x hkind hvalue =>
      have hlength := congrArg List.length hword
      simp only [word, List.length_append, List.length_cons, List.length_nil] at hlength
      omega
  | brackets first d last hfirst hlast ih =>
      rcases List.append_eq_cons_iff.mp hword.symm with ⟨rfl, hcons⟩ | ⟨between, rfl, hinside⟩
      · obtain ⟨rfl, hinside⟩ := List.cons.inj hcons
        obtain ⟨hsame, rfl, rfl⟩ :=
          d.balanced.eq_of_closing inner.balanced hclosing hlast hinside.symm
        exact .here hopening hclosing hsame
      · rcases d.balanced.split_bracketed inner.balanced hopening hinside with
          ⟨behind, hdeeper, rfl⟩ | ⟨_, _, hbehind⟩
        · exact (ih hdeeper).map [first] [last] (fun d => .brackets first d last hfirst hlast) id
            (fun _ => rfl) (fun _ => rfl) (fun _ _ => id)
        · have hlength := congrArg List.length hbehind
          simp only [List.length_append, List.length_cons, List.length_nil] at hlength
          omega
  | negation t d hkind ih =>
      rcases List.append_eq_cons_iff.mp hword.symm with ⟨-, hcons⟩ | ⟨between, rfl, hinside⟩
      · obtain ⟨rfl, -⟩ := List.cons.inj hcons
        cases hopening.symm.trans hkind
      · have hhole := (ih hinside).map [t] [] (fun d => .negation t d hkind) (.unary .neg)
          (by simp [word]) (fun _ => rfl) (fun _ _ => Expr.value_unary_congr .neg)
        simpa using hhole

end Derivation

/-! ## Replacing a subexpression -/

section Replacing

variable {before inside inside' after : List Token} {opening closing : Token}

/-- Without an end in front of it, the brackets and what is inside come before the end. -/
theorem Token.beforeEnd_bracketed (hopening : opening.kind = .bracketOpen)
    (hclosing : closing.kind = .bracketClose) (hbefore : ∀ t ∈ before, t.kind ≠ .exprEnd)
    (hinside : ∀ t ∈ inside, t.kind ≠ .exprEnd) :
    beforeEnd (before ++ opening :: (inside ++ closing :: after)) =
      before ++ opening :: (inside ++ closing :: beforeEnd after) := by
  simp only [beforeEnd]
  rw [List.takeWhile_append_of_pos (by simpa using hbefore),
    List.takeWhile_cons_of_pos (by simp [hopening]),
    List.takeWhile_append_of_pos (by simpa using hinside),
    List.takeWhile_cons_of_pos (by simp [hclosing])]

/-- What comes behind an end does not come before the first one. -/
theorem Token.beforeEnd_append_of_exprEnd (hend : ¬ ∀ t ∈ before, t.kind ≠ .exprEnd)
    (rest : List Token) : beforeEnd (before ++ rest) = beforeEnd before := by
  have hshorter : (before.takeWhile (·.kind != .exprEnd)).length ≠ before.length := by
    intro hlength
    have hall := (List.takeWhile_prefix _).eq_of_length hlength
    refine hend fun t ht => ?_
    rw [← hall] at ht
    have hkept := List.mem_takeWhile_imp ht
    exact bne_iff_ne.mp hkept
  rw [beforeEnd, List.takeWhile_append, if_neg hshorter]
  rfl

/-- Tokens without an end that are read derive as a whole. -/
theorem Parser.exists_derivation_of_parse {e : Expr} (h : parse inside = .ok e)
    (hend : ∀ t ∈ inside, t.kind ≠ .exprEnd) :
    ∃ d : Derivation .sum, d.word = inside ∧ d.tree = e := by
  have hwhole : beforeEnd (inside ++ []) = inside := beforeEnd_append hend rfl
  rw [List.append_nil] at hwhole
  have hderives := derives_of_parse h
  rwa [hwhole] at hderives

/-- What derives with one sum in brackets derives with any other of the same value, as a
tree of the same value. -/
theorem Derives.replace (d d' : Derivation .sum) (hopening : opening.kind = .bracketOpen)
    (hclosing : closing.kind = .bracketClose) (hend : ∀ t ∈ d.word, t.kind ≠ .exprEnd)
    (hend' : ∀ t ∈ d'.word, t.kind ≠ .exprEnd) (hvalue : d.tree.value = d'.tree.value) {e : Expr}
    (h : Derives .sum (beforeEnd (before ++ opening :: (d.word ++ closing :: after))) e) :
    ∃ e', Derives .sum (beforeEnd (before ++ opening :: (d'.word ++ closing :: after))) e' ∧
      e.value = e'.value := by
  by_cases hbefore : ∀ t ∈ before, t.kind ≠ .exprEnd
  · rw [beforeEnd_bracketed hopening hclosing hbefore hend] at h
    obtain ⟨whole, hword, rfl⟩ := h
    obtain ⟨hole, htree⟩ := whole.hasHole d hopening hclosing hword
    rw [beforeEnd_bracketed hopening hclosing hbefore hend', ← htree]
    exact ⟨_, ⟨hole.fill d', hole.word_fill d', rfl⟩, hole.value_fill d d' hvalue⟩
  · rw [beforeEnd_append_of_exprEnd hbefore] at h ⊢
    exact ⟨e, h, rfl⟩

end Replacing

/-- **A bracketed subexpression may be replaced** by one of the same value.  If the
tokens around it are read with the one inside, they are read with the other, as a tree
of the same value, or the nesting is too deep. -/
theorem bracketed_replaceable {before inside inside' after : List Token} {opening closing : Token}
    {e e' whole : Expr} (hopening : opening.kind = .bracketOpen)
    (hclosing : closing.kind = .bracketClose) (hend : ∀ t ∈ inside, t.kind ≠ .exprEnd)
    (hend' : ∀ t ∈ inside', t.kind ≠ .exprEnd) (hinside : parse inside = .ok e)
    (hinside' : parse inside' = .ok e') (hvalue : e.evaluate = e'.evaluate)
    (hwhole : parse (before ++ opening :: (inside ++ closing :: after)) = .ok whole) :
    (∃ whole' x, parse (before ++ opening :: (inside' ++ closing :: after)) = .ok whole' ∧
      whole.evaluate = .ok x ∧ whole'.evaluate = .ok x) ∨
    ∃ index, parse (before ++ opening :: (inside' ++ closing :: after)) =
      .error ⟨index, .nestingTooDeep⟩ := by
  obtain ⟨d, rfl, rfl⟩ := Parser.exists_derivation_of_parse hinside hend
  obtain ⟨d', rfl, rfl⟩ := Parser.exists_derivation_of_parse hinside' hend'
  rw [Expr.evaluate_eq, Expr.evaluate_eq] at hvalue
  obtain ⟨whole', hderives, hsame⟩ := Derives.replace d d' hopening hclosing hend hend' hvalue
    (Parser.derives_of_parse hwhole)
  refine (Parser.parse_of_derives hderives).imp_left fun hparse => ?_
  obtain ⟨x, hx⟩ := exists_evaluate_of_parse hwhole
  refine ⟨whole', x, hparse, hx, ?_⟩
  rwa [Expr.evaluate_eq, ← hsame, ← Expr.evaluate_eq]

/-- In `- ( 0 / 0 )` the quotient may be replaced by a sum that is no number either. -/
theorem bracketed_replaceable_quotient :
    let sign (k : Kind) : Token := ⟨k, "", none, 0⟩
    let zero : Token := ⟨.number, "0", some (.zero false), 0⟩
    let inside := [zero, sign .slash, zero]
    let inside' := [sign .minus] ++ sign .bracketOpen :: inside ++
      [sign .bracketClose, sign .plus, zero]
    let quotient := Expr.binary .div (.number (.zero false)) (.number (.zero false))
    let sum := Expr.binary .add (.unary .neg quotient) (.number (.zero false))
    parse inside = .ok quotient ∧ parse inside' = .ok sum ∧ quotient.evaluate = sum.evaluate ∧
      parse ([sign .minus] ++ sign .bracketOpen :: (inside ++ [sign .bracketClose])) =
        .ok (.unary .neg quotient) ∧
      ∃ whole x, parse ([sign .minus] ++ sign .bracketOpen :: (inside' ++ [sign .bracketClose])) =
        .ok whole ∧ (Expr.unary .neg quotient).evaluate = .ok x ∧ whole.evaluate = .ok x := by
  intro sign zero inside inside' quotient sum
  have hinside : parse inside = .ok quotient := by cbv
  have hinside' : parse inside' = .ok sum := by cbv
  have hwhole : parse ([sign .minus] ++ sign .bracketOpen :: (inside ++ [sign .bracketClose])) =
      .ok (.unary .neg quotient) := by cbv
  have hread : parse ([sign .minus] ++ sign .bracketOpen :: (inside' ++ [sign .bracketClose])) =
      .ok (.unary .neg sum) := by cbv
  have hvalue : quotient.evaluate = sum.evaluate := by
    rw [Expr.evaluate_eq, Expr.evaluate_eq]
    rfl
  have hreplaced := bracketed_replaceable rfl rfl (by decide) (by decide) hinside hinside' hvalue
    hwhole
  refine ⟨hinside, hinside', hvalue, hwhole, hreplaced.resolve_right fun hdeep => ?_⟩
  obtain ⟨index, hdeep⟩ := hdeep
  cases hread.symm.trans hdeep

end Abacus
