import Mathlib.Data.List.SplitBy
import Mathlib.Logic.Relation
import Abacus.Proofs.TidyLine
import Abacus.Proofs.Totality

/-!
# Spaces between words

Scanning sees a line as its words: the runs of digits and points, each as long as it can
be, and the other characters one by one.  Spaces only part the words.  So lines of the same
words are answered alike: with the same number, with the same misreading and the same
report on it, or with the same fault in the characters at the same place among them.

The induction is on a walk along two such lines at once, `Respaced`.  It takes a word from
both or a space from one, and scanning goes along with it on either line
(`scannedAlike_of_respaced`).  A space that is put into a line anywhere but inside a run
leaves the words as they are, and it moves only what is behind it; and lines of the same
words come from one another in such steps (`wordsOf_eq_iff`, `calculate_respaced`).
-/

namespace Abacus

variable {cs cs' before after run rest : List Char} {c : Char}

/-! ## The words of a line -/

/-- The runs of digits and points of a line, each as long as it can be, and the other
characters one by one, but not the spaces. -/
def wordsOf (cs : List Char) : List (List Char) :=
  (cs.splitBy fun c d => isNumeric c && isNumeric d).filter (· ≠ [' '])

/-- No run goes across from one text into the other. -/
def Apart (before after : List Char) : Prop :=
  ∀ c ∈ before.getLast?, ∀ d ∈ after.head?, ¬ (isNumeric c = true ∧ isNumeric d = true)

theorem apart_of_runEnds (before : List Char) (h : RunEnds after) : Apart before after := by
  intro c _ d hd hnumeric
  simp [h d hd] at hnumeric

theorem apart_singleton (hc : isNumeric c = false) (after : List Char) : Apart [c] after := by
  intro d hd _ _ hnumeric
  obtain rfl : c = d := Option.some.inj hd
  simp [hc] at hnumeric

theorem wordsOf_append (h : Apart before after) :
    wordsOf (before ++ after) = wordsOf before ++ wordsOf after := by
  have hends : ∀ c ∈ before.getLast?, ∀ d ∈ after.head?, (isNumeric c && isNumeric d) = false := by
    intro c hc d hd
    simpa using h c hc d hd
  rw [wordsOf, List.splitBy_append hends, List.filter_append, wordsOf, wordsOf]

theorem wordsOf_run (hrun : IsRun run) (hrest : RunEnds rest) :
    wordsOf (run ++ rest) = run :: wordsOf rest := by
  have hchain : run.IsChain fun c d => (isNumeric c && isNumeric d) = true := by
    apply List.Pairwise.isChain
    apply List.pairwise_of_forall_mem_list
    intro c hc d hd
    rw [hrun.numeric c hc, hrun.numeric d hd]
    rfl
  have hspace : run ≠ [' '] := by
    rintro rfl
    exact absurd (hrun.numeric ' ' List.mem_cons_self) (by decide)
  have hword : wordsOf run = [run] := by
    rw [wordsOf, List.splitBy_of_isChain hrun.ne_nil hchain]
    simp [hspace]
  rw [wordsOf_append (apart_of_runEnds run hrest), hword, List.singleton_append]

theorem wordsOf_space (rest : List Char) : wordsOf (' ' :: rest) = wordsOf rest := by
  have hspace : wordsOf [' '] = [] := by decide
  rw [← List.singleton_append, wordsOf_append (apart_singleton (by decide) rest), hspace,
    List.nil_append]

theorem wordsOf_single (hc : isNumeric c = false) (hspace : c ≠ ' ') (rest : List Char) :
    wordsOf (c :: rest) = [c] :: wordsOf rest := by
  have hword : wordsOf [c] = [[c]] := by
    simp [wordsOf, List.splitBy, List.splitBy.loop, hspace]
  rw [← List.singleton_append, wordsOf_append (apart_singleton hc rest), hword,
    List.singleton_append]

/-- A space between words that are apart is no word and joins none. -/
theorem wordsOf_insert (h : Apart before after) :
    wordsOf (before ++ ' ' :: after) = wordsOf (before ++ after) := by
  have hspace : Apart before (' ' :: after) :=
    apart_of_runEnds before (runEnds_cons (by decide) after)
  rw [wordsOf_append hspace, wordsOf_append h, wordsOf_space]

/-! ## Two lines of the same words -/

/-- A walk along two lines of the same words: it takes a word from both, or a space from
one of them. -/
inductive Respaced : List Char → List Char → Prop
  | nil : Respaced [] []
  | run {run rest rest' : List Char} (hrun : IsRun run) (hrest : RunEnds rest)
      (hrest' : RunEnds rest') (tail : Respaced rest rest') :
      Respaced (run ++ rest) (run ++ rest')
  | single {c : Char} {rest rest' : List Char} (hc : isNumeric c = false) (hspace : c ≠ ' ')
      (tail : Respaced rest rest') : Respaced (c :: rest) (c :: rest')
  | left {rest rest' : List Char} (tail : Respaced rest rest') : Respaced (' ' :: rest) rest'
  | right {rest rest' : List Char} (tail : Respaced rest rest') : Respaced rest (' ' :: rest')

/-- A line without words has only spaces to walk over. -/
theorem respaced_of_no_words (h : wordsOf cs = []) : Respaced [] cs := by
  induction cs using pieces_induction with
  | nil => exact .nil
  | run run rest hrun hrest ih =>
      rw [wordsOf_run hrun hrest] at h
      cases h
  | single c rest hc ih =>
      by_cases hspace : c = ' '
      · subst hspace
        exact .right (ih ((wordsOf_space rest).symm.trans h))
      · rw [wordsOf_single hc hspace] at h
        cases h

/-- A walk from a run goes over spaces to the same run in the other line. -/
theorem respaced_of_run (hrun : IsRun run) (hrest : RunEnds rest)
    (tail : ∀ rest', wordsOf rest' = wordsOf rest → Respaced rest rest')
    (h : wordsOf cs = run :: wordsOf rest) : Respaced (run ++ rest) cs := by
  induction cs using pieces_induction with
  | nil => cases h
  | run run' rest' hrun' hrest' _ =>
      rw [wordsOf_run hrun' hrest'] at h
      obtain ⟨rfl, hwords⟩ := List.cons.inj h
      exact .run hrun hrest hrest' (tail rest' hwords)
  | single c rest' hc ih =>
      by_cases hspace : c = ' '
      · subst hspace
        exact .right (ih ((wordsOf_space rest').symm.trans h))
      · rw [wordsOf_single hc hspace] at h
        obtain ⟨rfl, -⟩ := List.cons.inj h
        simp [hrun.numeric c List.mem_cons_self] at hc

/-- A walk from another character goes over spaces to the same one in the other line. -/
theorem respaced_of_single (hc : isNumeric c = false) (hspace : c ≠ ' ')
    (tail : ∀ rest', wordsOf rest' = wordsOf rest → Respaced rest rest')
    (h : wordsOf cs = [c] :: wordsOf rest) : Respaced (c :: rest) cs := by
  induction cs using pieces_induction with
  | nil => cases h
  | run run rest' hrun hrest' _ =>
      rw [wordsOf_run hrun hrest'] at h
      obtain ⟨rfl, -⟩ := List.cons.inj h
      simp [hrun.numeric c List.mem_cons_self] at hc
  | single d rest' hd ih =>
      by_cases hspace' : d = ' '
      · subst hspace'
        exact .right (ih ((wordsOf_space rest').symm.trans h))
      · rw [wordsOf_single hd hspace'] at h
        obtain ⟨hword, hwords⟩ := List.cons.inj h
        obtain rfl := List.singleton_inj.mp hword
        exact .single hc hspace (tail rest' hwords)

/-- **Two lines of the same words have a walk along them.** -/
theorem respaced_of_wordsOf (h : wordsOf cs' = wordsOf cs) : Respaced cs cs' := by
  induction cs using pieces_induction generalizing cs' with
  | nil => exact respaced_of_no_words h
  | run run rest hrun hrest ih =>
      rw [wordsOf_run hrun hrest] at h
      exact respaced_of_run hrun hrest (fun _ => ih) h
  | single c rest hc ih =>
      by_cases hspace : c = ' '
      · subst hspace
        exact .left (ih (h.trans (wordsOf_space rest)))
      · rw [wordsOf_single hc hspace] at h
        exact respaced_of_single hc hspace (fun _ => ih) h

/-- The second text has one more space, which is not inside a run. -/
inductive PutsSpace : List Char → List Char → Prop
  | put {before after : List Char} (h : Apart before after) :
      PutsSpace (before ++ after) (before ++ ' ' :: after)

theorem Apart.behind (hc : isNumeric c = false) (front : List Char) (h : Apart before after) :
    Apart (front ++ c :: before) after := by
  intro last hlast d hd
  rw [List.getLast?_append, List.getLast?_cons, Option.some_or] at hlast
  cases hbefore : before.getLast? with
  | none =>
      obtain rfl : c = last := by simpa [hbefore] using hlast
      simp [hc]
  | some last' =>
      obtain rfl : last' = last := by simpa [hbefore] using hlast
      exact h last' hbefore d hd

theorem PutsSpace.behind (hc : isNumeric c = false) (front : List Char) (h : PutsSpace cs cs') :
    PutsSpace (front ++ c :: cs) (front ++ c :: cs') := by
  obtain ⟨hapart⟩ := h
  simpa using PutsSpace.put (hapart.behind hc front)

/-- Spaces behind a character that is in no run do not touch what is in front of it. -/
theorem eqvGen_behind (hc : isNumeric c = false) (front : List Char)
    (h : Relation.EqvGen PutsSpace cs cs') :
    Relation.EqvGen PutsSpace (front ++ c :: cs) (front ++ c :: cs') := by
  induction h with
  | rel cs cs' h => exact .rel _ _ (h.behind hc front)
  | refl cs => exact .refl _
  | symm cs cs' _ ih => exact .symm _ _ ih
  | trans cs middle cs' _ _ ih ih' => exact .trans _ _ _ ih ih'

/-- Along a walk, spaces can be put in and taken out one by one. -/
theorem Respaced.eqvGen (h : Respaced cs cs') : Relation.EqvGen PutsSpace cs cs' := by
  have hput {before after : List Char} (hapart : Apart before after) :
      Relation.EqvGen PutsSpace (before ++ after) (before ++ ' ' :: after) :=
    .rel _ _ (.put hapart)
  have hfirst (rest : List Char) : Relation.EqvGen PutsSpace ([] ++ rest) (' ' :: rest) :=
    hput (by simp [Apart])
  induction h with
  | nil => exact .refl _
  | @run run rest rest' hrun hrest hrest' tail ih =>
      -- What is put in and taken out on the way could touch the run, so a space is put
      -- behind it first.
      have hmiddle : Relation.EqvGen PutsSpace (run ++ ' ' :: rest) (run ++ ' ' :: rest') :=
        eqvGen_behind (by decide) run ih
      exact .trans _ _ _ (hput (apart_of_runEnds run hrest))
        (.trans _ _ _ hmiddle (.symm _ _ (hput (apart_of_runEnds run hrest'))))
  | single hc hspace tail ih => exact eqvGen_behind hc [] ih
  | left tail ih => exact .trans _ _ _ (.symm _ _ (hfirst _)) ih
  | right tail ih => exact .trans _ _ _ ih (hfirst _)

/-- **Lines of the same words** are those that come from one another by putting in and
taking out spaces that are not inside a run. -/
theorem wordsOf_eq_iff : wordsOf cs = wordsOf cs' ↔ Relation.EqvGen PutsSpace cs cs' := by
  refine ⟨fun h => (respaced_of_wordsOf h.symm).eqvGen, fun h => ?_⟩
  induction h with
  | rel cs cs' h =>
      obtain ⟨hapart⟩ := h
      exact (wordsOf_insert hapart).symm
  | refl cs => rfl
  | symm cs cs' _ ih => exact ih.symm
  | trans cs middle cs' _ _ ih ih' => exact ih.trans ih'

/-! ## Places in two lines -/

/-- The same character stands at the two places, no space, and behind the same characters,
spaces apart. -/
structure SamePlace (cs cs' : List Char) (i j : Nat) : Prop where
  before_eq : (cs.take i).filter (· ≠ ' ') = (cs'.take j).filter (· ≠ ' ')
  here : ∃ c, c ≠ ' ' ∧ cs[i]? = some c ∧ cs'[j]? = some c

namespace SamePlace

variable {i j k : Nat}

theorem head (hspace : c ≠ ' ') (rest rest' : List Char) :
    SamePlace (c :: rest) (c :: rest') 0 0 :=
  ⟨rfl, c, hspace, rfl, rfl⟩

theorem behind (piece : List Char) (h : SamePlace cs cs' i j) :
    SamePlace (piece ++ cs) (piece ++ cs') (piece.length + i) (piece.length + j) := by
  obtain ⟨hbefore, c, hspace, hi, hj⟩ := h
  refine ⟨?_, c, hspace, ?_, ?_⟩
  · rw [List.take_length_add_append, List.take_length_add_append, List.filter_append,
      List.filter_append, hbefore]
  · rwa [List.getElem?_append_right (Nat.le_add_right _ _), Nat.add_sub_cancel_left]
  · rwa [List.getElem?_append_right (Nat.le_add_right _ _), Nat.add_sub_cancel_left]

theorem left (h : SamePlace cs cs' i j) : SamePlace (' ' :: cs) cs' (i + 1) j :=
  ⟨h.before_eq, h.here⟩

theorem right (h : SamePlace cs cs' i j) : SamePlace cs (' ' :: cs') i (j + 1) :=
  ⟨h.before_eq, h.here⟩

theorem length_filter_take_lt (hc : c ≠ ' ') (hj : cs[j]? = some c) (hlt : j < k) :
    ((cs.take j).filter (· ≠ ' ')).length < ((cs.take k).filter (· ≠ ' ')).length := by
  have hnext : (cs.take (j + 1)).filter (· ≠ ' ') = (cs.take j).filter (· ≠ ' ') ++ [c] := by
    rw [List.take_add_one, hj, List.filter_append]
    simp [hc]
  have hsublist : ((cs.take (j + 1)).filter (· ≠ ' ')).Sublist ((cs.take k).filter (· ≠ ' ')) :=
    (List.take_sublist_take_left hlt).filter _
  have hle := hsublist.length_le
  rw [hnext, List.length_append] at hle
  exact hle

/-- The place in the other line is determined. -/
theorem unique (hj : SamePlace cs cs' i j) (hk : SamePlace cs cs' i k) : j = k := by
  have hbefore := congrArg List.length (hj.before_eq.symm.trans hk.before_eq)
  obtain ⟨c, hc, -, hcj⟩ := hj.here
  obtain ⟨d, hd, -, hdk⟩ := hk.here
  rcases Nat.lt_trichotomy j k with hlt | heq | hgt
  · exact absurd hbefore (length_filter_take_lt hc hcj hlt).ne
  · exact heq
  · exact absurd hbefore (length_filter_take_lt hd hdk hgt).ne'

/-- A space that is put into a line moves what is behind it by one place. -/
theorem insert (hc : c ≠ ' ') (hi : (before ++ after)[i]? = some c) :
    SamePlace (before ++ after) (before ++ ' ' :: after) i
      (if i < before.length then i else i + 1) := by
  split
  · next hlt =>
    refine ⟨?_, c, hc, hi, ?_⟩
    · rw [List.take_append_of_le_length hlt.le, List.take_append_of_le_length hlt.le]
    · rw [List.getElem?_append_left hlt] at hi ⊢
      exact hi
  · next hnot =>
    obtain ⟨k, rfl⟩ := Nat.exists_eq_add_of_le (Nat.le_of_not_lt hnot)
    rw [List.getElem?_append_right (Nat.le_add_right _ _), Nat.add_sub_cancel_left] at hi
    have hself : SamePlace after after k k := ⟨rfl, c, hc, hi, hi⟩
    exact hself.right.behind before

end SamePlace

/-! ## Scanning two lines -/

/-- The same fault at another index. -/
def LexicalError.moveTo (index : Nat) : LexicalError → LexicalError
  | .invalidCharacter _ c => .invalidCharacter index c
  | .malformedNumber _ run => .malformedNumber index run

theorem LexicalError.message_moveTo (index : Nat) (error : LexicalError) :
    (error.moveTo index).message = error.message := by
  cases error <;> rfl

theorem LexicalError.index_moveTo (index : Nat) (error : LexicalError) :
    (error.moveTo index).index = index := by
  cases error <;> rfl

namespace Token

/-- Two texts that begin at two positions are scanned as the same tokens, their places
apart, or have the same fault at the same place. -/
inductive ScannedAlike (position position' : Nat) (cs cs' : List Char) : Prop
  | tokens {ts us : List Token} (hts : Scans position cs ts) (hus : Scans position' cs' us)
      (hsame : ts.map unplaced = us.map unplaced)
  | fault {error : LexicalError} (i j : Nat) (herror : Stumbles position cs error)
      (hindex : error.index = position + i)
      (herror' : Stumbles position' cs' (error.moveTo (position' + j)))
      (hplace : SamePlace cs cs' i j)

/-- **Lines of the same words are scanned alike.** -/
theorem scannedAlike_of_respaced (h : Respaced cs cs') (position position' : Nat) :
    ScannedAlike position position' cs cs' := by
  induction h generalizing position position' with
  | nil => exact .tokens .nil .nil rfl
  | @run run rest rest' hrun hrest hrest' tail ih =>
      cases hnumber : Decimal.ofLexeme? run with
      | none =>
          obtain ⟨c, more, rfl⟩ := List.exists_cons_of_ne_nil hrun.ne_nil
          have hspace : c ≠ ' ' := by
            rintro rfl
            exact absurd (hrun.numeric ' ' List.mem_cons_self) (by decide)
          exact .fault 0 0 (.malformed hrun hrest hnumber) rfl (.malformed hrun hrest' hnumber)
            (.head hspace (more ++ rest) (more ++ rest'))
      | some d =>
          cases ih (position + run.length) (position' + run.length) with
          | tokens hts hus hsame =>
              refine .tokens (.number hrun hrest hnumber hts) (.number hrun hrest' hnumber hus) ?_
              rw [List.map_cons, List.map_cons, hsame]
              rfl
          | fault i j herror hindex herror' hplace =>
              rw [Nat.add_assoc] at hindex herror'
              exact .fault (run.length + i) (run.length + j)
                (.behindNumber hrun hrest hnumber herror) hindex
                (.behindNumber hrun hrest' hnumber herror') (hplace.behind run)
  | @single c rest rest' hc hspace tail ih =>
      cases hsymbol : Kind.ofSymbol? c with
      | none =>
          exact .fault 0 0 (.invalid hc hsymbol hspace) rfl (.invalid hc hsymbol hspace)
            (.head hspace rest rest')
      | some kind =>
          cases ih (position + 1) (position' + 1) with
          | tokens hts hus hsame =>
              refine .tokens (.symbol hsymbol hts) (.symbol hsymbol hus) ?_
              rw [List.map_cons, List.map_cons, hsame]
              rfl
          | fault i j herror hindex herror' hplace =>
              rw [Nat.add_assoc] at hindex herror'
              exact .fault (1 + i) (1 + j) (.behindSymbol hsymbol herror) hindex
                (.behindSymbol hsymbol herror') (hplace.behind [c])
  | left tail ih =>
      cases ih (position + 1) position' with
      | tokens hts hus hsame => exact .tokens (.space hts) hus hsame
      | fault i j herror hindex herror' hplace =>
          rw [Nat.add_assoc, Nat.add_comm 1] at hindex
          exact .fault (i + 1) j (.behindSpace herror) hindex herror' hplace.left
  | right tail ih =>
      cases ih position (position' + 1) with
      | tokens hts hus hsame => exact .tokens hts (.space hus) hsame
      | fault i j herror hindex herror' hplace =>
          rw [Nat.add_assoc, Nat.add_comm 1] at herror'
          exact .fault i (j + 1) herror hindex (.behindSpace herror') hplace.right

end Token

/-! ## Answers to two lines -/

/-- Two lines have one value, or failures of one kind with one message.  The fault in the
characters is the same but for its places, which are paired; the misreading is the same, at
one token, and with one report. -/
inductive AnsweredAlike (line line' : String) (paired : Nat → Nat → Prop) : Prop
  | value {x : Binary64} (h : calculate line = .ok x) (h' : calculate line' = .ok x)
  | lexical {error : LexicalError} (j : Nat) (h : calculate line = .error (.lexical line error))
      (h' : calculate line' = .error (.lexical line' (error.moveTo j)))
      (hmessage : error.message = (error.moveTo j).message)
      (hplace : paired error.index (error.moveTo j).index)
  | misread {ts us : List Token} {m : Misreading} (h : calculate line = .error (.misread ts m))
      (h' : calculate line' = .error (.misread us m))
      (hreport : Failure.misreadingReport ts m = Failure.misreadingReport us m)

variable {line line' : String}

theorem AnsweredAlike.mono {paired paired' : Nat → Nat → Prop}
    (himp : ∀ i j, paired i j → paired' i j) (h : AnsweredAlike line line' paired) :
    AnsweredAlike line line' paired' := by
  cases h with
  | value h h' => exact .value h h'
  | lexical j h h' hmessage hplace => exact .lexical j h h' hmessage (himp _ _ hplace)
  | misread h h' hreport => exact .misread h h' hreport

/-- Lines that are scanned as the same tokens, places apart, are answered alike. -/
theorem answeredAlike_of_unplaced {paired : Nat → Nat → Prop} {ts us : List Token}
    (hts : Token.scan line = .ok ts) (hus : Token.scan line' = .ok us)
    (hsame : ts.map Token.unplaced = us.map Token.unplaced) :
    AnsweredAlike line line' paired := by
  have hparse : parse ts = parse us :=
    Parser.parse_eq_of_unplaced (Token.scanFrom_eq_ok_iff.mp hts).numbersHaveValues
      (Token.scanFrom_eq_ok_iff.mp hus).numbersHaveValues hsame
  cases hread : parse us with
  | error m =>
      rw [hread] at hparse
      exact .misread (calculate_of_misreading hts hparse) (calculate_of_misreading hus hread)
        (Failure.misreadingReport_congr (Token.lexemes_of_unplaced hsame) m)
  | ok e =>
      rw [hread] at hparse
      obtain ⟨x, hx⟩ := exists_evaluate_of_parse hread
      exact .value (calculate_of_value hts hparse hx) (calculate_of_value hus hread hx)

/-- **Lines of the same words are answered alike.** -/
theorem answeredAlike_of_wordsOf (h : wordsOf line.toList = wordsOf line'.toList) :
    AnsweredAlike line line' (SamePlace line.toList line'.toList) := by
  cases Token.scannedAlike_of_respaced (respaced_of_wordsOf h.symm) 0 0 with
  | tokens hts hus hsame => exact answeredAlike_of_unplaced hts.scanFrom_eq hus.scanFrom_eq hsame
  | @fault error i j herror hindex herror' hplace =>
      rw [Nat.zero_add] at hindex herror'
      have hscan : Token.scan line = .error error := herror.scanFrom_eq
      have hscan' : Token.scan line' = .error (error.moveTo j) := herror'.scanFrom_eq
      refine .lexical j (calculate_of_fault hscan) (calculate_of_fault hscan')
        (error.message_moveTo j).symm ?_
      rwa [hindex, error.index_moveTo]

/-- **Spaces do not matter between words.**  A space that is put into a line anywhere but
inside a run of digits and points leaves the answer as it is, apart from the index of a
fault in the characters, which counts the space if it is behind it.  Putting in and taking
out such spaces leads exactly to the lines of the same words, and these are all answered
alike, with a fault at the same place among the words. -/
theorem calculate_respaced (hapart : Apart before after) :
    AnsweredAlike (String.ofList (before ++ after)) (String.ofList (before ++ ' ' :: after))
        (fun i j => j = if i < before.length then i else i + 1) ∧
      ∀ line line' : String,
        (Relation.EqvGen PutsSpace line.toList line'.toList ↔
          wordsOf line.toList = wordsOf line'.toList) ∧
        (wordsOf line.toList = wordsOf line'.toList →
          AnsweredAlike line line' (SamePlace line.toList line'.toList)) := by
  refine ⟨?_, fun line line' => ⟨wordsOf_eq_iff.symm, answeredAlike_of_wordsOf⟩⟩
  refine (answeredAlike_of_wordsOf ?_).mono fun i j hplace => ?_
  · rw [String.toList_ofList, String.toList_ofList, wordsOf_insert hapart]
  · rw [String.toList_ofList, String.toList_ofList] at hplace
    obtain ⟨c, hc, hi, -⟩ := hplace.here
    exact hplace.unique (.insert hc hi)

/-- In `1+2$` a space goes in front of the `2`. -/
theorem calculate_respaced_sum :
    Apart ['1', '+'] ['2', '$'] ∧
      AnsweredAlike "1+2$" "1+ 2$" (fun i j => j = if i < 2 then i else i + 1) := by
  have hapart : Apart ['1', '+'] ['2', '$'] := by
    intro c hc d _ hnumeric
    obtain rfl : '+' = c := Option.some.inj hc
    exact absurd hnumeric.1 (by decide)
  exact ⟨hapart, (calculate_respaced hapart).1⟩

end Abacus
