import Abacus.Token.Line
import Mathlib.Data.List.Chain

/-!
# Tidy text

A text is tidy if no blank stands behind an opening bracket, before a closing one, or at the
end.  Three passes make a text tidy, whatever its characters are: blanks and brackets may
stand in any order.

Each pass thins the text, which is to leave out blanks only (`Thinned`), and each leaves out
no more than it must.  The key local fact is `NoneAfterOpen.closeUpBeforeClose`: the last
pass brings only closing brackets together with what stood before them, so it cannot bring a
blank behind an opening bracket again.  So what is written is tidy, and no other thinning of
the text that is tidy keeps more of it (`tidy_greatest`).  In particular a tidy text is left
as it is.
-/

namespace Abacus

namespace Text

/-! ## Leaving out blanks -/

/-- The second text is the first one with some blanks left out. -/
inductive Thinned : List Char → List Char → Prop
  | nil : Thinned [] []
  | keep {c : Char} {cs ds : List Char} (h : Thinned cs ds) : Thinned (c :: cs) (c :: ds)
  | drop {c : Char} {cs ds : List Char} (hc : isBlank c = true) (h : Thinned cs ds) :
      Thinned (c :: cs) ds

/-- The text without its blanks. -/
def dense (cs : List Char) : List Char := cs.filter fun c => !isBlank c

variable {cs ds es : List Char}

namespace Thinned

theorem refl (cs : List Char) : Thinned cs cs := by
  induction cs with
  | nil => exact .nil
  | cons c cs ih => exact .keep ih

theorem trans (h : Thinned cs ds) (h' : Thinned ds es) : Thinned cs es := by
  induction h generalizing es with
  | nil => exact h'
  | keep h ih =>
      cases h' with
      | keep h' => exact .keep (ih h')
      | drop hc h' => exact .drop hc (ih h')
  | drop hc h ih => exact .drop hc (ih h')

theorem sublist (h : Thinned cs ds) : ds.Sublist cs := by
  induction h with
  | nil => exact .slnil
  | keep h ih => exact .cons_cons _ ih
  | drop hc h ih => exact .cons _ ih

theorem antisymm (h : Thinned cs ds) (h' : Thinned ds cs) : cs = ds :=
  h'.sublist.antisymm h.sublist

/-- Only blanks are left out. -/
theorem dense_eq (h : Thinned cs ds) : dense ds = dense cs := by
  induction h with
  | nil => rfl
  | keep h ih =>
      simp only [dense, List.filter_cons] at ih ⊢
      rw [ih]
  | drop hc h ih => simpa [dense, hc] using ih

/-- What is not blank is kept. -/
theorem exists_cons {c : Char} (h : Thinned (c :: cs) ds) (hc : isBlank c = false) :
    ∃ es, ds = c :: es := by
  cases h with
  | keep h => exact ⟨_, rfl⟩
  | drop hblank h => exact absurd hblank (by simp [hc])

end Thinned

/-! ## Tidiness -/

/-- No blank follows an opening bracket. -/
def NoneAfterOpen (cs : List Char) : Prop :=
  cs.IsChain fun left right => left = '(' → isBlank right = false

/-- No blank stands before a closing bracket. -/
def NoneBeforeClose (cs : List Char) : Prop :=
  cs.IsChain fun left right => right = ')' → isBlank left = false

/-- The text does not end in a blank. -/
def NoneAtEnd (cs : List Char) : Prop := ∀ c ∈ cs.getLast?, isBlank c = false

/-- A text without blanks inside of its brackets and at the end. -/
structure IsTidy (cs : List Char) : Prop where
  afterOpen : NoneAfterOpen cs
  beforeClose : NoneBeforeClose cs
  atEnd : NoneAtEnd cs

theorem NoneAtEnd.tail {c : Char} (h : NoneAtEnd (c :: cs)) : NoneAtEnd cs := by
  cases cs with
  | nil => simp [NoneAtEnd]
  | cons d cs => simpa [NoneAtEnd] using h

/-- A text that does not end in a blank keeps its end. -/
theorem Thinned.getLast?_eq (h : Thinned cs ds) (hcs : NoneAtEnd cs) :
    ds.getLast? = cs.getLast? := by
  induction h with
  | nil => rfl
  | keep h ih => rw [List.getLast?_cons, List.getLast?_cons, ih hcs.tail]
  | @drop c cs ds hc h ih =>
      rw [ih hcs.tail]
      cases cs with
      | nil =>
          have hlast : isBlank c = false := hcs c rfl
          rw [hc] at hlast
          cases hlast
      | cons d cs => rfl

theorem NoneAtEnd.thinned (hcs : NoneAtEnd cs) (h : Thinned cs ds) : NoneAtEnd ds := by
  rw [NoneAtEnd, h.getLast?_eq hcs]
  exact hcs

/-! ## The pass over the end -/

/-- A character goes if it is blank and nothing stays behind it. -/
theorem trimEnd_cons (c : Char) (cs : List Char) :
    (isBlank c = true ∧ trimEnd cs = [] ∧ trimEnd (c :: cs) = []) ∨
    ((trimEnd cs = [] → isBlank c = false) ∧ trimEnd (c :: cs) = c :: trimEnd cs) := by
  rw [trimEnd]
  split
  · next h =>
    rw [Bool.and_eq_true, List.isEmpty_iff] at h
    exact .inl ⟨h.2, h.1, rfl⟩
  · next h => exact .inr ⟨by simpa using h, rfl⟩

theorem thinned_trimEnd (cs : List Char) : Thinned cs (trimEnd cs) := by
  induction cs with
  | nil => exact .nil
  | cons c cs ih =>
      rcases trimEnd_cons c cs with ⟨hc, hrest, hgone⟩ | ⟨-, hstays⟩
      · rw [hgone]
        exact .drop hc (hrest ▸ ih)
      · rw [hstays]
        exact .keep ih

theorem noneAtEnd_trimEnd (cs : List Char) : NoneAtEnd (trimEnd cs) := by
  induction cs with
  | nil => simp [NoneAtEnd, trimEnd]
  | cons c cs ih =>
      rcases trimEnd_cons c cs with ⟨-, -, hgone⟩ | ⟨hc, hstays⟩
      · simp [NoneAtEnd, hgone]
      · rw [hstays]
        cases hrest : trimEnd cs with
        | nil => simpa [NoneAtEnd] using hc hrest
        | cons d rest => simpa [NoneAtEnd, hrest] using ih

/-- The blanks at the end must go. -/
theorem Thinned.trimEnd (h : Thinned cs ds) (hds : NoneAtEnd ds) :
    Thinned (Text.trimEnd cs) ds := by
  induction h with
  | nil => exact .nil
  | @keep c cs ds h ih =>
      have ih := ih hds.tail
      rcases trimEnd_cons c cs with ⟨hc, hrest, hgone⟩ | ⟨-, hstays⟩
      · rw [hrest] at ih
        cases ih
        exact absurd (hds c rfl) (by simp [hc])
      · rw [hstays]
        exact .keep ih
  | @drop c cs ds hblank h ih =>
      have ih := ih hds
      rcases trimEnd_cons c cs with ⟨-, hrest, hgone⟩ | ⟨-, hstays⟩
      · rw [hgone]
        exact hrest ▸ ih
      · rw [hstays]
        exact .drop hblank ih

/-! ## The pass over opening brackets -/

/-- A character goes if it is blank and an opening bracket was the last one that stayed. -/
theorem closeUpAfterOpen_cons (afterOpen : Bool) (c : Char) (cs : List Char) :
    (isBlank c = true ∧ afterOpen = true ∧
      closeUpAfterOpen afterOpen (c :: cs) = closeUpAfterOpen true cs) ∨
    ((afterOpen = true → isBlank c = false) ∧
      closeUpAfterOpen afterOpen (c :: cs) = c :: closeUpAfterOpen (c == '(') cs) := by
  rw [closeUpAfterOpen]
  split
  · next h =>
    rw [Bool.and_eq_true] at h
    exact .inl ⟨h.2, h.1, rfl⟩
  · next h => exact .inr ⟨by simpa using h, rfl⟩

theorem thinned_closeUpAfterOpen (afterOpen : Bool) (cs : List Char) :
    Thinned cs (closeUpAfterOpen afterOpen cs) := by
  induction cs generalizing afterOpen with
  | nil => exact .nil
  | cons c cs ih =>
      rcases closeUpAfterOpen_cons afterOpen c cs with ⟨hc, -, hgone⟩ | ⟨-, hstays⟩
      · rw [hgone]
        exact .drop hc (ih true)
      · rw [hstays]
        exact .keep (ih _)

/-- The flag keeps blanks away from the front as well. -/
theorem noneAfterOpen_closeUpAfterOpen (afterOpen : Bool) (cs : List Char) :
    (afterOpen = true → ∀ c ∈ (closeUpAfterOpen afterOpen cs).head?, isBlank c = false) ∧
      NoneAfterOpen (closeUpAfterOpen afterOpen cs) := by
  induction cs generalizing afterOpen with
  | nil => simp [closeUpAfterOpen, NoneAfterOpen]
  | cons c cs ih =>
      rcases closeUpAfterOpen_cons afterOpen c cs with ⟨-, -, hgone⟩ | ⟨hc, hstays⟩
      · obtain ⟨hhead, hrest⟩ := ih true
        rw [hgone]
        exact ⟨fun _ => hhead rfl, hrest⟩
      · obtain ⟨hhead, hrest⟩ := ih (c == '(')
        rw [hstays]
        refine ⟨?_, List.isChain_cons.mpr ⟨?_, hrest⟩⟩
        · simpa using hc
        · intro d hd hopen
          exact hhead (by simp [hopen]) d hd

/-- The blanks behind an opening bracket must go. -/
theorem Thinned.closeUpAfterOpen (h : Thinned cs ds) (hds : NoneAfterOpen ds) {afterOpen : Bool}
    (hhead : afterOpen = true → ∀ c ∈ ds.head?, isBlank c = false) :
    Thinned (Text.closeUpAfterOpen afterOpen cs) ds := by
  induction h generalizing afterOpen with
  | nil => exact .nil
  | @keep c cs ds h ih =>
      obtain ⟨hnext, hrest⟩ := List.isChain_cons.mp hds
      rcases closeUpAfterOpen_cons afterOpen c cs with ⟨hc, hafter, -⟩ | ⟨-, hstays⟩
      · exact absurd (hhead hafter c rfl) (by simp [hc])
      · rw [hstays]
        refine .keep (ih hrest ?_)
        intro hopen d hd
        exact hnext d hd (by simpa using hopen)
  | @drop c cs ds hblank h ih =>
      rcases closeUpAfterOpen_cons afterOpen c cs with ⟨-, hafter, hgone⟩ | ⟨-, hstays⟩
      · rw [hgone]
        exact ih hds (fun _ => hhead hafter)
      · rw [hstays]
        refine .drop hblank (ih hds ?_)
        intro hopen
        obtain rfl : c = '(' := by simpa using hopen
        exact absurd hblank (by decide)

/-! ## The pass over closing brackets -/

/-- A character goes if it is blank and a closing bracket comes next of those that stay. -/
theorem closeUpBeforeClose_cons (c : Char) (cs : List Char) :
    (isBlank c = true ∧ (closeUpBeforeClose cs).head? = some ')' ∧
      closeUpBeforeClose (c :: cs) = closeUpBeforeClose cs) ∨
    (((closeUpBeforeClose cs).head? = some ')' → isBlank c = false) ∧
      closeUpBeforeClose (c :: cs) = c :: closeUpBeforeClose cs) := by
  rw [closeUpBeforeClose]
  split
  · next h =>
    rw [Bool.and_eq_true, beq_iff_eq] at h
    exact .inl ⟨h.1, h.2, rfl⟩
  · next h =>
    refine .inr ⟨?_, rfl⟩
    intro hnext
    simpa [hnext] using h

theorem thinned_closeUpBeforeClose (cs : List Char) : Thinned cs (closeUpBeforeClose cs) := by
  induction cs with
  | nil => exact .nil
  | cons c cs ih =>
      rcases closeUpBeforeClose_cons c cs with ⟨hc, -, hgone⟩ | ⟨-, hstays⟩
      · rw [hgone]
        exact .drop hc ih
      · rw [hstays]
        exact .keep ih

theorem noneBeforeClose_closeUpBeforeClose (cs : List Char) :
    NoneBeforeClose (closeUpBeforeClose cs) := by
  induction cs with
  | nil => simp [closeUpBeforeClose, NoneBeforeClose]
  | cons c cs ih =>
      rcases closeUpBeforeClose_cons c cs with ⟨-, -, hgone⟩ | ⟨hc, hstays⟩
      · rwa [hgone]
      · rw [hstays]
        refine List.isChain_cons.mpr ⟨?_, ih⟩
        rintro d hd rfl
        exact hc hd

/-- The blanks before a closing bracket must go. -/
theorem Thinned.closeUpBeforeClose (h : Thinned cs ds) (hds : NoneBeforeClose ds) :
    Thinned (Text.closeUpBeforeClose cs) ds := by
  induction h with
  | nil => exact .nil
  | @keep c cs ds h ih =>
      obtain ⟨hnext, hrest⟩ := List.isChain_cons.mp hds
      have ih := ih hrest
      rcases closeUpBeforeClose_cons c cs with ⟨hc, hclose, -⟩ | ⟨-, hstays⟩
      · obtain ⟨rest, hrest⟩ := List.head?_eq_some_iff.mp hclose
        rw [hrest] at ih
        obtain ⟨es, rfl⟩ := ih.exists_cons (by decide)
        exact absurd (hnext ')' rfl rfl) (by simp [hc])
      · rw [hstays]
        exact .keep ih
  | @drop c cs ds hblank h ih =>
      have ih := ih hds
      rcases closeUpBeforeClose_cons c cs with ⟨-, -, hgone⟩ | ⟨-, hstays⟩
      · rwa [hgone]
      · rw [hstays]
        exact .drop hblank ih

/-- In front comes what was there, or a closing bracket. -/
theorem head?_closeUpBeforeClose (cs : List Char) :
    (closeUpBeforeClose cs).head? = cs.head? ∨ (closeUpBeforeClose cs).head? = some ')' := by
  cases cs with
  | nil => exact .inl rfl
  | cons c cs =>
      rcases closeUpBeforeClose_cons c cs with ⟨-, hclose, hgone⟩ | ⟨-, hstays⟩
      · exact .inr (hgone ▸ hclose)
      · exact .inl (by rw [hstays, List.head?_cons, List.head?_cons])

/-- **No blank comes behind an opening bracket** when those before closing brackets go. -/
theorem NoneAfterOpen.closeUpBeforeClose (h : NoneAfterOpen cs) :
    NoneAfterOpen (Text.closeUpBeforeClose cs) := by
  induction cs with
  | nil => exact h
  | cons c cs ih =>
      obtain ⟨hnext, hrest⟩ := List.isChain_cons.mp h
      have ih := ih hrest
      rcases closeUpBeforeClose_cons c cs with ⟨-, -, hgone⟩ | ⟨-, hstays⟩
      · rwa [hgone]
      · rw [hstays]
        refine List.isChain_cons.mpr ⟨?_, ih⟩
        intro d hd hopen
        rcases head?_closeUpBeforeClose cs with hhead | hhead
        · exact hnext d (hhead ▸ hd) hopen
        · rw [hhead] at hd
          obtain rfl : ')' = d := Option.some.inj hd
          decide

/-! ## All passes -/

theorem thinned_tidy (cs : List Char) : Thinned cs (tidy cs) :=
  (thinned_trimEnd cs).trans
    ((thinned_closeUpAfterOpen false _).trans (thinned_closeUpBeforeClose _))

/-- **What is tidied up is tidy.** -/
theorem isTidy_tidy (cs : List Char) : IsTidy (tidy cs) where
  afterOpen := (noneAfterOpen_closeUpAfterOpen false _).2.closeUpBeforeClose
  beforeClose := noneBeforeClose_closeUpBeforeClose _
  atEnd := ((noneAtEnd_trimEnd cs).thinned (thinned_closeUpAfterOpen false _)).thinned
    (thinned_closeUpBeforeClose _)

/-- **No more is left out than must be**: every thinning that is tidy leaves out as much. -/
theorem tidy_greatest (h : Thinned cs ds) (hds : IsTidy ds) : Thinned (tidy cs) ds := by
  have hend := h.trimEnd hds.atEnd
  have hopen : Thinned (closeUpAfterOpen false (trimEnd cs)) ds :=
    hend.closeUpAfterOpen hds.afterOpen nofun
  exact hopen.closeUpBeforeClose hds.beforeClose

/-- A tidy text is left as it is. -/
theorem tidy_eq_self (h : IsTidy cs) : tidy cs = cs :=
  (tidy_greatest (.refl cs) h).antisymm (thinned_tidy cs)

/-- Blanks of any kind, some of them between brackets. -/
example : tidy ['(', '\t', ' ', ')', ' ', ')', '\n'] = ['(', ')', ')'] := by decide

/-- Blanks between words do not count. -/
theorem dense_intercalate (words : List (List Char)) :
    dense ([' '].intercalate words) = dense words.flatten := by
  have hspace : isBlank ' ' = true := by decide
  induction words with
  | nil => rfl
  | cons word words ih =>
      cases words with
      | nil => simp
      | cons next words =>
          rw [List.intercalate_cons_cons, List.flatten_cons]
          simp only [dense, List.filter_append] at ih ⊢
          rw [ih]
          simp [hspace]

end Text

open Text

namespace Token

/-- **The line of any tokens is tidy**, whatever their lexemes are.  It is the lexemes with
spaces between them, thinned no more than it must be; so it has all that is not blank, and
as a lexeme of its own it is written as it is. -/
theorem line_tidy (ts : List Token) :
    let joined := [' '].intercalate (ts.map fun t => t.lexeme.toList)
    let written := (line ts).toList
    IsTidy written ∧ Thinned joined written ∧
      (∀ other, Thinned joined other → IsTidy other → Thinned written other) ∧
      dense written = dense (ts.flatMap fun t => t.lexeme.toList) ∧
      ∀ kind value position, line [⟨kind, line ts, value, position⟩] = line ts := by
  intro joined written
  have hwritten : written = tidy joined := String.toList_ofList
  have htidy : IsTidy written := hwritten ▸ isTidy_tidy joined
  have hthinned : Thinned joined written := hwritten ▸ thinned_tidy joined
  refine ⟨htidy, hthinned, ?_, ?_, ?_⟩
  · intro other hother hotherTidy
    rw [hwritten]
    exact tidy_greatest hother hotherTidy
  · rw [hthinned.dense_eq, dense_intercalate, List.flatMap_def]
  · intro kind value position
    have hagain : lineChars [⟨kind, line ts, value, position⟩] = tidy written := by
      simp [lineChars, written]
    rw [line, hagain, tidy_eq_self htidy, String.ofList_toList]

end Token

end Abacus
