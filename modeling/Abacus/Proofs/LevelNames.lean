import Abacus.Proofs.Tidiness
import Abacus.Proofs.TidyLine
import Abacus.Session.Level

/-!
# Names of levels

A setting names a level if it is one of the names of levels in any mixture of small and
capital letters, with any blanks around it, and not otherwise (`ofName?_eq_some_iff`).

Trimming takes away just the blanks around a word that has none itself.  A blank has no other
capital form, and the names have no blanks, so what is spelled like a name has none either.
-/

namespace Abacus

namespace Text

variable {cs before word behind : List Char}

/-! ## Trimming -/

/-- Of blanks alone nothing is left. -/
theorem trimEnd_eq_nil (h : ∀ c ∈ cs, isBlank c = true) : trimEnd cs = [] := by
  induction cs with
  | nil => rfl
  | cons c cs ih =>
      obtain ⟨hc, hcs⟩ := List.forall_mem_cons.mp h
      simp [trimEnd, hc, ih hcs]

/-- What is missing at the end are blanks. -/
theorem exists_trimEnd (cs : List Char) :
    ∃ behind, cs = trimEnd cs ++ behind ∧ ∀ c ∈ behind, isBlank c = true := by
  induction cs with
  | nil => exact ⟨[], rfl, by simp⟩
  | cons c cs ih =>
      obtain ⟨behind, hcs, hbehind⟩ := ih
      rcases trimEnd_cons c cs with ⟨hc, hrest, hgone⟩ | ⟨-, hstays⟩
      · rw [hrest, List.nil_append] at hcs
        refine ⟨c :: cs, by rw [hgone, List.nil_append], ?_⟩
        rw [hcs, List.forall_mem_cons]
        exact ⟨hc, hbehind⟩
      · refine ⟨behind, ?_, hbehind⟩
        rw [hstays, List.cons_append, ← hcs]

/-- **What is missing around a trimmed text** are blanks. -/
theorem exists_trim (cs : List Char) :
    ∃ before behind, cs = before ++ trim cs ++ behind ∧
      ∀ c ∈ before ++ behind, isBlank c = true := by
  obtain ⟨behind, hrest, hbehind⟩ := exists_trimEnd (cs.dropWhile isBlank)
  refine ⟨cs.takeWhile isBlank, behind, ?_, ?_⟩
  · rw [trim, List.append_assoc, ← hrest, List.takeWhile_append_dropWhile]
  · rw [List.forall_mem_append]
    exact ⟨fun c hc => List.mem_takeWhile_imp hc, hbehind⟩

/-- **Trimming gives back a word without blanks** that has blanks around it. -/
theorem trim_around (hword : ∀ c ∈ word, isBlank c = false)
    (h : ∀ c ∈ before ++ behind, isBlank c = true) : trim (before ++ word ++ behind) = word := by
  obtain ⟨hbefore, hbehind⟩ := List.forall_mem_append.mp h
  rw [trim, List.append_assoc, List.dropWhile_append_of_pos hbefore]
  cases word with
  | nil =>
      rw [List.nil_append]
      exact trimEnd_eq_nil fun c hc => hbehind c ((List.dropWhile_sublist _).subset hc)
  | cons c word =>
      have hc : isBlank c = false := hword c List.mem_cons_self
      rw [List.cons_append, List.dropWhile_cons_of_neg (by simp [hc]), ← List.cons_append,
        Token.trimEnd_append hword, trimEnd_eq_nil hbehind, List.append_nil]

/-! ## Capital forms -/

/-- A blank is its own capital form. -/
theorem capital_of_isBlank {c : Char} (h : isBlank c = true) : capital c = [c] := by
  have hnone : latinCapitals.lookup c = none := by
    have hletters : ∀ entry ∈ latinCapitals, isBlank entry.1 = false := by decide
    rw [List.lookup_eq_none_iff]
    intro entry hentry
    rw [bne_iff_ne]
    rintro rfl
    rw [hletters entry hentry] at h
    cases h
  have hupper : c.toUpper = c := by
    simp only [isBlank, inRanges, blankRanges, List.any_cons, List.any_nil, Bool.or_false,
      Bool.or_eq_true, Bool.and_eq_true, decide_eq_true_eq] at h
    have hrange : ¬ (97 ≤ c.toNat ∧ c.toNat ≤ 122) := by omega
    unfold Char.toUpper
    exact dif_neg hrange
  rw [capital, hnone, hupper]

/-- What has a capital form without blanks has none. -/
theorem not_isBlank_of_capitals (h : ∀ c ∈ capitals word, isBlank c = false) :
    ∀ c ∈ word, isBlank c = false := by
  intro c hc
  by_contra hblank
  have hblank : isBlank c = true := eq_true_of_ne_false hblank
  have hmem : c ∈ capitals word :=
    List.mem_flatMap.mpr ⟨c, hc, by rw [capital_of_isBlank hblank]; exact List.mem_singleton_self c⟩
  rw [h c hmem] at hblank
  cases hblank

end Text

namespace Level

/-- A name is looked up exactly where it is in the list: no name stands there twice. -/
theorem lookup_names_iff {name : String} {level : Level} :
    names.lookup name = some level ↔ (name, level) ∈ names := by
  constructor
  · intro h
    obtain ⟨before, behind, hnames, -⟩ := List.lookup_eq_some_iff.mp h
    rw [hnames]
    exact List.mem_append_right _ List.mem_cons_self
  · have honce : ∀ entry ∈ names, names.lookup entry.1 = some entry.2 := by decide
    exact honce (name, level)

/-- No name has a blank. -/
theorem not_isBlank_of_mem_names {name : String} {level : Level} (h : (name, level) ∈ names) :
    ∀ c ∈ name.toList, Text.isBlank c = false := by
  have hall : ∀ entry ∈ names, (entry.1.toList.any Text.isBlank) = false := by decide
  intro c hc
  exact eq_false_of_ne_true (List.any_eq_false.mp (hall _ h) c hc)

/-- **A setting names a level** exactly if it is spelled like a name of it, in small or
capital letters, with blanks around it. -/
theorem ofName?_eq_some_iff {setting : String} {level : Level} :
    ofName? setting = some level ↔ ∃ before word behind name,
      setting.toList = before ++ word ++ behind ∧
      (∀ c ∈ before ++ behind, Text.isBlank c = true) ∧
      Text.capitals word = String.toList name ∧ (name, level) ∈ names := by
  rw [ofName?]
  constructor
  · intro h
    obtain ⟨before, behind, hsetting, hblank⟩ := Text.exists_trim setting.toList
    refine ⟨before, _, behind, _, hsetting, hblank, ?_, lookup_names_iff.mp h⟩
    rw [String.toList_ofList]
  · rintro ⟨before, word, behind, name, hsetting, hblank, hword, hname⟩
    have hletters : ∀ c ∈ word, Text.isBlank c = false := by
      apply Text.not_isBlank_of_capitals
      rw [hword]
      exact not_isBlank_of_mem_names hname
    rw [hsetting, Text.trim_around hletters hblank, hword, String.ofList_toList]
    exact lookup_names_iff.mpr hname

example : ofName? " Debug\t" = some debug := by decide

end Level

end Abacus
