import Abacus.Proofs.NumberText

/-!
# The long form of a number

An answer is the long form of the number without the point and the zero at its end
(`Binary64.format_eq`).  Only a whole number that is written out has that end.

The key local fact is `KeepsEnd`, that no point and zero stand at the end of a text, whatever
is in front of it.  It holds behind a digit that is no zero, and the shortest decimal ends in
such a digit; and it holds behind an exponent, which has two places or more and no point.
-/

namespace Abacus

/-! ## The end of a text -/

/-- A text without the point and the zero at its end. -/
def withoutPointZero (text : List Char) : List Char :=
  if ['.', '0'] <:+ text then text.dropLast.dropLast else text

theorem withoutPointZero_append (text : List Char) :
    withoutPointZero (text ++ ['.', '0']) = text := by
  have hend : ['.', '0'] <:+ text ++ ['.', '0'] := List.suffix_append _ _
  rw [withoutPointZero, if_pos hend]
  simp

/-- Whatever stands in front of it, a text with this end has no point and zero there. -/
def KeepsEnd (tail : List Char) : Prop := ∀ before, ¬ ['.', '0'] <:+ before ++ tail

namespace KeepsEnd

variable {tail : List Char}

theorem append (h : KeepsEnd tail) (middle : List Char) : KeepsEnd (middle ++ tail) := by
  intro before
  rw [← List.append_assoc]
  exact h (before ++ middle)

/-- No zero stands at the end. -/
theorem of_last {c : Char} (hc : c ≠ '0') (tail : List Char) : KeepsEnd (tail ++ [c]) := by
  intro before hend
  rw [← List.append_assoc, List.suffix_concat_iff] at hend
  rcases hend with hnil | ⟨point, hpoint, -⟩
  · cases hnil
  · have hlast := congrArg List.getLast? hpoint
    rw [List.getLast?_concat] at hlast
    exact hc (Option.some.inj hlast).symm

/-- No point stands in the last two places. -/
theorem of_not_mem (hlength : 2 ≤ tail.length) (hpoint : '.' ∉ tail) : KeepsEnd tail := by
  intro before hend
  have htail : ['.', '0'] <:+ tail :=
    List.suffix_of_suffix_length_le hend (List.suffix_append before tail) hlength
  exact hpoint (htail.subset (by simp))

theorem withoutPointZero_eq (h : KeepsEnd tail) (before : List Char) :
    withoutPointZero (before ++ tail) = before ++ tail := if_neg (h before)

end KeepsEnd

/-! ## Decimals -/

namespace Decimal

/-- A trimmed coefficient has no zero at its end, unless it is zero. -/
theorem coefficient_trim (d : Decimal) :
    d.trim.coefficient = 0 ∨ d.trim.coefficient % 10 ≠ 0 := by
  induction d using trim.induct with
  | case1 d htrim ih => rwa [trim, if_pos htrim]
  | case2 d htrim =>
      rw [trim, if_neg htrim]
      omega

/-- A zero coefficient reads as zero, whatever the scale. -/
theorem toBinary64_of_coefficient {d : Decimal} (h : d.coefficient = 0) :
    d.toBinary64 = .finite false Magnitude.zero := by
  have hden : 0 < 10 ^ (-d.scale).toNat := Nat.pow_pos (by decide)
  have hround := Binary64.round_mul_mul false 0 1 hden
  have hzero := Binary64.round_grains false Magnitude.zero
  rw [Magnitude.grains_zero] at hzero
  rw [toBinary64, h, Nat.zero_mul, Nat.zero_mul, ← hzero, ← hround, Nat.zero_mul, Nat.one_mul]

/-- The shortest decimal has no zero at the end of its coefficient. -/
theorem coefficient_shortest {m : Magnitude} (h : m.rank ≠ 0) :
    (shortest m).coefficient % 10 ≠ 0 := by
  have htrim : (shortest m).coefficient = 0 ∨ (shortest m).coefficient % 10 ≠ 0 :=
    coefficient_trim _
  rcases htrim with hzero | hlast
  · have hread := toBinary64_shortest m
    rw [toBinary64_of_coefficient hzero] at hread
    cases hread
    exact absurd rfl h
  · exact hlast

/-- The last digit is no zero. -/
theorem exists_digits_eq {d : Decimal} (h : d.coefficient % 10 ≠ 0) :
    ∃ before c, d.digits = before ++ [c] ∧ c ≠ '0' := by
  have hlast : ∀ n < 10, n ≠ 0 → Nat.digitChar n ≠ '0' := by decide
  have hlt : d.coefficient % 10 < 10 := Nat.mod_lt _ (by decide)
  unfold digits
  by_cases hsmall : d.coefficient < 10
  · rw [Nat.toDigits_of_lt_base hsmall]
    rw [Nat.mod_eq_of_lt hsmall] at h
    exact ⟨[], _, rfl, hlast _ hsmall h⟩
  · rw [Nat.toDigits_of_base_le (by decide) (Nat.le_of_not_lt hsmall)]
    exact ⟨_, _, rfl, hlast _ hlt h⟩

/-- An exponent stands where a point and a zero could be. -/
theorem keepsEnd_scientific (d : Decimal) : KeepsEnd d.scientific := by
  have hpoint : '.' ∉ 'e' :: exponentText d.exponent := by
    have hsign : '.' ≠ (if d.exponent < 0 then '-' else '+') := by split <;> decide
    have hdigits : '.' ∉ Nat.toDigits 10 d.exponent.natAbs := Spells.point_not_mem
      fun c hc => Nat.isDigit_of_mem_toDigits (by decide) (by decide) hc
    simp [exponentText, hsign, hdigits, List.mem_replicate]
  have hlength : 2 ≤ ('e' :: exponentText d.exponent).length := by simp [exponentText]
  unfold scientific
  exact (KeepsEnd.of_not_mem hlength hpoint).append _

/-- **Written out**, a decimal ends in the suffix of whole numbers or in a digit that is no
zero. -/
theorem positional_eq {d : Decimal} (h : d.coefficient % 10 ≠ 0) (suffix : String) :
    d.positional suffix = d.positional "" ++ suffix.toList ∨
      d.positional suffix = d.positional "" ∧ KeepsEnd (d.positional "") := by
  obtain ⟨before, c, hdigits, hc⟩ := exists_digits_eq h
  have hlength : d.digits.length = before.length + 1 := by simp [hdigits]
  have hexponent : d.exponent = d.digits.length - 1 + d.scale := rfl
  unfold positional
  by_cases hscale : 0 ≤ d.scale
  · exact .inl (by simp [hscale])
  · simp only [if_neg hscale, true_and]
    apply Or.inr
    by_cases hsplit : 0 ≤ d.exponent
    · have hplaces : (d.exponent + 1).toNat ≤ before.length := by omega
      rw [if_pos hsplit, hdigits, List.drop_append_of_le_length hplaces, List.append_cons]
      exact (KeepsEnd.of_last hc _).append _
    · rw [if_neg hsplit, hdigits]
      exact (KeepsEnd.of_last hc before).append ('0' :: '.' :: _)

/-- The styles differ only in a point and a zero behind a whole number. -/
theorem layout_full {d : Decimal} (h : d.coefficient % 10 ≠ 0) :
    d.layout .full = d.layout .plain ++ ['.', '0'] ∨
      d.layout .full = d.layout .plain ∧ KeepsEnd (d.layout .plain) := by
  unfold layout
  have hrange : d.isPositional .full = d.isPositional .plain := rfl
  rw [hrange]
  split
  · exact positional_eq h ".0"
  · exact .inr ⟨rfl, d.keepsEnd_scientific⟩

end Decimal

/-! ## Numbers -/

/-- The texts of a magnitude differ only in a point and a zero behind a whole number. -/
theorem Magnitude.text_full (m : Magnitude) :
    m.text .full = m.text .plain ++ ['.', '0'] ∨
      m.text .full = m.text .plain ∧ KeepsEnd (m.text .plain) := by
  unfold Magnitude.text
  by_cases hzero : m.rank = 0
  · simp only [if_pos hzero]
    exact .inl rfl
  · simp only [if_neg hzero]
    exact Decimal.layout_full (Decimal.coefficient_shortest hzero)

/-- **An answer is the long form without a trailing point and zero.** -/
theorem Binary64.format_eq (x : Binary64) :
    x.format = String.ofList (withoutPointZero x.fullText.toList) := by
  cases x with
  | nan => decide
  | infinite negative => cases negative <;> decide
  | finite negative m =>
      rw [format, fullText, text, text, String.toList_ofList]
      rcases m.text_full with hwhole | ⟨hsame, hend⟩
      · rw [hwhole, ← List.append_assoc, withoutPointZero_append]
      · rw [hsame, hend.withoutPointZero_eq]

end Abacus
