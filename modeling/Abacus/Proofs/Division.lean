import Abacus.Binary64.Arithmetic

/-!
# One law for every quotient

A zero divisor is caught and answered by a product of signs; every other quotient is
rounded.  The two ways meet in one law.  There is no quotient of `nan`, of two zeros or of
two infinities; every other one is negative exactly if the signs of its operands differ.

`IsQuotient` gives the rules of division by the kinds of the operands, and division keeps to
them (`isQuotient_div`).  The key local fact is `divide?_eq`: what stands for a quotient
over zero is what division gives there.  So each part of the law is read off the rules, and
holds on both ways.  Rounding keeps the sign that it is given.
-/

namespace Abacus.Binary64

/-! ## Rounding keeps the sign -/

section Rounding

variable (negative : Bool) (num den : Nat)

@[simp] theorem isNan_round : (round negative num den).isNan = false := by
  simp only [round]
  split <;> rfl

@[simp] theorem isNegative_round : (round negative num den).isNegative = negative := by
  simp only [round]
  split <;> rfl

end Rounding

/-! ## Changing signs -/

/-- The number with its sign changed, or as it is. -/
def flipIf : Bool → Binary64 → Binary64
  | true, x => -x
  | false, x => x

section Flips

variable (a s : Bool)

theorem flipIf_nan : flipIf a nan = nan := by
  cases a <;> rfl

theorem flipIf_infinite : flipIf a (infinite s) = infinite (a != s) := by
  cases a <;> cases s <;> rfl

theorem flipIf_finite (m : Magnitude) : flipIf a (finite s m) = finite (a != s) m := by
  cases a <;> cases s <;> rfl

/-- Rounding is the same on both sides of zero. -/
theorem flipIf_round (num den : Nat) : flipIf a (round s num den) = round (a != s) num den := by
  simp only [round]
  split
  · exact flipIf_finite a s _
  · exact flipIf_infinite a s

end Flips

/-! ## The rules of division -/

/-- Division by the kinds of its operands.  The sign of a quotient is that of a product. -/
inductive IsQuotient : Binary64 → Binary64 → Binary64 → Prop
  | ofNan {y : Binary64} : IsQuotient nan y nan
  | overNan {x : Binary64} : IsQuotient x nan nan
  | infinities {s t : Bool} : IsQuotient (infinite s) (infinite t) nan
  | ofInfinity {s t : Bool} {n : Magnitude} :
      IsQuotient (infinite s) (finite t n) (infinite (s != t))
  | overInfinity {s t : Bool} {m : Magnitude} :
      IsQuotient (finite s m) (infinite t) (zero (s != t))
  | zeros {s t : Bool} {m n : Magnitude} (hm : m.rank = 0) (hn : n.rank = 0) :
      IsQuotient (finite s m) (finite t n) nan
  | overZero {s t : Bool} {m n : Magnitude} (hm : m.rank ≠ 0) (hn : n.rank = 0) :
      IsQuotient (finite s m) (finite t n) (infinite (s != t))
  | rounded {s t : Bool} {m n : Magnitude} (hn : n.rank ≠ 0) :
      IsQuotient (finite s m) (finite t n)
        (round (s != t) (m.grains * grainsPerOne) n.grains)

/-- There is no quotient of these. -/
def Indeterminate (x y : Binary64) : Prop :=
  x.isNan ∨ y.isNan ∨ (x.isZero ∧ y.isZero) ∨ (x.isInfinite ∧ y.isInfinite)

/-- Division keeps to the rules. -/
theorem isQuotient_div (x y : Binary64) : IsQuotient x y (x / y) := by
  change IsQuotient x y (div x y)
  cases x with
  | nan => exact .ofNan
  | infinite s =>
      cases y with
      | nan => exact .overNan
      | infinite t => exact .infinities
      | finite t n => exact .ofInfinity
  | finite s m =>
      cases y with
      | nan => exact .overNan
      | infinite t => exact .overInfinity
      | finite t n =>
          rw [div]
          split
          · next hn =>
            split
            · next hm => exact .zeros hm hn
            · next hm => exact .overZero hm hn
          · next hn => exact .rounded hn

namespace IsQuotient

variable {x y q : Binary64}

/-- The rules leave no choice. -/
theorem div_eq (h : IsQuotient x y q) : x / y = q := by
  change div x y = q
  cases h with
  | ofNan => rfl
  | overNan => cases x <;> rfl
  | infinities => rfl
  | ofInfinity => rfl
  | overInfinity => rfl
  | zeros hm hn => rw [div, if_pos hn, if_pos hm]
  | overZero hm hn => rw [div, if_pos hn, if_neg hm]
  | rounded hn => rw [div, if_neg hn]

/-- Where there is no quotient, and only there, the rules give `nan`. -/
theorem isNan_iff (h : IsQuotient x y q) : q.isNan ↔ Indeterminate x y := by
  cases h with
  | rounded hn => simp [Indeterminate, hn, isNan.eq_def (finite _ _), isZero, isInfinite]
  | _ => simp_all [Indeterminate, isNan, isZero, isInfinite, zero]

/-- A quotient is negative exactly if the signs of its operands differ. -/
theorem isNegative_eq (h : IsQuotient x y q) (hq : q.isNan = false) :
    q.isNegative = (x.isNegative != y.isNegative) := by
  cases h with
  | ofNan => cases hq
  | overNan => cases hq
  | infinities => cases hq
  | zeros hm hn => cases hq
  | ofInfinity => rfl
  | overInfinity => rfl
  | overZero hm hn => rfl
  | rounded hn => exact isNegative_round ..

/-- Over zero, and of an infinity, a quotient is infinite. -/
theorem isInfinite (h : IsQuotient x y q) (hq : q.isNan = false)
    (hoperands : y.isZero ∨ x.isInfinite) : q.isInfinite := by
  cases h with
  | ofNan => cases hq
  | overNan => cases hq
  | infinities => cases hq
  | zeros hm hn => cases hq
  | ofInfinity => rfl
  | overInfinity => simp [isZero, Binary64.isInfinite] at hoperands
  | overZero hm hn => rfl
  | rounded hn => simp [isZero, Binary64.isInfinite, hn] at hoperands

/-- Signs that are changed in the operands are changed in the quotient. -/
theorem flip (a b : Bool) (h : IsQuotient x y q) :
    IsQuotient (flipIf a x) (flipIf b y) (flipIf (a != b) q) := by
  have hsign : ∀ s t, ((a != b) != (s != t)) = ((a != s) != (b != t)) := by
    cases a <;> cases b <;> decide
  cases h with
  | ofNan =>
      rw [flipIf_nan, flipIf_nan]
      exact .ofNan
  | overNan =>
      rw [flipIf_nan, flipIf_nan]
      exact .overNan
  | infinities =>
      rw [flipIf_infinite, flipIf_infinite, flipIf_nan]
      exact .infinities
  | ofInfinity =>
      rw [flipIf_infinite, flipIf_finite, flipIf_infinite, hsign]
      exact .ofInfinity
  | overInfinity =>
      rw [flipIf_finite, flipIf_infinite, zero, flipIf_finite, hsign]
      exact .overInfinity
  | zeros hm hn =>
      rw [flipIf_finite, flipIf_finite, flipIf_nan]
      exact .zeros hm hn
  | overZero hm hn =>
      rw [flipIf_finite, flipIf_finite, flipIf_infinite, hsign]
      exact .overZero hm hn
  | rounded hn =>
      rw [flipIf_finite, flipIf_finite, flipIf_round, hsign]
      exact .rounded hn

end IsQuotient

/-- **Division never fails and has one law of signs.**  It gives `nan` for what has no
quotient.  Every other quotient is negative exactly if the signs of its operands differ, and
it is infinite over zero and of an infinity.  Changing the sign of either operand changes
the sign of the quotient. -/
theorem quotient_law (x y : Binary64) :
    ∃ q, divide? x y = some q ∧
      (q.isNan ↔ Indeterminate x y) ∧
      (¬ Indeterminate x y → q.isNegative = (x.isNegative ^^ y.isNegative) ∧
        (y.isZero ∨ x.isInfinite → q.isInfinite)) ∧
      divide? (-x) y = some (-q) ∧ divide? x (-y) = some (-q) := by
  have hquotient : IsQuotient x y (x / y) := isQuotient_div x y
  refine ⟨x / y, divide?_eq x y, hquotient.isNan_iff, ?_, ?_, ?_⟩
  · intro hdeterminate
    have hq : (x / y).isNan = false := by
      rwa [← hquotient.isNan_iff, Bool.not_eq_true] at hdeterminate
    exact ⟨hquotient.isNegative_eq hq, hquotient.isInfinite hq⟩
  · rw [divide?_eq]
    exact congrArg some (hquotient.flip true false).div_eq
  · rw [divide?_eq]
    exact congrArg some (hquotient.flip false true).div_eq

/-- A product of signs answers for one over a negative zero. -/
example : divide? one (zero true) = some (infinite true) := rfl

end Abacus.Binary64
