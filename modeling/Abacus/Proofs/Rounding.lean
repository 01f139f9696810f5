import Abacus.Binary64.Arithmetic
import Abacus.Decimal.Basic
import Abacus.Proofs.NearestRank
import Mathlib.Algebra.Order.Field.Basic
import Mathlib.Algebra.Order.Field.Rat
import Mathlib.Algebra.Order.Ring.Abs
import Mathlib.Tactic.FieldSimp
import Mathlib.Tactic.Linarith
import Mathlib.Tactic.Ring

/-!
# Correct rounding

Sums, products, quotients and written numbers are the exact ones, rounded correctly: to a
finite number that none is nearer than, with an even rank where another one is as near, and
to an infinity from the midpoint behind the greatest finite number on.

`IsRounded` says so of any rational number, and leaves no choice but the sign of an exact
zero (`IsRounded.unique`).  So an exact result that is a number itself is given as it is.

The key local fact is `isRounded_round`.  A number on the other side of zero is no nearer
than the zero is, so it is enough to compare magnitudes, and there the nearest rank decides.
-/

namespace Abacus

/-! ## Exact values -/

theorem grainsPerOne_pos : 0 < grainsPerOne := Nat.two_pow_pos _

theorem cast_grainsPerOne_pos : (0 : ℚ) < grainsPerOne := Nat.cast_pos.mpr grainsPerOne_pos

namespace Magnitude

variable {m n : Magnitude}

/-- The exact value of a finite magnitude. -/
def value (m : Magnitude) : ℚ := m.grains / grainsPerOne

theorem value_nonneg (m : Magnitude) : 0 ≤ m.value :=
  div_nonneg (Nat.cast_nonneg _) cast_grainsPerOne_pos.le

@[simp] theorem value_zero : zero.value = 0 := by
  rw [value, grains_zero, Nat.cast_zero, zero_div]

theorem value_lt (h : m.rank < n.rank) : m.value < n.value := by
  have hgrains : m.grains < n.grains := by
    rw [grains_eq, grains_eq]
    exact rankGrains_strictMono h
  exact div_lt_div_of_pos_right (Nat.cast_lt.mpr hgrains) cast_grainsPerOne_pos

/-- Different magnitudes have different values. -/
theorem value_inj : m.value = n.value ↔ m = n := by
  constructor
  · intro h
    rcases Nat.lt_trichotomy m.rank n.rank with hlt | heq | hlt
    · exact absurd h (value_lt hlt).ne
    · exact Magnitude.ext heq
    · exact absurd h (value_lt hlt).ne'
  · exact congrArg value

end Magnitude

/-- A change of sign as a factor. -/
def signFactor (negative : Bool) : ℚ := if negative then -1 else 1

section Signs

variable (s t : Bool) (x y : ℚ)

theorem abs_signFactor : |signFactor s| = 1 := by
  cases s <;> simp [signFactor]

theorem signFactor_bne : signFactor (s != t) = signFactor s * signFactor t := by
  cases s <;> cases t <;> simp [signFactor]

theorem signFactor_mul_self : signFactor s * signFactor s = 1 := by
  cases s <;> simp [signFactor]

theorem signFactor_not : signFactor (!s) = -signFactor s := by
  cases s <;> simp [signFactor]

/-- Only zero is on both sides of zero. -/
theorem eq_zero_of_signs {s t : Bool} {q : ℚ} (hst : s ≠ t) (hs : 0 ≤ signFactor s * q)
    (ht : 0 ≤ signFactor t * q) : q = 0 := by
  rw [Bool.eq_not_of_ne hst, signFactor_not, neg_mul] at hs
  have hzero : signFactor t * q = 0 := le_antisymm (neg_nonneg.mp hs) ht
  rw [← abs_eq_zero, ← one_mul |q|, ← abs_signFactor t, ← abs_mul, hzero, abs_zero]

/-- On one side of zero the distance is that of the magnitudes. -/
theorem abs_signFactor_sub : |signFactor s * x - signFactor s * y| = |x - y| := by
  rw [← mul_sub, abs_mul, abs_signFactor, one_mul]

/-- Across zero the distance is the sum of the magnitudes. -/
theorem abs_signFactor_sub_not {x y : ℚ} (hx : 0 ≤ x) (hy : 0 ≤ y) :
    |signFactor s * x - signFactor (!s) * y| = x + y := by
  rw [signFactor_not, neg_mul, sub_neg_eq_add, ← mul_add, abs_mul, abs_signFactor, one_mul,
    abs_of_nonneg (add_nonneg hx hy)]

end Signs

namespace Binary64

/-- The exact value of a finite number. -/
def signedValue (negative : Bool) (m : Magnitude) : ℚ := signFactor negative * m.value

theorem signedValue_eq (negative : Bool) (m : Magnitude) :
    signedValue negative m = (signedGrains negative m : ℚ) / grainsPerOne := by
  unfold signedValue signFactor signedGrains
  cases negative with
  | false =>
      simp only [Bool.false_eq_true, if_false, one_mul, Int.cast_natCast]
      rfl
  | true =>
      simp only [if_true, neg_mul, one_mul, Int.cast_neg, Int.cast_natCast, neg_div]
      rfl

theorem signedValue_inj {negative : Bool} {m n : Magnitude} :
    signedValue negative m = signedValue negative n ↔ m.value = n.value := by
  cases negative <;> simp [signedValue, signFactor]

/-- Distances are the same on either side of zero. -/
theorem abs_sub_signedValue (q : ℚ) (negative : Bool) (m : Magnitude) :
    |q - signedValue negative m| = |signFactor negative * q - m.value| := by
  rw [← abs_signFactor_sub negative, signedValue, ← mul_assoc, signFactor_mul_self, one_mul]

/-! ## Correctly rounded numbers -/

/-- Where the infinities begin: the midpoint between the greatest finite number and the one
that would come next. -/
def overflowBound : ℚ := 2 ^ 1024 - 2 ^ 970

/-- No finite number is nearer, and where another one is as near, the rank is even. -/
structure IsNearest (q : ℚ) (negative : Bool) (m : Magnitude) : Prop where
  le_abs : ∀ s n, |q - signedValue negative m| ≤ |q - signedValue s n|
  even_of_tie : ∀ s n, signedValue s n ≠ signedValue negative m →
    |q - signedValue s n| = |q - signedValue negative m| → m.rank % 2 = 0

/-- The number is the exact one, rounded correctly.  Its sign is that of the exact one; either
sign is that of zero. -/
inductive IsRounded (q : ℚ) : Binary64 → Prop
  | finite {negative : Bool} {m : Magnitude} (hsign : 0 ≤ signFactor negative * q)
      (hrange : |q| < overflowBound) (hnearest : IsNearest q negative m) :
      IsRounded q (finite negative m)
  | infinite {negative : Bool} (hsign : 0 < signFactor negative * q)
      (hrange : overflowBound ≤ |q|) : IsRounded q (infinite negative)

/-- It is enough to compare with numbers on the same side of zero. -/
theorem isNearest_of_magnitude {x : ℚ} (hx : 0 ≤ x) (negative : Bool) {m : Magnitude}
    (hle : ∀ n : Magnitude, |x - m.value| ≤ |x - n.value|)
    (heven : ∀ n, n ≠ m → |x - n.value| = |x - m.value| → m.rank % 2 = 0) :
    IsNearest (signFactor negative * x) negative m := by
  have hzero : |x - Magnitude.zero.value| = x := by
    rw [Magnitude.value_zero, sub_zero, abs_of_nonneg hx]
  have hleft := hle .zero
  constructor
  · intro s n
    have hn := n.value_nonneg
    unfold signedValue
    rw [abs_signFactor_sub]
    by_cases hs : s = negative
    · rw [hs, abs_signFactor_sub]
      exact hle n
    · rw [Bool.eq_not_of_ne hs, abs_signFactor_sub_not _ hx hn]
      linarith
  · intro s n hne htie
    have hn := n.value_nonneg
    unfold signedValue at hne htie
    rw [abs_signFactor_sub] at htie
    by_cases hs : s = negative
    · rw [hs] at hne htie
      rw [abs_signFactor_sub] at htie
      exact heven n (fun h => hne (by rw [h])) htie
    · -- Across zero only a zero can be as near, and then the zero on this side is too.
      rw [Bool.eq_not_of_ne hs, abs_signFactor_sub_not _ hx hn] at htie
      have hn0 : n.value = 0 := by linarith
      have hm : Magnitude.zero ≠ m := by
        rintro rfl
        exact hne (by rw [hn0, Magnitude.value_zero, mul_zero, mul_zero])
      exact heven .zero hm (by linarith)

section Round

variable {den : Nat}

theorem cast_dist (a b : Nat) : ((Nat.dist a b : Nat) : ℚ) = |(a : ℚ) - b| := by
  unfold Nat.dist
  rcases Nat.le_total a b with h | h
  · rw [Nat.sub_eq_zero_of_le h, Nat.zero_add, Nat.cast_sub h, abs_sub_comm, abs_of_nonneg]
    exact sub_nonneg.mpr (Nat.cast_le.mpr h)
  · rw [Nat.sub_eq_zero_of_le h, Nat.add_zero, Nat.cast_sub h, abs_of_nonneg]
    exact sub_nonneg.mpr (Nat.cast_le.mpr h)

/-- The distance of a ratio from a magnitude, in parts of a grain. -/
theorem abs_sub_value (num : Nat) (hden : 0 < den) (m : Magnitude) :
    |num / (den * grainsPerOne) - m.value| =
      (Nat.dist num (m.grains * den) : ℚ) / (den * grainsPerOne) := by
  have hgrain := cast_grainsPerOne_pos
  have hden : (0 : ℚ) < den := Nat.cast_pos.mpr hden
  have hvalue : m.value = (m.grains * den : Nat) / (den * grainsPerOne) := by
    rw [Magnitude.value, Nat.cast_mul]
    field_simp
  rw [hvalue, ← sub_div, abs_div, abs_of_pos (mul_pos hden hgrain), cast_dist]

/-- The bound in grains, counted in halves. -/
theorem overflowBound_mul :
    overflowBound * (2 * grainsPerOne) = ((2 ^ 54 - 1) * 2 ^ greatestShift : Nat) := by
  have hbound : overflowBound = (2 ^ 54 - 1) * 2 ^ 970 := by
    have hpow : (2 : ℚ) ^ 1024 = 2 ^ 54 * 2 ^ 970 := pow_add 2 54 970
    rw [overflowBound, hpow, sub_mul, one_mul]
  have hgrains : (grainsPerOne : ℚ) = 2 ^ grainExponent := Nat.cast_pow 2 _
  have hpow : (2 : ℚ) ^ greatestShift = 2 ^ 970 * (2 * 2 ^ grainExponent) := by
    rw [← pow_succ', ← pow_add]
    rfl
  have hcast : ((2 ^ greatestShift : Nat) : ℚ) = 2 ^ greatestShift := Nat.cast_pow 2 _
  have hodd : ((2 ^ 54 - 1 : Nat) : ℚ) = 2 ^ 54 - 1 := by norm_num
  rw [Nat.cast_mul, hodd, hcast, hpow, hbound, hgrains, mul_assoc]

/-- The ratios below the bound are those with a finite nearest rank. -/
theorem lt_overflowBound_iff (num : Nat) (hden : 0 < den) :
    num / (den * grainsPerOne) < overflowBound ↔ nearestRank num den < infinityRank := by
  have hpos : (0 : ℚ) < den * grainsPerOne := mul_pos (Nat.cast_pos.mpr hden) cast_grainsPerOne_pos
  have htwice : overflowBound * (den * grainsPerOne) * 2 =
      ((2 ^ 54 - 1) * 2 ^ greatestShift * den : Nat) := by
    rw [Nat.cast_mul, ← overflowBound_mul]
    ring
  rw [nearestRank_lt_infinityRank_iff hden, ← Nat.cast_lt (α := ℚ), ← htwice, Nat.cast_mul,
    Nat.cast_ofNat, mul_comm (2 : ℚ), mul_lt_mul_iff_left₀ zero_lt_two, div_lt_iff₀ hpos]

/-- **A ratio is rounded correctly**, with the sign that is given. -/
theorem isRounded_round (hden : 0 < den) (negative : Bool) (num : Nat) :
    IsRounded (signFactor negative * (num / (den * grainsPerOne))) (round negative num den) := by
  have hpos : (0 : ℚ) < den * grainsPerOne := mul_pos (Nat.cast_pos.mpr hden) cast_grainsPerOne_pos
  have hratio : (0 : ℚ) ≤ num / (den * grainsPerOne) := div_nonneg (Nat.cast_nonneg _) hpos.le
  have habs : |signFactor negative * (num / (den * grainsPerOne) : ℚ)| =
      num / (den * grainsPerOne) := by
    rw [abs_mul, abs_signFactor, one_mul, abs_of_nonneg hratio]
  have hsign : signFactor negative * (signFactor negative * (num / (den * grainsPerOne) : ℚ)) =
      num / (den * grainsPerOne) := by
    rw [← mul_assoc, signFactor_mul_self, one_mul]
  have hfinite := lt_overflowBound_iff num hden
  unfold round
  by_cases h : nearestRank num den < infinityRank
  · simp only [dif_pos h]
    refine .finite (by rwa [hsign]) (by rw [habs]; exact hfinite.mpr h) ?_
    apply isNearest_of_magnitude hratio
    · intro n
      rw [abs_sub_value num hden, abs_sub_value num hden]
      exact div_le_div_of_nonneg_right (Nat.cast_le.mpr (nearestRank_le_dist hden n.rank)) hpos.le
    · intro n hn htie
      rw [abs_sub_value num hden, abs_sub_value num hden, div_left_inj' hpos.ne', Nat.cast_inj] at htie
      exact (nearestRank_nearest hden fun h => hn (Magnitude.ext h)).2 htie
  · simp only [dif_neg h]
    have hbound : overflowBound ≤ num / (den * grainsPerOne) := not_lt.mp (mt hfinite.mp h)
    have hbelow : 0 < overflowBound := sub_pos.mpr (pow_lt_pow_right₀ one_lt_two (by decide))
    refine .infinite ?_ (by rwa [habs])
    rw [hsign]
    exact hbelow.trans_le hbound

end Round

/-! ## Nothing is left to choose -/

section Unique

variable {q : ℚ} {x y : Binary64}

/-- A magnitude between two that are as near is nearer. -/
theorem abs_sub_lt_of_between {a b c : ℚ} (hab : a < b) (hbc : b < c)
    (htie : |q - a| = |q - c|) : |q - b| < |q - a| := by
  rcases abs_eq_abs.mp htie with hsame | hmiddle
  · linarith
  · rw [abs_of_pos (show 0 < q - a by linarith), abs_lt]
    constructor <;> linarith

/-- The nearest number to zero is zero. -/
theorem IsNearest.eq_zero {negative : Bool} {m : Magnitude} (hm : IsNearest 0 negative m) :
    m = .zero := by
  have hle := hm.le_abs negative .zero
  rw [abs_sub_signedValue, abs_sub_signedValue, Magnitude.value_zero, mul_zero, sub_zero, abs_zero,
    abs_nonpos_iff, zero_sub, neg_eq_zero] at hle
  exact Magnitude.value_inj.mp (hle.trans Magnitude.value_zero.symm)

/-- On one side of zero no two numbers are nearest: both would have even ranks, and a rank
between them would be nearer. -/
theorem IsNearest.not_lt {negative : Bool} {m n : Magnitude} (hm : IsNearest q negative m)
    (hn : IsNearest q negative n) : ¬ m.rank < n.rank := by
  intro hlt
  have htie : |q - signedValue negative m| = |q - signedValue negative n| :=
    le_antisymm (hm.le_abs negative n) (hn.le_abs negative m)
  have hne : signedValue negative m ≠ signedValue negative n := by
    intro heq
    exact (Magnitude.value_lt hlt).ne (signedValue_inj.mp heq)
  have hevenm := hm.even_of_tie negative n hne.symm htie.symm
  have hevenn := hn.even_of_tie negative m hne htie
  have hnext : m.rank + 1 < n.rank := by omega
  let k : Magnitude := ⟨m.rank + 1, hnext.trans n.rank_lt⟩
  have hle := hm.le_abs negative k
  rw [abs_sub_signedValue, abs_sub_signedValue] at hle htie
  have hbelow : m.value < k.value := Magnitude.value_lt (Nat.lt_succ_self m.rank)
  have habove : k.value < n.value := Magnitude.value_lt hnext
  exact absurd hle (not_le.mpr (abs_sub_lt_of_between hbelow habove htie))

/-- **Nothing is left to choose** but the sign of an exact zero. -/
theorem IsRounded.unique (hx : IsRounded q x) (hy : IsRounded q y) :
    x = y ∨ q = 0 ∧ x.isZero = true ∧ y.isZero = true := by
  cases hx with
  | @finite a m hsign hrange hm =>
      cases hy with
      | @finite b n hsign' hrange' hn =>
          by_cases hab : b = a
          · subst hab
            have hrank : m.rank = n.rank :=
              Nat.le_antisymm (Nat.not_lt.mp (hn.not_lt hm)) (Nat.not_lt.mp (hm.not_lt hn))
            exact .inl (by rw [Magnitude.ext hrank])
          · obtain rfl := eq_zero_of_signs (Ne.symm hab) hsign hsign'
            rw [hm.eq_zero, hn.eq_zero]
            exact .inr ⟨rfl, rfl, rfl⟩
      | infinite hsign' hrange' => exact absurd hrange' (not_le.mpr hrange)
  | @infinite a hsign hrange =>
      cases hy with
      | finite hsign' hrange' hn => exact absurd hrange (not_le.mpr hrange')
      | @infinite b hsign' hrange' =>
          by_cases hab : a = b
          · exact .inl (by rw [hab])
          · obtain rfl := eq_zero_of_signs hab hsign.le hsign'.le
            exact absurd (mul_zero _) hsign.ne'

end Unique

/-! ## The operations -/

section Operations

variable (s t : Bool) (m n : Magnitude)

/-- A number is its own rounding. -/
theorem isRounded_finite : IsRounded (signedValue s m) (finite s m) := by
  have hround := isRounded_round Nat.one_pos s m.grains
  rwa [round_grains, Nat.cast_one, one_mul] at hround

/-- **An exact result that is a number** is given as it is; a zero may have either sign. -/
theorem IsRounded.eq_of_exact {q : ℚ} {x : Binary64} {s : Bool} {m : Magnitude}
    (h : IsRounded q x) (hq : q = signedValue s m) :
    x = .finite s m ∨ m.rank = 0 ∧ x.isZero = true := by
  rcases h.unique (hq ▸ isRounded_finite s m) with heq | ⟨-, hx, hzero⟩
  · exact .inl heq
  · exact .inr ⟨beq_iff_eq.mp hzero, hx⟩

/-- A whole number of grains is rounded correctly, zero with the sign that is given. -/
theorem isRounded_ofGrains (zeroSign : Bool) (total : Int) :
    IsRounded (total / grainsPerOne) (ofGrains zeroSign total) := by
  unfold ofGrains
  by_cases hzero : total = 0
  · rw [if_pos hzero, hzero, Int.cast_zero, zero_div]
    have hround := isRounded_finite zeroSign .zero
    rwa [signedValue, Magnitude.value_zero, mul_zero] at hround
  · rw [if_neg hzero]
    have hround := isRounded_round Nat.one_pos (total < 0) total.natAbs
    have htotal : signFactor (total < 0) * (total.natAbs : ℚ) = total := by
      rw [Nat.cast_natAbs, Int.cast_abs]
      by_cases hneg : total < 0
      · have hcast : (total : ℚ) < 0 := Int.cast_lt_zero.mpr hneg
        simp [signFactor, hneg, abs_of_neg hcast]
      · have hcast : (0 : ℚ) ≤ total := Int.cast_nonneg (not_lt.mp hneg)
        simp [signFactor, hneg, abs_of_nonneg hcast]
    rwa [Nat.cast_one, one_mul, ← mul_div_assoc, htotal] at hround

/-- **A sum is the exact one**, rounded correctly. -/
theorem isRounded_add :
    IsRounded (signedValue s m + signedValue t n) (finite s m + finite t n) := by
  have hsum := isRounded_ofGrains (s && t) (signedGrains s m + signedGrains t n)
  rwa [Int.cast_add, add_div, ← signedValue_eq, ← signedValue_eq] at hsum

/-- **A difference is the exact one**, rounded correctly. -/
theorem isRounded_sub :
    IsRounded (signedValue s m - signedValue t n) (finite s m - finite t n) := by
  have hsum := isRounded_add s (!t) m n
  have hneg : signedValue (!t) n = -signedValue t n := by
    rw [signedValue, signFactor_not, neg_mul, signedValue]
  rwa [hneg, ← sub_eq_add_neg] at hsum

/-- **A product is the exact one**, rounded correctly. -/
theorem isRounded_mul :
    IsRounded (signedValue s m * signedValue t n) (finite s m * finite t n) := by
  have hround := isRounded_round grainsPerOne_pos (s != t) (m.grains * n.grains)
  have hproduct : signedValue s m * signedValue t n =
      signFactor (s != t) * ((m.grains * n.grains : Nat) / (grainsPerOne * grainsPerOne)) := by
    rw [signFactor_bne, Nat.cast_mul, signedValue, signedValue, Magnitude.value, Magnitude.value]
    ring
  rw [hproduct]
  exact hround

/-- **A quotient is the exact one**, rounded correctly, where the divisor is no zero. -/
theorem isRounded_div (hn : n.rank ≠ 0) :
    IsRounded (signedValue s m / signedValue t n) (finite s m / finite t n) := by
  have hpos : 0 < n.grains :=
    Nat.zero_lt_of_lt (rankGrains_strictMono (Nat.pos_of_ne_zero hn))
  have hround := isRounded_round hpos (s != t) (m.grains * grainsPerOne)
  have hquotient : signedValue s m / signedValue t n =
      signFactor (s != t) * ((m.grains * grainsPerOne : Nat) / (n.grains * grainsPerOne)) := by
    have hgrain := cast_grainsPerOne_pos
    have hgrains : (0 : ℚ) < n.grains := Nat.cast_pos.mpr hpos
    rw [signFactor_bne, Nat.cast_mul, signedValue, signedValue, Magnitude.value, Magnitude.value]
    cases t <;> simp only [signFactor, Bool.false_eq_true, if_true, if_false] <;> field_simp
  have hrounded : finite s m / finite t n =
      round (s != t) (m.grains * grainsPerOne) n.grains := by
    change div (finite s m) (finite t n) = _
    simp only [div, if_neg hn]
  rw [hquotient, hrounded]
  exact hround

end Operations

end Binary64

/-- **A written number is the decimal**, rounded correctly. -/
theorem Decimal.isRounded_toBinary64 (d : Decimal) :
    Binary64.IsRounded (d.coefficient * 10 ^ d.scale) d.toBinary64 := by
  have hpos : 0 < 10 ^ (-d.scale).toNat := Nat.pow_pos (by decide)
  have hround := Binary64.isRounded_round hpos false
    (d.coefficient * 10 ^ d.scale.toNat * grainsPerOne)
  have hpower : (10 : ℚ) ^ d.scale = 10 ^ d.scale.toNat / 10 ^ (-d.scale).toNat := by
    have hscale : (d.scale.toNat : Int) - ((-d.scale).toNat : Int) = d.scale := by omega
    rw [← zpow_natCast, ← zpow_natCast, ← zpow_sub₀ (by norm_num), hscale]
  have hvalue : (d.coefficient * 10 ^ d.scale : ℚ) =
      signFactor false * ((d.coefficient * 10 ^ d.scale.toNat * grainsPerOne : Nat) /
        ((10 ^ (-d.scale).toNat : Nat) * grainsPerOne)) := by
    have hgrain := cast_grainsPerOne_pos
    rw [hpower, Nat.cast_mul, Nat.cast_mul, Nat.cast_pow, Nat.cast_pow]
    simp only [signFactor, Bool.false_eq_true, if_false]
    push_cast
    field_simp
  rw [hvalue]
  exact hround

end Abacus
