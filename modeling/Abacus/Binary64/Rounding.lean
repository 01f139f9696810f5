import Abacus.Binary64.Basic

/-!
# Rounding to the nearest binary64 number

An exact result is a ratio of two natural numbers, counted in grains.
`nearestRank` finds the rank of the magnitude nearest to it, a tie going to the
even rank, with no bound on the exponent; `Binary64.round` turns a rank beyond
the finite ones into an infinity.

The rank of a magnitude with spacing `2 ^ k` grains and significand `m` is
`k * 2 ^ 52 + m`.  A significand that rounds up to `2 ^ 53` therefore carries into
the next spacing by itself.  `nearestRank_grains` says that a magnitude is its
own nearest one.
-/

namespace Abacus

/-- The integer nearest to `num / den`, a half going to the even one. -/
def roundDiv (num den : Nat) : Nat :=
  let quotient := num / den
  let double := 2 * (num % den)
  if den < double ∨ (den = double ∧ quotient % 2 = 1) then quotient + 1 else quotient

/-- The rank nearest to `num / den` grains, as if exponents had no bound. -/
def nearestRank (num den : Nat) : Nat :=
  let shift := Nat.log2 (num / den) - 52
  shift * 2 ^ 52 + roundDiv num (den * 2 ^ shift)

/-- The number nearest to `num / den` grains, with the given sign. -/
def Binary64.round (negative : Bool) (num den : Nat) : Binary64 :=
  let rank := nearestRank num den
  if h : rank < infinityRank then .finite negative ⟨rank, h⟩ else .infinite negative

/-- A whole quotient is not changed by rounding. -/
theorem roundDiv_mul_right (n : Nat) {den : Nat} (h : 0 < den) : roundDiv (n * den) den = n := by
  simp [roundDiv, h]
  omega

/-- Rounding depends on the ratio alone. -/
theorem roundDiv_mul_mul (num den : Nat) {k : Nat} (h : 0 < k) :
    roundDiv (num * k) (den * k) = roundDiv num den := by
  have hmod : 2 * (num * k % (den * k)) = 2 * (num % den) * k := by
    rw [Nat.mul_mod_mul_right, Nat.mul_assoc]
  have hlt : den * k < 2 * (num % den) * k ↔ den < 2 * (num % den) :=
    Nat.mul_lt_mul_right h
  have heq : den * k = 2 * (num % den) * k ↔ den = 2 * (num % den) :=
    Nat.mul_left_inj (Nat.ne_of_gt h)
  simp only [roundDiv, hmod, Nat.mul_div_mul_right _ _ h, hlt, heq]

/-- The nearest rank depends on the ratio alone. -/
theorem nearestRank_mul_mul (num den : Nat) {k : Nat} (h : 0 < k) :
    nearestRank (num * k) (den * k) = nearestRank num den := by
  simp only [nearestRank, Nat.mul_div_mul_right _ _ h, Nat.mul_right_comm den k,
    roundDiv_mul_mul _ _ h]

/-- The rounded number depends on the ratio alone. -/
theorem Binary64.round_mul_mul (negative : Bool) (num den : Nat) {k : Nat} (h : 0 < k) :
    Binary64.round negative (num * k) (den * k) = Binary64.round negative num den := by
  simp only [Binary64.round, nearestRank_mul_mul _ _ h]

/-- A magnitude is the magnitude nearest to its own value. -/
theorem nearestRank_grains (m : Magnitude) : nearestRank m.grains 1 = m.rank := by
  have hpow : 0 < 2 ^ m.shift := Nat.two_pow_pos _
  have hshift : Nat.log2 m.grains - 52 = m.shift := by
    by_cases hsmall : m.rank < 2 ^ 53
    · have h0 : m.shift = 0 := by unfold Magnitude.shift; omega
      have hg : m.grains = m.rank := by simp [Magnitude.grains, Magnitude.significand, h0]
      rw [h0, hg]
      by_cases hz : m.rank = 0
      · simp [hz]
      · have : Nat.log2 m.rank < 53 := (Nat.log2_lt hz).2 hsmall
        omega
    · have hs : m.shift + 1 = m.rank / 2 ^ 52 := by unfold Magnitude.shift; omega
      have hlow : 2 ^ 52 ≤ m.significand := by unfold Magnitude.significand; omega
      have hhigh : m.significand < 2 ^ 53 := by unfold Magnitude.significand; omega
      have hne : m.grains ≠ 0 := by
        have : 0 < m.significand := by omega
        exact Nat.ne_of_gt (Nat.mul_pos this hpow)
      have hle : 52 + m.shift ≤ Nat.log2 m.grains := by
        rw [Nat.le_log2 hne, Nat.pow_add]
        exact Nat.mul_le_mul_right _ hlow
      have hlt : Nat.log2 m.grains < 53 + m.shift := by
        rw [Nat.log2_lt hne, Nat.pow_add]
        exact Nat.mul_lt_mul_of_pos_right hhigh hpow
      omega
  have hrank : m.shift * 2 ^ 52 ≤ m.rank := by unfold Magnitude.shift; omega
  unfold nearestRank
  simp only [Nat.div_one, hshift, Nat.one_mul]
  rw [show m.grains = m.significand * 2 ^ m.shift from rfl, roundDiv_mul_right _ hpow]
  unfold Magnitude.significand
  omega

/-- Rounding an exact magnitude gives it back. -/
theorem Binary64.round_grains (negative : Bool) (m : Magnitude) :
    Binary64.round negative m.grains 1 = .finite negative m := by
  simp [Binary64.round, nearestRank_grains, m.rank_lt]

end Abacus
