import Abacus.Binary64.Rounding
import Mathlib.Data.Nat.Dist
import Mathlib.Order.Monotone.Basic

/-!
# The nearest rank

Ranks beyond the finite ones have a value in grains too, as if exponents had no bound
(`rankGrains`), and the values grow with the ranks.  The rank that rounding finds is nearest
to the exact ratio among all ranks, and it is even where another one is as near
(`nearestRank_nearest`, `nearestRank_even_of_tie`).  So between neighbours the midpoint
decides (`nearestRank_le_iff`), also between the last finite rank and the first beyond.

The key local fact is `nearestRank_spec`: the ratio is rounded to whole steps of the spacing
around it.  A rank that is not a whole number of these steps lies below all of the
significands of that spacing, and so further away than the least of them.
-/

namespace Abacus

variable {num den : Nat}

/-! ## The nearest integer -/

/-- What is left over of a quotient decides on which side of it the nearest integer is; one
half goes to the even side. -/
theorem roundDiv_cases (num den : Nat) :
    (roundDiv num den = num / den ∧ 2 * (num % den) ≤ den ∧
        (2 * (num % den) = den → num / den % 2 = 0)) ∨
      (roundDiv num den = num / den + 1 ∧ den ≤ 2 * (num % den) ∧
        (2 * (num % den) = den → num / den % 2 = 1)) := by
  unfold roundDiv
  dsimp only
  split <;> omega

/-- The nearest multiple is at most half a step away, and less if it is an odd one. -/
theorem dist_roundDiv (num : Nat) (hden : 0 < den) :
    2 * Nat.dist num (roundDiv num den * den) ≤ den ∧
      (roundDiv num den % 2 = 1 → 2 * Nat.dist num (roundDiv num den * den) < den) := by
  have hnum : num / den * den + num % den = num := Nat.div_add_mod' num den
  have hrest : num % den < den := Nat.mod_lt num hden
  unfold Nat.dist
  rcases roundDiv_cases num den with ⟨hdown, hhalf, htie⟩ | ⟨hup, hhalf, htie⟩
  · rw [hdown]
    omega
  · rw [hup, Nat.succ_mul (num / den)]
    omega

/-- Different multiples are a step apart. -/
theorem le_dist_mul {j k : Nat} (h : j ≠ k) (den : Nat) : den ≤ Nat.dist (j * den) (k * den) := by
  rw [Nat.dist_mul_right]
  exact Nat.le_mul_of_pos_left den (Nat.dist_pos_of_ne h)

/-- No other multiple is nearer, and one that is as near makes the nearest integer even. -/
theorem roundDiv_nearest (hden : 0 < den) {k : Nat} (hk : k ≠ roundDiv num den) :
    Nat.dist num (roundDiv num den * den) ≤ Nat.dist num (k * den) ∧
      (Nat.dist num (k * den) = Nat.dist num (roundDiv num den * den) →
        roundDiv num den % 2 = 0) := by
  have hstep := le_dist_mul hk den
  have hway := Nat.dist.triangle_inequality (k * den) num (roundDiv num den * den)
  rw [Nat.dist_comm (k * den) num] at hway
  obtain ⟨hhalf, hodd⟩ := dist_roundDiv num hden
  omega

theorem roundDiv_le_dist (num : Nat) (hden : 0 < den) (k : Nat) :
    Nat.dist num (roundDiv num den * den) ≤ Nat.dist num (k * den) := by
  by_cases hk : k = roundDiv num den
  · rw [hk]
  · exact (roundDiv_nearest hden hk).1

/-! ## The values of ranks -/

/-- The value of a rank as a number of grains, as if exponents had no bound. -/
def rankGrains (rank : Nat) : Nat :=
  (rank - (rank / 2 ^ 52 - 1) * 2 ^ 52) * 2 ^ (rank / 2 ^ 52 - 1)

/-- A finite magnitude has the value of its rank. -/
theorem Magnitude.grains_eq (m : Magnitude) : m.grains = rankGrains m.rank := rfl

/-- The significands of a spacing; the least spacing has the small ones too. -/
def FitsSpacing (shift significand : Nat) : Prop := shift = 0 ∨ 2 ^ 52 ≤ significand

/-- **The value of a rank**, also of one that carries into the next spacing. -/
theorem rankGrains_eq {shift significand : Nat} (hfits : FitsSpacing shift significand)
    (hle : significand ≤ 2 ^ 53) :
    rankGrains (shift * 2 ^ 52 + significand) = significand * 2 ^ shift := by
  unfold FitsSpacing at hfits
  unfold rankGrains
  by_cases hcarry : significand = 2 ^ 53
  · have hshift : (shift * 2 ^ 52 + significand) / 2 ^ 52 - 1 = shift + 1 := by omega
    have hrest : shift * 2 ^ 52 + significand - (shift + 1) * 2 ^ 52 = 2 ^ 52 := by omega
    rw [hshift, hrest, hcarry, Nat.pow_succ]
    omega
  · have hshift : (shift * 2 ^ 52 + significand) / 2 ^ 52 - 1 = shift := by omega
    rw [hshift, Nat.add_sub_cancel_left]

/-- A rank is made of a spacing and a significand. -/
theorem exists_spacing (rank : Nat) :
    ∃ shift significand, rank = shift * 2 ^ 52 + significand ∧ FitsSpacing shift significand ∧
      significand < 2 ^ 53 := by
  refine ⟨rank / 2 ^ 52 - 1, rank - (rank / 2 ^ 52 - 1) * 2 ^ 52, ?_, ?_, ?_⟩
  · omega
  · unfold FitsSpacing
    omega
  · omega

/-- **The values grow with the ranks.** -/
theorem rankGrains_strictMono : StrictMono rankGrains := by
  apply strictMono_nat_of_lt_succ
  intro rank
  obtain ⟨shift, significand, rfl, hfits, hlt⟩ := exists_spacing rank
  have hnext : FitsSpacing shift (significand + 1) := by
    unfold FitsSpacing at hfits ⊢
    omega
  rw [Nat.add_assoc, rankGrains_eq hfits (Nat.le_of_lt hlt), rankGrains_eq hnext hlt]
  exact Nat.mul_lt_mul_of_pos_right (Nat.lt_succ_self significand) (Nat.two_pow_pos shift)

theorem rankGrains_mul_lt (hden : 0 < den) {rank higher : Nat} (h : rank < higher) :
    rankGrains rank * den < rankGrains higher * den :=
  Nat.mul_lt_mul_of_pos_right (rankGrains_strictMono h) hden

/-- A value is a whole number of steps of a spacing, or below its significands. -/
theorem rankGrains_grid (shift rank : Nat) :
    (∃ k, rankGrains rank = k * 2 ^ shift) ∨
      0 < shift ∧ rankGrains rank < 2 ^ 52 * 2 ^ shift := by
  obtain ⟨own, significand, rfl, hfits, hlt⟩ := exists_spacing rank
  rw [rankGrains_eq hfits (Nat.le_of_lt hlt)]
  by_cases hle : shift ≤ own
  · refine .inl ⟨significand * 2 ^ (own - shift), ?_⟩
    rw [Nat.mul_assoc, ← Nat.pow_add, Nat.sub_add_cancel hle]
  · have hpow : 2 ^ (own + 1) ≤ 2 ^ shift := Nat.pow_le_pow_right (by decide) (by omega)
    rw [Nat.pow_succ] at hpow
    have hvalue : significand * 2 ^ own < 2 ^ 53 * 2 ^ own :=
      Nat.mul_lt_mul_of_pos_right hlt (Nat.two_pow_pos own)
    exact .inr (by omega)

/-- The greatest significand of a spacing and the one it is followed by, as values. -/
theorem rankGrains_add_carry (shift : Nat) :
    rankGrains (shift * 2 ^ 52 + (2 ^ 53 - 1)) + rankGrains (shift * 2 ^ 52 + (2 ^ 53 - 1) + 1) =
      (2 ^ 54 - 1) * 2 ^ shift := by
  have hlast : FitsSpacing shift (2 ^ 53 - 1) := .inr (by decide)
  have hnext : FitsSpacing shift (2 ^ 53 - 1 + 1) := .inr (by decide)
  rw [Nat.add_assoc, rankGrains_eq hlast (by decide), rankGrains_eq hnext (by decide)]
  omega

/-! ## The nearest rank -/

/-- The spacing around a ratio.  There are fewer than `2 ^ 53` steps of it, and `2 ^ 52` or
more unless it is the least spacing. -/
theorem shift_spec (quotient : Nat) :
    quotient < 2 ^ 53 * 2 ^ (Nat.log2 quotient - 52) ∧
      (Nat.log2 quotient - 52 = 0 ∨ 2 ^ 52 * 2 ^ (Nat.log2 quotient - 52) ≤ quotient) := by
  constructor
  · rw [← Nat.pow_add]
    apply Nat.lt_of_lt_of_le Nat.lt_log2_self
    exact Nat.pow_le_pow_right (by decide) (by omega)
  · by_cases hsmall : Nat.log2 quotient - 52 = 0
    · exact .inl hsmall
    · have hne : quotient ≠ 0 := by
        rintro rfl
        exact hsmall rfl
      have hlog : 52 + (Nat.log2 quotient - 52) = Nat.log2 quotient := by omega
      rw [← Nat.pow_add, hlog]
      exact .inr (Nat.log2_self_le hne)

/-- **The ratio is rounded to whole steps** of the spacing around it. -/
theorem nearestRank_spec (num : Nat) (hden : 0 < den) :
    ∃ shift, nearestRank num den = shift * 2 ^ 52 + roundDiv num (den * 2 ^ shift) ∧
      rankGrains (nearestRank num den) = roundDiv num (den * 2 ^ shift) * 2 ^ shift ∧
      (shift = 0 ∨ 2 ^ 52 * (den * 2 ^ shift) ≤ num) := by
  obtain ⟨hhigh, hlow⟩ := shift_spec (num / den)
  generalize hshift : Nat.log2 (num / den) - 52 = shift at hhigh hlow
  have hrank : nearestRank num den = shift * 2 ^ 52 + roundDiv num (den * 2 ^ shift) := by
    rw [nearestRank, hshift]
  have hstep : 0 < den * 2 ^ shift := Nat.mul_pos hden (Nat.two_pow_pos shift)
  have hquotient : num / (den * 2 ^ shift) < 2 ^ 53 := by
    rw [← Nat.div_div_eq_div_mul]
    exact Nat.div_lt_of_lt_mul (by rwa [Nat.mul_comm])
  have hlow : shift = 0 ∨ 2 ^ 52 * (den * 2 ^ shift) ≤ num := by
    apply hlow.imp_right
    intro hle
    rw [Nat.mul_left_comm, Nat.mul_comm]
    exact (Nat.le_div_iff_mul_le hden).mp hle
  have hle : roundDiv num (den * 2 ^ shift) ≤ 2 ^ 53 := by
    rcases roundDiv_cases num (den * 2 ^ shift) with ⟨heq, -⟩ | ⟨heq, -⟩ <;> omega
  have hfits : FitsSpacing shift (roundDiv num (den * 2 ^ shift)) := by
    apply hlow.imp_right
    intro hle
    have hquotient := (Nat.le_div_iff_mul_le hstep).mpr hle
    rcases roundDiv_cases num (den * 2 ^ shift) with ⟨heq, -⟩ | ⟨heq, -⟩ <;> omega
  exact ⟨shift, hrank, by rw [hrank, rankGrains_eq hfits hle], hlow⟩

/-- **No other rank is nearer**, and one that is as near makes the nearest rank even. -/
theorem nearestRank_nearest (hden : 0 < den) {rank : Nat} (hrank : rank ≠ nearestRank num den) :
    Nat.dist num (rankGrains (nearestRank num den) * den) ≤ Nat.dist num (rankGrains rank * den) ∧
      (Nat.dist num (rankGrains rank * den) =
        Nat.dist num (rankGrains (nearestRank num den) * den) → nearestRank num den % 2 = 0) := by
  obtain ⟨shift, hspec, hgrains, hlow⟩ := nearestRank_spec num hden
  have hstep : 0 < den * 2 ^ shift := Nat.mul_pos hden (Nat.two_pow_pos shift)
  have hvalue (k : Nat) : k * 2 ^ shift * den = k * (den * 2 ^ shift) := by
    rw [Nat.mul_assoc, Nat.mul_comm den]
  have hne : rankGrains rank ≠ rankGrains (nearestRank num den) :=
    fun heq => hrank (rankGrains_strictMono.injective heq)
  rcases rankGrains_grid shift rank with ⟨k, hk⟩ | ⟨hshift, hbelow⟩
  · have hk' : k ≠ roundDiv num (den * 2 ^ shift) := by
      rintro rfl
      exact hne (hk.trans hgrains.symm)
    obtain ⟨hle, heven⟩ := roundDiv_nearest hstep hk'
    rw [hgrains, hk, hvalue, hvalue]
    refine ⟨hle, fun htie => ?_⟩
    have hsignificand := heven htie
    omega
  · -- Off the grid the spacing is not the least, so the ratio reaches its least significand.
    have hleast : 2 ^ 52 * (den * 2 ^ shift) ≤ num := hlow.resolve_left (by omega)
    have hbelow : rankGrains rank * den < 2 ^ 52 * (den * 2 ^ shift) := by
      rw [← hvalue]
      exact Nat.mul_lt_mul_of_pos_right hbelow hden
    have hnearest := roundDiv_le_dist num hstep (2 ^ 52)
    rw [hgrains, hvalue]
    unfold Nat.dist at hnearest ⊢
    omega

theorem nearestRank_le_dist (hden : 0 < den) (rank : Nat) :
    Nat.dist num (rankGrains (nearestRank num den) * den) ≤
      Nat.dist num (rankGrains rank * den) := by
  by_cases hrank : rank = nearestRank num den
  · rw [hrank]
  · exact (nearestRank_nearest hden hrank).1

/-- **Between neighbours the midpoint decides**, and on it the even one is taken. -/
theorem nearestRank_le_iff (hden : 0 < den) (rank : Nat) :
    nearestRank num den ≤ rank ↔
      2 * num < (rankGrains rank + rankGrains (rank + 1)) * den ∨
        2 * num = (rankGrains rank + rankGrains (rank + 1)) * den ∧ rank % 2 = 0 := by
  have hlt : rankGrains rank * den < rankGrains (rank + 1) * den :=
    rankGrains_mul_lt hden (Nat.lt_succ_self rank)
  rw [Nat.add_mul]
  constructor
  · -- The ratio is as near to the higher neighbour as to the nearest rank only in a tie.
    intro hle
    have hne : rank + 1 ≠ nearestRank num den := by omega
    obtain ⟨hnearest, heven⟩ := nearestRank_nearest hden hne
    by_cases hsame : rank = nearestRank num den
    · rw [← hsame] at hnearest heven
      unfold Nat.dist at hnearest heven
      omega
    · have hbelow := rankGrains_mul_lt hden (Nat.lt_of_le_of_ne hle (Ne.symm hsame))
      unfold Nat.dist at hnearest
      omega
  · intro hmiddle
    by_contra hgt
    have hne : rank ≠ nearestRank num den := by omega
    obtain ⟨hnearest, heven⟩ := nearestRank_nearest hden hne
    by_cases hsame : rank + 1 = nearestRank num den
    · rw [← hsame] at hnearest heven
      unfold Nat.dist at hnearest heven
      omega
    · have habove : rank + 1 < nearestRank num den := by omega
      have habove := rankGrains_mul_lt hden habove
      unfold Nat.dist at hnearest
      omega

/-- The spacing of the greatest finite magnitudes. -/
def greatestShift : Nat := 2045

/-- **The finite ranks** are nearest below the midpoint behind the last one, which is odd. -/
theorem nearestRank_lt_infinityRank_iff (hden : 0 < den) :
    nearestRank num den < infinityRank ↔ 2 * num < (2 ^ 54 - 1) * 2 ^ greatestShift * den := by
  have hlast : infinityRank = greatestShift * 2 ^ 52 + (2 ^ 53 - 1) + 1 := by decide
  have hodd : ¬ (greatestShift * 2 ^ 52 + (2 ^ 53 - 1)) % 2 = 0 := by decide
  rw [hlast, Nat.lt_succ_iff, nearestRank_le_iff hden, rankGrains_add_carry]
  simp only [hodd, and_false, or_false]

end Abacus
