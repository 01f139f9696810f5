import Abacus.Decimal.Basic

/-!
# The shortest decimal of a number

Among the decimals that read back as a given magnitude, `shortest` picks one
with the fewest digits, and of those the nearest one, a tie going to the even
coefficient.

A grain is `5 ^ 1074` times `10 ^ -1074`, so every magnitude is a whole number of
parts of size `10 ^ -1074`.  The search walks down the grids of step
`10 ^ (j - 1074)`, from the grid on which the number has one digit.  On each grid
only the two neighbours of the number can be the answer: the decimals that read
back form an interval around it.  On the last grid, `j = 0`, the number itself
is a grid point, so the search always ends with a decimal that reads back.
-/

namespace Abacus

/-- A magnitude as a number of parts of size `10 ^ -1074`. -/
def Magnitude.decimalParts (m : Magnitude) : Nat := m.grains * 5 ^ grainExponent

namespace Decimal

/-- The decimal with a given coefficient on the grid of step `10 ^ (j - 1074)`. -/
def onGrid (j coefficient : Nat) : Decimal := ⟨coefficient, (j : Int) - grainExponent⟩

/-- Reading the decimal gives the magnitude. -/
def readsAs (d : Decimal) (m : Magnitude) : Bool := d.toBinary64 == .finite false m

/-- A power of ten is a power of five times one of two. -/
theorem ten_pow_eq (n : Nat) : 10 ^ n = 5 ^ n * 2 ^ n := by
  rw [← Nat.mul_pow]

/-- On the last grid the number itself is a point, and it reads back. -/
theorem readsAs_onGrid_zero (m : Magnitude) : (onGrid 0 m.decimalParts).readsAs m := by
  have hnum : m.decimalParts * 10 ^ 0 * grainsPerOne = m.grains * 10 ^ grainExponent := by
    rw [Magnitude.decimalParts, grainsPerOne, Nat.pow_zero, Nat.mul_one, Nat.mul_assoc,
      ten_pow_eq]
  have hread : (onGrid 0 m.decimalParts).toBinary64
      = Binary64.round false (m.decimalParts * 10 ^ 0 * grainsPerOne) (10 ^ grainExponent) := rfl
  have hpos : 0 < (10 : Nat) ^ grainExponent := Nat.pow_pos (by decide)
  have hround := Binary64.round_mul_mul false m.grains 1 hpos
  rw [Nat.one_mul] at hround
  rw [readsAs, hread, hnum, hround, Binary64.round_grains]
  exact beq_self_eq_true _

/-- Of two decimals the one that reads back, and of two that do, the preferred. -/
def choose? (m : Magnitude) (preferBelow : Bool) (below above : Decimal) : Option Decimal :=
  if below.readsAs m && (preferBelow || !above.readsAs m) then some below
  else if above.readsAs m then some above
  else none

/-- The better neighbour of `m` on grid `j` that reads back, if one does. -/
def neighbour? (m : Magnitude) (j : Nat) : Option Decimal :=
  let step := 10 ^ j
  let low := m.decimalParts / step
  let double := 2 * (m.decimalParts % step)
  choose? m (double < step || (double == step && low % 2 == 0)) (onGrid j low) (onGrid j (low + 1))

/-- The first decimal that reads back on the grids from `j` downwards. -/
def search (m : Magnitude) : Nat → Decimal
  | 0 => onGrid 0 m.decimalParts
  | j + 1 => (neighbour? m (j + 1)).getD (search m j)

/-- A decimal that is chosen reads back. -/
theorem readsAs_of_choose? {m : Magnitude} {preferBelow : Bool} {below above d : Decimal}
    (h : choose? m preferBelow below above = some d) : d.readsAs m := by
  unfold choose? at h
  split at h
  · next hbelow =>
    cases h
    exact (Bool.and_eq_true_iff.1 hbelow).1
  · split at h
    · next habove => cases h; exact habove
    · cases h

/-- The search ends with a decimal that reads back. -/
theorem readsAs_search (m : Magnitude) (j : Nat) : (search m j).readsAs m := by
  induction j with
  | zero => exact readsAs_onGrid_zero m
  | succ j ih =>
    unfold search
    cases h : neighbour? m (j + 1) with
    | none => exact ih
    | some d => exact readsAs_of_choose? h

/-- The same decimal without zeros at the end of its coefficient. -/
def trim (d : Decimal) : Decimal :=
  if d.coefficient ≠ 0 ∧ d.coefficient % 10 = 0 then trim ⟨d.coefficient / 10, d.scale + 1⟩ else d
termination_by d.coefficient
decreasing_by omega

/-- The shortest decimal that reads back as `m`. -/
def shortest (m : Magnitude) : Decimal :=
  (search m ((Nat.toDigits 10 m.decimalParts).length - 1)).trim

end Decimal

end Abacus
