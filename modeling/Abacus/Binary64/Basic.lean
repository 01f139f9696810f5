/-!
# Binary64 numbers

A calculator number is not a number, an infinity, or a finite number with a
sign.  The finite magnitudes are counted upwards from zero: the magnitude of
**rank** `0` is zero, that of rank `1` is the least positive number `2 ^ -1074`
(one **grain**), and so on to the largest finite number.  The rank is also the
interchange encoding without its sign bit, so the order of the ranks is the
order of the magnitudes and `toBits` is one addition.

Every finite magnitude is a whole number of grains, `Magnitude.grains`.  All
arithmetic is done exactly on grains and rounded once at the end.

There is one value `nan`: neither its sign nor its payload can be seen in any
answer of the calculator.
-/

namespace Abacus

/-- A power of natural numbers is the core one, also where a library brings
another. -/
@[default_instance 10100]
instance (priority := 1100) natPow : Pow Nat Nat := instPowNat

/-- The number of finite magnitudes; infinity comes right after the last one. -/
def infinityRank : Nat := 2047 * 2 ^ 52

/-- The power of two by which a grain divides one. -/
def grainExponent : Nat := 1074

/-- One written as a number of grains. -/
def grainsPerOne : Nat := 2 ^ grainExponent

/-- A finite number without its sign, given by its place in the increasing
order of all of them. -/
structure Magnitude where
  rank : Nat
  rank_lt : rank < infinityRank
deriving DecidableEq

/-- Magnitudes of one rank are equal. -/
theorem Magnitude.ext {m n : Magnitude} (h : m.rank = n.rank) : m = n := by
  cases m; cases n; cases h; rfl

namespace Magnitude

/-- Zero is the least magnitude. -/
def zero : Magnitude := ⟨0, by decide⟩

/-- How many doublings separate the spacing around `m` from one grain.  The
first `2 ^ 53` magnitudes lie one grain apart. -/
def shift (m : Magnitude) : Nat := m.rank / 2 ^ 52 - 1

/-- The magnitude counted in steps of its own spacing. -/
def significand (m : Magnitude) : Nat := m.rank - m.shift * 2 ^ 52

/-- The exact value as a number of grains. -/
def grains (m : Magnitude) : Nat := m.significand * 2 ^ m.shift

@[simp] theorem grains_zero : zero.grains = 0 := by decide

end Magnitude

/-- A binary64 number, all values that are not a number taken as one. -/
inductive Binary64 where
  | nan
  | infinite (negative : Bool)
  | finite (negative : Bool) (magnitude : Magnitude)
deriving DecidableEq

namespace Binary64

/-- A zero with the given sign. -/
def zero (negative : Bool) : Binary64 := .finite negative Magnitude.zero

/-- A zero of either sign. -/
def isZero : Binary64 → Bool
  | finite _ m => m.rank == 0
  | _ => false

/-- Not a number. -/
def isNan : Binary64 → Bool
  | nan => true
  | _ => false

/-- An infinity of either sign. -/
def isInfinite : Binary64 → Bool
  | infinite _ => true
  | _ => false

/-- The sign bit; `nan` shows none. -/
def isNegative : Binary64 → Bool
  | nan => false
  | infinite s => s
  | finite s _ => s

/-- Numeric equality: the two zeros are equal and `nan` equals nothing. -/
def numEq : Binary64 → Binary64 → Bool
  | infinite s, infinite t => s == t
  | finite s m, finite t n => (m.rank == n.rank) && (m.rank == 0 || s == t)
  | _, _ => false

/-- The sign bit as the leading bit of sixty-four. -/
def signBit (negative : Bool) : Nat := if negative then 2 ^ 63 else 0

/-- The rank part of the one encoding that `nan` has, a quiet one. -/
def quietRank : Nat := 4095 * 2 ^ 51

/-- The interchange encoding. -/
def toBits : Binary64 → Nat
  | nan => quietRank
  | infinite s => signBit s + infinityRank
  | finite s m => signBit s + m.rank

/-- The number with the given interchange encoding. -/
def ofBits (bits : Nat) : Binary64 :=
  let negative := 2 ^ 63 ≤ bits
  let rank := bits % 2 ^ 63
  if h : rank < infinityRank then finite negative ⟨rank, h⟩
  else if rank = infinityRank then infinite negative
  else nan

/-- The finite numbers are those whose encoding ends below infinity's rank. -/
theorem ofBits_of_lt {bits : Nat} (h : bits % 2 ^ 63 < infinityRank) :
    ofBits bits = finite (decide (2 ^ 63 ≤ bits)) ⟨bits % 2 ^ 63, h⟩ :=
  dif_pos h

/-- Decoding undoes encoding. -/
theorem ofBits_toBits (x : Binary64) : ofBits x.toBits = x := by
  cases x with
  | nan => rfl
  | infinite s => cases s <;> rfl
  | finite s m =>
    have hbound : m.rank < 2047 * 2 ^ 52 := m.rank_lt
    have hrank : (finite s m).toBits % 2 ^ 63 = m.rank := by
      cases s <;> simp only [toBits, signBit, if_true, if_false, Bool.false_eq_true] <;> omega
    have hsign : decide (2 ^ 63 ≤ (finite s m).toBits) = s := by
      cases s
      · apply decide_eq_false
        simp only [toBits, signBit, if_false, Bool.false_eq_true]
        omega
      · apply decide_eq_true
        simp only [toBits, signBit, if_true]
        omega
    rw [ofBits_of_lt (by rw [hrank]; exact m.rank_lt)]
    obtain ⟨rank, hlt⟩ := m
    exact congr (congrArg finite hsign) (Magnitude.ext hrank)

end Binary64

end Abacus
