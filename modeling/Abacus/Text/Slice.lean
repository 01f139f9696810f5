/-!
# Slices with signed bounds

A slice runs from one bound to another.  A negative bound counts from the end,
and a bound outside the list stands for the nearer end.
-/

namespace Abacus.Text

/-- The place in a list of the given length that a signed bound stands for. -/
def place (length : Nat) (bound : Int) : Nat :=
  if bound < 0 then (length + bound).toNat else min bound.toNat length

/-- The elements before a signed bound. -/
def upTo {α : Type} (xs : List α) (stop : Int) : List α := xs.take (place xs.length stop)

/-- The elements from one signed bound up to another. -/
def slice {α : Type} (xs : List α) (start stop : Int) : List α :=
  (upTo xs stop).drop (place xs.length start)

/-- Within the list, a bound is a plain place. -/
theorem upTo_natCast {α : Type} (xs : List α) {a : Nat} (ha : a ≤ xs.length) :
    upTo xs a = xs.take a := by
  have hna : ¬ (a : Int) < 0 := by omega
  simp [upTo, place, hna, Nat.min_eq_left ha]

/-- Within the list, bounds are plain places. -/
theorem slice_natCast {α : Type} (xs : List α) {a b : Nat} (ha : a ≤ xs.length) (hb : b ≤ xs.length) :
    slice xs a b = (xs.take b).drop a := by
  have hna : ¬ (a : Int) < 0 := by omega
  rw [slice, upTo_natCast xs hb]
  simp [place, hna, Nat.min_eq_left ha]

end Abacus.Text
