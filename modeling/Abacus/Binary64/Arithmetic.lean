import Abacus.Binary64.Rounding

/-!
# Binary64 arithmetic

Each operation is exact on grains and rounded once.  Division is total: a
nonzero number over zero is an infinity with the sign of the quotient, and zero
over zero is `nan`.  `divide?` gets there from a quotient that zero divisors do
not have, by catching them first.
-/

namespace Abacus

namespace Binary64

/-- The exact value of a finite number in grains. -/
def signedGrains (negative : Bool) (m : Magnitude) : Int :=
  if negative then -(m.grains : Int) else m.grains

/-- The number nearest to a whole number of grains; an exact zero takes the
given sign. -/
def ofGrains (zeroSign : Bool) (total : Int) : Binary64 :=
  if total = 0 then zero zeroSign else round (total < 0) total.natAbs 1

/-- Change of sign, also of a zero. -/
def neg : Binary64 → Binary64
  | nan => nan
  | infinite s => infinite (!s)
  | finite s m => finite (!s) m

/-- The rounded sum.  An exact zero is negative only if both terms are. -/
def add : Binary64 → Binary64 → Binary64
  | nan, _ => nan
  | _, nan => nan
  | infinite s, infinite t => if s = t then infinite s else nan
  | infinite s, finite _ _ => infinite s
  | finite _ _, infinite t => infinite t
  | finite s m, finite t n => ofGrains (s && t) (signedGrains s m + signedGrains t n)

/-- A difference is the sum with the second term's sign changed. -/
def sub (x y : Binary64) : Binary64 := add x (neg y)

/-- The rounded product; zero times infinity is `nan`. -/
def mul : Binary64 → Binary64 → Binary64
  | nan, _ => nan
  | _, nan => nan
  | infinite s, infinite t => infinite (s != t)
  | infinite s, finite t n => if n.rank = 0 then nan else infinite (s != t)
  | finite s m, infinite t => if m.rank = 0 then nan else infinite (s != t)
  | finite s m, finite t n => round (s != t) (m.grains * n.grains) grainsPerOne

/-- The rounded quotient, defined for every divisor. -/
def div : Binary64 → Binary64 → Binary64
  | nan, _ => nan
  | _, nan => nan
  | infinite _, infinite _ => nan
  | infinite s, finite t _ => infinite (s != t)
  | finite s _, infinite t => zero (s != t)
  | finite s m, finite t n =>
    if n.rank = 0 then if m.rank = 0 then nan else infinite (s != t)
    else round (s != t) (m.grains * grainsPerOne) n.grains

instance : Neg Binary64 := ⟨neg⟩
instance : Add Binary64 := ⟨add⟩
instance : Sub Binary64 := ⟨sub⟩
instance : Mul Binary64 := ⟨mul⟩
instance : Div Binary64 := ⟨div⟩

/-- The rounded quotient, which no number has over zero. -/
def quotient? (x y : Binary64) : Option Binary64 := if y.isZero then none else some (x / y)

/-- One. -/
def one : Binary64 := finite false ⟨1023 * 2 ^ 52, by decide⟩

/-- The first number with the sign of the second. -/
def copySign : Binary64 → Binary64 → Binary64
  | nan, _ => nan
  | infinite _, y => infinite y.isNegative
  | finite _ m, y => finite y.isNegative m

/-- What stands for a quotient over zero: an infinity signed like the dividend, times
a one signed like the divisor. -/
def overZero (x y : Binary64) : Binary64 :=
  if x.isZero || x.isNan then nan else copySign (infinite false) x * copySign one y

/-- The quotient with zero divisors caught. -/
def divide? (x y : Binary64) : Option Binary64 :=
  if y.isZero then some (overZero x y) else quotient? x y

/-- Changing the sign twice changes nothing. -/
@[simp] theorem neg_neg (x : Binary64) : neg (neg x) = x := by
  cases x <;> simp [neg]

/-- A signed infinity times a signed one is an infinity, negative if the signs differ. -/
theorem copySign_infinite_mul_one (x y : Binary64) :
    copySign (infinite false) x * copySign one y = infinite (x.isNegative != y.isNegative) :=
  rfl

/-- Over a zero, division gives what stands for the quotient. -/
theorem div_of_isZero {y : Binary64} (h : y.isZero) (x : Binary64) : x / y = overZero x y := by
  change div x y = overZero x y
  cases y with
  | nan => cases h
  | infinite t => cases h
  | finite t n =>
    have hn : n.rank = 0 := by simpa [isZero] using h
    cases x with
    | nan => simp [div, overZero, isNan]
    | infinite s => simp [div, overZero, copySign_infinite_mul_one, isZero, isNan, isNegative]
    | finite s m =>
      by_cases hm : m.rank = 0 <;>
        simp [div, overZero, copySign_infinite_mul_one, isZero, isNan, isNegative, hn, hm]

/-- Catching zero divisors leaves no case without a quotient. -/
@[simp] theorem divide?_eq (x y : Binary64) : divide? x y = some (x / y) := by
  by_cases h : y.isZero
  · simp [divide?, h, div_of_isZero h]
  · simp [divide?, quotient?, h]

end Binary64

end Abacus
