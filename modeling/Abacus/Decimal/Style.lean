import Abacus.Decimal.Shortest

/-!
# How numbers are written

The digits come from `Decimal.shortest`; a `Style` says how they are laid out.
`Style.full` always shows a fractional part, as in `7.0`, and `Style.plain`
leaves it out of whole numbers, as in `7`.  Outside its range of exponents
either style writes `1e+16` or `1.5e-07`: one digit before the point, then the
exponent with its sign and at least two digits.
-/

namespace Abacus

/-- The layout of a decimal number. -/
structure Style where
  /-- The least exponent of ten that is written out with leading zeros. -/
  leastPositional : Int
  /-- The greatest exponent of ten that is written out with all its places. -/
  greatestPositional : Int
  /-- What follows a whole number that is written out. -/
  wholeSuffix : String

namespace Style

/-- Numbers from `1e-4` to below `1e16` are written out, whole ones with `.0`. -/
def full : Style := ⟨-4, 15, ".0"⟩

/-- As `full`, with nothing after a whole number. -/
def plain : Style := { full with wholeSuffix := "" }

end Style

namespace Decimal

/-- The digits of the coefficient, the leading one first. -/
def digits (d : Decimal) : List Char := Nat.toDigits 10 d.coefficient

/-- The power of ten of the leading digit. -/
def exponent (d : Decimal) : Int := (d.digits.length : Int) - 1 + d.scale

/-- All places written out, with a point where one is needed. -/
def positional (wholeSuffix : String) (d : Decimal) : List Char :=
  if 0 ≤ d.scale then
    d.digits ++ List.replicate d.scale.toNat '0' ++ wholeSuffix.toList
  else if 0 ≤ d.exponent then
    let whole := (d.exponent + 1).toNat
    d.digits.take whole ++ '.' :: d.digits.drop whole
  else
    '0' :: '.' :: List.replicate (-d.exponent - 1).toNat '0' ++ d.digits

/-- The exponent with its sign and at least two digits. -/
def exponentText (e : Int) : List Char :=
  let digits := Nat.toDigits 10 e.natAbs
  (if e < 0 then '-' else '+') :: List.replicate (2 - digits.length) '0' ++ digits

/-- One digit before the point, and the power of ten after `e`. -/
def scientific (d : Decimal) : List Char :=
  let rest := d.digits.drop 1
  d.digits.take 1 ++ (if rest.isEmpty then [] else '.' :: rest) ++ 'e' :: exponentText d.exponent

/-- The exponent lies in the range that a style writes out. -/
def isPositional (style : Style) (d : Decimal) : Bool :=
  style.leastPositional ≤ d.exponent && d.exponent ≤ style.greatestPositional

/-- A decimal laid out in a style. -/
def layout (style : Style) (d : Decimal) : List Char :=
  if d.isPositional style then d.positional style.wholeSuffix else d.scientific

end Decimal

/-- The text of a magnitude; zero has no shortest decimal and is written out. -/
def Magnitude.text (style : Style) (m : Magnitude) : List Char :=
  if m.rank = 0 then Decimal.positional style.wholeSuffix ⟨0, 0⟩
  else (Decimal.shortest m).layout style

/-- A minus sign where one is needed. -/
def signText (negative : Bool) : List Char := if negative then ['-'] else []

namespace Binary64

/-- The text of a number in a style. -/
def text (style : Style) : Binary64 → String
  | nan => "nan"
  | infinite negative => String.ofList (signText negative ++ ['i', 'n', 'f'])
  | finite negative m => String.ofList (signText negative ++ m.text style)

/-- The text with which a result is answered. -/
def format (x : Binary64) : String := x.text Style.plain

/-- The text that always shows a number to be one with a fractional part. -/
def fullText (x : Binary64) : String := x.text Style.full

end Binary64

end Abacus
