import Abacus.Binary64.Rounding

/-!
# Decimal numbers

A decimal is a coefficient and a power of ten.  `Decimal.toBinary64` reads it as
the nearest binary64 number, an infinity if it is too large.
`Decimal.ofLexeme?` reads the digits and the point of a number as it is written
in an expression: at least one digit, at most one point, and the point may come
first or last.
-/

namespace Abacus

/-- The number `coefficient * 10 ^ scale`. -/
structure Decimal where
  coefficient : Nat
  scale : Int
deriving DecidableEq

/-- A character that can stand in a written number. -/
def isNumeric (c : Char) : Bool := c.isDigit || c == '.'

namespace Decimal

/-- The binary64 number nearest to a decimal. -/
def toBinary64 (d : Decimal) : Binary64 :=
  Binary64.round false (d.coefficient * 10 ^ d.scale.toNat * grainsPerOne) (10 ^ (-d.scale).toNat)

/-- The digits before the point. -/
def wholePart (lexeme : List Char) : List Char := lexeme.takeWhile (· != '.')

/-- What follows the first point. -/
def fraction (lexeme : List Char) : List Char := (lexeme.dropWhile (· != '.')).drop 1

/-- The decimal that a written number stands for, if it is one. -/
def ofLexeme? (lexeme : List Char) : Option Decimal :=
  let digits := wholePart lexeme ++ fraction lexeme
  if digits ≠ [] ∧ digits.all Char.isDigit then
    some ⟨Nat.ofDigitChars 10 digits 0, -((fraction lexeme).length : Int)⟩
  else none

end Decimal

end Abacus
