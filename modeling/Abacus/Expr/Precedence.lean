import Abacus.Token.Basic
import Abacus.Expr.Basic

/-!
# Precedence

A token kind with a **binding power** pulls at the operands on its sides.  The
product signs pull harder than the sum signs, and on its right every operator
pulls a little harder than on its left, so equal operators group to the left.  A
prefix minus pulls harder than all of them.  An opening bracket has a left power
and no right one: it never continues an expression.
-/

namespace Abacus

/-- How hard a token pulls at the operand on either side. -/
structure BindingPower where
  left : Int
  right : Option Int
deriving DecidableEq

namespace Kind

/-- The binding power of a kind, if it has one. -/
def bindingPower? : Kind → Option BindingPower
  | plus => some ⟨50, some 51⟩
  | minus => some ⟨50, some 51⟩
  | star => some ⟨60, some 61⟩
  | slash => some ⟨60, some 61⟩
  | bracketOpen => some ⟨80, none⟩
  | _ => none

/-- The operator that a kind stands for between two operands. -/
def operator? : Kind → Option Operator
  | plus => some .add
  | minus => some .sub
  | star => some .mul
  | slash => some .div
  | _ => none

end Kind

/-- The power of a minus sign in front of its operand. -/
def minusPower : Int := 70

/-- How many expressions may be open inside each other. -/
def maxDepth : Nat := 256

end Abacus
