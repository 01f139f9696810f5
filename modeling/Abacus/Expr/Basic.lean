import Abacus.Decimal.Style

/-!
# Expression trees

A tree is a number, an operator on one operand, or an operator on two.  One type
holds all operators, and a leaf may be foreign: something else that is no
expression, known by its text.  So trees put together by hand can have an operator
with the wrong number of operands, or anything where an expression should be.
Evaluation refuses such trees; reading never builds them.
-/

namespace Abacus

/-- An operator, on one operand or on two. -/
inductive Operator where
  | add
  | sub
  | mul
  | div
  | neg
deriving DecidableEq

namespace Operator

/-- All operators. -/
def all : List Operator := [add, sub, mul, div, neg]

/-- The name under which an operator is reported. -/
def name : Operator → String
  | add => "ADD"
  | sub => "SUB"
  | mul => "MUL"
  | div => "DIV"
  | neg => "NEG"

end Operator

/-- An expression tree. -/
inductive Expr where
  | number (value : Binary64)
  | unary (op : Operator) (operand : Expr)
  | binary (op : Operator) (left right : Expr)
  | foreign (text : String)
deriving DecidableEq

namespace Expr

/-- Equality of trees in which numbers count as equal when they are equal as
numbers: the two zeros are, and nothing equals `nan`. -/
def numEq : Expr → Expr → Bool
  | number x, number y => x.numEq y
  | unary p a, unary q b => p == q && numEq a b
  | binary p a c, binary q b d => p == q && numEq a b && numEq c d
  | foreign a, foreign b => a == b
  | _, _ => false

/-- What a node is called. -/
def nodeName : Expr → String
  | number _ => "NumberLiteral"
  | unary _ _ => "UnaryOperation"
  | binary _ _ _ => "BinaryOperation"
  | foreign _ => "Foreign"

/-- The long form, which shows every node with its fields. -/
def describe : Expr → String
  | number x => "NumberLiteral(value=" ++ x.fullText ++ ")"
  | unary op e => "UnaryOperation(operator=" ++ op.name ++ ", operand=" ++ describe e ++ ")"
  | binary op l r =>
    "BinaryOperation(operator=" ++ op.name ++ ", left=" ++ describe l ++
      ", right=" ++ describe r ++ ")"
  | foreign text => text

end Expr

end Abacus
