import Abacus.Expr.Basic
import Abacus.Binary64.Arithmetic

/-!
# Evaluation

`Expr.evaluate` works through a list of tasks with the values found so far on a
stack, so the depth of a tree does not bound it.  `Expr.value` is the plain
recursion over the tree that says what the answer is.  Operands come before their
operator and the left one before the right one; an operator is checked after its
operands.
-/

namespace Abacus

/-- Why a tree has no value. -/
inductive EvaluationError where
  | binaryOperator (op : Operator)
  | unaryOperator (op : Operator)
  | notAnExpression (text : String)
  | missingOperand
  | zeroDivisor
deriving DecidableEq

namespace EvaluationError

/-- What is wrong, in words. -/
def message : EvaluationError → String
  | binaryOperator op => "Unexpected binary operator: " ++ op.name
  | unaryOperator op => "Unexpected unary operator: " ++ op.name
  | notAnExpression text => "Unexpected expression type: " ++ text
  | missingOperand => "Missing operand"
  | zeroDivisor => "float division by zero"

end EvaluationError

namespace Operator

/-- What an operator does to two operands, if it takes two.  A zero divisor that
is not caught leaves it without a result. -/
def onTwo? : Operator → Option (Binary64 → Binary64 → Option Binary64)
  | add => some fun x y => some (x + y)
  | sub => some fun x y => some (x - y)
  | mul => some fun x y => some (x * y)
  | div => some Binary64.divide?
  | neg => none

/-- What an operator does to one operand, if it takes one. -/
def onOne? : Operator → Option (Binary64 → Binary64)
  | neg => some (- ·)
  | _ => none

end Operator

namespace Expr

/-- The value of a tree by recursion, or what is wrong at its first bad node. -/
def value : Expr → Except EvaluationError Binary64
  | number x => .ok x
  | unary op e => do
    let x ← value e
    match op.onOne? with
    | some f => .ok (f x)
    | none => .error (.unaryOperator op)
  | binary op l r => do
    let x ← value l
    let y ← value r
    match op.onTwo? with
    | some f =>
      match f x y with
      | some z => .ok z
      | none => .error .zeroDivisor
    | none => .error (.binaryOperator op)
  | foreign text => .error (.notAnExpression text)

/-- The number of steps that evaluating a tree takes. -/
def steps : Expr → Nat
  | number _ => 1
  | unary _ e => e.steps + 2
  | binary _ l r => l.steps + r.steps + 2
  | foreign _ => 1

end Expr

/-- Something still to be done in an evaluation. -/
inductive Task where
  | visit (e : Expr)
  | applyOne (op : Operator)
  | applyTwo (op : Operator)

namespace Task

/-- The number of steps that a task takes. -/
def steps : Task → Nat
  | visit e => e.steps
  | applyOne _ => 1
  | applyTwo _ => 1

/-- The number of steps that tasks take together. -/
def totalSteps : List Task → Nat
  | [] => 0
  | task :: tasks => task.steps + totalSteps tasks

/-- Does the tasks in order, with the values found so far, the latest first, and
gives the values that are left at the end. -/
def run (tasks : List Task) (values : List Binary64) : Except EvaluationError (List Binary64) :=
  match tasks, values with
  | [], values => .ok values
  | visit (.number x) :: tasks, values => run tasks (x :: values)
  | visit (.unary op e) :: tasks, values => run (visit e :: applyOne op :: tasks) values
  | visit (.binary op l r) :: tasks, values =>
    run (visit l :: visit r :: applyTwo op :: tasks) values
  | visit (.foreign text) :: _, _ => .error (.notAnExpression text)
  | applyOne op :: tasks, values =>
    match op.onOne? with
    | none => .error (.unaryOperator op)
    | some f =>
      match values with
      | x :: values => run tasks (f x :: values)
      | [] => .error .missingOperand
  | applyTwo op :: tasks, values =>
    match op.onTwo? with
    | none => .error (.binaryOperator op)
    | some f =>
      match values with
      | y :: x :: values =>
        match f x y with
        | some z => run tasks (z :: values)
        | none => .error .zeroDivisor
      | _ => .error .missingOperand
termination_by totalSteps tasks
decreasing_by
  all_goals
    simp only [totalSteps, steps, Expr.steps]
    omega

end Task

namespace Expr

/-- The values that are left when the tasks of a tree are done. -/
def valuesLeft (e : Expr) : Except EvaluationError (List Binary64) := Task.run [.visit e] []

/-- The value of a tree: the one on top when its tasks are done. -/
def evaluate (e : Expr) : Except EvaluationError Binary64 := do
  match ← e.valuesLeft with
  | x :: _ => .ok x
  | [] => .error .missingOperand

end Expr

end Abacus
