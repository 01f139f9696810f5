import Abacus.Expr.Precedence

/-!
# Reading tokens into a tree

A reading takes tokens off the front of a list.  It answers with a `Step`: how
many tokens it took, and the tree or the cause of its failure.  A failure
concerns the token after those taken.  The end of the list reads like a token
that ends the expression.

`expression` reads one operand and then, as long as the next operator pulls
harder than the given power, that operator with its right side.  Every
`expression` inside another uses up one of the levels it is given, and none is
left at level zero; this also makes the recursion structural.
-/

namespace Abacus

/-- Why tokens cannot be read as an expression.  The first four are mistakes in
the tokens' order; the others concern tokens that scanning never yields, or that
are used for what they are not. -/
inductive ParseError where
  | operandExpected (found : Kind)
  | expected (wanted found : Kind)
  | trailing (found : Kind)
  | nestingTooDeep
  | numberWithoutValue (token : Token)
  | notBetweenOperands (kind : Kind)
  | noBindingPower (kind : Kind)
deriving DecidableEq

namespace ParseError

/-- What is wrong, in words. -/
def message : ParseError → String
  | operandExpected found => "Operand expected, found " ++ found.name
  | expected wanted found => "Expected " ++ wanted.name ++ ", found " ++ found.name
  | trailing found => "Unexpected " ++ found.name ++ " after the end of expression"
  | nestingTooDeep => "Expression is nested deeper than " ++ toString maxDepth ++ " levels"
  | numberWithoutValue token => "Number token without value: " ++ token.text
  | notBetweenOperands kind => "Not an infix operator: " ++ kind.name
  | noBindingPower kind => kind.name

/-- The cause lies in the use of the reader and not in the tokens' order. -/
def isInternal : ParseError → Bool
  | numberWithoutValue _ => true
  | notBetweenOperands _ => true
  | noBindingPower _ => true
  | _ => false

end ParseError

/-- A cause and the index of the token that it concerns. -/
structure Misreading where
  index : Nat
  cause : ParseError
deriving DecidableEq

/-- The end of a reading: how many tokens it took, and what came of it. -/
structure Step (α : Type) where
  used : Nat
  outcome : Except ParseError α

namespace Step

/-- The same end after `n` more tokens in front. -/
def after {α : Type} (n : Nat) (s : Step α) : Step α := ⟨n + s.used, s.outcome⟩

/-- Success with the given tokens taken. -/
def ok {α : Type} (used : Nat) (a : α) : Step α := ⟨used, .ok a⟩

/-- Failure with the given tokens taken. -/
def fail {α : Type} (used : Nat) (cause : ParseError) : Step α := ⟨used, .error cause⟩

/-- Goes on, after a success, with the tokens that are left of `ts`. -/
def next {α β : Type} (s : Step α) (ts : List Token) (f : α → List Token → Step β) : Step β :=
  match s.outcome with
  | .ok a => (f a (ts.drop s.used)).after s.used
  | .error cause => fail s.used cause

@[simp] theorem used_after {α : Type} (n : Nat) (s : Step α) : (s.after n).used = n + s.used := rfl

@[simp] theorem outcome_after {α : Type} (n : Nat) (s : Step α) :
    (s.after n).outcome = s.outcome := rfl

/-- After a success the rest is read from where it ended. -/
theorem next_of_ok {α β : Type} {s : Step α} {a : α} (h : s.outcome = .ok a) (ts : List Token)
    (f : α → List Token → Step β) : s.next ts f = (f a (ts.drop s.used)).after s.used := by
  simp [next, h]

/-- A failure stands. -/
theorem next_of_error {α β : Type} {s : Step α} {cause : ParseError}
    (h : s.outcome = .error cause) (ts : List Token) (f : α → List Token → Step β) :
    s.next ts f = fail s.used cause := by
  simp [next, h]

end Step

namespace Parser

/-- A way to read an expression whose operators pull harder than a power. -/
abbrev Reading := Int → List Token → Step Expr

/-- The kind of the first token, and `exprEnd` if there is none. -/
def nextKind : List Token → Kind
  | [] => .exprEnd
  | t :: _ => t.kind

/-- Takes a token of the given kind. -/
def expect (wanted : Kind) (ts : List Token) : Step Unit :=
  if nextKind ts = wanted then .ok 1 () else .fail 0 (.expected wanted (nextKind ts))

/-- Reads a number, a bracketed expression, or a minus sign and its operand. -/
def operand (inner : Reading) : List Token → Step Expr
  | [] => .fail 0 (.operandExpected .exprEnd)
  | t :: ts =>
    match t.kind with
    | .number =>
      match t.value with
      | some x => .ok 1 (.number x)
      | none => .fail 1 (.numberWithoutValue t)
    | .bracketOpen =>
      ((inner 0 ts).next ts fun e rest =>
        (expect .bracketClose rest).next rest fun _ _ => .ok 0 e).after 1
    | .minus => ((inner minusPower ts).next ts fun e _ => .ok 0 (.unary .neg e)).after 1
    | kind => .fail 0 (.operandExpected kind)

/-- Reads what stands to the right of an operator, already taken, and joins the
two sides. -/
def join (inner : Reading) (left : Expr) (kind : Kind) (ts : List Token) : Step Expr :=
  match kind.bindingPower? with
  | none => .fail 0 (.noBindingPower kind)
  | some ⟨_, none⟩ => .fail 0 (.notBetweenOperands kind)
  | some ⟨_, some power⟩ =>
    (inner power ts).next ts fun right _ =>
      match kind.operator? with
      | none => .fail 0 (.noBindingPower kind)
      | some op => .ok 0 (.binary op left right)

/-- Whether a token of this kind is an operator that pulls harder than `power`.
There is no answer for an operator without a binding power. -/
def goesOn (power : Int) (kind : Kind) : Except ParseError Bool :=
  match kind.operator? with
  | none => .ok false
  | some _ =>
    match kind.bindingPower? with
    | none => .error (.noBindingPower kind)
    | some binding => .ok (power < binding.left)

/-- Joins operators to the tree read so far, from left to right, as long as they
pull harder than `power`. -/
def climb (inner : Reading) (power : Int) (left : Expr) (ts : List Token) : Step Expr :=
  match ts with
  | [] => .ok 0 left
  | t :: rest =>
    match goesOn power t.kind with
    | .error cause => .fail 0 cause
    | .ok false => .ok 0 left
    | .ok true =>
      let joined := join inner left t.kind rest
      match joined.outcome with
      | .ok e => (climb inner power e (rest.drop joined.used)).after (1 + joined.used)
      | .error cause => .fail (1 + joined.used) cause
termination_by ts.length
decreasing_by
  simp only [List.length_cons, List.length_drop]
  omega

/-- Reads one expression whose operators pull harder than `power`, with at most
the given levels of expressions inside each other. -/
def expression : Nat → Reading
  | 0, _, _ => .fail 0 .nestingTooDeep
  | levels + 1, power, ts =>
    (operand (expression levels) ts).next ts (climb (expression levels) power)

end Parser

/-- Reads all tokens up to the end of the expression. -/
def parse (ts : List Token) : Except Misreading Expr :=
  let step := Parser.expression maxDepth 0 ts
  match step.outcome with
  | .error cause => .error ⟨step.used, cause⟩
  | .ok e =>
    match Parser.nextKind (ts.drop step.used) with
    | .exprEnd => .ok e
    | kind => .error ⟨step.used, .trailing kind⟩

end Abacus
