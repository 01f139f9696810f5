import Abacus.Expr.Parser

/-!
# Reading step by step

A cursor stands before a token of a list and knows how many expressions are open
around it.  Each `Action` reads from where the cursor stands and moves it behind
what was read, also when the reading fails; the number of open expressions is
the same afterwards.  A run of actions goes on after a failure.
-/

namespace Abacus

/-- A place in a list of tokens, and the expressions open around it. -/
structure Cursor where
  position : Nat
  depth : Nat
deriving DecidableEq

namespace Cursor

/-- Before the first token, with no expression open. -/
def start : Cursor := ⟨0, 0⟩

/-- What can be asked of a cursor. -/
inductive Action where
  | look
  | advance
  | expect (kind : Kind)
  | readOperand
  | readExpression (power : Int)
  | readJoin (left : Expr) (kind : Kind)
  | moveTo (position : Nat)
  | setDepth (depth : Nat)

/-- What an action comes to. -/
inductive Answer where
  | done
  | token (t : Token)
  | tree (e : Expr)
  | failed (m : Misreading)
deriving DecidableEq

/-- The token at the cursor.  Past the last token stands an end token at the last
token's position. -/
def current (ts : List Token) (c : Cursor) : Token :=
  match ts[c.position]? with
  | some t => t
  | none => .finish ((ts.getLast?.map Token.position).getD 0)

/-- The levels that are left for expressions inside the open ones. -/
def levels (c : Cursor) : Nat := maxDepth - c.depth

/-- The reading of an expression inside the open ones. -/
def inner (c : Cursor) : Parser.Reading := Parser.expression c.levels

/-- The tokens from the cursor on. -/
def remaining (ts : List Token) (c : Cursor) : List Token := ts.drop c.position

/-- Moves the cursor behind what a step took, and answers with what came of it. -/
def settle {α : Type} (c : Cursor) (s : Step α) (answer : α → Answer) : Answer × Cursor :=
  let moved : Cursor := ⟨c.position + s.used, c.depth⟩
  match s.outcome with
  | .ok a => (answer a, moved)
  | .error cause => (.failed ⟨moved.position, cause⟩, moved)

/-- Performs one action. -/
def perform (ts : List Token) (c : Cursor) : Action → Answer × Cursor
  | .look => (.token (c.current ts), c)
  | .advance => (.done, ⟨c.position + 1, c.depth⟩)
  | .expect kind => c.settle (Parser.expect kind (c.remaining ts)) fun _ => .done
  | .readOperand => c.settle (Parser.operand c.inner (c.remaining ts)) .tree
  | .readExpression power => c.settle (c.inner power (c.remaining ts)) .tree
  | .readJoin left kind =>
    c.settle ((Parser.join c.inner left kind ((c.remaining ts).drop 1)).after 1) .tree
  | .moveTo position => (.done, ⟨position, c.depth⟩)
  | .setDepth depth => (.done, ⟨c.position, depth⟩)

/-- Performs actions one after the other, and tells each answer with the cursor
that it leaves. -/
def run (ts : List Token) (c : Cursor) : List Action → List (Answer × Cursor)
  | [] => []
  | a :: actions =>
    let result := c.perform ts a
    result :: run ts result.2 actions

end Cursor

end Abacus
