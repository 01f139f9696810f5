import Mathlib.Logic.Relation
import Abacus.Proofs.Evaluation

/-!
# Evaluation turn by turn

Evaluation takes the first task off its list, turn after turn.  `Turn` is one such turn,
and `Refuses` says where evaluation ends without a value: at a node that is no
expression, or at an operator with the wrong number of operands.

The key local fact is `Turn.height?_eq`: a turn keeps the number of values that there will
be when all tasks are done, none of them short of an operand.  It is one for a tree alone.
So on the way no operand is ever missing, and at the end one value is left.

What evaluation ends with is told by the nodes of the tree, operands before their operator
and the left one first: the objection to the first of them that there is one to
(`firstObjection?_eq`).
-/

namespace Abacus

/-- Only the negation is no operator on two operands. -/
theorem Operator.onTwo?_eq_none_iff {op : Operator} : op.onTwo? = none ↔ op = .neg := by
  cases op <;> simp [onTwo?]

namespace Expr

/-- The nodes of a tree, operands before their operator and the left one first. -/
def postOrder : Expr → List Expr
  | number x => [number x]
  | unary op e => e.postOrder ++ [unary op e]
  | binary op l r => l.postOrder ++ r.postOrder ++ [binary op l r]
  | foreign text => [foreign text]

/-- What there is to say against a node, whatever its operands are. -/
def objection? : Expr → Option String
  | number _ => none
  | unary op _ => if op = .neg then none else some ("Unexpected unary operator: " ++ op.name)
  | binary op _ _ => if op = .neg then some ("Unexpected binary operator: " ++ op.name) else none
  | foreign text => some ("Unexpected expression type: " ++ text)

/-- The first objection to a node of a tree. -/
def firstObjection? (e : Expr) : Option String := e.postOrder.findSome? objection?

theorem firstObjection?_unary (op : Operator) (e : Expr) :
    (unary op e).firstObjection? = e.firstObjection?.or (unary op e).objection? := by
  simp [firstObjection?, postOrder, List.findSome?_append]

theorem firstObjection?_binary (op : Operator) (l r : Expr) :
    (binary op l r).firstObjection? =
      l.firstObjection?.or (r.firstObjection?.or (binary op l r).objection?) := by
  simp [firstObjection?, postOrder, List.findSome?_append]

/-- **A tree has a value** unless there is an objection to a node, and the first one is
what is wrong. -/
theorem firstObjection?_eq (e : Expr) :
    e.firstObjection? =
      match e.value with
      | .ok _ => none
      | .error error => some error.message := by
  induction e with
  | number x => rfl
  | unary op e ih =>
      rw [firstObjection?_unary, ih, value]
      cases e.value with
      | error error => rfl
      | ok x => cases op <;> rfl
  | binary op l r ihl ihr =>
      rw [firstObjection?_binary, ihl, ihr, value]
      cases l.value with
      | error error => rfl
      | ok x =>
          cases r.value with
          | error error => rfl
          | ok y =>
              cases hop : op.onTwo? with
              | none =>
                  obtain rfl := Operator.onTwo?_eq_none_iff.mp hop
                  rfl
              | some f =>
                  -- Division has a result too, so there is nothing else to say against a node.
                  obtain ⟨z, hz⟩ := Operator.exists_result hop x y
                  have hneg : op ≠ .neg := by
                    rintro rfl
                    cases hop
                  simp [objection?, hneg, hz, bind, Except.bind]
  | foreign text => rfl

end Expr

namespace Task

/-- The tasks that are still to be done, and the values found so far, the latest first. -/
structure State where
  tasks : List Task
  values : List Binary64

/-- One turn: the first task is done. -/
inductive Turn : State → State → Prop
  | number {x : Binary64} {tasks : List Task} {values : List Binary64} :
      Turn ⟨visit (.number x) :: tasks, values⟩ ⟨tasks, x :: values⟩
  | unary {op : Operator} {e : Expr} {tasks : List Task} {values : List Binary64} :
      Turn ⟨visit (.unary op e) :: tasks, values⟩ ⟨visit e :: applyOne op :: tasks, values⟩
  | binary {op : Operator} {l r : Expr} {tasks : List Task} {values : List Binary64} :
      Turn ⟨visit (.binary op l r) :: tasks, values⟩
        ⟨visit l :: visit r :: applyTwo op :: tasks, values⟩
  | applyOne {op : Operator} {f : Binary64 → Binary64} {x : Binary64} {tasks : List Task}
      {values : List Binary64} (hop : op.onOne? = some f) :
      Turn ⟨applyOne op :: tasks, x :: values⟩ ⟨tasks, f x :: values⟩
  | applyTwo {op : Operator} {f : Binary64 → Binary64 → Option Binary64} {x y z : Binary64}
      {tasks : List Task} {values : List Binary64} (hop : op.onTwo? = some f)
      (hresult : f x y = some z) :
      Turn ⟨applyTwo op :: tasks, y :: x :: values⟩ ⟨tasks, z :: values⟩

/-- The first task is one that no turn can do. -/
inductive Refuses : State → EvaluationError → Prop
  | foreign {text : String} {tasks : List Task} {values : List Binary64} :
      Refuses ⟨visit (.foreign text) :: tasks, values⟩ (.notAnExpression text)
  | applyOne {op : Operator} {tasks : List Task} {values : List Binary64}
      (hop : op.onOne? = none) : Refuses ⟨applyOne op :: tasks, values⟩ (.unaryOperator op)
  | applyTwo {op : Operator} {tasks : List Task} {values : List Binary64}
      (hop : op.onTwo? = none) : Refuses ⟨applyTwo op :: tasks, values⟩ (.binaryOperator op)

/-- Before the first turn. -/
def State.start (e : Expr) : State := ⟨[visit e], []⟩

variable {s t : State} {e : Expr}

/-! ## What a turn keeps -/

/-- A turn is a step of the run. -/
theorem Turn.run_eq (h : Turn s t) : run s.tasks s.values = run t.tasks t.values := by
  cases h with
  | number => rw [run]
  | unary => rw [run]
  | binary => rw [run]
  | applyOne hop => rw [run, hop]
  | applyTwo hop hresult =>
      rw [run, hop]
      simp only [hresult]

/-- Where no turn can be, the run ends with what is wrong. -/
theorem Refuses.run_eq {error : EvaluationError} (h : Refuses s error) :
    run s.tasks s.values = .error error := by
  cases h with
  | foreign => rw [run]
  | applyOne hop => rw [run, hop]
  | applyTwo hop => rw [run, hop]

/-- The number of values that a task takes. -/
def operandCount : Task → Nat
  | visit _ => 0
  | applyOne _ => 1
  | applyTwo _ => 2

/-- How many values there are when the tasks are done, if there are `n` before, or nothing
if a task is short of operands. -/
def height? : List Task → Nat → Option Nat
  | [], n => some n
  | task :: tasks, n =>
    if task.operandCount ≤ n then height? tasks (n - task.operandCount + 1) else none

/-- The values that the first task takes are there. -/
def State.HasOperands (s : State) : Prop :=
  ∀ task ∈ s.tasks.head?, task.operandCount ≤ s.values.length

/-- **A turn keeps the number of values that there will be.** -/
theorem Turn.height?_eq (h : Turn s t) :
    height? t.tasks t.values.length = height? s.tasks s.values.length := by
  cases h <;> simp [height?, operandCount]

/-- Where it is known how many values there will be, no operand is missing. -/
theorem hasOperands_of_height? {n : Nat} (h : height? s.tasks s.values.length = some n) :
    s.HasOperands := by
  intro task htask
  obtain ⟨tasks, htasks⟩ : ∃ tasks, s.tasks = task :: tasks := List.head?_eq_some_iff.mp htask
  rw [htasks, height?] at h
  split at h
  · assumption
  · cases h

/-- **With its operands there, the first task is done or refused.** -/
theorem exists_turn (h : s.HasOperands) :
    (∃ t, Turn s t) ∨ s.tasks = [] ∨ ∃ error, Refuses s error := by
  obtain ⟨tasks, values⟩ := s
  cases tasks with
  | nil => exact .inr (.inl rfl)
  | cons task tasks =>
      have hcount : task.operandCount ≤ values.length := h task rfl
      cases task with
      | visit e =>
          cases e with
          | number x => exact .inl ⟨_, .number⟩
          | unary op e => exact .inl ⟨_, .unary⟩
          | binary op l r => exact .inl ⟨_, .binary⟩
          | foreign text => exact .inr (.inr ⟨_, .foreign⟩)
      | applyOne op =>
          cases hop : op.onOne? with
          | none => exact .inr (.inr ⟨_, .applyOne hop⟩)
          | some f =>
              cases values with
              | nil => cases hcount
              | cons x values => exact .inl ⟨_, .applyOne hop⟩
      | applyTwo op =>
          cases hop : op.onTwo? with
          | none => exact .inr (.inr ⟨_, .applyTwo hop⟩)
          | some f =>
              match values, hcount with
              | y :: x :: values, _ =>
                  obtain ⟨z, hz⟩ := Operator.exists_result hop x y
                  exact .inl ⟨_, .applyTwo hop hz⟩

/-- With each turn there are fewer steps to take. -/
theorem Turn.totalSteps_lt (h : Turn s t) : totalSteps t.tasks < totalSteps s.tasks := by
  cases h <;> simp only [totalSteps, steps, Expr.steps] <;> omega

/-! ## The turns of a tree -/

/-- What is kept from the first turn on. -/
theorem kept_of_turns (h : Relation.ReflTransGen Turn (.start e) s) :
    height? s.tasks s.values.length = some 1 ∧
      run s.tasks s.values = e.value.map fun x => [x] := by
  induction h with
  | refl => exact ⟨rfl, e.valuesLeft_eq⟩
  | tail _ hturn ih => exact ⟨hturn.height?_eq.trans ih.1, hturn.run_eq.symm.trans ih.2⟩

theorem hasOperands_of_turns (h : Relation.ReflTransGen Turn (.start e) s) : s.HasOperands :=
  hasOperands_of_height? (kept_of_turns h).1

/-- The end of an evaluation: the tasks are done and just its value is left, or the first
task is refused for what is wrong with the tree. -/
inductive State.IsEndOf (e : Expr) : State → Prop
  | done {x : Binary64} (hvalue : e.evaluate = .ok x) : IsEndOf e ⟨[], [x]⟩
  | refused {s : State} {error : EvaluationError} (hrefuses : Refuses s error)
      (hvalue : e.evaluate = .error error) : IsEndOf e s

/-- When all tasks are done, one value is left. -/
theorem isEndOf_of_done (h : Relation.ReflTransGen Turn (.start e) s) (hdone : s.tasks = []) :
    s.IsEndOf e := by
  obtain ⟨tasks, values⟩ := s
  obtain rfl : tasks = [] := hdone
  have hrun : run [] values = e.value.map fun x => [x] := (kept_of_turns h).2
  rw [run] at hrun
  cases hvalue : e.value with
  | error error =>
      rw [hvalue] at hrun
      cases hrun
  | ok x =>
      rw [hvalue] at hrun
      cases hrun
      exact .done (e.evaluate_eq.trans hvalue)

/-- What is refused is what is wrong with the tree. -/
theorem isEndOf_of_refuses {error : EvaluationError}
    (h : Relation.ReflTransGen Turn (.start e) s) (hrefuses : Refuses s error) :
    s.IsEndOf e := by
  have hrun := (kept_of_turns h).2
  rw [hrefuses.run_eq] at hrun
  cases hvalue : e.value with
  | error error' =>
      rw [hvalue] at hrun
      cases hrun
      exact .refused hrefuses (e.evaluate_eq.trans hvalue)
  | ok x =>
      rw [hvalue] at hrun
      cases hrun

/-- There is a next turn up to the end. -/
theorem turn_or_end (h : Relation.ReflTransGen Turn (.start e) s) :
    (∃ t, Turn s t) ∨ s.IsEndOf e := by
  rcases exists_turn (hasOperands_of_turns h) with hturn | hdone | ⟨error, hrefuses⟩
  · exact .inl hturn
  · exact .inr (isEndOf_of_done h hdone)
  · exact .inr (isEndOf_of_refuses h hrefuses)

/-- **The turns come to an end**, from wherever they have come to. -/
theorem exists_end (h : Relation.ReflTransGen Turn (.start e) s) :
    ∃ t, Relation.ReflTransGen Turn (.start e) t ∧ t.IsEndOf e := by
  induction hsteps : totalSteps s.tasks using Nat.strongRecOn generalizing s with
  | ind n ih =>
      rcases turn_or_end h with ⟨t, hturn⟩ | hend
      · have hfewer : totalSteps t.tasks < n := hsteps ▸ hturn.totalSteps_lt
        exact ih _ hfewer (h.tail hturn) rfl
      · exact ⟨s, h, hend⟩

/-- At the end no operand is missing. -/
theorem State.IsEndOf.evaluate_ne (h : s.IsEndOf e) : e.evaluate ≠ .error .missingOperand := by
  cases h with
  | done hvalue => simp [hvalue]
  | refused hrefuses hvalue => cases hrefuses <;> simp [hvalue]

end Task

/-- **Evaluation by tasks is evaluation by recursion**, whatever the tree is made of.  The
value is all that the tasks leave.  There is one exactly if there is no objection to any
node, and else evaluation ends with the first one; that an operand is missing is never what
it ends with.  Before every turn the operands of the task are there.  Each turn is followed
by another one, up to the end that there is. -/
theorem evaluate_by_turns (e : Expr) :
    e.evaluate = e.value ∧ (e.valuesLeft = e.evaluate.map fun x => [x]) ∧
      e.evaluate ≠ .error .missingOperand ∧
      (e.firstObjection? = none ↔ ∃ x, e.evaluate = .ok x) ∧
      (∀ message, e.firstObjection? = some message ↔
        ∃ error, e.evaluate = .error error ∧ error.message = message) ∧
      (∀ s, Relation.ReflTransGen Task.Turn (.start e) s →
        s.HasOperands ∧ ((∃ t, Task.Turn s t) ∨ s.IsEndOf e)) ∧
      ∃ s, Relation.ReflTransGen Task.Turn (.start e) s ∧ s.IsEndOf e := by
  have hend := Task.exists_end (e := e) .refl
  refine ⟨e.evaluate_eq, ?_, ?_, ?_, fun message => ?_, fun s hs => ?_, hend⟩
  · rw [e.evaluate_eq]
    exact e.valuesLeft_eq
  · obtain ⟨s, -, hs⟩ := hend
    exact hs.evaluate_ne
  · rw [e.firstObjection?_eq, e.evaluate_eq]
    cases e.value <;> simp
  · rw [e.firstObjection?_eq, e.evaluate_eq]
    cases e.value <;> simp
  · exact ⟨Task.hasOperands_of_turns hs, Task.turn_or_end hs⟩

/-- In a tree with an operator of the wrong kind on top and another one over a foreign leaf,
the leaf comes first. -/
theorem evaluate_by_turns_foreign :
    let e := Expr.binary .neg (.number (.zero false)) (.unary .add (.foreign "[1]"))
    let s : Task.State := ⟨[.visit (.unary .add (.foreign "[1]")), .applyTwo .neg], [.zero false]⟩
    Relation.ReflTransGen Task.Turn (.start e) s ∧ s.HasOperands ∧
      ∃ error, e.evaluate = .error error ∧ error.message = "Unexpected expression type: [1]" := by
  intro e s
  have hturns : Relation.ReflTransGen Task.Turn (.start e) s := .head .binary (.single .number)
  obtain ⟨-, -, -, -, hmessage, hkept, -⟩ := evaluate_by_turns e
  exact ⟨hturns, (hkept s hturns).1, (hmessage _).mp rfl⟩

end Abacus
