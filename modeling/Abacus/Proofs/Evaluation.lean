import Abacus.Expr.Evaluation

/-!
# Evaluation by tasks is recursion

Visiting a tree comes to the same as evaluating it by recursion and going on with
its value on top of the others (`Task.run_visit`).  The statement is about any
tasks and values that are still there, so that it holds at every node on the way.

An operator that takes two operands gives a result for all of them, division
included.  So a tree fails only for what it is made of, and a proper tree, as it
is read from tokens, has a value.
-/

namespace Abacus

/-- Every operator on two operands has a result for all operands. -/
theorem Operator.exists_result {op : Operator} {f : Binary64 → Binary64 → Option Binary64}
    (h : op.onTwo? = some f) (x y : Binary64) : ∃ z, f x y = some z := by
  cases op <;> cases h <;> simp

namespace Task

/-- **Visiting a tree** puts its value on top, or ends with what is wrong in it. -/
theorem run_visit (e : Expr) (tasks : List Task) (values : List Binary64) :
    run (visit e :: tasks) values = e.value.bind fun x => run tasks (x :: values) := by
  induction e generalizing tasks values with
  | number x => rw [run]; rfl
  | unary op e ih =>
      rw [run, ih, Expr.value]
      cases e.value with
      | error error => rfl
      | ok x =>
          change run (applyOne op :: tasks) (x :: values) = _
          rw [run]
          cases op.onOne? <;> rfl
  | binary op l r ihl ihr =>
      rw [run, ihl, Expr.value]
      cases l.value with
      | error error => rfl
      | ok x =>
          change run (visit r :: applyTwo op :: tasks) (x :: values) = _
          rw [ihr]
          cases r.value with
          | error error => rfl
          | ok y =>
              change run (applyTwo op :: tasks) (y :: x :: values) = _
              rw [run]
              cases hop : op.onTwo? with
              | none => rfl
              | some f =>
                  obtain ⟨z, hz⟩ := Operator.exists_result hop x y
                  simp [hz, bind, Except.bind]
  | foreign text => rw [run]; rfl

end Task

namespace Expr

/-- **Just the value of a tree is left** when its tasks are done. -/
theorem valuesLeft_eq (e : Expr) : e.valuesLeft = e.value.map fun x => [x] := by
  rw [valuesLeft, Task.run_visit]
  cases e.value with
  | error error => rfl
  | ok x =>
      change Task.run [] [x] = .ok [x]
      rw [Task.run]

/-- Evaluation by tasks gives the value by recursion. -/
theorem evaluate_eq (e : Expr) : e.evaluate = e.value := by
  rw [evaluate, valuesLeft_eq]
  cases e.value <;> rfl

/-- A tree made of numbers, negations, and operators between two trees. -/
def IsProper : Expr → Prop
  | number _ => True
  | unary op e => op = .neg ∧ e.IsProper
  | binary op l r => op ≠ .neg ∧ l.IsProper ∧ r.IsProper
  | foreign _ => False

/-- A proper tree has a value. -/
theorem IsProper.exists_value {e : Expr} (h : e.IsProper) : ∃ x, e.value = .ok x := by
  induction e with
  | number x => exact ⟨x, rfl⟩
  | unary op e ih =>
      obtain ⟨rfl, he⟩ := h
      obtain ⟨x, hx⟩ := ih he
      exact ⟨-x, by simp [value, hx, Operator.onOne?, bind, Except.bind]⟩
  | binary op l r ihl ihr =>
      obtain ⟨hop, hl, hr⟩ := h
      obtain ⟨x, hx⟩ := ihl hl
      obtain ⟨y, hy⟩ := ihr hr
      obtain ⟨f, hf⟩ : ∃ f, op.onTwo? = some f := by
        cases op <;> first | exact ⟨_, rfl⟩ | exact absurd rfl hop
      obtain ⟨z, hz⟩ := Operator.exists_result hf x y
      exact ⟨z, by simp [value, hx, hy, hf, hz, bind, Except.bind]⟩
  | foreign text => exact h.elim

end Expr

end Abacus
