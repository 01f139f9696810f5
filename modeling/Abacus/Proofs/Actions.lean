import Abacus.Proofs.Moves

/-!
# Actions and their runs

An action looks at the cursor's token, takes it, or reads from there.  `Performs` tells the
actions in moves, as `Moves` does for what is read, and they are performed so and not otherwise
(`performs_iff`).

What an action keeps is its discipline (`Disciplined`): the depth is the same behind it, the
position is no less, and a reading that starts within the tokens ends within them and in front
of an end token.  A misreading does not break it.  So a run of actions that goes on after
failures keeps depth and position all along (`run_disciplined`).
-/

namespace Abacus

/-- A kind with a power on its right is an operator. -/
theorem Kind.exists_between_of_right {k : Kind} {left right : Int}
    (h : k.bindingPower? = some ⟨left, some right⟩) : ∃ op, k.Between op left right := by
  cases k <;> simp_all [Between, operator?, bindingPower?]

namespace Cursor

open Abacus.Parser

variable {ts : List Token} {action : Action} {answer : Answer} {c c' : Cursor} {l : Expr}
  {kind : Kind}

/-! ## Actions move by move -/

/-- How an action on the first cursor comes to the answer and leaves the second. -/
inductive Performs (ts : List Token) : Action → Cursor → Answer → Cursor → Prop
  | look {c : Cursor} : Performs ts .look c (.token (c.current ts)) c
  | advance {c : Cursor} : Performs ts .advance c .done c.forward
  | expected {c : Cursor} {kind : Kind} (hkind : (c.current ts).kind = kind) :
      Performs ts (.expect kind) c .done c.forward
  | unexpected {c : Cursor} {kind : Kind} (hkind : (c.current ts).kind ≠ kind) :
      Performs ts (.expect kind) c
        (.failed ⟨c.position, .expected kind (c.current ts).kind⟩) c
  | readOperand {c c' : Cursor} {answer : Answer} (reading : Moves ts .operand c answer c') :
      Performs ts .readOperand c answer c'
  | readExpression {c c' : Cursor} {power : Int} {answer : Answer}
      (reading : Moves ts (.expression power) c answer c') :
      Performs ts (.readExpression power) c answer c'
  | noPower {c : Cursor} {l : Expr} {kind : Kind} (hkind : kind.bindingPower? = none) :
      Performs ts (.readJoin l kind) c (.failed ⟨c.forward.position, .noBindingPower kind⟩)
        c.forward
  | noRightPower {c : Cursor} {l : Expr} {kind : Kind} {left : Int}
      (hkind : kind.bindingPower? = some ⟨left, none⟩) :
      Performs ts (.readJoin l kind) c (.failed ⟨c.forward.position, .notBetweenOperands kind⟩)
        c.forward
  | inRight {c c' : Cursor} {l : Expr} {kind : Kind} {op : Operator} {left right : Int}
      {m : Misreading} (hop : kind.Between op left right)
      (reading : Moves ts (.expression right) c.forward (.failed m) c') :
      Performs ts (.readJoin l kind) c (.failed m) c'
  | joined {c c' : Cursor} {l r : Expr} {kind : Kind} {op : Operator} {left right : Int}
      (hop : kind.Between op left right)
      (reading : Moves ts (.expression right) c.forward (.tree r) c') :
      Performs ts (.readJoin l kind) c (.tree (.binary op l r)) c'
  | moveTo {c : Cursor} {position : Nat} :
      Performs ts (.moveTo position) c .done ⟨position, c.depth⟩
  | setDepth {c : Cursor} {depth : Nat} :
      Performs ts (.setDepth depth) c .done ⟨c.position, depth⟩

/-- Expecting a kind looks at the cursor's token. -/
theorem perform_expect (kind : Kind) :
    c.perform ts (.expect kind) =
      if (c.current ts).kind = kind then (.done, c.forward)
      else (.failed ⟨c.position, .expected kind (c.current ts).kind⟩, c) := by
  rw [perform, expect, ← kind_current]
  split <;> rfl

/-- The answer with another tree in the place of a tree. -/
def Answer.mapTree (f : Expr → Expr) : Answer → Answer
  | .tree e => .tree (f e)
  | answer => answer

/-- What comes of the tokens behind the next one is settled from behind it. -/
theorem settle_after {α : Type} (c : Cursor) (s : Step α) (f : α → Answer) :
    c.settle (s.after 1) f = c.forward.settle s f := by
  simp only [settle, forward, Step.used_after, Step.outcome_after, Nat.add_assoc]

/-- What is made of a tree leaves the cursor where the tree does. -/
theorem settle_next_tree (c : Cursor) (s : Step Expr) (us : List Token) (f : Expr → Expr) :
    c.settle (s.next us fun e _ => .ok 0 (f e)) .tree =
      ((c.settle s .tree).1.mapTree f, (c.settle s .tree).2) := by
  cases hs : s.outcome with
  | ok e =>
      rw [Step.next_of_ok hs]
      simp [settle, hs, Step.ok, Answer.mapTree]
  | error cause =>
      rw [Step.next_of_error hs]
      simp [settle, hs, Step.fail, Answer.mapTree]

/-- Joining takes a token, and reads what is to the right of it from there. -/
theorem perform_readJoin {op : Operator} {left right : Int} (hop : kind.Between op left right) :
    c.perform ts (.readJoin l kind) =
      ((c.forward.readAt ts (.expression right)).1.mapTree (.binary op l),
        (c.forward.readAt ts (.expression right)).2) := by
  have htail : (c.remaining ts).drop 1 = c.forward.remaining ts := List.drop_drop ..
  have hjoin : join c.inner l kind (c.forward.remaining ts) =
      (c.inner right (c.forward.remaining ts)).next (c.forward.remaining ts) fun r _ =>
        .ok 0 (.binary op l r) := by
    simp [join, hop.1, hop.2]
  rw [perform, htail, hjoin, settle_after, settle_next_tree]
  rfl

theorem Performs.perform_eq (h : Performs ts action c answer c') :
    c.perform ts action = (answer, c') := by
  cases h with
  | look => rfl
  | advance => rfl
  | expected hkind => rw [perform_expect, if_pos hkind]
  | unexpected hkind => rw [perform_expect, if_neg hkind]
  | readOperand reading => rw [perform_readOperand, reading.readAt_eq]
  | readExpression reading => rw [perform_readExpression, reading.readAt_eq]
  | noPower hkind =>
      simp only [perform, join, hkind]
      rfl
  | noRightPower hkind =>
      simp only [perform, join, hkind]
      rfl
  | inRight hop reading =>
      rw [perform_readJoin hop, reading.readAt_eq]
      rfl
  | joined hop reading =>
      rw [perform_readJoin hop, reading.readAt_eq]
      rfl
  | moveTo => rfl
  | setDepth => rfl

theorem performs_perform (ts : List Token) (c : Cursor) (action : Action) :
    Performs ts action c (c.perform ts action).1 (c.perform ts action).2 := by
  cases action with
  | look => exact .look
  | advance => exact .advance
  | expect kind =>
      rw [perform_expect]
      by_cases hkind : (c.current ts).kind = kind
      · rw [if_pos hkind]
        exact .expected hkind
      · rw [if_neg hkind]
        exact .unexpected hkind
  | readOperand => exact .readOperand (moves_iff.mpr rfl)
  | readExpression power => exact .readExpression (moves_iff.mpr rfl)
  | readJoin l kind =>
      cases hkind : kind.bindingPower? with
      | none =>
          have hnone : Performs ts (.readJoin l kind) c _ _ := .noPower hkind
          rwa [hnone.perform_eq]
      | some power =>
          obtain ⟨left, right⟩ := power
          cases right with
          | none =>
              have hnone : Performs ts (.readJoin l kind) c _ _ := .noRightPower hkind
              rwa [hnone.perform_eq]
          | some right =>
              obtain ⟨op, hop⟩ := Kind.exists_between_of_right hkind
              rw [perform_readJoin hop]
              rcases hreading : c.forward.readAt ts (.expression right) with ⟨answer, c'⟩
              have hmoves := moves_iff.mpr hreading
              rcases readAt_cases hreading with ⟨r, rfl⟩ | ⟨m, rfl⟩
              · exact .joined hop hmoves
              · exact .inRight hop hmoves
  | moveTo position => exact .moveTo
  | setDepth depth => exact .setDepth

/-- **Actions are performed so**, and not otherwise. -/
theorem performs_iff : Performs ts action c answer c' ↔ c.perform ts action = (answer, c') := by
  constructor
  · exact Performs.perform_eq
  · intro h
    have hperforms := performs_perform ts c action
    rwa [h] at hperforms

/-! ## What an action keeps -/

/-- The action is a call of the reader, and does not set the cursor. -/
def Action.isCall : Action → Bool
  | .moveTo _ => false
  | .setDepth _ => false
  | _ => true

/-- The action reads a tree from where the cursor stands. -/
def Action.readsHere : Action → Bool
  | .readOperand => true
  | .readExpression _ => true
  | _ => false

/-- What an action keeps that found the first cursor and left the second with an answer. -/
structure Disciplined (ts : List Token) (action : Action) (found : Cursor) (answer : Answer)
    (left : Cursor) : Prop where
  depth_eq : left.depth = found.depth
  position_le : found.position ≤ left.position
  position_lt : action.readsHere = true → ∀ e, answer = .tree e → found.position < left.position
  within : action.readsHere = true → found.position ≤ ts.length → left.position ≤ ts.length
  no_end_passed : action.readsHere = true → ∀ p t, found.position ≤ p → p < left.position →
    ts[p]? = some t → t.kind ≠ .exprEnd
  index_eq : ∀ m, answer = .failed m → m.index = left.position

/-- An action that reads nothing where the cursor stands keeps depth, position and index. -/
theorem Disciplined.of_not_readsHere (hreads : action.readsHere = false)
    (hdepth : c'.depth = c.depth) (hposition : c.position ≤ c'.position)
    (hindex : ∀ m, answer = .failed m → m.index = c'.position) :
    Disciplined ts action c answer c' where
  depth_eq := hdepth
  position_le := hposition
  position_lt := by simp [hreads]
  within := by simp [hreads]
  no_end_passed := by simp [hreads]
  index_eq := hindex

/-- A reading where the cursor stands passes tokens that are no ends. -/
theorem Moves.disciplined {stage : Stage} (h : Moves ts stage c answer c')
    (hlt : ∀ e, answer = .tree e → c.position < c'.position) :
    Disciplined ts action c answer c' where
  depth_eq := h.passes.depth_eq
  position_le := h.passes.position_le
  position_lt := fun _ => hlt
  within := fun _ => h.passes.position_le_length
  no_end_passed := by
    intro _ p t hle hlt hget
    obtain ⟨t', hget', hkind⟩ := h.passes.passed p hle hlt
    rw [hget'] at hget
    cases hget
    exact hkind
  index_eq := fun _ => h.index_eq

/-- **Every call is disciplined**, whether it succeeds or fails. -/
theorem Performs.disciplined (h : Performs ts action c answer c') (hcall : action.isCall = true) :
    Disciplined ts action c answer c' := by
  cases h with
  | look => exact .of_not_readsHere rfl rfl (Nat.le_refl _) (by simp)
  | advance => exact .of_not_readsHere rfl rfl (Nat.le_succ _) (by simp)
  | expected hkind => exact .of_not_readsHere rfl rfl (Nat.le_succ _) (by simp)
  | unexpected hkind => exact .of_not_readsHere rfl rfl (Nat.le_refl _) (by simp)
  | readOperand reading =>
      refine reading.disciplined fun e htree => ?_
      subst htree
      exact reading.operand_lt
  | readExpression reading =>
      refine reading.disciplined fun e htree => ?_
      subst htree
      exact reading.expression_lt
  | noPower hkind => exact .of_not_readsHere rfl rfl (Nat.le_succ _) (by simp)
  | noRightPower hkind => exact .of_not_readsHere rfl rfl (Nat.le_succ _) (by simp)
  | inRight hop reading =>
      have hpasses := reading.passes
      exact .of_not_readsHere rfl hpasses.depth_eq (Nat.le_of_succ_le hpasses.position_le)
        fun m hm => reading.index_eq hm
  | joined hop reading =>
      have hpasses := reading.passes
      exact .of_not_readsHere rfl hpasses.depth_eq (Nat.le_of_succ_le hpasses.position_le) (by simp)
  | moveTo => cases hcall
  | setDepth => cases hcall

/-! ## What a run keeps -/

/-- The cursors of a run: where it starts, and where each action leaves it. -/
def trail (ts : List Token) (start : Cursor) (actions : List Action) : List Cursor :=
  start :: (run ts start actions).map Prod.snd

theorem length_run (ts : List Token) (start : Cursor) (actions : List Action) :
    (run ts start actions).length = actions.length := by
  induction actions generalizing start with
  | nil => rfl
  | cons action actions ih => simp [run, ih]

/-- Each action of a run is performed on the cursor that the one before it has left. -/
theorem perform_of_run {start found left : Cursor} {actions : List Action} {k : Nat}
    (haction : actions[k]? = some action) (hfound : (trail ts start actions)[k]? = some found)
    (hresult : (run ts start actions)[k]? = some (answer, left)) :
    found.perform ts action = (answer, left) := by
  induction actions generalizing start k with
  | nil => simp at haction
  | cons first actions ih =>
      cases k with
      | zero =>
          simp only [trail, run, List.getElem?_cons_zero, Option.some.injEq]
            at haction hfound hresult
          subst haction hfound
          exact hresult
      | succ k => exact ih haction hfound hresult

/-- **A run of calls** keeps the depth, and never falls behind where it starts. -/
theorem trail_disciplined {start left : Cursor} {actions : List Action}
    (hcalls : ∀ a ∈ actions, a.isCall = true) (hleft : left ∈ trail ts start actions) :
    left.depth = start.depth ∧ start.position ≤ left.position := by
  induction actions generalizing start with
  | nil =>
      obtain rfl : left = start := by simpa [trail, run] using hleft
      exact ⟨rfl, Nat.le_refl _⟩
  | cons first actions ih =>
      rcases List.mem_cons.mp hleft with rfl | hlater
      · exact ⟨rfl, Nat.le_refl _⟩
      · have hfirst := (performs_perform ts start first).disciplined (hcalls _ List.mem_cons_self)
        obtain ⟨hdepth, hposition⟩ := ih (fun a ha => hcalls a (List.mem_cons_of_mem _ ha)) hlater
        exact ⟨hdepth.trans hfirst.depth_eq, Nat.le_trans hfirst.position_le hposition⟩

/-- **The discipline of cursors.**  Let any calls of the reader run one after the other from any
cursor, also after failures.  Each call is performed as its moves say and not otherwise.  It
leaves the depth as it found it and does not go back; a tree that is read takes a token; a
reading that begins within the tokens ends within them and passes no end token; and a misreading
is placed where the cursor is left.  So the depth is the same all along, and no position lies
before the first. -/
theorem run_disciplined (ts : List Token) (start : Cursor) {actions : List Action}
    (hcalls : ∀ a ∈ actions, a.isCall = true) :
    (run ts start actions).length = actions.length ∧
      (∀ (k : Nat) (action : Action) (found : Cursor) (answer : Answer) (left : Cursor),
        actions[k]? = some action → (trail ts start actions)[k]? = some found →
        (run ts start actions)[k]? = some (answer, left) →
        (∀ answer' left', Performs ts action found answer' left' ↔
          answer' = answer ∧ left' = left) ∧
          Disciplined ts action found answer left) ∧
      ∀ left ∈ trail ts start actions,
        left.depth = start.depth ∧ start.position ≤ left.position := by
  refine ⟨length_run ts start actions, ?_, fun left => trail_disciplined hcalls⟩
  intro k action found answer left haction hfound hresult
  have hperform := perform_of_run haction hfound hresult
  constructor
  · intro answer' left'
    rw [performs_iff, hperform, Prod.mk.injEq, eq_comm, @eq_comm _ left]
  · exact (performs_iff.mpr hperform).disciplined (hcalls action (List.mem_of_getElem? haction))

/-- With one level left, `( 0` is too deep at its zero; going on from there, the zero is read, the
end is taken, and past it nothing can be joined. -/
theorem run_disciplined_deep :
    let zero : Token := ⟨.number, "0", some (.zero false), 1⟩
    let ts := [⟨.bracketOpen, "(", none, 0⟩, zero, .finish 2]
    let actions : List Action :=
      [.readExpression 0, .readOperand, .expect .exprEnd, .readJoin (.foreign "None") .number]
    (∀ a ∈ actions, a.isCall = true) ∧
      run ts ⟨0, 255⟩ actions =
        [(.failed ⟨1, .nestingTooDeep⟩, ⟨1, 255⟩), (.tree (.number (.zero false)), ⟨2, 255⟩),
          (.done, ⟨3, 255⟩), (.failed ⟨4, .noBindingPower .number⟩, ⟨4, 255⟩)] ∧
      Disciplined ts (.readExpression 0) ⟨0, 255⟩ (.failed ⟨1, .nestingTooDeep⟩) ⟨1, 255⟩ ∧
      Disciplined ts .readOperand ⟨1, 255⟩ (.tree (.number (.zero false))) ⟨2, 255⟩ := by
  intro zero ts actions
  have hcalls : ∀ a ∈ actions, a.isCall = true := by simp [actions, Action.isCall]
  have hrun : run ts ⟨0, 255⟩ actions =
      [(.failed ⟨1, .nestingTooDeep⟩, ⟨1, 255⟩), (.tree (.number (.zero false)), ⟨2, 255⟩),
        (.done, ⟨3, 255⟩), (.failed ⟨4, .noBindingPower .number⟩, ⟨4, 255⟩)] := by
    have hdeep : perform ts ⟨0, 255⟩ (.readExpression 0) =
        (.failed ⟨1, .nestingTooDeep⟩, ⟨1, 255⟩) := by cbv
    have hzero : perform ts ⟨1, 255⟩ .readOperand =
        (.tree (.number (.zero false)), ⟨2, 255⟩) := by cbv
    have hend : perform ts ⟨2, 255⟩ (.expect .exprEnd) = (.done, ⟨3, 255⟩) := by cbv
    have hnone : perform ts ⟨3, 255⟩ (.readJoin (.foreign "None") .number) =
        (.failed ⟨4, .noBindingPower .number⟩, ⟨4, 255⟩) := by cbv
    simp only [actions, run, hdeep, hzero, hend, hnone]
  obtain ⟨-, hcall, -⟩ := run_disciplined ts ⟨0, 255⟩ hcalls
  have htrail : trail ts ⟨0, 255⟩ actions =
      [⟨0, 255⟩, ⟨1, 255⟩, ⟨2, 255⟩, ⟨3, 255⟩, ⟨4, 255⟩] := by
    rw [trail, hrun]
    rfl
  refine ⟨hcalls, hrun, ?_, ?_⟩
  · exact (hcall 0 _ _ _ _ rfl (htrail ▸ rfl) (hrun ▸ rfl)).2
  · exact (hcall 1 _ _ _ _ rfl (htrail ▸ rfl) (hrun ▸ rfl)).2

end Cursor

end Abacus
