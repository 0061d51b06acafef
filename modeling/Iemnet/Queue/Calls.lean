import Iemnet.Queue.Refinement

/-!
# What one section of a queue function does

Spec lemmas about {lit}`Call.step` for the systems built on the queue: which
program points belong to which function, how a section changes the history, and
when a section can be executed at all.

Main results:

- Theorem {lit}`QueueOp.Covers.step`: a thread stays inside the function it called.
- Theorem {lit}`Call.effect`: a section links the pending chunk, or takes the next
  ticket, or leaves the history as it is.
- Theorem {lit}`Pool.Inv.progress`: only an unwoken waiter cannot proceed.
-/

namespace Iemnet

open Foundations
open Foundations.LinkedList

variable {τ χ : Type}

/-- The chunk of a {lit}`queue_push` that is not linked yet. -/
def Call.pending : Call χ → Option χ
  | .push data => data
  | .pushAlloc data => some data
  | .pushLink _ data => some data
  | _ => none

/-- The ticket of a pop from its detaching section until its return. -/
def Call.taken : Call χ → Option Nat
  | .popFree _ ticket => some ticket
  | .popDone data => data.map Prod.fst
  | .retChunk data => data.map Prod.fst
  | _ => none

/-- The program points of a call of each entry point. -/
def QueueOp.Covers : QueueOp χ → Call χ → Prop
  | .push data, .push d => d = data
  | .push data, .pushAlloc d => data = some d
  | .push data, .pushLink _ d => data = some d
  | .push _, .retSize _ => True
  | .popBlock, .popBlock => True
  | .popBlock, .popBlockLock => True
  | .popBlock, .popBlockWait => True
  | .popBlock, .popFree _ _ => True
  | .popBlock, .popDone _ => True
  | .popBlock, .retChunk _ => True
  | .popNoblock, .popNoblock => True
  | .popNoblock, .popNoblockLock => True
  | .popNoblock, .popFree _ _ => True
  | .popNoblock, .popDone _ => True
  | .popNoblock, .retChunk _ => True
  | .getsize, .getsize => True
  | .getsize, .retSize _ => True
  | .finish, .finish => True
  | .finish, .finishTest => True
  | .finish, .finishWait => True
  | .finish, .retVoid => True
  | _, _ => False

/-- Every operation starts at one of its own program points. -/
theorem QueueOp.covers_entry (op : QueueOp χ) : op.Covers op.entry := by
  cases op <;> simp [QueueOp.entry, QueueOp.Covers]

/-- Every program point belongs to a function. -/
theorem Call.exists_covers (c : Call χ) : ∃ op : QueueOp χ, op.Covers c := by
  cases c with
  | push data => exact ⟨.push data, rfl⟩
  | pushAlloc data => exact ⟨.push (some data), rfl⟩
  | pushLink n data => exact ⟨.push (some data), rfl⟩
  | retSize size => exact ⟨.getsize, trivial⟩
  | getsize => exact ⟨.getsize, trivial⟩
  | finish | finishTest | finishWait | retVoid => exact ⟨.finish, trivial⟩
  | popNoblock | popNoblockLock => exact ⟨.popNoblock, trivial⟩
  | popBlock | popBlockLock | popBlockWait | popFree | popDone | retChunk =>
      exact ⟨.popBlock, trivial⟩

/-- A push never holds a chunk that was taken out. -/
theorem QueueOp.Covers.taken_of_push {data : Option χ} {c : Call χ}
    (h : (QueueOp.push data).Covers c) : c.taken = none := by
  cases c <;> first | rfl | exact h.elim

/-- Finishing takes no chunk out. -/
theorem QueueOp.Covers.taken_of_finish {c : Call χ} (h : QueueOp.finish.Covers c) :
    c.taken = none := by
  cases c <;> first | rfl | exact h.elim

/-- A pop has nothing to push. -/
theorem QueueOp.Covers.pending_of_popBlock {c : Call χ} (h : QueueOp.popBlock.Covers c) :
    c.pending = none := by
  cases c <;> first | rfl | exact h.elim

variable [DecidableEq τ] [Payload χ]
variable {q : Queue τ χ} {c : Call χ} {t : τ} {addr : Nat} {wake : Option τ}
variable {next : Queue τ χ × Call χ}

/-- A section leads to another program point of the same function. -/
theorem QueueOp.Covers.step {op : QueueOp χ} (h : op.Covers c)
    (hstep : c.step t addr wake q = some next) : op.Covers next.2 := by
  cases c with
  | push data =>
      cases data <;> cases hstep <;> cases op <;> simp_all [QueueOp.Covers]
  | pushAlloc data =>
      simp only [Call.step] at hstep
      split at hstep
      · cases hstep
        cases op <;> simp_all [QueueOp.Covers]
      · contradiction
  | pushLink n data =>
      rcases Option.bind_eq_some_iff.1 hstep with ⟨nodes, -, hrest⟩
      rcases Option.map_eq_some_iff.1 hrest with ⟨cond, -, rfl⟩
      cases op <;> simp_all [QueueOp.Covers]
  | popBlockLock =>
      rcases Queue.popTest_cases hstep with ⟨-, rfl⟩ | ⟨head, nodes, -, -, rfl⟩ <;>
        cases op <;> simp_all [QueueOp.Covers]
  | popBlockWait =>
      rcases Option.bind_eq_some_iff.1 hstep with ⟨cond, -, hrest⟩
      split at hrest
      · cases hrest
        cases op <;> simp_all [QueueOp.Covers]
      · rcases Queue.popTest_cases hrest with ⟨-, rfl⟩ | ⟨head, nodes, -, -, rfl⟩ <;>
          cases op <;> simp_all [QueueOp.Covers]
  | popNoblockLock =>
      simp only [Call.step] at hstep
      split at hstep
      · cases hstep
        cases op <;> simp_all [QueueOp.Covers]
      · rcases Option.map_eq_some_iff.1 hstep with ⟨nodes, -, rfl⟩
        cases op <;> simp_all [QueueOp.Covers]
  | finishTest =>
      rcases Queue.finishLoop_cases t q with ⟨-, hloop⟩ | ⟨-, hloop⟩ <;>
        · simp only [Call.step, hloop] at hstep
          cases hstep
          cases op <;> simp_all [QueueOp.Covers]
  | finishWait =>
      rcases Option.map_eq_some_iff.1 hstep with ⟨usedcond, -, rfl⟩
      rcases Queue.finishLoop_cases t { q with usedcond := usedcond } with
        ⟨-, hloop⟩ | ⟨-, hloop⟩ <;> rw [hloop] <;> cases op <;> simp_all [QueueOp.Covers]
  | popFree _ _ | popDone _ | finish =>
      rcases Option.map_eq_some_iff.1 hstep with ⟨_, -, rfl⟩
      cases op <;> simp_all [QueueOp.Covers]
  | popBlock | popNoblock | getsize =>
      cases hstep
      cases op <;> simp_all [QueueOp.Covers]
  | retSize _ | retChunk _ | retVoid => cases hstep

/-! ## The history -/

/-- What a section can do to the history: nothing, link the pending chunk, or take
the next ticket. -/
inductive Call.Effect (q : NodeList χ) (c : Call χ) (q' : NodeList χ) (c' : Call χ) : Prop
  | quiet (hpushed : q'.pushed = q.pushed) (hpopped : q'.popped = q.popped)
      (hpending : c'.pending = c.pending) (htaken : c'.taken = c.taken)
  | link (d : χ) (hpushed : q'.pushed = q.pushed ++ [d]) (hpopped : q'.popped = q.popped)
      (hpending : c.pending = some d) (hpending' : c'.pending = none)
      (htaken : c'.taken = c.taken)
  | detach (hpushed : q'.pushed = q.pushed) (hpopped : q'.popped = q.popped + 1)
      (hpending : c'.pending = c.pending) (htaken : c.taken = none)
      (htaken' : c'.taken = some q.popped)

omit [DecidableEq τ] in
/-- The pop section waits, or detaches the head. -/
theorem Queue.popTest_effect (hpending : c.pending = none) (htaken : c.taken = none)
    (hstep : q.popTest t = some next) :
    Call.Effect q.toNodeList c next.1.toNodeList next.2 := by
  rcases Queue.popTest_cases hstep with ⟨-, rfl⟩ | ⟨head, nodes, -, hunlink, rfl⟩
  · exact .quiet rfl rfl hpending.symm htaken.symm
  · rcases Option.map_eq_some_iff.1 hunlink with ⟨node, -, rfl⟩
    exact .detach rfl rfl hpending.symm htaken rfl

/-- The effect of a section of a thread whose assertion holds. -/
theorem Call.effect {nodes : List Nat} (hok : c.Ok q.toNodeList nodes)
    (hstep : c.step t addr wake q = some next) :
    Call.Effect q.toNodeList c next.1.toNodeList next.2 := by
  cases c with
  | push data => cases data <;> cases hstep <;> exact .quiet rfl rfl rfl rfl
  | pushAlloc data =>
      simp only [Call.step] at hstep
      split at hstep
      · cases hstep
        exact .quiet rfl rfl rfl rfl
      · contradiction
  | pushLink n data =>
      rcases Option.bind_eq_some_iff.1 hstep with ⟨nodes, hlink, hrest⟩
      rcases Option.map_eq_some_iff.1 hrest with ⟨cond, -, rfl⟩
      unfold NodeList.link at hlink
      split at hlink
      · cases hlink
        exact .link data rfl rfl rfl rfl rfl
      · rcases Option.map_eq_some_iff.1 hlink with ⟨node, -, rfl⟩
        exact .link data rfl rfl rfl rfl rfl
  | popBlockLock => exact Queue.popTest_effect rfl rfl hstep
  | popBlockWait =>
      rcases Option.bind_eq_some_iff.1 hstep with ⟨cond, -, hrest⟩
      split at hrest
      · cases hrest
        exact .quiet rfl rfl rfl rfl
      · exact Queue.popTest_effect (q := { q with cond := cond }) (c := .popBlockWait) rfl rfl hrest
  | popNoblockLock =>
      simp only [Call.step] at hstep
      split at hstep
      · cases hstep
        exact .quiet rfl rfl rfl rfl
      · rcases Option.map_eq_some_iff.1 hstep with ⟨nodes, hunlink, rfl⟩
        rcases Option.map_eq_some_iff.1 hunlink with ⟨node, -, rfl⟩
        exact .detach rfl rfl rfl rfl rfl
  | popFree head ticket =>
      -- the node still holds its chunk, so the ticket travels on
      rcases hok with ⟨-, -, nx, d, hcell, -⟩
      simp only [Call.step, hcell, Option.map_some, Option.some.injEq] at hstep
      subst hstep
      exact .quiet rfl rfl rfl rfl
  | popDone data =>
      rcases Option.map_eq_some_iff.1 hstep with ⟨q', hq', rfl⟩
      rcases Option.map_eq_some_iff.1 hq' with ⟨usedcond, -, rfl⟩
      exact .quiet rfl rfl rfl rfl
  | finish =>
      rcases Option.map_eq_some_iff.1 hstep with ⟨cond, -, rfl⟩
      exact .quiet rfl rfl rfl rfl
  | finishTest =>
      rcases Queue.finishLoop_cases t q with ⟨-, hloop⟩ | ⟨-, hloop⟩ <;>
        · simp only [Call.step, hloop] at hstep
          cases hstep
          exact .quiet rfl rfl rfl rfl
  | finishWait =>
      rcases Option.map_eq_some_iff.1 hstep with ⟨usedcond, -, rfl⟩
      rcases Queue.finishLoop_cases t { q with usedcond := usedcond } with
        ⟨-, hloop⟩ | ⟨-, hloop⟩ <;> rw [hloop] <;> exact .quiet rfl rfl rfl rfl
  | popBlock | popNoblock | getsize =>
      cases hstep
      exact .quiet rfl rfl rfl rfl
  | retSize _ | retChunk _ | retVoid => cases hstep

/-- A {lit}`queue_pop_noblock` comes back with nothing only after a section that has
seen the list empty. -/
theorem Call.step_nothing {nodes : List Nat} (hok : c.Ok q.toNodeList nodes)
    (hcovers : QueueOp.popNoblock.Covers c) (hstep : c.step t addr wake q = some next)
    (hnext : next.2 = .popDone none ∨ next.2 = .retChunk none) :
    next.1.pushed = q.pushed ∧ next.1.popped = q.popped ∧
      (q.head = none ∨ c = .popDone none) := by
  cases c with
  | popNoblock =>
      cases hstep
      rcases hnext with h | h <;> cases h
  | popNoblockLock =>
      simp only [Call.step] at hstep
      split at hstep
      · rename_i hhead
        cases hstep
        exact ⟨rfl, rfl, Or.inl hhead⟩
      · rcases Option.map_eq_some_iff.1 hstep with ⟨nodes, -, rfl⟩
        rcases hnext with h | h <;> cases h
  | popFree head ticket =>
      rcases hok with ⟨-, -, nx, d, hcell, -⟩
      simp only [Call.step, hcell, Option.map_some, Option.some.injEq] at hstep
      subst hstep
      rcases hnext with h | h <;> cases h
  | popDone data =>
      rcases Option.map_eq_some_iff.1 hstep with ⟨q', hq', rfl⟩
      rcases Option.map_eq_some_iff.1 hq' with ⟨usedcond, -, rfl⟩
      rcases hnext with h | h <;> cases h
      exact ⟨rfl, rfl, Or.inr rfl⟩
  | retChunk data => cases hstep
  | _ => exact hcovers.elim

/-! ## Progress -/

omit [DecidableEq τ] in
/-- With the list in shape the test of a pop never fails. -/
theorem Queue.popTest_isSome {l : List (Nat × χ)} (h : q.Shape l) (t : τ) :
    (q.popTest t).isSome := by
  unfold Queue.popTest
  split
  · rfl
  · rename_i head hhead
    rcases h.unlink hhead with ⟨d, rest, nodes, -, hunlink, -⟩
    simp [hunlink]

/-- A thread inside a queue function can execute its next section unless it waits
for a signal that has not come. -/
theorem Pool.Inv.progress {s : Pool τ χ} {l : List (Nat × χ)} (h : s.Inv l)
    (hfree : ∃ a, s.queue.heap a = none) (hc : s.call t = some c)
    (hrunning : c.finished = false) (hpop : c = .popBlockWait → t ∈ s.queue.cond.woken)
    (hfinish : c = .finishWait → t ∈ s.queue.usedcond.woken) :
    ∃ addr wake, (c.step t addr wake s.queue).isSome := by
  cases c with
  | push data => cases data <;> exact ⟨0, none, rfl⟩
  | pushAlloc data =>
      rcases hfree with ⟨a, ha⟩
      exact ⟨a, none, by simp [Call.step, ha]⟩
  | pushLink n data =>
      have hmine : n ∉ l.map Prod.fst ∧ s.queue.heap n = some ⟨none, some data⟩ :=
        h.ok t _ hc
      rcases h.shape.link hmine.2 hmine.1 with ⟨nodes, hlink, -⟩
      rcases s.queue.cond.exists_signal with ⟨w, cond, hcond⟩
      exact ⟨0, w, by simp [Call.step, hlink, hcond]⟩
  | popBlockLock => exact ⟨0, none, Queue.popTest_isSome h.shape t⟩
  | popBlockWait =>
      have hresume := CondVar.resume_eq_some.2 ⟨hpop rfl, rfl⟩
      refine ⟨0, none, ?_⟩
      simp only [Call.step, hresume, Option.bind_some]
      split
      · rfl
      · exact Queue.popTest_isSome (by exact h.shape) t
  | popNoblockLock =>
      refine ⟨0, none, ?_⟩
      simp only [Call.step]
      split
      · rfl
      · rename_i head hhead
        rcases h.shape.unlink hhead with ⟨d, rest, nodes, -, hunlink, -⟩
        simp [hunlink]
  | popFree head ticket =>
      rcases h.ok t _ hc with ⟨-, -, nx, d, hcell, -⟩
      exact ⟨0, none, by simp [Call.step, hcell]⟩
  | popDone data =>
      rcases s.queue.usedcond.exists_signal with ⟨w, cond, hcond⟩
      exact ⟨0, w, by simp [Call.step, Queue.useDecrement, hcond]⟩
  | finish =>
      rcases s.queue.cond.exists_signal with ⟨w, cond, hcond⟩
      exact ⟨0, w, by simp [Call.step, hcond]⟩
  | finishWait =>
      have hresume := CondVar.resume_eq_some.2 ⟨hfinish rfl, rfl⟩
      exact ⟨0, none, by simp [Call.step, hresume]⟩
  | popBlock | popNoblock | getsize | finishTest => exact ⟨0, none, rfl⟩
  | retSize _ | retChunk _ | retVoid => simp [Call.finished] at hrunning

end Iemnet
