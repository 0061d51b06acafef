import Iemnet.Queue.Calls

/-!
# Waiting in the queue

What the condition variables and the use counter of the queue say about the
program points of the threads.  The invariant is kept by every section of every
thread; which waits come to an end depends on who calls what, and is left to the
systems built on the queue.

Main results:

- Theorem {lit}`Call.sync`: what a section does to the two condition variables and
  to the use counter.
- Theorem {lit}`Pool.waits`: in every reachable state the threads inside a wait are
  those whose program point says so.
- Theorem {lit}`Pool.exists_free`: there is always an address for a new node.
-/

namespace Iemnet

open Foundations
open Foundations.LinkedList

variable {τ χ : Type}

/-- Inside the wait of {lit}`queue_pop_block`. -/
def Call.waitsPop : Call χ → Bool
  | .popBlockWait => true
  | _ => false

/-- Inside the wait of {lit}`queue_finish`. -/
def Call.waitsFinish : Call χ → Bool
  | .finishWait => true
  | _ => false

/-- Between {lit}`queue_use_increment` and {lit}`queue_use_decrement`. -/
def Call.inUse : Call χ → Bool
  | .popBlockLock => true
  | .popBlockWait => true
  | .popNoblockLock => true
  | .popFree _ _ => true
  | .popDone _ => true
  | _ => false

/-- No operation starts in the wait of a pop. -/
@[simp]
theorem QueueOp.waitsPop_entry (op : QueueOp χ) : op.entry.waitsPop = false := by
  cases op <;> rfl

/-- No operation starts in the wait of a finish. -/
@[simp]
theorem QueueOp.waitsFinish_entry (op : QueueOp χ) : op.entry.waitsFinish = false := by
  cases op <;> rfl

/-- No operation is counted when it starts. -/
@[simp]
theorem QueueOp.inUse_entry (op : QueueOp χ) : op.entry.inUse = false := by
  cases op <;> rfl

/-- A finished call does not wait for a chunk. -/
theorem Call.waitsPop_of_finished {c : Call χ} (h : c.finished = true) :
    c.waitsPop = false := by
  cases c <;> first | rfl | cases h

/-- A finished call does not wait for the users. -/
theorem Call.waitsFinish_of_finished {c : Call χ} (h : c.finished = true) :
    c.waitsFinish = false := by
  cases c <;> first | rfl | cases h

/-- A finished call is not counted any more. -/
theorem Call.inUse_of_finished {c : Call χ} (h : c.finished = true) : c.inUse = false := by
  cases c <;> first | rfl | cases h

section Sync

variable [DecidableEq τ] [Payload χ]
variable {q : Queue τ χ} {c : Call χ} {t : τ} {addr : Nat} {wake : Option τ}
variable {next : Queue τ χ × Call χ}

/-- What a section of thread {lit}`t` does to the condition variables and the use
counter. -/
structure Call.Sync (t : τ) (q : Queue τ χ) (c : Call χ) (q' : Queue τ χ) (c' : Call χ) :
    Prop where
  cond : CondVar.Move t q.cond c.waitsPop q'.cond c'.waitsPop
  usedcond : CondVar.Move t q.usedcond c.waitsFinish q'.usedcond c'.waitsFinish
  used : q'.used + c.inUse.toNat = q.used + c'.inUse.toNat

omit [Payload χ] in
/-- A step that neither waits nor wakes leaves everybody where they are. -/
theorem Call.sync_quiet {q' : Queue τ χ} {c' : Call χ} (hcond : q'.cond = q.cond)
    (husedcond : q'.usedcond = q.usedcond) (hused : q'.used = q.used)
    (hpop : c.waitsPop = false ∧ c'.waitsPop = false)
    (hfinish : c.waitsFinish = false ∧ c'.waitsFinish = false) (huse : c'.inUse = c.inUse) :
    Call.Sync t q c q' c' := by
  refine ⟨?_, ?_, by rw [hused, huse]⟩
  · rw [hcond, hpop.1, hpop.2]
    exact .stay
  · rw [husedcond, hfinish.1, hfinish.2]
    exact .stay

/-- Every step of a call agrees with the two condition variables and the count. -/
theorem Call.sync (hstep : c.step t addr wake q = some next) :
    Call.Sync t q c next.1 next.2 := by
  cases c with
  | push data =>
      cases data <;> cases hstep <;>
        exact Call.sync_quiet rfl rfl rfl ⟨rfl, rfl⟩ ⟨rfl, rfl⟩ rfl
  | pushAlloc data =>
      simp only [Call.step] at hstep
      split at hstep
      · cases hstep
        exact Call.sync_quiet rfl rfl rfl ⟨rfl, rfl⟩ ⟨rfl, rfl⟩ rfl
      · contradiction
  | pushLink n data =>
      rcases Option.bind_eq_some_iff.1 hstep with ⟨nodes, -, hrest⟩
      rcases Option.map_eq_some_iff.1 hrest with ⟨cond, hcond, rfl⟩
      exact ⟨.signal hcond, .stay, rfl⟩
  | popBlock =>
      cases hstep
      exact ⟨.stay, .stay, by simp [Queue.useIncrement, Call.inUse]⟩
  | popBlockLock =>
      rcases Queue.popTest_cases hstep with ⟨-, rfl⟩ | ⟨head, nodes, -, -, rfl⟩
      · exact ⟨.wait, .stay, rfl⟩
      · exact Call.sync_quiet rfl rfl rfl ⟨rfl, rfl⟩ ⟨rfl, rfl⟩ rfl
  | popBlockWait =>
      rcases Option.bind_eq_some_iff.1 hstep with ⟨cond, hcond, hrest⟩
      split at hrest
      · cases hrest
        exact ⟨.resume hcond, .stay, rfl⟩
      · rcases Queue.popTest_cases hrest with ⟨-, rfl⟩ | ⟨head, nodes, -, -, rfl⟩
        · exact ⟨.rewait hcond, .stay, rfl⟩
        · exact ⟨.resume hcond, .stay, rfl⟩
  | popNoblock =>
      cases hstep
      exact ⟨.stay, .stay, by simp [Queue.useIncrement, Call.inUse]⟩
  | popNoblockLock =>
      simp only [Call.step] at hstep
      split at hstep
      · cases hstep
        exact Call.sync_quiet rfl rfl rfl ⟨rfl, rfl⟩ ⟨rfl, rfl⟩ rfl
      · rcases Option.map_eq_some_iff.1 hstep with ⟨nodes, -, rfl⟩
        exact Call.sync_quiet rfl rfl rfl ⟨rfl, rfl⟩ ⟨rfl, rfl⟩ rfl
  | popFree head ticket =>
      rcases Option.map_eq_some_iff.1 hstep with ⟨node, -, rfl⟩
      exact Call.sync_quiet rfl rfl rfl ⟨rfl, rfl⟩ ⟨rfl, rfl⟩ rfl
  | popDone data =>
      rcases Option.map_eq_some_iff.1 hstep with ⟨q', hq', rfl⟩
      rcases Option.map_eq_some_iff.1 hq' with ⟨usedcond, husedcond, rfl⟩
      exact ⟨.stay, .signal husedcond, by simp [Call.inUse]⟩
  | getsize =>
      cases hstep
      exact Call.sync_quiet rfl rfl rfl ⟨rfl, rfl⟩ ⟨rfl, rfl⟩ rfl
  | finish =>
      rcases Option.map_eq_some_iff.1 hstep with ⟨cond, hcond, rfl⟩
      exact ⟨.signal hcond, .stay, rfl⟩
  | finishTest =>
      rcases Queue.finishLoop_cases t q with ⟨-, hloop⟩ | ⟨-, hloop⟩ <;>
        simp only [Call.step, hloop] at hstep <;> cases hstep
      · exact ⟨.stay, .wait, rfl⟩
      · exact Call.sync_quiet rfl rfl rfl ⟨rfl, rfl⟩ ⟨rfl, rfl⟩ rfl
  | finishWait =>
      rcases Option.map_eq_some_iff.1 hstep with ⟨usedcond, husedcond, rfl⟩
      rcases Queue.finishLoop_cases t { q with usedcond := usedcond } with
        ⟨-, hloop⟩ | ⟨-, hloop⟩ <;> rw [hloop]
      · exact ⟨.stay, .rewait husedcond, rfl⟩
      · exact ⟨.stay, .resume husedcond, rfl⟩
  | retSize _ | retChunk _ | retVoid => cases hstep

/-- How a thread gets inside the wait of {lit}`queue_pop_block`. -/
theorem Call.step_popBlock (hcovers : QueueOp.popBlock.Covers c)
    (hstep : c.step t addr wake q = some next) :
    next.1.done = q.done ∧ (next.2.inUse = true ∨ ∃ data, c = .popDone data) ∧
      (next.2 = .popBlockWait →
        (c = .popBlockLock ∧ q.head = none) ∨ (c = .popBlockWait ∧ q.done = false)) := by
  cases c with
  | popBlock =>
      cases hstep
      exact ⟨rfl, Or.inl rfl, fun h => by cases h⟩
  | popBlockLock =>
      rcases Queue.popTest_cases hstep with ⟨hhead, rfl⟩ | ⟨head, nodes, -, -, rfl⟩
      · exact ⟨rfl, Or.inl rfl, fun _ => Or.inl ⟨rfl, hhead⟩⟩
      · exact ⟨rfl, Or.inl rfl, fun h => by cases h⟩
  | popBlockWait =>
      rcases Option.bind_eq_some_iff.1 hstep with ⟨cond, -, hrest⟩
      split at hrest
      · cases hrest
        exact ⟨rfl, Or.inl rfl, fun h => by cases h⟩
      · rename_i hdone
        rcases Queue.popTest_cases hrest with ⟨-, rfl⟩ | ⟨head, nodes, -, -, rfl⟩
        · exact ⟨rfl, Or.inl rfl, fun _ => Or.inr ⟨rfl, by simpa using hdone⟩⟩
        · exact ⟨rfl, Or.inl rfl, fun h => by cases h⟩
  | popFree head ticket =>
      rcases Option.map_eq_some_iff.1 hstep with ⟨node, -, rfl⟩
      exact ⟨rfl, Or.inl rfl, fun h => by cases h⟩
  | popDone data =>
      rcases Option.map_eq_some_iff.1 hstep with ⟨q', hq', rfl⟩
      rcases Option.map_eq_some_iff.1 hq' with ⟨usedcond, -, rfl⟩
      exact ⟨rfl, Or.inr ⟨data, rfl⟩, fun h => by cases h⟩
  | retChunk data => cases hstep
  | _ => exact hcovers.elim

/-- How a thread gets to a program point of {lit}`queue_finish` behind its signal: by
signalling, or by finding the queue in use. -/
theorem Call.step_finishing (hcovers : QueueOp.finish.Covers c)
    (hstep : c.step t addr wake q = some next) (hnext : next.2.finished = false) :
    (c = .finish ∧ next.2 = .finishTest ∧ next.1.done = true ∧
        q.cond.signal wake = some next.1.cond) ∨
      ((c = .finishTest ∨ c = .finishWait) ∧ next.2 = .finishWait ∧ q.used ≠ 0 ∧
        next.1.used = q.used ∧ next.1.cond = q.cond ∧ next.1.done = q.done) := by
  cases c with
  | finish =>
      rcases Option.map_eq_some_iff.1 hstep with ⟨cond, hcond, rfl⟩
      exact Or.inl ⟨rfl, rfl, rfl, hcond⟩
  | finishTest =>
      rcases Queue.finishLoop_cases t q with ⟨hused, hloop⟩ | ⟨-, hloop⟩ <;>
        simp only [Call.step, hloop] at hstep <;> cases hstep
      · exact Or.inr ⟨Or.inl rfl, rfl, hused, rfl, rfl, rfl⟩
      · cases hnext
  | finishWait =>
      rcases Option.map_eq_some_iff.1 hstep with ⟨usedcond, -, rfl⟩
      rcases Queue.finishLoop_cases t { q with usedcond := usedcond } with
        ⟨hused, hloop⟩ | ⟨-, hloop⟩ <;> rw [hloop] at hnext ⊢
      · exact Or.inr ⟨Or.inr rfl, rfl, hused, rfl, rfl, rfl⟩
      · cases hnext
  | retVoid => cases hstep
  | _ => exact hcovers.elim

end Sync

/-! ## Who waits -/

/-- The threads inside the waits are those whose program point says so. -/
structure Pool.Waits (s : Pool τ χ) : Prop where
  condNodup : s.queue.cond.inside.Nodup
  cond : ∀ t, t ∈ s.queue.cond.inside ↔ ∃ c, s.call t = some c ∧ c.waitsPop = true
  usedcondNodup : s.queue.usedcond.inside.Nodup
  usedcond : ∀ t, t ∈ s.queue.usedcond.inside ↔ ∃ c, s.call t = some c ∧ c.waitsFinish = true

section Waits

variable [DecidableEq τ] [Payload χ] {s s' : Pool τ χ}

omit [DecidableEq τ] [Payload χ] in
/-- Nobody waits at a new queue. -/
theorem Pool.waits_create : (Pool.create τ χ).Waits := by
  refine ⟨?_, ?_, ?_, ?_⟩ <;> simp [Pool.create, queueCreate, CondVar.idle, CondVar.inside]

omit [Payload χ] in
/-- Calling a function and returning from it happens outside the waits. -/
theorem Pool.Waits.setCall (h : s.Waits) {t : τ} {o : Option (Call χ)}
    (hold : ∀ c, s.call t = some c → c.waitsPop = false ∧ c.waitsFinish = false)
    (hnew : ∀ c, o = some c → c.waitsPop = false ∧ c.waitsFinish = false) :
    Pool.Waits { s with call := Function.update s.call t o } := by
  have hsame : ∀ (f : Call χ → Bool), (∀ c, s.call t = some c → f c = false) →
      (∀ c, o = some c → f c = false) → ∀ u,
      (∃ c, Function.update s.call t o u = some c ∧ f c = true) ↔
        ∃ c, s.call u = some c ∧ f c = true := by
    intro f hf hf' u
    by_cases hut : u = t
    · subst hut
      rw [Function.update_self]
      constructor
      · rintro ⟨c, hc, htrue⟩
        simp [hf' c hc] at htrue
      · rintro ⟨c, hc, htrue⟩
        simp [hf c hc] at htrue
    · rw [Function.update_of_ne hut]
  refine ⟨h.condNodup, fun u => ?_, h.usedcondNodup, fun u => ?_⟩
  · rw [hsame Call.waitsPop (fun c hc => (hold c hc).1) (fun c hc => (hnew c hc).1)]
    exact h.cond u
  · rw [hsame Call.waitsFinish (fun c hc => (hold c hc).2) (fun c hc => (hnew c hc).2)]
    exact h.usedcond u

/-- Every step keeps the correspondence. -/
theorem Pool.Waits.step (h : s.Waits) {a : PoolAction τ χ} (hstep : s.step a = some s') :
    s'.Waits := by
  cases a with
  | enter t op =>
      simp only [Pool.step] at hstep
      split at hstep
      · rename_i hcall
        cases hstep
        refine h.setCall ?_ ?_
        · intro c hc
          simp [hc] at hcall
        · rintro c ⟨⟩
          exact ⟨op.waitsPop_entry, op.waitsFinish_entry⟩
      · contradiction
  | step t addr wake =>
      rcases Option.bind_eq_some_iff.1 hstep with ⟨c, hcall, hrest⟩
      rcases Option.map_eq_some_iff.1 hrest with ⟨next, hnext, rfl⟩
      have hsync := Call.sync hnext
      have hcond := hsync.cond.inside h.condNodup (by simp [h.cond, hcall])
      have husedcond := hsync.usedcond.inside h.usedcondNodup (by simp [h.usedcond, hcall])
      refine ⟨hcond.1, fun u => ?_, husedcond.1, fun u => ?_⟩
      · rw [hcond.2]
        by_cases hut : u = t <;> simp [hut, h.cond]
      · rw [husedcond.2]
        by_cases hut : u = t <;> simp [hut, h.usedcond]
  | spurious t =>
      rcases Option.bind_eq_some_iff.1 hstep with ⟨c, hcall, hrest⟩
      rcases Option.map_eq_some_iff.1 hrest with ⟨q, hq, rfl⟩
      cases c <;> simp only [Queue.spurious, reduceCtorEq] at hq
      all_goals rcases Option.map_eq_some_iff.1 hq with ⟨cond, hcond, rfl⟩
      · refine { h with condNodup := ?_, cond := fun u => ?_ }
        · exact (CondVar.perm_signal hcond).nodup_iff.2 h.condNodup
        · rw [← h.cond u]
          exact CondVar.mem_signal hcond u
      · refine { h with usedcondNodup := ?_, usedcond := fun u => ?_ }
        · exact (CondVar.perm_signal hcond).nodup_iff.2 h.usedcondNodup
        · rw [← h.usedcond u]
          exact CondVar.mem_signal hcond u
  | leave t =>
      rcases Option.bind_eq_some_iff.1 hstep with ⟨c, hcall, hrest⟩
      split at hrest
      · rename_i hfinished
        cases hrest
        refine h.setCall ?_ (by simp)
        intro c' hc'
        rw [hcall] at hc'
        cases hc'
        exact ⟨Call.waitsPop_of_finished hfinished, Call.waitsFinish_of_finished hfinished⟩
      · contradiction

/-- Who waits, in every reachable state. -/
theorem Pool.waits (h : (queueMachine τ χ).Reachable s) : s.Waits := by
  refine Machine.Reach.invariant ?_ ?_ h
  · rintro s rfl
    exact Pool.waits_create
  · intro s a s' _ hwaits _ hstep
    exact hwaits.step hstep

/-! ## Memory -/

/-- Beyond some address nothing is allocated. -/
def Pool.Bounded (s : Pool τ χ) : Prop :=
  ∃ b, ∀ a, b ≤ a → s.queue.heap a = none

omit [DecidableEq τ] [Payload χ] in
/-- One node more or less leaves an address free. -/
theorem Pool.Bounded.of_update {q : Queue τ χ} {call call' : τ → Option (Call χ)}
    (h : Pool.Bounded ⟨q, call⟩) {q' : Queue τ χ} {n : Nat} {c : Option (Node χ)}
    (hheap : q'.heap = Function.update q.heap n c) : Pool.Bounded ⟨q', call'⟩ := by
  rcases h with ⟨b, hb⟩
  refine ⟨max b (n + 1), fun a ha => ?_⟩
  have hne : a ≠ n := by omega
  show q'.heap a = none
  rw [hheap, Function.update_of_ne hne]
  exact hb a (by omega)

omit [DecidableEq τ] in
/-- The test of a pop changes no node. -/
theorem Queue.popTest_heap {q : Queue τ χ} {t : τ} {next : Queue τ χ × Call χ}
    (h : q.popTest t = some next) : next.1.heap = q.heap := by
  rcases Queue.popTest_cases h with ⟨-, rfl⟩ | ⟨head, nodes, -, hunlink, rfl⟩
  · rfl
  · rcases Option.map_eq_some_iff.1 hunlink with ⟨node, -, rfl⟩
    rfl

/-- A section writes at most one cell. -/
theorem Call.heap_step {q : Queue τ χ} {c : Call χ} {t : τ} {addr : Nat} {wake : Option τ}
    {next : Queue τ χ × Call χ} (hstep : c.step t addr wake q = some next) :
    next.1.heap = q.heap ∨ ∃ n cell, next.1.heap = Function.update q.heap n cell := by
  cases c with
  | push data => cases data <;> cases hstep <;> exact Or.inl rfl
  | pushAlloc data =>
      simp only [Call.step] at hstep
      split at hstep
      · cases hstep
        exact Or.inr ⟨addr, _, rfl⟩
      · contradiction
  | pushLink n data =>
      rcases Option.bind_eq_some_iff.1 hstep with ⟨nodes, hlink, hrest⟩
      rcases Option.map_eq_some_iff.1 hrest with ⟨cond, -, rfl⟩
      unfold NodeList.link at hlink
      split at hlink
      · cases hlink
        exact Or.inl rfl
      · rename_i tail htail
        rcases Option.map_eq_some_iff.1 hlink with ⟨node, -, rfl⟩
        exact Or.inr ⟨tail, _, rfl⟩
  | popBlockLock => exact Or.inl (Queue.popTest_heap hstep)
  | popBlockWait =>
      rcases Option.bind_eq_some_iff.1 hstep with ⟨cond, -, hrest⟩
      split at hrest
      · cases hrest
        exact Or.inl rfl
      · exact Or.inl (Queue.popTest_heap (q := { q with cond := cond }) hrest)
  | popNoblockLock =>
      simp only [Call.step] at hstep
      split at hstep
      · cases hstep
        exact Or.inl rfl
      · rcases Option.map_eq_some_iff.1 hstep with ⟨nodes, hunlink, rfl⟩
        rcases Option.map_eq_some_iff.1 hunlink with ⟨node, -, rfl⟩
        exact Or.inl rfl
  | popFree head ticket =>
      rcases Option.map_eq_some_iff.1 hstep with ⟨node, -, rfl⟩
      exact Or.inr ⟨head, _, rfl⟩
  | popDone data =>
      rcases Option.map_eq_some_iff.1 hstep with ⟨q', hq', rfl⟩
      rcases Option.map_eq_some_iff.1 hq' with ⟨usedcond, -, rfl⟩
      exact Or.inl rfl
  | finish =>
      rcases Option.map_eq_some_iff.1 hstep with ⟨cond, -, rfl⟩
      exact Or.inl rfl
  | finishTest =>
      rcases Queue.finishLoop_cases t q with ⟨-, hloop⟩ | ⟨-, hloop⟩ <;>
        simp only [Call.step, hloop] at hstep <;> cases hstep <;> exact Or.inl rfl
  | finishWait =>
      rcases Option.map_eq_some_iff.1 hstep with ⟨usedcond, -, rfl⟩
      rcases Queue.finishLoop_cases t { q with usedcond := usedcond } with
        ⟨-, hloop⟩ | ⟨-, hloop⟩ <;> rw [hloop] <;> exact Or.inl rfl
  | popBlock | popNoblock | getsize =>
      cases hstep
      exact Or.inl rfl
  | retSize _ | retChunk _ | retVoid => cases hstep

/-- At every step finitely many nodes are allocated. -/
theorem Pool.Bounded.step (h : s.Bounded) {a : PoolAction τ χ} (hstep : s.step a = some s') :
    s'.Bounded := by
  cases a with
  | enter t op =>
      simp only [Pool.step] at hstep
      split at hstep
      · cases hstep
        exact h
      · contradiction
  | step t addr wake =>
      rcases Option.bind_eq_some_iff.1 hstep with ⟨c, hcall, hrest⟩
      rcases Option.map_eq_some_iff.1 hrest with ⟨next, hnext, rfl⟩
      rcases Call.heap_step hnext with hsame | ⟨n, cell, hheap⟩
      · rcases h with ⟨b, hb⟩
        exact ⟨b, fun a ha => by simpa only [hsame] using hb a ha⟩
      · exact Pool.Bounded.of_update h hheap
  | spurious t =>
      rcases Option.bind_eq_some_iff.1 hstep with ⟨c, hcall, hrest⟩
      rcases Option.map_eq_some_iff.1 hrest with ⟨q, hq, rfl⟩
      cases c <;> simp only [Queue.spurious, reduceCtorEq] at hq
      all_goals
        rcases Option.map_eq_some_iff.1 hq with ⟨cond, hcond, rfl⟩
        exact h
  | leave t =>
      rcases Option.bind_eq_some_iff.1 hstep with ⟨c, hcall, hrest⟩
      split at hrest
      · cases hrest
        exact h
      · contradiction

/-- The allocator never runs out of addresses. -/
theorem Pool.exists_free (h : (queueMachine τ χ).Reachable s) :
    ∃ a, s.queue.heap a = none := by
  have hbounded : s.Bounded := by
    refine Machine.Reach.invariant ?_ ?_ h
    · rintro s rfl
      exact ⟨0, fun _ _ => rfl⟩
    · intro s a s' _ hbounded _ hstep
      exact hbounded.step hstep
  rcases hbounded with ⟨b, hb⟩
  exact ⟨b, hb b (Nat.le_refl b)⟩

end Waits

end Iemnet
