import Iemnet.Queue.Calls

/-!
# What went through the queue

The sections of a run say which chunks were enqueued and which tickets were drawn, and by
whom.  These sequences are read off the actions and the program points of the threads;
{lit}`queue_refines_fifo` compares them with the linked list and with what the callers of
{lit}`queue_push` and of the pops asked for and got.

Main results:

- Theorem {lit}`Call.linking_step`: a section changes what is enqueued just by linking the
  chunk of its own call.
- Theorem {lit}`Call.ticket_step`: a pop returns with the ticket it has drawn.
- Theorem {lit}`queue_refines_fifo`: in every reachable state the nodes are the chunks
  enqueued and not yet dequeued, in order, whatever the threads have done.
-/

namespace Iemnet

open Foundations
open Foundations.LinkedList

variable {τ χ : Type}

/-! ## What an action does -/

/-- The chunk that the next section of a call links. -/
def Call.linking : Call χ → Option χ
  | .pushLink _ data => some data
  | _ => none

/-- The ticket of a call whose last section has detached the head. -/
def Call.drawn : Call χ → Option Nat
  | .popFree _ ticket => some ticket
  | _ => none

/-- The chunk that a pop returns with its next section, and its ticket. -/
def Call.returning : Call χ → Option (Nat × χ)
  | .popDone data => data
  | _ => none

/-- A thread calls {lit}`queue_push` with a chunk. -/
def Pool.submits (_ : Pool τ χ) : PoolAction τ χ → List (τ × χ)
  | .enter t (.push (some data)) => [(t, data)]
  | _ => []

/-- A thread links the node of its chunk. -/
def Pool.enqueues (s : Pool τ χ) : PoolAction τ χ → List (τ × χ)
  | .step t _ _ => ((s.call t).bind Call.linking).toList.map fun data => (t, data)
  | _ => []

/-- A pop returns a chunk. -/
def Pool.returns (s : Pool τ χ) : PoolAction τ χ → List (τ × (Nat × χ))
  | .step t _ _ => ((s.call t).bind Call.returning).toList.map fun kd => (t, kd)
  | _ => []

/-- What concerns one thread. -/
def ofThread [DecidableEq τ] {β : Type} (t : τ) (p : τ × β) : Option β :=
  if p.1 = t then some p.2 else none

/-- The chunk that a thread is about to enqueue. -/
def Pool.pendingOf (s : Pool τ χ) (t : τ) : List χ :=
  ((s.call t).bind Call.pending).toList

/-- The ticket that a thread has drawn and not returned. -/
def Pool.heldBy (s : Pool τ χ) (t : τ) : List Nat :=
  ((s.call t).bind Call.ticket).toList

section Runs

variable [DecidableEq τ] [Payload χ]

/-- A thread detaches the head of the list. -/
def Pool.dequeues (s : Pool τ χ) : PoolAction τ χ → List (τ × Nat)
  | .step t addr wake =>
      (((s.step (.step t addr wake)).bind fun s' => s'.call t).bind Call.drawn).toList.map
        fun k => (t, k)
  | _ => []

/-- What happens along a run of a new queue. -/
def Pool.along {β : Type} (f : Pool τ χ → PoolAction τ χ → List β)
    (as : List (PoolAction τ χ)) : List β :=
  (queueMachine τ χ).yields f (Pool.create τ χ) as

/-! ## One section -/

variable {q : Queue τ χ} {c : Call χ} {t : τ} {addr : Nat} {wake : Option τ}
variable {next : Queue τ χ × Call χ} {nodes : List Nat}

/-- A section that links enqueues the chunk of its call; no other section enqueues, and a
call that has not linked yet still carries its chunk. -/
theorem Call.linking_step (hok : c.Ok q.toNodeList nodes)
    (hstep : c.step t addr wake q = some next) :
    next.1.pushed = q.pushed ++ c.linking.toList ∧
      c.pending.toList = c.linking.toList ++ next.2.pending.toList := by
  have heffect := Call.effect hok hstep
  cases c with
  | push data => cases data <;> cases hstep <;> exact ⟨(List.append_nil _).symm, rfl⟩
  | pushAlloc data =>
      simp only [Call.step] at hstep
      split at hstep
      · cases hstep
        exact ⟨(List.append_nil _).symm, rfl⟩
      · contradiction
  | pushLink n data =>
      cases heffect with
      | quiet hpushed hpopped hpending htaken =>
          rcases Option.bind_eq_some_iff.1 hstep with ⟨nodes, -, hrest⟩
          rcases Option.map_eq_some_iff.1 hrest with ⟨cond, -, rfl⟩
          cases hpending
      | link d hpushed hpopped hpending hpending' htaken =>
          cases hpending
          exact ⟨hpushed, by rw [hpending']; rfl⟩
      | detach hpushed hpopped hpending htaken htaken' =>
          rcases Option.bind_eq_some_iff.1 hstep with ⟨nodes, -, hrest⟩
          rcases Option.map_eq_some_iff.1 hrest with ⟨cond, -, rfl⟩
          cases hpending
  | _ =>
      cases heffect with
      | quiet hpushed hpopped hpending htaken =>
          exact ⟨by rw [hpushed]; exact (List.append_nil _).symm, by rw [hpending]; rfl⟩
      | link d hpushed hpopped hpending hpending' htaken => cases hpending
      | detach hpushed hpopped hpending htaken htaken' =>
          exact ⟨by rw [hpushed]; exact (List.append_nil _).symm, by rw [hpending]; rfl⟩

omit [DecidableEq τ] in
/-- What the detaching section of a pop leads to. -/
theorem Queue.popTest_ticket (hstep : q.popTest t = some next) :
    List.range next.1.popped = List.range q.popped ++ next.2.drawn.toList ∧
      next.1.returned = q.returned ∧ next.2.ticket = next.2.drawn := by
  rcases Queue.popTest_cases hstep with ⟨-, rfl⟩ | ⟨head, nodes, -, hunlink, rfl⟩
  · exact ⟨(List.append_nil _).symm, rfl, rfl⟩
  · rcases Option.map_eq_some_iff.1 hunlink with ⟨node, -, rfl⟩
    exact ⟨List.range_succ, rfl, rfl⟩

/-- Tickets are drawn one after the other, and a pop returns the chunk of the ticket it has
drawn. -/
theorem Call.ticket_step (hok : c.Ok q.toNodeList nodes)
    (hstep : c.step t addr wake q = some next) :
    List.range next.1.popped = List.range q.popped ++ next.2.drawn.toList ∧
      next.1.returned = q.returned ++ c.returning.toList ∧
      c.ticket.toList ++ next.2.drawn.toList =
        c.returning.toList.map Prod.fst ++ next.2.ticket.toList := by
  -- a section of a call that draws, holds and returns nothing
  have hquiet : ∀ {q' : Queue τ χ} {c' : Call χ}, q'.popped = q.popped →
      q'.returned = q.returned → c.ticket = none → c.returning = none → c'.drawn = none →
      c'.ticket = none →
      List.range q'.popped = List.range q.popped ++ c'.drawn.toList ∧
        q'.returned = q.returned ++ c.returning.toList ∧
        c.ticket.toList ++ c'.drawn.toList =
          c.returning.toList.map Prod.fst ++ c'.ticket.toList := by
    intro q' c' hpopped hreturned hticket hreturning hdrawn hticket'
    rw [hpopped, hreturned, hticket, hreturning, hdrawn, hticket']
    exact ⟨(List.append_nil _).symm, (List.append_nil _).symm, rfl⟩
  cases c with
  | push data => cases data <;> cases hstep <;> exact hquiet rfl rfl rfl rfl rfl rfl
  | pushAlloc data =>
      simp only [Call.step] at hstep
      split at hstep
      · cases hstep
        exact hquiet rfl rfl rfl rfl rfl rfl
      · contradiction
  | pushLink n data =>
      rcases Option.bind_eq_some_iff.1 hstep with ⟨nodes', hlink, hrest⟩
      rcases Option.map_eq_some_iff.1 hrest with ⟨cond, -, rfl⟩
      unfold NodeList.link at hlink
      split at hlink
      · cases hlink
        exact hquiet rfl rfl rfl rfl rfl rfl
      · rcases Option.map_eq_some_iff.1 hlink with ⟨node, -, rfl⟩
        exact hquiet rfl rfl rfl rfl rfl rfl
  | popBlockLock =>
      rcases Queue.popTest_ticket hstep with ⟨hpopped, hreturned, hticket⟩
      exact ⟨hpopped, by rw [hreturned]; exact (List.append_nil _).symm, by rw [hticket]; rfl⟩
  | popBlockWait =>
      rcases Option.bind_eq_some_iff.1 hstep with ⟨cond, -, hrest⟩
      split at hrest
      · cases hrest
        exact hquiet rfl rfl rfl rfl rfl rfl
      · rcases Queue.popTest_ticket hrest with ⟨hpopped, hreturned, hticket⟩
        exact ⟨hpopped, by rw [hreturned]; exact (List.append_nil _).symm, by rw [hticket]; rfl⟩
  | popNoblockLock =>
      simp only [Call.step] at hstep
      split at hstep
      · cases hstep
        exact hquiet rfl rfl rfl rfl rfl rfl
      · rcases Option.map_eq_some_iff.1 hstep with ⟨nodes', hunlink, rfl⟩
        rcases Option.map_eq_some_iff.1 hunlink with ⟨node, -, rfl⟩
        exact ⟨List.range_succ, (List.append_nil _).symm, rfl⟩
  | popFree head ticket =>
      rcases hok with ⟨-, -, nx, d, hcell, -⟩
      simp only [Call.step, hcell, Option.map_some, Option.some.injEq] at hstep
      subst hstep
      exact ⟨(List.append_nil _).symm, (List.append_nil _).symm, rfl⟩
  | popDone data =>
      rcases Option.map_eq_some_iff.1 hstep with ⟨q', hq', rfl⟩
      rcases Option.map_eq_some_iff.1 hq' with ⟨usedcond, -, rfl⟩
      cases data <;> exact ⟨(List.append_nil _).symm, rfl, rfl⟩
  | finish =>
      rcases Option.map_eq_some_iff.1 hstep with ⟨cond, -, rfl⟩
      exact hquiet rfl rfl rfl rfl rfl rfl
  | finishTest =>
      rcases Queue.finishLoop_cases t q with ⟨-, hloop⟩ | ⟨-, hloop⟩
      all_goals
        simp only [Call.step, hloop] at hstep
        cases hstep
        exact hquiet rfl rfl rfl rfl rfl rfl
  | finishWait =>
      rcases Option.map_eq_some_iff.1 hstep with ⟨usedcond, -, rfl⟩
      rcases Queue.finishLoop_cases t { q with usedcond := usedcond } with
        ⟨-, hloop⟩ | ⟨-, hloop⟩
      all_goals
        rw [hloop]
        exact hquiet rfl rfl rfl rfl rfl rfl
  | popBlock | popNoblock | getsize =>
      cases hstep
      exact hquiet rfl rfl rfl rfl rfl rfl
  | retSize _ | retChunk _ | retVoid => cases hstep

/-- A pop that has a chunk to return has just read it with its ticket. -/
theorem Call.returned_step {kd : Nat × χ} (hstep : c.step t addr wake q = some next)
    (hnext : next.2 = .retChunk (some kd)) : c.returning = some kd := by
  cases c with
  | popDone data =>
      rcases Option.map_eq_some_iff.1 hstep with ⟨q', -, rfl⟩
      cases hnext
      rfl
  | push data => cases data <;> cases hstep <;> cases hnext
  | pushAlloc data =>
      simp only [Call.step] at hstep
      split at hstep <;> cases hstep
      cases hnext
  | pushLink n data =>
      rcases Option.bind_eq_some_iff.1 hstep with ⟨nodes', -, hrest⟩
      rcases Option.map_eq_some_iff.1 hrest with ⟨cond, -, rfl⟩
      cases hnext
  | popBlockLock =>
      rcases Queue.popTest_cases hstep with ⟨-, rfl⟩ | ⟨_, _, -, -, rfl⟩ <;> cases hnext
  | popBlockWait =>
      rcases Option.bind_eq_some_iff.1 hstep with ⟨cond, -, hrest⟩
      split at hrest
      · cases hrest
        cases hnext
      · rcases Queue.popTest_cases hrest with ⟨-, rfl⟩ | ⟨_, _, -, -, rfl⟩ <;> cases hnext
  | popNoblockLock =>
      simp only [Call.step] at hstep
      split at hstep
      · cases hstep
        cases hnext
      · rcases Option.map_eq_some_iff.1 hstep with ⟨_, -, rfl⟩
        cases hnext
  | finishTest =>
      have heq := Option.some.inj hstep
      rcases Queue.finishLoop_cases t q with ⟨-, hloop⟩ | ⟨-, hloop⟩ <;>
        rw [hloop] at heq <;> subst heq <;> cases hnext
  | finishWait =>
      rcases Option.map_eq_some_iff.1 hstep with ⟨usedcond, -, rfl⟩
      rcases Queue.finishLoop_cases t { q with usedcond := usedcond } with
        ⟨-, hloop⟩ | ⟨-, hloop⟩ <;> rw [hloop] at hnext <;> cases hnext
  | popFree head ticket | finish =>
      rcases Option.map_eq_some_iff.1 hstep with ⟨_, -, rfl⟩
      cases hnext
  | popBlock | popNoblock | getsize =>
      cases hstep
      cases hnext
  | retSize size | retChunk data | retVoid => cases hstep

/-! ## One step of the system -/

variable {s s' : Pool τ χ} {a : PoolAction τ χ}

/-- The chunks that are enqueued, and the one that each thread still carries. -/
theorem Pool.enqueues_step (h : ∃ l, s.Inv l) (hstep : s.step a = some s') :
    s'.queue.pushed = s.queue.pushed ++ (s.enqueues a).map Prod.snd ∧
      ∀ u, s.pendingOf u ++ (s.submits a).filterMap (ofThread u) =
        (s.enqueues a).filterMap (ofThread u) ++ s'.pendingOf u := by
  rcases h with ⟨l, hl⟩
  cases Pool.move hstep with
  | enter t op hcall =>
      refine ⟨(List.append_nil _).symm, fun u => ?_⟩
      by_cases hut : u = t
      · subst hut
        cases op with
        | push data => cases data <;> simp [pendingOf, submits, enqueues, entered, hcall,
            QueueOp.entry, Call.pending, ofThread]
        | popBlock | popNoblock | getsize | finish =>
            simp [pendingOf, submits, enqueues, entered, hcall, QueueOp.entry, Call.pending]
      · have hsame : (s.entered t op).pendingOf u = s.pendingOf u := by
          simp [pendingOf, entered, hut]
        rw [hsame]
        cases op with
        | push data =>
            cases data <;> simp [submits, enqueues, ofThread, Ne.symm hut]
        | popBlock | popNoblock | getsize | finish => simp [submits, enqueues]
  | execute t addr wake c next hcall hnext =>
      rcases Call.linking_step (hl.ok t c hcall) hnext with ⟨hpushed, hpending⟩
      have henqueues : s.enqueues (.step t addr wake) =
          c.linking.toList.map fun data => (t, data) := by
        rw [enqueues, hcall, Option.bind_some]
      refine ⟨?_, fun u => ?_⟩
      · rw [henqueues, List.map_map]
        exact hpushed.trans (by simp)
      · rw [henqueues]
        by_cases hut : u = t
        · subst hut
          have hafter : (s.moved u next).pendingOf u = next.2.pending.toList := by
            simp [pendingOf, moved]
          rw [hafter, pendingOf, hcall, Option.bind_some, hpending]
          cases c.linking <;> simp [submits, ofThread]
        · have hsame : (s.moved t next).pendingOf u = s.pendingOf u := by
            simp [pendingOf, moved, hut]
          rw [hsame]
          cases c.linking <;> simp [submits, ofThread, Ne.symm hut]
  | spurious t q hnodes =>
      refine ⟨?_, fun u => ?_⟩
      · rw [hnodes]
        exact (List.append_nil _).symm
      · exact List.append_nil _
  | leave t c hcall hfinished =>
      refine ⟨(List.append_nil _).symm, fun u => ?_⟩
      have hsame : (s.left t).pendingOf u = s.pendingOf u := by
        by_cases hut : u = t
        · subst hut
          cases c <;> simp_all [pendingOf, left, Call.pending, Call.finished]
        · simp [pendingOf, left, hut]
      rw [hsame]
      exact List.append_nil _

/-- The tickets that are drawn, and the one that each thread holds. -/
theorem Pool.dequeues_step (h : ∃ l, s.Inv l) (hstep : s.step a = some s') :
    List.range s'.queue.popped = List.range s.queue.popped ++ (s.dequeues a).map Prod.snd ∧
      s'.queue.returned = s.queue.returned ++ (s.returns a).map Prod.snd ∧
      ∀ u, s.heldBy u ++ (s.dequeues a).filterMap (ofThread u) =
        ((s.returns a).filterMap (ofThread u)).map Prod.fst ++ s'.heldBy u := by
  rcases h with ⟨l, hl⟩
  have hmove := Pool.move hstep
  cases hmove with
  | enter t op hcall =>
      refine ⟨(List.append_nil _).symm, (List.append_nil _).symm, fun u => ?_⟩
      have hsame : (s.entered t op).heldBy u = s.heldBy u := by
        by_cases hut : u = t
        · subst hut
          cases op <;> simp [heldBy, entered, hcall, QueueOp.entry, Call.ticket]
        · simp [heldBy, entered, hut]
      rw [hsame]
      exact List.append_nil _
  | execute t addr wake c next hcall hnext =>
      rcases Call.ticket_step (hl.ok t c hcall) hnext with ⟨hpopped, hreturned, hticket⟩
      have hdequeues : s.dequeues (.step t addr wake) =
          next.2.drawn.toList.map fun k => (t, k) := by
        rw [dequeues, hstep, Option.bind_some]
        simp [moved]
      have hreturns : s.returns (.step t addr wake) =
          c.returning.toList.map fun kd => (t, kd) := by
        rw [returns, hcall, Option.bind_some]
      rw [hdequeues, hreturns]
      refine ⟨hpopped.trans (by simp), hreturned.trans (by simp), fun u => ?_⟩
      by_cases hut : u = t
      · subst hut
        have hafter : (s.moved u next).heldBy u = next.2.ticket.toList := by
          simp [heldBy, moved]
        have hbefore : s.heldBy u = c.ticket.toList := by
          rw [heldBy, hcall, Option.bind_some]
        rw [hafter, hbefore]
        simpa [List.filterMap_map, Function.comp_def, ofThread] using hticket
      · have hsame : (s.moved t next).heldBy u = s.heldBy u := by
          simp [heldBy, moved, hut]
        rw [hsame]
        simp [List.filterMap_map, Function.comp_def, ofThread, Ne.symm hut]
  | spurious t q hnodes =>
      refine ⟨?_, ?_, fun u => ?_⟩
      · rw [hnodes]
        exact (List.append_nil _).symm
      · rw [hnodes]
        exact (List.append_nil _).symm
      · exact List.append_nil _
  | leave t c hcall hfinished =>
      refine ⟨(List.append_nil _).symm, (List.append_nil _).symm, fun u => ?_⟩
      have hsame : (s.left t).heldBy u = s.heldBy u := by
        by_cases hut : u = t
        · subst hut
          cases c <;> simp_all [heldBy, left, Call.ticket, Call.finished]
        · simp [heldBy, left, hut]
      rw [hsame]
      exact List.append_nil _

/-- A pop that is about to return has returned its chunk in this step, or was so before. -/
theorem Pool.returns_step (hstep : s.step a = some s') {u : τ} {kd : Nat × χ}
    (hcall : s'.call u = some (.retChunk (some kd))) :
    s.call u = some (.retChunk (some kd)) ∨ (u, kd) ∈ s.returns a := by
  cases Pool.move hstep with
  | enter t op =>
      rcases update_eq_some_cases hcall with ⟨-, hentry⟩ | ⟨-, hsame⟩
      · cases op <;> cases hentry
      · exact Or.inl hsame
  | execute t addr wake c next hbefore hnext =>
      rcases update_eq_some_cases hcall with ⟨rfl, hafter⟩ | ⟨-, hsame⟩
      · refine Or.inr ?_
        rw [returns, hbefore, Option.bind_some,
          Call.returned_step hnext (Option.some.inj hafter)]
        exact List.mem_singleton_self _
      · exact Or.inl hsame
  | spurious t q => exact Or.inl hcall
  | leave t c =>
      rcases update_eq_some_cases hcall with ⟨-, hnone⟩ | ⟨-, hsame⟩
      · cases hnone
      · exact Or.inl hsame

/-- A pop that is about to return has returned its chunk during the run, or was so before. -/
theorem Pool.returns_run {as : List (PoolAction τ χ)}
    (hrun : (queueMachine τ χ).run s as = some s') {u : τ} {kd : Nat × χ}
    (hcall : s'.call u = some (.retChunk (some kd))) :
    s.call u = some (.retChunk (some kd)) ∨
      (u, kd) ∈ (queueMachine τ χ).yields Pool.returns s as := by
  induction as generalizing s with
  | nil =>
      rw [Machine.run_nil, Option.some.injEq] at hrun
      exact Or.inl (hrun ▸ hcall)
  | cons a as ih =>
      rw [Machine.run_cons, Option.bind_eq_some_iff] at hrun
      rcases hrun with ⟨t, ht, hrest⟩
      rw [Machine.yields_cons ht, List.mem_append]
      rcases ih hrest with hnow | hlater
      · exact (Pool.returns_step ht hnow).imp_right Or.inl
      · exact Or.inr (Or.inr hlater)

/-- A history to which every step adds what its action does is what was done along the
run. -/
theorem Pool.history_run {β γ : Type} {l : Pool τ χ → List γ} (p : β → γ)
    {f : Pool τ χ → PoolAction τ χ → List β} {as : List (PoolAction τ χ)}
    (hstep : ∀ s a s', (∃ l, s.Inv l) → s.step a = some s' → l s' = l s ++ (f s a).map p)
    (hempty : l (Pool.create τ χ) = [])
    (hrun : (queueMachine τ χ).run (Pool.create τ χ) as = some s) :
    l s = (Pool.along f as).map p := by
  have hall := Machine.run_yields (M := queueMachine τ χ) (f := fun s a => (f s a).map p)
    (fun _ _ _ hs hstep => Exists.elim hs fun _ hl => hl.step hstep) hstep
    ⟨[], Pool.inv_create⟩ hrun
  rw [hall, hempty, List.nil_append, Pool.along, Machine.map_yields]

/-- If at every step a thread sends off or keeps what it has got, then so it does along the
run. -/
theorem Pool.balance_run {β γ δ : Type} {k : Pool τ χ → List δ} (p : β → Option δ)
    (p' : γ → Option δ) {f : Pool τ χ → PoolAction τ χ → List β}
    {g : Pool τ χ → PoolAction τ χ → List γ} {as : List (PoolAction τ χ)}
    (hstep : ∀ s a s', (∃ l, s.Inv l) → s.step a = some s' →
      k s ++ (f s a).filterMap p = (g s a).filterMap p' ++ k s')
    (hempty : k (Pool.create τ χ) = [])
    (hrun : (queueMachine τ χ).run (Pool.create τ χ) as = some s) :
    (Pool.along f as).filterMap p = (Pool.along g as).filterMap p' ++ k s := by
  have hall := Machine.run_balance (M := queueMachine τ χ)
    (f := fun s a => (f s a).filterMap p) (g := fun s a => (g s a).filterMap p')
    (fun _ _ _ hs hstep => Exists.elim hs fun _ hl => hl.step hstep) hstep
    ⟨[], Pool.inv_create⟩ hrun
  rw [hempty, List.nil_append] at hall
  rw [Pool.along, Pool.along, Machine.yields_filterMap, Machine.yields_filterMap]
  exact hall

/-- In every state reached by any threads calling {lit}`queue_push`,
{lit}`queue_pop_block`, {lit}`queue_pop_noblock`, {lit}`queue_getsize` and
{lit}`queue_finish` in any order: the nodes form a finite list without repetition that
holds exactly the chunks enqueued and not yet dequeued, oldest first, and the tail is its
last node; a thread has enqueued exactly the chunks it has called {lit}`queue_push` with,
in their order, but for the one it is about to enqueue; the tickets of the dequeuing
sections are 0, 1, 2 and so on, a thread has returned exactly those it has drawn, but for
the one it holds, no ticket is returned twice, and with ticket {lit}`k` the {lit}`k`-th
enqueued chunk; and whatever size a section reports is the total of the list at that
moment, as a 32-bit number. -/
theorem queue_refines_fifo {as : List (PoolAction τ χ)} {s : Pool τ χ}
    (h : (queueMachine τ χ).run (Pool.create τ χ) as = some s) :
    ∃ l : List (Nat × χ),
      s.queue.Shape l ∧ (l.map Prod.fst).Nodup ∧
      (s.queue.tail = none ↔ s.queue.head = none) ∧
      l.map Prod.snd = ((Pool.along Pool.enqueues as).map Prod.snd).drop
        (Pool.along Pool.dequeues as).length ∧
      (∀ t, (Pool.along Pool.submits as).filterMap (ofThread t) =
        (Pool.along Pool.enqueues as).filterMap (ofThread t) ++ s.pendingOf t) ∧
      (Pool.along Pool.dequeues as).map Prod.snd =
        List.range (Pool.along Pool.dequeues as).length ∧
      (∀ t, (Pool.along Pool.dequeues as).filterMap (ofThread t) =
        ((Pool.along Pool.returns as).filterMap (ofThread t)).map Prod.fst ++ s.heldBy t) ∧
      ((Pool.along Pool.returns as).map fun r => r.2.1).Nodup ∧
      (∀ r ∈ Pool.along Pool.returns as,
        ((Pool.along Pool.enqueues as).map Prod.snd)[r.2.1]? = some r.2.2) ∧
      (∀ t kd, s.call t = some (.retChunk (some kd)) → (t, kd) ∈ Pool.along Pool.returns as) ∧
      ∀ t addr wake s' v, s.step (.step t addr wake) = some s' →
        s'.call t = some (.retSize v) →
        ∃ l', s'.queue.Shape l' ∧ v = BitVec.ofNat 32 (nodeBytes l') := by
  have hpushed : s.queue.pushed = (Pool.along Pool.enqueues as).map Prod.snd :=
    Pool.history_run (l := fun s => s.queue.pushed) Prod.snd
      (fun s a s' hs hstep => (Pool.enqueues_step hs hstep).1) rfl h
  have hpopped : List.range s.queue.popped = (Pool.along Pool.dequeues as).map Prod.snd :=
    Pool.history_run (l := fun s => List.range s.queue.popped) Prod.snd
      (fun s a s' hs hstep => (Pool.dequeues_step hs hstep).1) rfl h
  have hreturned : s.queue.returned = (Pool.along Pool.returns as).map Prod.snd :=
    Pool.history_run (l := fun s => s.queue.returned) Prod.snd
      (fun s a s' hs hstep => (Pool.dequeues_step hs hstep).2.1) rfl h
  have hcount : (Pool.along Pool.dequeues as).length = s.queue.popped := by
    have hlength := congrArg List.length hpopped
    rw [List.length_range, List.length_map] at hlength
    exact hlength.symm
  rcases Pool.exists_inv (Machine.reach_of_run rfl h) with ⟨l, hl⟩
  refine ⟨l, hl.shape, hl.shape.nodup, ?_, ?_, fun t => ?_, ?_, fun t => ?_, ?_, ?_, ?_, ?_⟩
  · rw [hl.shape.tail_eq_none_iff, hl.shape.head_eq_none_iff]
  · rw [← hpushed, hcount, hl.shape.content]
  · exact Pool.balance_run (k := fun s => s.pendingOf t) (ofThread t) (ofThread t)
      (fun s a s' hs hstep => (Pool.enqueues_step hs hstep).2 t) rfl h
  · rw [hcount, hpopped]
  · rw [List.map_filterMap]
    refine Pool.balance_run (k := fun s => s.heldBy t) (ofThread t)
      (fun r => (ofThread t r).map Prod.fst) (fun s a s' hs hstep => ?_) rfl h
    rw [← List.map_filterMap]
    exact (Pool.dequeues_step hs hstep).2.2 t
  · have hnodup := hl.returned_nodup
    rw [hreturned, List.map_map] at hnodup
    exact hnodup
  · intro r hr
    have hmem : r.2 ∈ s.queue.returned := hreturned ▸ List.mem_map_of_mem hr
    rw [← hpushed]
    exact (hl.returned_data r.2 hmem).2
  · intro t kd hcall
    rcases Pool.returns_run h hcall with hnone | hmem
    · cases hnone
    · exact hmem
  · intro t addr wake s' v hstep hret
    rcases hl.step hstep with ⟨l', hl'⟩
    refine ⟨l', hl'.shape, ?_⟩
    cases Pool.move hstep with
    | execute _ _ _ c next hcall hnext =>
        have hnextCall : next.2 = .retSize v := by simpa [Pool.moved] using hret
        have hv : v = next.1.size := callStep_retSize (by rw [hnext, ← hnextCall])
        rw [hv]
        exact hl'.shape.size

/-- Two threads: a push, and a pop that waits until the node is linked. -/
def pushDuringPop : List (PoolAction Bool Chunk) :=
  [.enter true (.push (some ⟨[1#8, 2#8], 0, 0#16, 2⟩)), .step true 0 none,
    .enter false .popBlock, .step false 0 none, .step true 7 none, .step false 0 none,
    .step true 0 (some false), .step false 0 none, .step false 0 none, .step false 0 none]

/-- A chunk that is pushed while a pop is waiting comes back from that pop. -/
theorem queue_refines_fifo_run :
    ∃ s, (queueMachine Bool Chunk).run (Pool.create Bool Chunk) pushDuringPop = some s ∧
      Pool.along Pool.submits pushDuringPop = [(true, ⟨[1#8, 2#8], 0, 0#16, 2⟩)] ∧
      Pool.along Pool.returns pushDuringPop = [(false, 0, ⟨[1#8, 2#8], 0, 0#16, 2⟩)] ∧
      ∃ l, s.queue.Shape l ∧ l.map Prod.snd = [] ∧
        ∀ r ∈ Pool.along Pool.returns pushDuringPop,
          ((Pool.along Pool.enqueues pushDuringPop).map Prod.snd)[r.2.1]? = some r.2.2 := by
  have hrun : (queueMachine Bool Chunk).run (Pool.create Bool Chunk) pushDuringPop =
      some _ := rfl
  rcases queue_refines_fifo hrun with ⟨l, hshape, -, -, hcontent, -, -, -, -, hdata, -⟩
  exact ⟨_, hrun, rfl, rfl, l, hshape, hcontent, hdata⟩

end Runs

end Iemnet
