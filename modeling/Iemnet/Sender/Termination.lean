import Iemnet.Sender.Progress

/-!
# Destroying a sender comes to an end

{lit}`iemnet__sender_destroy` keeps taking and giving back the sender's mutex until the send
thread has left its loop, and the send thread needs that mutex to leave it.  So the main
thread has to be scheduled, and the send thread has to get a turn among those in which the
mutex is free.

Main results:

- Theorem {lit}`sealed`: once {lit}`keepsending` is cleared, the queue is finished or about
  to be.
- Theorems {lit}`variant_exit`, {lit}`variant_yield`: the send thread on its way out, and the
  main thread on its way to a state in which the send thread can go on.
- Theorem {lit}`variant_drain`: the main thread alone.
- Theorem {lit}`destroy_returns`: every fair execution without a late wait.
-/

namespace Iemnet

open Foundations

namespace Sender

variable {s s' : State} {ok : State → Action → Prop}

/-! ## Clearing {lit}`keepsending` -/

/-- The main thread is at the beginning of {lit}`iemnet__sender_destroy`. -/
def State.AtDestroy (s : State) : Prop :=
  s.main = .destroyLock

/-- {lit}`keepsending` is cleared. -/
def State.Cleared (s : State) : Prop :=
  s.main.before = false

/-- It stays cleared. -/
theorem Transition.cleared {a : Action} (htr : Transition s a s') (h : s.Cleared) :
    s'.Cleared := by
  by_contra hbefore
  rw [State.Cleared, Bool.not_eq_false] at hbefore
  rw [State.Cleared, htr.before hbefore] at h
  cases h

/-- The main thread clears the flag with its next step. -/
theorem variant_clear :
    senderMachine.Variant ok (Steps .main) State.AtDestroy State.Cleared fun _ => 0 := by
  intro s a s' hreach hpc hnot _ hstep
  have hc := control hreach
  have hkeep : s.keepsending = true := by
    rw [hc.keep, hpc]
    rfl
  have hnone : s.pool.call .main = none := by
    have hmain := hc.main
    rw [hpc] at hmain
    exact hmain.eq_none
  have hsame : ∀ {m : MainPc}, s.main = m → m ≠ .destroyLock → False := by
    intro m hm hne
    rw [hpc] at hm
    exact hne hm.symm
  have hempty : ∀ c, s.pool.call .main ≠ some c := by
    intro c hcall
    rw [hnone] at hcall
    cases hcall
  cases State.transition hstep with
  | destroyWait | destroyGone => exact Or.inl rfl
  | destroyRefused _ _ hk =>
      rw [hk] at hkeep
      cases hkeep
  | callSend _ hm | callDestroy hm | sendRefused _ hm | sendNothing _ hm | sendCopy _ _ hm
  | pushReturn _ _ hm | finishReturn hm | relockWait hm | relockGone hm | finish2Return hm
  | join hm | finish3Return hm | drainEmpty hm | drainChunk _ _ hm | drainRelease _ hm =>
      exact (hsame hm (by simp)).elim
  | queueSection t ch c next hcall =>
      cases t with
      | main => exact absurd hcall (hempty c)
      | send => exact Or.inr ⟨hpc, le_refl _, fun ha => (nomatch ha)⟩
  | spurious => exact Or.inr ⟨hpc, le_refl _, fun ha => ha.elim⟩
  | _ => exact Or.inr ⟨hpc, le_refl _, fun ha => (nomatch ha)⟩

/-- The main thread can clear the flag. -/
theorem ready_clear (hreach : senderMachine.Reach ok s) (hpc : s.AtDestroy) : s.Ready .main := by
  have hc := control hreach
  have hnone : s.pool.call .main = none := by
    have hmain := hc.main
    rw [hpc] at hmain
    exact hmain.eq_none
  have hmtx : s.mtx = none := by
    rw [hc.mtx, hpc]
    rfl
  refine ⟨⟨true, 0, none, true⟩, ?_⟩
  simp only [State.advance, hnone, State.mainLocal, show s.main = .destroyLock from hpc, hmtx,
    Option.isSome_none, Bool.false_eq_true, if_false]
  split
  · unfold State.destroyLoop
    split <;> exact State.isSome_enter hnone
  · rfl

/-! ## Finishing the queue -/

/-- Who enters an operation is at its beginning. -/
@[simp]
theorem call_entered_self (p : Pool Tid Copy) (t : Tid) (op : QueueOp Copy) :
    (p.entered t op).call t = some op.entry := by
  simp [Pool.entered]


/-- The queue is finished, or the main thread is about to finish it. -/
def Sealed (s : State) : Prop :=
  s.pool.queue.done = true ∨ s.pool.call .main = some .finish

/-- A finished queue stays finished. -/
theorem done_of_section {τ χ : Type} [DecidableEq τ] [Payload χ] {q : Queue τ χ} {c : Call χ}
    {t : τ} {addr : Nat} {wake : Option τ} {next : Queue τ χ × Call χ}
    (hstep : c.step t addr wake q = some next) (hdone : q.done = true) : next.1.done = true := by
  cases Call.flow hstep with
  | finish _ _ hset => exact hset
  | quiet _ hsame | link _ _ hsame | detach _ hsame | wait _ _ _ hsame | serve _ _ hsame
  | rewait _ _ _ _ _ hsame | giveUp _ _ hsame => exact hsame.trans hdone

/-- A finished queue stays finished. -/
theorem Transition.done {a : Action} (htr : Transition s a s')
    (hdone : s.pool.queue.done = true) : s'.pool.queue.done = true := by
  cases htr with
  | queueSection t ch c next hcall hstep => exact done_of_section hstep hdone
  | spurious t c q hcall hwake =>
      cases c <;> simp only [Queue.spurious, reduceCtorEq] at hwake
      all_goals
        rcases Option.map_eq_some_iff.1 hwake with ⟨cond, -, rfl⟩
        exact hdone
  | _ => exact hdone

/-- The first step of a finish closes the queue. -/
theorem step_finish {q : Queue Tid Copy} {t : Tid} {addr : Nat} {wake : Option Tid}
    {next : Queue Tid Copy × Call Copy} (hstep : Call.step t addr wake q .finish = some next) :
    next.1.done = true ∧ next.2 = .finishTest := by
  rcases Option.map_eq_some_iff.1 hstep with ⟨cond, -, rfl⟩
  exact ⟨rfl, rfl⟩

/-- Every transition behind the clearing of the flag keeps the queue sealed. -/
theorem Sealed.transition (h : s.Cleared → Sealed s) (hc : Control s) {a : Action}
    (htr : Transition s a s') (hcleared : s'.Cleared) : Sealed s' := by
  by_cases hbefore : s.Cleared
  · rcases h hbefore with hdone | hcall
    · exact Or.inl (htr.done hdone)
    · rcases htr.main_section hc hcall rfl with ⟨ch, next, -, hstep, rfl⟩ | ⟨-, -, hsame⟩
      · exact Or.inl (step_finish hstep).1
      · exact Or.inr hsame
  · rw [State.Cleared, Bool.not_eq_false] at hbefore
    cases htr with
    | destroyWait | destroyGone => exact Or.inr (call_entered_self _ _ _)
    | destroyRefused _ _ hk =>
        rw [hc.keep, hbefore] at hk
        cases hk
    | callSend | callDestroy | sendRefused | sendNothing | sendCopy | pushReturn => cases hcleared
    | finishReturn hpc | relockWait hpc | relockGone hpc | finish2Return hpc | join hpc
    | finish3Return hpc | drainEmpty hpc | drainChunk _ _ hpc | drainRelease _ hpc =>
        rw [hpc] at hbefore
        cases hbefore
    | _ =>
        rw [State.Cleared] at hcleared
        rw [hcleared] at hbefore
        cases hbefore

/-- Behind the clearing of the flag the queue is sealed. -/
theorem sealed (h : senderMachine.Reach ok s) (hcleared : s.Cleared) : Sealed s := by
  have hinv : s.Cleared → Sealed s := by
    refine Machine.Reach.invariant (I := fun s : State => s.Cleared → Sealed s) ?_ ?_ h
    · rintro s rfl ⟨⟩
    · intro s a s' hreach hsealed _ hstep hcleared
      exact Sealed.transition hsealed (control hreach) (State.transition hstep) hcleared
  exact hinv hcleared

/-- The queue is finished and {lit}`keepsending` is cleared. -/
def State.Closed (s : State) : Prop :=
  s.Cleared ∧ s.pool.queue.done = true

/-- The main thread closes the queue with its next step. -/
theorem variant_close :
    senderMachine.Variant ok (Steps .main) State.Cleared State.Closed fun _ => 0 := by
  intro s a s' hreach hcleared hnot _ hstep
  have htr := State.transition hstep
  rcases sealed hreach hcleared with hdone | hcall
  · exact absurd ⟨hcleared, hdone⟩ hnot
  · rcases htr.main_section (control hreach) hcall rfl with
      ⟨ch, next, -, hsection, rfl⟩ | ⟨hother, -, -⟩
    · exact Or.inl ⟨hcleared, (step_finish hsection).1⟩
    · exact Or.inr ⟨htr.cleared hcleared, le_refl _, fun ha => absurd ha hother⟩

/-- The main thread can close the queue. -/
theorem ready_close (hreach : senderMachine.Reach ok s) (hcleared : s.Cleared)
    (hnot : ¬ s.Closed) : s.Ready .main := by
  have hpool := reachable_pool hreach
  rcases Pool.exists_inv hpool with ⟨l, hinv⟩
  rcases sealed hreach hcleared with hdone | hcall
  · exact absurd ⟨hcleared, hdone⟩ hnot
  · exact State.ready_of_section hinv (Pool.exists_free hpool) hcall rfl
      (fun h => (nomatch h)) (fun h => (nomatch h))

/-! ## The send thread on its way out -/

/-- The steps of the send thread, inside {lit}`queue_pop_block`, before it leaves its loop. -/
def popToExit : Call Copy → Nat
  | .popBlock => 10
  | .popBlockLock => 9
  | .popBlockWait => 8
  | .popFree _ _ => 7
  | .popDone _ => 6
  | .retChunk (some _) => 5
  | .retChunk none => 2
  | _ => 0

/-- The steps of the send thread before it leaves its loop. -/
def State.toExit (s : State) : Nat :=
  match s.thread with
  | .inPop => ((s.pool.call .send).map popToExit).getD 0
  | .got _ => 4
  | .sending _ => 3
  | .sent _ _ => 2
  | .loopTest => 1
  | .brokenLock => 1
  | .exited => 0

/-- A pop from a finished queue comes nearer to its end. -/
theorem popToExit_step {q : Queue Tid Copy} {c : Call Copy} {t : Tid} {addr : Nat}
    {wake : Option Tid} {next : Queue Tid Copy × Call Copy} (hcovers : QueueOp.popBlock.Covers c)
    (hdone : q.done = true) (hstep : c.step t addr wake q = some next) :
    popToExit next.2 < popToExit c := by
  cases c with
  | popBlock =>
      cases hstep
      exact Nat.lt_succ_self 9
  | popBlockLock =>
      rcases Queue.popTest_cases hstep with ⟨-, rfl⟩ | ⟨head, nodes, -, -, rfl⟩
      · exact Nat.lt_succ_self 8
      · show 7 < 9
        omega
  | popBlockWait =>
      rcases Option.bind_eq_some_iff.1 hstep with ⟨cond, -, hrest⟩
      rw [if_pos hdone] at hrest
      cases hrest
      show 6 < 8
      omega
  | popFree head ticket =>
      rcases Option.map_eq_some_iff.1 hstep with ⟨node, -, rfl⟩
      exact Nat.lt_succ_self 6
  | popDone data =>
      rcases Option.map_eq_some_iff.1 hstep with ⟨q', -, rfl⟩
      cases data with
      | none =>
          show 2 < 6
          omega
      | some d => exact Nat.lt_succ_self 5
  | retChunk data => cases hstep
  | _ => exact hcovers.elim

/-- The send thread has left its loop. -/
def State.Exited (s : State) : Prop :=
  s.thread = .exited

/-- The send thread comes closer to its end with every step. -/
theorem variant_exit :
    senderMachine.Variant ok (Steps .send) State.Closed State.Exited State.toExit := by
  intro s a s' hreach hclosed hnot _ hstep
  have hc := control hreach
  have htr := State.transition hstep
  have hlater : s'.Closed := ⟨htr.cleared hclosed.1, htr.done hclosed.2⟩
  have hkeep : s.keepsending = false := hc.keepsending_eq_false hclosed.1
  by_cases ha : Steps .send a
  · suffices hless : s'.Exited ∨ s'.toExit < s.toExit by
      exact hless.imp_right fun h => ⟨hlater, h.le, fun _ => h⟩
    cases htr with
    | queueSection t ch c next hcall hsection =>
        cases ha
        rcases hc.thread_inPop hcall with ⟨hpc, hcovers⟩
        have hless := popToExit_step hcovers hclosed.2 hsection
        right
        simpa [State.toExit, hpc, hcall, Pool.moved] using hless
    | loopEnter hpc hmtx hk =>
        rw [hk] at hkeep
        cases hkeep
    | loopExit | brokenExit => exact Or.inl rfl
    | popNothing hcall | popChunk k c hcall =>
        right
        simp [State.toExit, (hc.thread_inPop hcall).1, hcall, popToExit]
    | passChunk c hpc | sendReturns ok c hpc =>
        right
        simp [State.toExit, hpc]
    | release ok c hpc =>
        right
        cases ok <;> simp [State.toExit, hpc]
    | _ => cases ha
  · rcases htr.send_frame ha with ⟨hthread, -, -, hcall⟩
    refine Or.inr ⟨hlater, ?_, fun h => absurd h ha⟩
    simp only [State.toExit, hthread, hcall, le_refl]

/-! ## The main thread on its way to a turn of the send thread -/

/-- The sections of {lit}`queue_finish` when nobody uses the queue. -/
def toFinish : Call Copy → Nat
  | .finish => 3
  | .finishTest => 2
  | .finishWait => 2
  | .retVoid => 1
  | _ => 0

/-- Without users every step brings the finish closer to its end, and the backlog stays. -/
theorem toFinish_step {q : Queue Tid Copy} {c : Call Copy} {t : Tid} {addr : Nat}
    {wake : Option Tid} {next : Queue Tid Copy × Call Copy} (hcovers : QueueOp.finish.Covers c)
    (hused : q.used = 0) (hstep : c.step t addr wake q = some next) :
    toFinish next.2 < toFinish c ∧ next.1.backlog = q.backlog := by
  cases c with
  | finish =>
      rcases Option.map_eq_some_iff.1 hstep with ⟨cond, -, rfl⟩
      exact ⟨Nat.lt_succ_self 2, rfl⟩
  | finishTest =>
      rcases Queue.finishLoop_cases t q with ⟨hne, -⟩ | ⟨-, hloop⟩
      · exact absurd hused hne
      · simp only [Call.step, hloop] at hstep
        cases hstep
        exact ⟨Nat.lt_succ_self 1, rfl⟩
  | finishWait =>
      rcases Option.map_eq_some_iff.1 hstep with ⟨usedcond, -, rfl⟩
      rcases Queue.finishLoop_cases t { q with usedcond := usedcond } with
        ⟨hne, -⟩ | ⟨-, hloop⟩
      · exact absurd hused hne
      · rw [hloop]
        exact ⟨Nat.lt_succ_self 1, rfl⟩
  | retVoid => cases hstep
  | _ => exact hcovers.elim

/-- Outside the pops nobody uses the queue. -/
theorem used_eq_zero (hcount : Counted s) (hsend : s.pool.call .send = none) {c : Call Copy}
    (hmain : s.pool.call .main = some c) (hcovers : QueueOp.finish.Covers c) :
    s.pool.queue.used = 0 := by
  have huse : c.inUse = false := by
    cases c <;> first | rfl | exact hcovers.elim
  rw [Counted, hsend, hmain, usesOf_some, huse] at hcount
  exact hcount

/-- {lit}`keepsending` is cleared, and the send thread is still in its loop. -/
def State.Leaving (s : State) : Prop :=
  s.Cleared ∧ ¬ s.Exited

/-- Where the main thread is while it waits for the send thread. -/
theorem State.Leaving.main_cases (h : s.Leaving) (hc : Control s) :
    s.main = .finishing ∨ s.main = .relock := by
  have hlate : s.main.late = false := by
    by_contra htrue
    exact h.2 (hc.late (by simpa using htrue))
  have hbefore : s.main.before = false := h.1
  cases hpc : s.main with
  | finishing => exact Or.inl rfl
  | relock => exact Or.inr rfl
  | refused => exact absurd hpc hc.accepted
  | idle | sendCheck | pushing | destroyLock =>
      rw [hpc] at hbefore
      cases hbefore
  | finishing2 | joining | finishing3 | draining | drainRelease | destroyed =>
      rw [hpc] at hlate
      cases hlate

/-- The send thread is held up by the mutex, or by a signal that has not come. -/
theorem State.Leaving.blocked (h : s.Leaving) (hreach : senderMachine.Reach ok s)
    (hnot : ¬ s.Ready .send) :
    (s.pool.call .send = none ∧ s.thread ≠ .inPop ∧ s.main = .finishing) ∨
      (s.pool.call .send = some .popBlockWait ∧ s.thread = .inPop ∧
        Tid.send ∉ s.pool.queue.cond.woken) := by
  have hc := control hreach
  have hpool := reachable_pool hreach
  rcases Pool.exists_inv hpool with ⟨l, hinv⟩
  cases hcall : s.pool.call .send with
  | none =>
      refine Or.inl ⟨rfl, ?_, ?_⟩
      · intro hpc
        have hthread := hc.thread
        rw [hpc, hcall] at hthread
        exact hthread.elim
      · rcases h.main_cases hc with hpc | hpc
        · exact hpc
        · refine absurd (State.ready_of_local hc hcall h.2 fun _ => ?_) hnot
          rw [hc.mtx, hpc]
          rfl
  | some c =>
      rcases hc.thread_inPop hcall with ⟨hpc, hcovers⟩
      cases hfinished : c.finished with
      | true => exact absurd (State.ready_of_return hc hcall hfinished) hnot
      | false =>
          by_cases hwait : c = .popBlockWait
          · subst hwait
            refine Or.inr ⟨rfl, hpc, fun hwoken => hnot ?_⟩
            exact State.ready_of_section hinv (Pool.exists_free hpool) hcall rfl
              (fun _ => hwoken) (fun hw => (nomatch hw))
          · refine absurd (State.ready_of_section hinv (Pool.exists_free hpool) hcall hfinished
              (fun hw => absurd hw hwait) ?_) hnot
            rintro rfl
            exact hcovers.elim

/-- When the send thread cannot go on, every step is one of the main thread. -/
theorem steps_main {a : Action} (hbefore : s.Cleared) (hnot : ¬ s.Ready .send)
    (ha : a.Genuine) (hsome : (s.step a).isSome) : ∃ ch, a = .step .main ch := by
  have hidle : s.main ≠ .idle := by
    intro hpc
    rw [State.Cleared, hpc] at hbefore
    cases hbefore
  cases a with
  | callSend c | callDestroy =>
      simp only [State.step, if_neg hidle] at hsome
      cases hsome
  | step t ch =>
      cases t with
      | main => exact ⟨ch, rfl⟩
      | send => exact absurd ⟨ch, hsome⟩ hnot
  | spurious t => exact ha.elim

/-- When the send thread cannot go on, the main thread can. -/
theorem ready_main (hreach : senderMachine.Reach Prompt s) (hbefore : s.Cleared)
    (hnot : ¬ s.Ready .send) (hpc : s.main ≠ .destroyed) : s.Ready .main := by
  have hpool := reachable_pool hreach
  rcases Pool.exists_inv hpool with ⟨l, hinv⟩
  rcases live_of_teardown (control hreach) (counted hreach) (teardown hreach) (Pool.waits hpool)
    hinv (Pool.exists_free hpool) hpc with ⟨a, ha, hsome⟩
  rcases steps_main hbefore hnot ha hsome with ⟨ch, rfl⟩
  exact ⟨ch, hsome⟩

/-- The steps of the main thread before the send thread can go on: it gives the mutex back,
or it takes it and signals. -/
def State.toYield (s : State) : Nat :=
  match s.thread, s.pool.call .main with
  | .inPop, some .retVoid => 3
  | .inPop, none => 2
  | .inPop, some .finish => 1
  | .inPop, some _ => 0
  | _, c => (c.map toFinish).getD 0

/-- Outside of a pop only the main thread counts. -/
theorem toYield_of_ne (hpc : s.thread ≠ .inPop) :
    s.toYield = ((s.pool.call .main).map toFinish).getD 0 := by
  unfold State.toYield
  split <;> first | rfl | (rename_i hin _; exact absurd hin hpc)

/-- {lit}`queue_finish` returns in the loop of {lit}`iemnet__sender_destroy`. -/
theorem finishing_return (hpc : s.main = .finishing) (hcall : s.pool.call .main = some .retVoid)
    {ch : Choice} (hstep : s.step (.step .main ch) = some s') :
    s' = { s with mtx := none, main := .relock, pool := s.pool.left .main } := by
  simp only [State.step, State.advance, hcall, Call.finished, if_true, State.mainReturn,
    hpc] at hstep
  exact (State.leave_eq_some.1 hstep).2

/-- {lit}`iemnet__sender_destroy` takes the mutex again and finds the thread running. -/
theorem relock_wait (hpc : s.main = .relock) (hcall : s.pool.call .main = none)
    (hmtx : s.mtx = none) (hrun : s.isrunning = true) {ch : Choice}
    (hstep : s.step (.step .main ch) = some s') :
    s'.pool = s.pool.entered .main .finish := by
  simp only [State.step, State.advance, hcall, State.mainLocal, hpc, hmtx, Option.isSome_none,
    Bool.false_eq_true, if_false, State.destroyLoop, hrun, if_true] at hstep
  rw [(State.enter_eq_some.1 hstep).2]

/-- The main thread comes closer to yielding to the send thread with every step. -/
theorem variant_yield :
    senderMachine.Variant Prompt (Steps .main) State.Leaving (fun s => s.Ready .send)
      State.toYield := by
  intro s a s' hreach hleaving hnot hprompt hstep
  have hc := control hreach
  have hreach' := hreach.next hprompt hstep
  have hc' := control hreach'
  have htr := State.transition hstep
  have hsome : (s.step a).isSome := Option.isSome_iff_exists.2 ⟨s', hstep⟩
  rcases steps_main hleaving.1 hnot hprompt.1 hsome with ⟨ch, rfl⟩
  rcases htr.send_frame (by simp [Steps]) with ⟨hthread, -, -, hsame⟩
  have hlater : s'.Leaving := by
    refine ⟨htr.cleared hleaving.1, ?_⟩
    rw [State.Exited, hthread]
    exact hleaving.2
  suffices hless : s'.Ready .send ∨ s'.toYield < s.toYield by
    exact hless.imp_right fun h => ⟨hlater, h.le, fun _ => h⟩
  have hinside := hc.main
  rcases hleaving.blocked hreach hnot with ⟨hsend, hpc, hmain⟩ | ⟨hsend, hpc, hasleep⟩
  · -- the main thread holds the mutex while it finishes the queue
    have hpc' : s'.thread ≠ .inPop := by rwa [hthread]
    rw [toYield_of_ne hpc, toYield_of_ne hpc']
    rw [hmain] at hinside
    cases hcall : s.pool.call .main with
    | none =>
        rw [hcall] at hinside
        exact hinside.elim
    | some c =>
        rw [hcall] at hinside
        cases hfinished : c.finished with
        | false =>
            rcases htr.main_section hc hcall hfinished with
              ⟨ch', next, -, hsection, rfl⟩ | ⟨hother, -, -⟩
            · have hused := used_eq_zero (counted hreach) hsend hcall hinside
              right
              simpa [Pool.moved] using (toFinish_step hinside hused hsection).1
            · exact absurd rfl hother
        | true =>
            cases c <;> first | exact hinside.elim | cases hfinished
            left
            refine State.ready_of_local hc' (hsame.trans hsend) hlater.2 fun _ => ?_
            rw [finishing_return hmain hcall hstep]
  · -- the send thread waits for the signal of the next queue_finish
    rcases hleaving.main_cases hc with hmain | hmain
    · rw [hmain] at hinside
      cases hcall : s.pool.call .main with
      | none =>
          rw [hcall] at hinside
          exact hinside.elim
      | some c =>
          rw [hcall] at hinside
          have hwindow := (teardown hreach).window
          cases c with
          | finish =>
              rcases htr.main_section hc hcall rfl with
                ⟨ch', next, -, hsection, rfl⟩ | ⟨hother, -, -⟩
              · have htest : State.InWindow { s with pool := s.pool.moved .main next } := by
                  left
                  simpa [Pool.moved] using (step_finish hsection).2
                have hwoken := ((teardown hreach').window htest).2 (hsame.trans hsend)
                have hpool := reachable_pool hreach'
                rcases Pool.exists_inv hpool with ⟨l, hinv⟩
                left
                exact State.ready_of_section hinv (Pool.exists_free hpool) (hsame.trans hsend) rfl
                  (fun _ => hwoken) (by simp)
              · exact absurd rfl hother
          | finishTest => exact absurd ((hwindow (Or.inl hcall)).2 hsend) hasleep
          | finishWait => exact absurd ((hwindow (Or.inr hcall)).2 hsend) hasleep
          | retVoid =>
              right
              rw [finishing_return hmain hcall hstep]
              simp [State.toYield, hpc, hcall]
          | _ => exact hinside.elim
    · rw [hmain] at hinside
      have hcall := hinside.eq_none
      have hmtx : s.mtx = none := by
        rw [hc.mtx, hmain]
        rfl
      right
      have hwait := relock_wait hmain hcall hmtx (hc.running.2 hleaving.2) hstep
      simp [State.toYield, hthread, hpc, hcall, hwait, QueueOp.entry]

/-- Again and again the send thread can go on until it has left its loop. -/
theorem often_ready {x : senderMachine.Execution} (hx : x.Meets Prompt)
    (hmain : x.WeaklyFair (Steps .main)) {n : Nat} (hclosed : (x.state n).Closed)
    (hnever : ∀ m, n ≤ m → ¬ (x.state m).Exited) :
    ∃ m, n ≤ m ∧ senderMachine.Enabled (Steps .send) (x.state m) := by
  have hready : ∀ s, senderMachine.Reach Prompt s → s.Leaving → ¬ s.Ready .send →
      senderMachine.Enabled (Steps .main) s := by
    intro s hreach hleaving hnot
    rw [enabled_iff]
    refine ready_main hreach hleaving.1 hnot fun hpc => ?_
    rcases hleaving.main_cases (control hreach) with h | h <;> rw [h] at hpc <;> cases hpc
  rcases variant_yield.of_weaklyFair hx hmain hready ⟨hclosed.1, hnever n (le_refl n)⟩ with
    ⟨m, hnm, hm⟩
  exact ⟨m, hnm, (enabled_iff _ _).2 hm⟩

/-! ## The main thread alone -/

/-- The send thread has left its loop after {lit}`keepsending` was cleared. -/
def State.Alone (s : State) : Prop :=
  s.Cleared ∧ s.Exited

/-- {lit}`iemnet__sender_destroy` has returned. -/
def State.Destroyed (s : State) : Prop :=
  s.main = .destroyed

/-- The sections of {lit}`queue_pop_noblock` in the loop of {lit}`queue_destroy`. -/
def popToDrain : Call Copy → Nat
  | .popFree _ _ => 9
  | .popDone (some _) => 8
  | .retChunk (some _) => 7
  | .popNoblock => 5
  | .popNoblockLock => 4
  | .popDone none => 3
  | .retChunk none => 2
  | _ => 0

/-- A pop of the loop comes nearer to the end of the loop. -/
theorem popToDrain_step {q : Queue Tid Copy} {l : List (Nat × Copy)}
    (hshape : q.toNodeList.Shape l) {c : Call Copy} {t : Tid} {addr : Nat} {wake : Option Tid}
    {next : Queue Tid Copy × Call Copy} (hcovers : QueueOp.popNoblock.Covers c)
    (hstep : c.step t addr wake q = some next) :
    6 * next.1.backlog + popToDrain next.2 < 6 * q.backlog + popToDrain c := by
  cases c with
  | popNoblock =>
      cases hstep
      exact Nat.lt_succ_self _
  | popNoblockLock =>
      simp only [Call.step] at hstep
      split at hstep
      · cases hstep
        exact Nat.lt_succ_self _
      · rename_i head hhead
        rcases hshape.unlink hhead with
          ⟨d, rest, nodes, hl, hunlink, -, -, hpushed, hpopped, -⟩
        rw [hunlink] at hstep
        cases hstep
        have hbacklog := hshape.backlog_eq
        have hafter : NodeList.backlog nodes + 1 = q.backlog := by
          rw [hl, List.length_cons] at hbacklog
          unfold NodeList.backlog at hbacklog ⊢
          rw [hpushed, hpopped]
          omega
        show 6 * NodeList.backlog nodes + 9 < 6 * q.backlog + 4
        omega
  | popFree head ticket =>
      rcases Option.map_eq_some_iff.1 hstep with ⟨node, -, rfl⟩
      cases hdata : node.data with
      | none =>
          show 6 * q.backlog + 3 < 6 * q.backlog + 9
          omega
      | some d => exact Nat.lt_succ_self _
  | popDone data =>
      rcases Option.map_eq_some_iff.1 hstep with ⟨q', hq', rfl⟩
      rcases Option.map_eq_some_iff.1 hq' with ⟨usedcond, -, rfl⟩
      cases data with
      | none => exact Nat.lt_succ_self _
      | some d => exact Nat.lt_succ_self _
  | retChunk data => cases hstep
  | _ => exact hcovers.elim

/-- The steps of the main thread within one program point of
{lit}`iemnet__sender_destroy`, and behind it. -/
def MainPc.toDestroyed (m : MainPc) (c : Option (Call Copy)) : Nat :=
  match m with
  | .finishing => 22 + (c.map toFinish).getD 0
  | .relock => 21
  | .finishing2 => 16 + (c.map toFinish).getD 0
  | .joining => 15
  | .finishing3 => 10 + (c.map toFinish).getD 0
  | .drainRelease _ => 6
  | .draining => (c.map popToDrain).getD 0
  | _ => 0

/-- The steps of the main thread before {lit}`iemnet__sender_destroy` returns. -/
def State.toDestroyed (s : State) : Nat :=
  6 * s.pool.queue.backlog + s.main.toDestroyed (s.pool.call .main)

/-- The main thread alone comes closer to the end of the destructor with every step. -/
theorem variant_drain :
    senderMachine.Variant Prompt (Steps .main) State.Alone State.Destroyed State.toDestroyed := by
  intro s a s' hreach halone hnot hprompt hstep
  have hc := control hreach
  have hsend : s.pool.call .send = none := by
    have hthread := hc.thread
    rw [halone.2] at hthread
    exact hthread.eq_none
  have hnotready : ¬ s.Ready .send := by
    rintro ⟨ch, hsome⟩
    simp only [State.advance, hsend, State.threadLocal, show s.thread = .exited from halone.2]
      at hsome
    cases hsome
  have htr := State.transition hstep
  have hsome : (s.step a).isSome := Option.isSome_iff_exists.2 ⟨s', hstep⟩
  rcases steps_main halone.1 hnotready hprompt.1 hsome with ⟨ch, rfl⟩
  have hlater : s'.Alone := by
    refine ⟨htr.cleared halone.1, ?_⟩
    rw [State.Exited, (htr.send_frame (by simp [Steps])).1]
    exact halone.2
  suffices hless : s'.Destroyed ∨ s'.toDestroyed < s.toDestroyed by
    exact hless.imp_right fun h => ⟨hlater, h.le, fun _ => h⟩
  have hrun : s.isrunning ≠ true := fun htrue => hc.running.1 htrue halone.2
  have hbefore : ∀ {m : MainPc}, s.main = m → m.before = true → False := by
    intro m hm htrue
    have hcleared : s.main.before = false := halone.1
    rw [hm, htrue] at hcleared
    cases hcleared
  cases htr with
  | queueSection t ch c next hcall hsection =>
      rcases Pool.exists_inv (reachable_pool hreach) with ⟨l, hinv⟩
      have hmain := hc.main
      rw [hcall] at hmain
      rcases hmain.op_of_some with ⟨op, hop, hcovers⟩
      right
      show 6 * next.1.backlog + s.main.toDestroyed ((s.pool.moved .main next).call .main) < _
      have hnext : (s.pool.moved .main next).call .main = some next.2 := by simp [Pool.moved]
      rw [State.toDestroyed, hcall, hnext]
      cases hpc : s.main with
      | pushing data => exact (hbefore hpc rfl).elim
      | draining =>
          rw [hpc] at hop
          cases hop
          exact popToDrain_step hinv.shape hcovers hsection
      | finishing | finishing2 | finishing3 =>
          rw [hpc] at hop
          cases hop
          have hused := used_eq_zero (counted hreach) hsend hcall hcovers
          rcases toFinish_step hcovers hused hsection with ⟨hless, hsame⟩
          simp only [MainPc.toDestroyed, Option.map_some, Option.getD_some]
          omega
      | _ =>
          rw [hpc] at hop
          cases hop
  | sendRefused c hpc | sendNothing c hpc | pushReturn data size hpc => exact (hbefore hpc rfl).elim
  | sendCopy src chunk hpc => exact (hbefore hpc rfl).elim
  | destroyWait hpc | destroyGone hpc | destroyRefused hpc => exact (hbefore hpc rfl).elim
  | finishReturn hpc hcall | finish2Return hpc hcall | drainChunk k c hpc hcall =>
      right
      simp [State.toDestroyed, MainPc.toDestroyed, hpc, hcall, toFinish, popToDrain, Pool.left]
  | relockWait hpc hmtx hr => exact absurd hr hrun
  | relockGone hpc hmtx hr hcall | join hpc hexited hcall | drainRelease c hpc hcall =>
      right
      simp [State.toDestroyed, MainPc.toDestroyed, hpc, QueueOp.entry, toFinish, popToDrain]
  | finish3Return hpc hcall =>
      right
      simp [State.toDestroyed, MainPc.toDestroyed, hpc, hcall, QueueOp.entry, toFinish,
        popToDrain, Pool.left]
  | drainEmpty => exact Or.inl rfl

/-- The main thread alone can always go on. -/
theorem ready_drain (hreach : senderMachine.Reach Prompt s) (halone : s.Alone)
    (hnot : ¬ s.Destroyed) : s.Ready .main := by
  refine ready_main hreach halone.1 ?_ hnot
  rintro ⟨ch, hsome⟩
  have hthread := (control hreach).thread
  rw [halone.2] at hthread
  simp only [State.advance, hthread.eq_none, State.threadLocal,
    show s.thread = .exited from halone.2] at hsome
  cases hsome

/-! ## Whole executions -/

/-- In every execution that is weakly fair to the main thread and strongly fair to the send
thread, and in which the send thread never starts to wait on the empty queue while
{lit}`queue_finish` has signalled and not yet left: once {lit}`iemnet__sender_destroy` has
been called, it returns. -/
theorem destroy_returns {x : senderMachine.Execution} (hx : x.Meets Prompt)
    (hmain : x.WeaklyFair (Steps .main)) (hsend : x.StronglyFair (Steps .send)) {n : Nat}
    (hcalled : (x.state n).main = .destroyLock) :
    ∃ m, n ≤ m ∧ (x.state m).main = .destroyed := by
  rcases variant_clear.of_weaklyFair hx hmain
    (fun s hreach hpc _ => (enabled_iff s .main).2 (ready_clear hreach hpc)) hcalled with
    ⟨i, hni, hcleared⟩
  rcases variant_close.of_weaklyFair hx hmain
    (fun s hreach hs hnot => (enabled_iff s .main).2 (ready_close hreach hs hnot)) hcleared with
    ⟨j, hij, hclosed⟩
  rcases variant_exit.of_stronglyFair hx hsend (fun _ => often_ready hx hmain) hclosed with
    ⟨k, hjk, hexited⟩
  have hstays := hx.lasts (fun s a s' _ _ hs hstep => (State.transition hstep).cleared hs) hjk
    hclosed.1
  rcases variant_drain.of_weaklyFair hx hmain
    (fun s hreach hs hnot => (enabled_iff s .main).2 (ready_drain hreach hs hnot))
    ⟨hstays, hexited⟩ with ⟨m, hkm, hdestroyed⟩
  exact ⟨m, hni.trans (hij.trans (hjk.trans hkm)), hdestroyed⟩

/-- The main thread destroys a new sender and waits until the send thread notices. -/
def destroyAtOnce : List Action :=
  (.callDestroy :: quietSteps .main 4) ++ (quietSteps .send 1 ++ quietSteps .main 12)

/-- In a fair execution the destructor comes to its end. -/
theorem destroy_returns_run :
    ∃ x : senderMachine.Execution, x.Meets Prompt ∧ x.WeaklyFair (Steps .main) ∧
      x.StronglyFair (Steps .send) ∧ (x.state 1).main = .destroyLock ∧
      ∃ m, 1 ≤ m ∧ (x.state m).main = .destroyed := by
  have hrun : senderMachine.run create destroyAtOnce = some _ := rfl
  have hmainSteps : ∀ n a, a ∈ quietSteps .main n → ∀ s, Prompt s a := by
    intro n a ha s
    rw [List.eq_of_mem_replicate ha]
    exact prompt_main s _
  have hmeets : senderMachine.RunMeets Prompt create destroyAtOnce := by
    have hbegin : senderMachine.RunMeets Prompt create (.callDestroy :: quietSteps .main 4) :=
      ⟨prompt_callDestroy _, fun _ _ => Machine.runMeets_of_always (hmainSteps 4)⟩
    exact hbegin.append rfl
      ⟨prompt_send _ rfl, fun _ _ => Machine.runMeets_of_always (hmainSteps 12)⟩
  -- at the end both threads are gone
  have hmain : (Machine.Execution.ofRun rfl hrun).WeaklyFair (Steps .main) := by
    apply Machine.Execution.weaklyFair_ofRun
    rw [enabled_iff]
    rintro ⟨ch, hsome⟩
    cases hsome
  have hsend : (Machine.Execution.ofRun rfl hrun).StronglyFair (Steps .send) := by
    apply Machine.Execution.stronglyFair_ofRun
    rw [enabled_iff]
    rintro ⟨ch, hsome⟩
    cases hsome
  have hx : (Machine.Execution.ofRun rfl hrun).Meets Prompt := Machine.Execution.meets_ofRun hmeets
  exact ⟨_, hx, hmain, hsend, rfl, destroy_returns hx hmain hsend rfl⟩

end Sender

end Iemnet
