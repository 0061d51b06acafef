import Iemnet.Foundations.Fairness
import Iemnet.Queue.Wakeups
import Iemnet.Sender.Delivery
import Iemnet.Sender.Teardown

/-!
# Every chunk is passed on

A chunk that {lit}`iemnet__sender_send` has copied lies behind finitely many others.  The
send thread can always go on while there is something to pop, so a scheduler that is fair
to both threads lets it come to the chunk, unless a send fails or the sender is destroyed
before.

Main results:

- Theorem {lit}`fed`: before {lit}`iemnet__sender_destroy`, the send thread never comes out
  of the queue with nothing and never waits beside a chunk without having been woken.
- Theorems {lit}`variant_push`, {lit}`variant_pass`: what is left to do before the chunk is
  linked, and before it is passed on.
- Theorem {lit}`eventually_passed`: every fair execution.
-/

namespace Iemnet

open Foundations

/-! ## Pops that come back with nothing -/

/-- A pop that has found nothing. -/
def Call.foundNothing {χ : Type} : Call χ → Bool
  | .popDone none => true
  | .retChunk none => true
  | _ => false

/-- {lit}`queue_pop_block` comes back with nothing only from a queue that is finished. -/
theorem Call.step_foundNothing {τ χ : Type} [DecidableEq τ] [Payload χ] {q : Queue τ χ}
    {c : Call χ} {t : τ} {addr : Nat} {wake : Option τ} {next : Queue τ χ × Call χ}
    {nodes : List Nat} (hok : c.Ok q.toNodeList nodes) (hcovers : QueueOp.popBlock.Covers c)
    (hstep : c.step t addr wake q = some next) (hnext : next.2.foundNothing = true) :
    q.done = true ∨ c.foundNothing = true := by
  cases c with
  | popBlock =>
      cases hstep
      cases hnext
  | popBlockLock =>
      rcases Queue.popTest_cases hstep with ⟨-, rfl⟩ | ⟨head, nodes, -, -, rfl⟩ <;> cases hnext
  | popBlockWait =>
      rcases Option.bind_eq_some_iff.1 hstep with ⟨cond, -, hrest⟩
      split at hrest
      · rename_i hdone
        exact Or.inl hdone
      · rcases Queue.popTest_cases hrest with ⟨-, rfl⟩ | ⟨head, nodes, -, -, rfl⟩ <;> cases hnext
  | popFree head ticket =>
      rcases hok with ⟨-, -, nx, d, hcell, -⟩
      simp only [Call.step, hcell, Option.map_some, Option.some.injEq] at hstep
      subst hstep
      cases hnext
  | popDone data =>
      rcases Option.map_eq_some_iff.1 hstep with ⟨q', -, rfl⟩
      cases data with
      | none => exact Or.inr rfl
      | some d => cases hnext
  | retChunk data => cases hstep
  | _ => exact hcovers.elim

namespace Sender

variable {s s' : State}

/-! ## The steps of a thread -/

/-- The steps of one thread. -/
def Steps (t : Tid) : Action → Prop
  | .step u _ => u = t
  | _ => False

/-- The thread can take a step. -/
def State.Ready (s : State) (t : Tid) : Prop :=
  ∃ ch, (s.advance t ch).isSome

/-- A thread can go on exactly where it is ready. -/
theorem enabled_iff (s : State) (t : Tid) : senderMachine.Enabled (Steps t) s ↔ s.Ready t := by
  constructor
  · rintro ⟨a, ha, hsome⟩
    cases a with
    | step u ch =>
        cases ha
        exact ⟨ch, hsome⟩
    | callSend | callDestroy | spurious => exact ha.elim
  · rintro ⟨ch, hsome⟩
    exact ⟨.step t ch, rfl, hsome⟩

/-- A thread inside a queue function, not waiting in vain, is ready. -/
theorem State.ready_of_section {l : List (Nat × Copy)} (hpool : s.pool.Inv l)
    (hfree : ∃ a, s.pool.queue.heap a = none) {t : Tid} {c : Call Copy}
    (hcall : s.pool.call t = some c) (hrunning : c.finished = false)
    (hpop : c = .popBlockWait → t ∈ s.pool.queue.cond.woken)
    (hfinish : c = .finishWait → t ∈ s.pool.queue.usedcond.woken) : s.Ready t := by
  rcases hpool.progress hfree hcall hrunning hpop hfinish with ⟨addr, wake, hsome⟩
  rcases Option.isSome_iff_exists.1 hsome with ⟨next, hnext⟩
  refine ⟨⟨true, addr, wake, true⟩, ?_⟩
  have hsection : s.queueSection t ⟨true, addr, wake, true⟩ = some _ :=
    State.queueSection_eq_some.2 ⟨c, next, hcall, hnext, rfl⟩
  cases t <;> simp [State.advance, hcall, hrunning, hsection]

/-- The send thread outside the queue is ready unless it has to wait for the mutex. -/
theorem State.ready_of_local (hc : Control s) (hcall : s.pool.call .send = none)
    (halive : s.thread ≠ .exited)
    (hmtx : s.thread = .loopTest ∨ s.thread = .brokenLock → s.mtx = none) : s.Ready .send := by
  refine ⟨⟨true, 0, none, true⟩, ?_⟩
  simp only [State.advance, hcall]
  unfold State.threadLocal
  cases hpc : s.thread with
  | loopTest =>
      simp only [hmtx (Or.inl hpc), Option.isSome_none, Bool.false_eq_true, if_false]
      split
      · exact State.isSome_enter hcall
      · rfl
  | brokenLock =>
      simp only [hmtx (Or.inr hpc), Option.isSome_none, Bool.false_eq_true, if_false]
      rfl
  | inPop =>
      have hthread := hc.thread
      rw [hpc, hcall] at hthread
      exact hthread.elim
  | got c | sending c | sent ok c => rfl
  | exited => exact absurd hpc halive

/-- The send thread can return from a pop that has finished. -/
theorem State.ready_of_return (hc : Control s) {c : Call Copy}
    (hcall : s.pool.call .send = some c) (hfinished : c.finished = true) : s.Ready .send := by
  have hcovers := (hc.thread_inPop hcall).2
  refine ⟨⟨true, 0, none, true⟩, ?_⟩
  simp only [State.advance, hcall, hfinished, if_true]
  cases c with
  | retChunk data => rcases data with - | ⟨k, d⟩ <;> exact State.isSome_leave hcall rfl
  | retSize | retVoid => exact hcovers.elim
  | _ => cases hfinished

/-! ## Before the sender is destroyed -/

/-- As long as {lit}`iemnet__sender_destroy` has not got the mutex: nobody finishes the
queue, the send thread finds a chunk in every pop, and it stops only for a failed send. -/
structure Fed (s : State) : Prop where
  supplied : s.pool.Supplied
  nothing : ∀ c, s.pool.call .send = some c → c.foundNothing = false
  broken : s.thread.broken = true → false ∈ s.outcomes

/-- A new sender has nothing that could be missing. -/
theorem fed_create : Fed create :=
  ⟨Pool.supplied_create, fun _ h => (nomatch h), fun h => (nomatch h)⟩

/-- Nobody goes back from {lit}`iemnet__sender_destroy`. -/
theorem Transition.before {a : Action} (htr : Transition s a s')
    (hbefore : s'.main.before = true) : s.main.before = true := by
  cases htr with
  | callSend c hpc | callDestroy hpc => rw [hpc]; rfl
  | sendRefused c hpc | sendNothing c hpc | sendCopy src chunk hpc
  | pushReturn data size hpc => rw [hpc]; rfl
  | destroyWait | destroyGone | destroyRefused | finishReturn | relockWait | relockGone
  | finish2Return | join | finish3Return | drainEmpty | drainChunk | drainRelease =>
      cases hbefore
  | _ => exact hbefore

/-- The queue and the call of one thread have changed. -/
theorem Fed.setPool (h : Fed s) {t : Tid} {o : Option (Call Copy)} (hpool : s'.pool.Supplied)
    (hcall : s'.pool.call = Function.update s.pool.call t o)
    (ho : t = .send → ∀ c, o = some c → c.foundNothing = false)
    (hbroken : s'.thread.broken = true → false ∈ s'.outcomes) : Fed s' := by
  refine ⟨hpool, fun c hc => ?_, hbroken⟩
  rw [hcall] at hc
  rcases update_eq_some_cases hc with ⟨ht, ho'⟩ | ⟨-, hold⟩
  · exact ho ht.symm c ho'
  · exact h.nothing c hold

/-- Every transition before the teardown keeps the send thread supplied. -/
theorem Fed.transition (h : Fed s) (hc : Control s) {l : List (Nat × Copy)}
    (hpool : s.pool.Inv l) {a : Action} (htr : Transition s a s')
    (hbefore : s'.main.before = true) : Fed s' := by
  have hkeep : s.keepsending = true := hc.keep.trans (htr.before hbefore)
  -- no step of the queue is a call of queue_finish
  have henter : ∀ {t : Tid} {op : QueueOp Copy}, op ≠ .finish → s.pool.call t = none →
      (s.pool.entered t op).Supplied := by
    intro t op hop hcall
    refine h.supplied.step hpool (a := .enter t op) ?_ (Pool.step_enter.2 ⟨hcall, rfl⟩)
    rintro u ⟨⟩
    exact hop rfl
  have hleave : ∀ {t : Tid} {c : Call Copy}, c.finished = true → s.pool.call t = some c →
      (s.pool.left t).Supplied := by
    intro t c hfinished hcall
    refine h.supplied.step hpool (a := .leave t) ?_ (Pool.step_leave.2 ⟨⟨c, hcall, hfinished⟩, rfl⟩)
    rintro u ⟨⟩
  cases htr with
  | queueSection t ch c next hcall hstep =>
      have hmoved : (s.pool.moved t next).Supplied := by
        refine h.supplied.step hpool (a := .step t ch.addr ch.wake) ?_
          (Pool.step_step.2 ⟨c, next, hcall, hstep, rfl⟩)
        rintro u ⟨⟩
      refine h.setPool hmoved rfl ?_ h.broken
      rintro rfl c' ⟨⟩
      by_contra hnothing
      rw [Bool.not_eq_false] at hnothing
      rcases Call.step_foundNothing (hpool.ok .send c hcall) (hc.thread_inPop hcall).2 hstep
        hnothing with hdone | hold
      · rw [h.supplied.done] at hdone
        cases hdone
      · rw [h.nothing c hcall] at hold
        cases hold
  | spurious t c q hcall hwake =>
      refine ⟨h.supplied.step hpool (a := .spurious t) ?_ ?_, h.nothing, h.broken⟩
      · rintro u ⟨⟩
      · exact Option.bind_eq_some_iff.2 ⟨c, hcall, Option.map_eq_some_iff.2 ⟨q, hwake, rfl⟩⟩
  | loopEnter hpc hmtx hk hcall =>
      refine h.setPool (henter (by simp) hcall) rfl ?_ (by simp [ThreadPc.broken])
      rintro - c ⟨⟩
      rfl
  | loopExit hpc hmtx hk hcall =>
      rw [hk] at hkeep
      cases hkeep
  | popNothing hcall => exact absurd (h.nothing _ hcall) (by simp [Call.foundNothing])
  | popChunk k c hcall =>
      refine h.setPool (hleave rfl hcall) rfl ?_ (by simp [ThreadPc.broken])
      rintro - c ⟨⟩
  | sendReturns ok c hpc hcall =>
      refine ⟨h.supplied, h.nothing, fun hbroken => ?_⟩
      have hfailed : ok = false := by simpa [ThreadPc.broken] using hbroken
      simp [hfailed]
  | release ok c hpc hcall =>
      refine ⟨h.supplied, h.nothing, fun hbroken => h.broken ?_⟩
      cases ok with
      | false =>
          rw [hpc]
          rfl
      | true => cases hbroken
  | brokenExit hpc hmtx hcall =>
      refine ⟨h.supplied, h.nothing, fun _ => h.broken ?_⟩
      rw [hpc]
      rfl
  | sendNothing c hpc hmtx hrun hcall =>
      exact h.setPool (henter (by simp) hcall) rfl (by simp) h.broken
  | sendCopy src chunk hpc hmtx hrun hcopy hcall =>
      exact h.setPool (henter (by simp) hcall) rfl (by simp) h.broken
  | pushReturn data size hpc hcall =>
      exact h.setPool (hleave rfl hcall) rfl (by simp) h.broken
  | passChunk => exact ⟨h.supplied, h.nothing, by simp [ThreadPc.broken]⟩
  | callSend | callDestroy | sendRefused => exact ⟨h.supplied, h.nothing, h.broken⟩
  | _ => cases hbefore

variable {ok : State → Action → Prop}

/-- Before the teardown the send thread is supplied. -/
theorem fed (h : senderMachine.Reach ok s) (hbefore : s.main.before = true) : Fed s := by
  have hinv : s.main.before = true → Fed s := by
    refine Machine.Reach.invariant (I := fun s : State => s.main.before = true → Fed s) ?_ ?_ h
    · rintro s rfl -
      exact fed_create
    · intro s a s' hreach hfed _ hstep hbefore
      have htr := State.transition hstep
      rcases Pool.exists_inv (reachable_pool hreach) with ⟨l, hpool⟩
      exact (hfed (htr.before hbefore)).transition (control hreach) hpool htr hbefore
  exact hinv hbefore

/-! ## Who changes what -/

/-- What was pushed stays pushed. -/
theorem pushed_prefix_section {τ χ : Type} [DecidableEq τ] [Payload χ] {q : Queue τ χ}
    {c : Call χ} {t : τ} {addr : Nat} {wake : Option τ} {next : Queue τ χ × Call χ}
    (hstep : c.step t addr wake q = some next) : q.pushed <+: next.1.pushed := by
  cases Call.flow hstep with
  | link d _ _ hpushed =>
      rw [hpushed]
      exact List.prefix_append _ _
  | quiet _ _ hpushed | detach _ _ hpushed | wait _ _ _ _ hpushed | serve _ _ _ hpushed
  | rewait _ _ _ _ _ _ hpushed | giveUp _ _ _ hpushed | finish _ _ _ hpushed =>
      exact hpushed ▸ List.prefix_refl _

/-- A step of the main thread leaves the call of the send thread alone. -/
@[simp]
theorem call_moved_main (p : Pool Tid Copy) (next : Queue Tid Copy × Call Copy) :
    (p.moved .main next).call .send = p.call .send := by
  simp [Pool.moved]

/-- A step of the send thread leaves the call of the main thread alone. -/
@[simp]
theorem call_moved_send (p : Pool Tid Copy) (next : Queue Tid Copy × Call Copy) :
    (p.moved .send next).call .main = p.call .main := by
  simp [Pool.moved]

/-- What is submitted stays submitted, and what is pushed stays pushed. -/
theorem Transition.grows {a : Action} (htr : Transition s a s') :
    s.submitted <+: s'.submitted ∧ s.pool.queue.pushed <+: s'.pool.queue.pushed := by
  cases htr with
  | queueSection t ch c next hcall hstep =>
      exact ⟨List.prefix_refl _, pushed_prefix_section hstep⟩
  | spurious t c q hcall hwake =>
      refine ⟨List.prefix_refl _, ?_⟩
      cases c <;> simp only [Queue.spurious, reduceCtorEq] at hwake
      all_goals
        rcases Option.map_eq_some_iff.1 hwake with ⟨cond, -, rfl⟩
        exact List.prefix_refl _
  | sendCopy => exact ⟨List.prefix_append _ _, List.prefix_refl _⟩
  | _ => exact ⟨List.prefix_refl _, List.prefix_refl _⟩

/-- The state of the send thread is its own. -/
theorem Transition.send_frame {a : Action} (htr : Transition s a s') (ha : ¬ Steps .send a) :
    s'.thread = s.thread ∧ s'.passed = s.passed ∧ s'.outcomes = s.outcomes ∧
      s'.pool.call .send = s.pool.call .send := by
  cases htr with
  | queueSection t ch c next hcall hstep =>
      cases t with
      | main => exact ⟨rfl, rfl, rfl, call_moved_main _ _⟩
      | send => exact absurd rfl ha
  | sendNothing | sendCopy | destroyWait | destroyGone | relockWait | relockGone | join
  | drainRelease => exact ⟨rfl, rfl, rfl, call_entered_main _ _⟩
  | pushReturn | finishReturn | finish2Return | drainEmpty | drainChunk =>
      exact ⟨rfl, rfl, rfl, call_left_main _⟩
  | finish3Return =>
      exact ⟨rfl, rfl, rfl, (call_entered_main _ _).trans (call_left_main _)⟩
  | loopEnter | loopExit | popNothing | popChunk | passChunk | sendReturns | release
  | brokenExit => exact absurd rfl ha
  | _ => exact ⟨rfl, rfl, rfl, rfl⟩

/-- While the main thread is inside a queue function, it moves by the sections of this
function. -/
theorem Transition.main_section {a : Action} (htr : Transition s a s') (hc : Control s)
    {c : Call Copy} (hcall : s.pool.call .main = some c) (hrunning : c.finished = false) :
    (∃ ch next, a = .step .main ch ∧ c.step .main ch.addr ch.wake s.pool.queue = some next ∧
        s' = { s with pool := s.pool.moved .main next }) ∨
      (¬ Steps .main a ∧ s'.main = s.main ∧ s'.pool.call .main = some c) := by
  have hidle : s.main ≠ .idle := by
    intro hidle
    have hmain := hc.main
    rw [hidle, hcall] at hmain
    exact hmain.elim
  have hnone : s.pool.call .main ≠ none := by
    rw [hcall]
    exact Option.some_ne_none c
  have hends : ∀ c', c'.finished = true → s.pool.call .main ≠ some c' := by
    rintro c' hfinished hc'
    rw [hcall, Option.some.injEq] at hc'
    rw [hc', hfinished] at hrunning
    cases hrunning
  cases htr with
  | callSend c hpc | callDestroy hpc => exact absurd hpc hidle
  | queueSection t ch c' next hcall' hstep =>
      cases t with
      | main =>
          rw [hcall, Option.some.injEq] at hcall'
          exact Or.inl ⟨ch, next, rfl, hcall' ▸ hstep, rfl⟩
      | send =>
          exact Or.inr ⟨fun ha => (nomatch ha), rfl, (call_moved_send _ _).trans hcall⟩
  | spurious => exact Or.inr ⟨fun ha => ha.elim, rfl, hcall⟩
  | loopEnter => exact Or.inr ⟨fun ha => (nomatch ha), rfl, (call_entered_send _ _).trans hcall⟩
  | popNothing | popChunk =>
      exact Or.inr ⟨fun ha => (nomatch ha), rfl, (call_left_send _).trans hcall⟩
  | loopExit | passChunk | sendReturns | release | brokenExit =>
      exact Or.inr ⟨fun ha => (nomatch ha), rfl, hcall⟩
  | sendRefused _ _ _ _ hcall' | sendNothing _ _ _ _ hcall' | destroyWait _ _ _ _ hcall'
  | destroyGone _ _ _ _ hcall' | destroyRefused _ _ _ hcall' | relockWait _ _ _ hcall'
  | relockGone _ _ _ hcall' | join _ _ hcall' | drainRelease _ _ hcall' =>
      exact absurd hcall' hnone
  | sendCopy _ _ _ _ _ _ hcall' => exact absurd hcall' hnone
  | pushReturn _ _ _ hcall' | finishReturn _ hcall' | finish2Return _ hcall'
  | finish3Return _ hcall' | drainEmpty _ hcall' | drainChunk _ _ _ hcall' =>
      exact absurd hcall' (hends _ rfl)

/-! ## Linking the chunk -/

/-- The sections that {lit}`queue_push` still has before its chunk is linked. -/
def toLink : Call Copy → Nat
  | .push _ => 3
  | .pushAlloc _ => 2
  | .pushLink _ _ => 1
  | _ => 0

/-- A section of {lit}`queue_push` links the chunk or comes nearer to it. -/
theorem toLink_step {q : Queue Tid Copy} {c : Call Copy} {t : Tid} {addr : Nat}
    {wake : Option Tid} {next : Queue Tid Copy × Call Copy} {d : Copy}
    (hstep : c.step t addr wake q = some next) (hpending : c.pending = some d) :
    next.1.pushed.length = q.pushed.length + 1 ∨ toLink next.2 < toLink c := by
  cases c with
  | push data =>
      cases hpending
      cases hstep
      exact Or.inr (Nat.lt_succ_self 2)
  | pushAlloc data =>
      simp only [Call.step] at hstep
      split at hstep
      · cases hstep
        exact Or.inr (Nat.lt_succ_self 1)
      · cases hstep
  | pushLink n data =>
      rcases Option.bind_eq_some_iff.1 hstep with ⟨nodes, hlink, hrest⟩
      rcases Option.map_eq_some_iff.1 hrest with ⟨cond, -, rfl⟩
      left
      show nodes.pushed.length = q.pushed.length + 1
      rw [(NodeList.link_history hlink).1, List.length_append, List.length_singleton]
  | _ => cases hpending

/-- A chunk that is submitted and not pushed is in the hand of the main thread. -/
theorem Delivery.exists_pending (h : Delivery s) {k : Nat} {src : Chunk}
    (hk : s.submitted[k]? = some src) (hpushed : s.pool.queue.pushed.length ≤ k) :
    ∃ c d, s.pool.call .main = some c ∧ c.pending = some d := by
  have hlength := congrArg List.length h.content
  have hlt := (List.getElem?_eq_some_iff.1 hk).1
  simp only [List.length_append, copiesOf, List.length_mapIdx] at hlength
  cases hpending : (s.pool.call .main).bind Call.pending with
  | none =>
      rw [State.pending, hpending, Option.toList_none, List.length_nil] at hlength
      omega
  | some d =>
      rcases Option.bind_eq_some_iff.1 hpending with ⟨c, hc, hd⟩
      exact ⟨c, d, hc, hd⟩

/-- A call that has something to push has not finished. -/
theorem finished_of_pending {c : Call Copy} {d : Copy} (h : c.pending = some d) :
    c.finished = false := by
  cases c <;> first | rfl | cases h

/-- The {lit}`k`-th chunk has been submitted. -/
def State.Submitted (k : Nat) (src : Chunk) (s : State) : Prop :=
  s.submitted[k]? = some src

/-- The {lit}`k`-th chunk is in the queue, or the sender is being destroyed. -/
def State.PushedOr (k : Nat) (s : State) : Prop :=
  k < s.pool.queue.pushed.length ∨ s.main.before = false

/-- What was submitted stays submitted. -/
theorem Transition.submitted {a : Action} (htr : Transition s a s') {k : Nat} {src : Chunk}
    (hk : s.Submitted k src) : s'.Submitted k src := by
  rcases htr.grows.1 with ⟨later, hlater⟩
  rw [State.Submitted, ← hlater, List.getElem?_append_left (List.getElem?_eq_some_iff.1 hk).1]
  exact hk

/-- The main thread comes closer to linking the copy with every step. -/
theorem variant_push (k : Nat) (src : Chunk) :
    senderMachine.Variant ok (Steps .main) (State.Submitted k src) (State.PushedOr k)
      fun s => ((s.pool.call .main).map toLink).getD 0 := by
  intro s a s' hreach hk hnot _ hstep
  have htr := State.transition hstep
  have hc := control hreach
  have hlt : s.pool.queue.pushed.length ≤ k := by
    by_contra hgt
    exact hnot (Or.inl (not_le.1 hgt))
  rcases (delivery hreach).1.exists_pending hk hlt with ⟨c, d, hcall, hpending⟩
  rcases htr.main_section hc hcall (finished_of_pending hpending) with
    ⟨ch, next, rfl, hsection, rfl⟩ | ⟨hother, hmain, hsame⟩
  · rcases toLink_step hsection hpending with hlinked | hless
    · by_cases hdone : k < next.1.pushed.length
      · exact Or.inl (Or.inl hdone)
      · -- the chunk just linked is not behind the one that was submitted
        have hcontent := congrArg List.length (delivery hreach).1.content
        have hsub := (List.getElem?_eq_some_iff.1 hk).1
        simp only [List.length_append, copiesOf, List.length_mapIdx, State.pending, hcall,
          Option.bind_some, hpending, Option.toList_some, List.length_singleton] at hcontent
        omega
    · refine Or.inr ⟨htr.submitted hk, ?_, fun _ => ?_⟩ <;>
        simp only [Pool.moved, Function.update_self, hcall, Option.map_some, Option.getD_some]
      · exact hless.le
      · exact hless
  · refine Or.inr ⟨htr.submitted hk, ?_, fun ha => absurd ha hother⟩
    simp only [hsame, hcall, le_refl]

/-- The main thread can always go on with {lit}`queue_push`. -/
theorem ready_push (hreach : senderMachine.Reach ok s) {k : Nat} {src : Chunk}
    (hk : s.Submitted k src) (hnot : ¬ s.PushedOr k) : s.Ready .main := by
  have hlt : s.pool.queue.pushed.length ≤ k := by
    by_contra hgt
    exact hnot (Or.inl (not_le.1 hgt))
  have hpool := reachable_pool hreach
  rcases Pool.exists_inv hpool with ⟨l, hinv⟩
  rcases (delivery hreach).1.exists_pending hk hlt with ⟨c, d, hcall, hpending⟩
  refine State.ready_of_section hinv (Pool.exists_free hpool) hcall
    (finished_of_pending hpending) ?_ ?_
  · rintro rfl
    cases hpending
  · rintro rfl
    cases hpending

/-! ## Passing it on -/

/-- The steps that the send thread still has, inside {lit}`queue_pop_block`, before it passes
a chunk on. -/
def popToPass : Call Copy → Nat
  | .popBlock => 7
  | .popBlockLock => 6
  | .popBlockWait => 5
  | .popFree _ _ => 4
  | .popDone _ => 3
  | .retChunk _ => 2
  | _ => 0

/-- The steps of the send thread before it passes the next chunk on. -/
def State.toPass (s : State) : Nat :=
  match s.thread with
  | .sending _ => 10
  | .sent _ _ => 9
  | .loopTest => 8
  | .inPop => ((s.pool.call .send).map popToPass).getD 0
  | .got _ => 1
  | .brokenLock => 0
  | .exited => 0

/-- A pop from a list that is not empty and not finished comes nearer to its end. -/
theorem popToPass_step {q : Queue Tid Copy} {c : Call Copy} {t : Tid} {addr : Nat}
    {wake : Option Tid} {next : Queue Tid Copy × Call Copy} (hcovers : QueueOp.popBlock.Covers c)
    (hhead : c = .popBlockLock ∨ c = .popBlockWait → q.head ≠ none)
    (hstep : c.step t addr wake q = some next) : popToPass next.2 < popToPass c := by
  cases c with
  | popBlock =>
      cases hstep
      exact Nat.lt_succ_self 6
  | popBlockLock =>
      rcases Queue.popTest_cases hstep with ⟨hnone, -⟩ | ⟨head, nodes, -, -, rfl⟩
      · exact absurd hnone (hhead (Or.inl rfl))
      · show 4 < 6
        omega
  | popBlockWait =>
      rcases Option.bind_eq_some_iff.1 hstep with ⟨cond, -, hrest⟩
      split at hrest
      · cases hrest
        show 3 < 5
        omega
      · rcases Queue.popTest_cases hrest with ⟨hnone, -⟩ | ⟨head, nodes, -, -, rfl⟩
        · exact absurd hnone (hhead (Or.inr rfl))
        · exact Nat.lt_succ_self 4
  | popFree head ticket =>
      rcases Option.map_eq_some_iff.1 hstep with ⟨node, -, rfl⟩
      exact Nat.lt_succ_self 3
  | popDone data =>
      rcases Option.map_eq_some_iff.1 hstep with ⟨q', -, rfl⟩
      exact Nat.lt_succ_self 2
  | retChunk data => cases hstep
  | _ => exact hcovers.elim

/-- The {lit}`k`-th chunk has been passed on, or there is a reason why not. -/
def State.PassedOr (k : Nat) (s : State) : Prop :=
  k < s.passed.length ∨ false ∈ s.outcomes ∨ s.main.before = false

/-- The {lit}`k`-th chunk is in the queue. -/
def State.Pushed (k : Nat) (src : Chunk) (s : State) : Prop :=
  s.Submitted k src ∧ k < s.pool.queue.pushed.length

/-- While the chunk is not passed on, a pop that looks at the list finds it not empty. -/
theorem head_ne_none (hreach : senderMachine.Reach ok s) {k : Nat}
    (hk : k < s.pool.queue.pushed.length) (hnot : ¬ s.PassedOr k) {c : Call Copy}
    (hcall : s.pool.call .send = some c) (hlooks : c = .popBlockLock ∨ c = .popBlockWait) :
    s.pool.queue.head ≠ none := by
  rcases Pool.exists_inv (reachable_pool hreach) with ⟨l, hinv⟩
  have hc := control hreach
  have hdelivery := (delivery hreach).1
  have hpc := (hc.thread_inPop hcall).1
  have halive : s.thread ≠ .exited := by simp [hpc]
  have htaken : c.taken = none := by
    rcases hlooks with rfl | rfl <;> rfl
  -- nothing is in anybody's hand, so all that is popped has been passed on
  have hledger := hdelivery.ledger
  rw [hc.mainHand_eq_nil halive, State.threadHand, hcall, ticketOf_some, htaken, hpc] at hledger
  have hpopped := congrArg List.length hledger
  have hpassed := hdelivery.passedLength halive
  rw [hpc] at hpassed
  simp only [ThreadPc.copy, ThreadPc.unreleased, Option.toList_none, Option.map_none,
    List.append_nil, List.length_map, List.length_range, Nat.add_zero] at hpopped hpassed
  intro hnone
  have hbacklog := hinv.shape.backlog_eq
  rw [hinv.shape.head_eq_none_iff.1 hnone, List.length_nil, NodeList.backlog] at hbacklog
  exact hnot (Or.inl (by omega))

/-- A thread that waits beside a chunk has been woken. -/
theorem woken_of_head (hreach : senderMachine.Reach ok s) (hbefore : s.main.before = true)
    (hcall : s.pool.call .send = some .popBlockWait) (hhead : s.pool.queue.head ≠ none) :
    Tid.send ∈ s.pool.queue.cond.woken := by
  have hwaits := Pool.waits (reachable_pool hreach)
  rcases Pool.exists_inv (reachable_pool hreach) with ⟨l, hinv⟩
  rcases List.mem_append.1 ((hwaits.cond .send).2 ⟨_, hcall, rfl⟩) with hwaiting | hwoken
  · have hserved := (fed hreach hbefore).supplied.served (List.ne_nil_of_mem hwaiting)
    have hlist : l ≠ [] := fun hnil => hhead (hinv.shape.head_eq_none_iff.2 hnil)
    rw [hinv.shape.backlog_eq] at hserved
    have hpos : 0 < s.pool.queue.cond.woken.length :=
      Nat.lt_of_lt_of_le (List.length_pos_of_ne_nil hlist) hserved
    rcases List.exists_mem_of_length_pos hpos with ⟨u, hu⟩
    cases u with
    | send => exact hu
    | main =>
        -- the main thread does not pop with queue_pop_block
        rcases (hwaits.cond .main).1 (List.mem_append_right _ hu) with ⟨c, hmain, hwait⟩
        have hinside := (control hreach).main
        rw [hmain] at hinside
        rcases hinside.op_of_some with ⟨op, hop, hcovers⟩
        cases c <;> cases hwait
        cases hpc : s.main <;> rw [hpc] at hop <;> cases hop <;> exact hcovers.elim
  · exact hwoken

/-- A copy less under way outweighs the steps of the loop. -/
theorem toPass_lt {r d d' : Nat} (hd : d' < d) : r * 11 + d' < r * 11 + d := by
  omega

/-- The send thread comes closer to passing the copy with every step. -/
theorem variant_pass (k : Nat) (src : Chunk) :
    senderMachine.Variant ok (Steps .send) (State.Pushed k src) (State.PassedOr k)
      fun s => (k - s.passed.length) * 11 + s.toPass := by
  intro s a s' hreach hk hnot _ hstep
  have htr := State.transition hstep
  have hlater : s'.Pushed k src :=
    ⟨htr.submitted hk.1, hk.2.trans_le htr.grows.2.length_le⟩
  by_cases ha : Steps .send a
  · suffices hless : s'.PassedOr k ∨
        (k - s'.passed.length) * 11 + s'.toPass < (k - s.passed.length) * 11 + s.toPass by
      exact hless.imp_right fun h => ⟨hlater, h.le, fun _ => h⟩
    have hc := control hreach
    have hbefore : s.main.before = true := by
      by_contra hfalse
      exact hnot (Or.inr (Or.inr (Bool.eq_false_of_not_eq_true hfalse)))
    have hfed := fed hreach hbefore
    have hnone : false ∉ s.outcomes := fun hmem => hnot (Or.inr (Or.inl hmem))
    have hwhole : s.thread.broken = false := by
      by_contra htrue
      exact hnone (hfed.broken (by simpa using htrue))
    cases htr with
    | queueSection t ch c next hcall hsection =>
        cases ha
        rcases hc.thread_inPop hcall with ⟨hpc, hcovers⟩
        have hless := popToPass_step hcovers (head_ne_none hreach hk.2 hnot hcall) hsection
        refine Or.inr (toPass_lt ?_)
        simpa [State.toPass, hpc, hcall, Pool.moved] using hless
    | loopEnter hpc =>
        refine Or.inr (toPass_lt ?_)
        simp [State.toPass, hpc, Pool.entered, QueueOp.entry, popToPass]
    | loopExit hpc hmtx hkeep =>
        rw [hc.keep, hbefore] at hkeep
        cases hkeep
    | popNothing hcall => exact absurd (hfed.nothing _ hcall) (by simp [Call.foundNothing])
    | popChunk n c hcall =>
        refine Or.inr (toPass_lt ?_)
        simp [State.toPass, (hc.thread_inPop hcall).1, hcall, popToPass]
    | passChunk c hpc hcall =>
        by_cases hlast : k < s.passed.length + 1
        · left
          left
          simpa using hlast
        · right
          simp only [State.toPass, hpc, List.length_append, List.length_singleton]
          omega
    | sendReturns ok c hpc hcall =>
        cases ok with
        | false => exact Or.inl (Or.inr (Or.inl (by simp)))
        | true =>
            refine Or.inr (toPass_lt ?_)
            simp [State.toPass, hpc]
    | release ok c hpc hcall =>
        cases ok with
        | false =>
            rw [hpc] at hwhole
            cases hwhole
        | true =>
            refine Or.inr (toPass_lt ?_)
            simp [State.toPass, hpc]
    | brokenExit hpc =>
        rw [hpc] at hwhole
        cases hwhole
    | _ => cases ha
  · rcases htr.send_frame ha with ⟨hthread, hpassed, -, hcall⟩
    refine Or.inr ⟨hlater, ?_, fun h => absurd h ha⟩
    simp only [State.toPass, hthread, hpassed, hcall, le_refl]

/-- The send thread can always go on while the chunk is not passed on. -/
theorem ready_pass (hreach : senderMachine.Reach ok s) {k : Nat} {src : Chunk}
    (hk : s.Pushed k src) (hnot : ¬ s.PassedOr k) : s.Ready .send := by
  have hc := control hreach
  have hpool := reachable_pool hreach
  rcases Pool.exists_inv hpool with ⟨l, hinv⟩
  have hbefore : s.main.before = true := by
    by_contra hfalse
    exact hnot (Or.inr (Or.inr (Bool.eq_false_of_not_eq_true hfalse)))
  have hwhole : s.thread.broken = false := by
    by_contra htrue
    exact hnot (Or.inr (Or.inl ((fed hreach hbefore).broken (by simpa using htrue))))
  cases hcall : s.pool.call .send with
  | none =>
      refine State.ready_of_local hc hcall ?_ fun _ => ?_
      · intro hexited
        rw [hexited] at hwhole
        cases hwhole
      · rw [hc.mtx]
        cases hpc : s.main <;> rw [hpc] at hbefore <;> first | rfl | cases hbefore
  | some c =>
      cases hfinished : c.finished with
      | true => exact State.ready_of_return hc hcall hfinished
      | false =>
          refine State.ready_of_section hinv (Pool.exists_free hpool) hcall hfinished ?_ ?_
          · rintro rfl
            exact woken_of_head hreach hbefore hcall
              (head_ne_none hreach hk.2 hnot hcall (Or.inr rfl))
          · rintro rfl
            exact (hc.thread_inPop hcall).2.elim

variable {x : senderMachine.Execution}

/-- A chunk that has been taken is passed on, or there is a reason why not. -/
theorem exists_passed (hmain : x.WeaklyFair (Steps .main)) (hsend : x.WeaklyFair (Steps .send))
    {n k : Nat} {src : Chunk} (hk : (x.state n).Submitted k src) :
    ∃ m, n ≤ m ∧ (x.state m).PassedOr k := by
  have hx := x.meets_true
  -- first the main thread links the chunk
  rcases (variant_push k src).of_weaklyFair hx hmain
    (fun s hreach hs hnot => (enabled_iff s .main).2 (ready_push hreach hs hnot)) hk with
    ⟨i, hni, hlinked | hdestroyed⟩
  · -- then the send thread comes to it
    have hlater := hx.lasts (fun s a s' _ _ hs hstep => (State.transition hstep).submitted hs)
      hni hk
    rcases (variant_pass k src).of_weaklyFair hx hsend
      (fun s hreach hs hnot => (enabled_iff s .send).2 (ready_pass hreach hs hnot))
      ⟨hlater, hlinked⟩ with ⟨m, him, hpassed⟩
    exact ⟨m, hni.trans him, hpassed⟩
  · exact ⟨i, hni, Or.inr (Or.inr hdestroyed)⟩

/-- In every execution that is weakly fair to both threads, whatever else happens in it:
the copy of a chunk that {lit}`iemnet__sender_send` has taken is passed to the send function
as the next in its turn, unless a send fails or {lit}`iemnet__sender_destroy` gets the mutex
before. -/
theorem eventually_passed {x : senderMachine.Execution} (hmain : x.WeaklyFair (Steps .main))
    (hsend : x.WeaklyFair (Steps .send)) {n k : Nat} {src : Chunk}
    (hk : (x.state n).submitted[k]? = some src) :
    ∃ m, n ≤ m ∧ ((x.state m).passed[k]? = some (copyOf k src) ∨
      false ∈ (x.state m).outcomes ∨ (x.state m).main.before = false) := by
  have hx := x.meets_true
  rcases exists_passed hmain hsend hk with ⟨m, hnm, hpassed | hreason⟩
  · refine ⟨m, hnm, Or.inl ?_⟩
    have hlater : (x.state m).Submitted k src :=
      hx.lasts (fun s a s' _ _ hs hstep => (State.transition hstep).submitted hs) hnm hk
    rcases Pool.exists_inv (reachable_pool (hx.reach m)) with ⟨l, hinv⟩
    have hdelivery := (delivery (hx.reach m)).1
    have hbegin := (hdelivery.passed_prefix hinv).trans hdelivery.pushed_prefix
    have hcopy : (copiesOf (x.state m).submitted)[k]? = some (copyOf k src) := by
      rw [copiesOf, List.getElem?_mapIdx, hlater]
      rfl
    rw [List.getElem?_eq_getElem hpassed, ← List.prefix_iff_getElem?.1 hbegin k hpassed, hcopy]
  · exact ⟨m, hnm, Or.inr hreason⟩

/-! ## The answer -/

/-- The send function has returned from the {lit}`k`-th chunk, or there is a reason why
not. -/
def State.AnsweredOr (k : Nat) (s : State) : Prop :=
  k < s.outcomes.length ∨ false ∈ s.outcomes ∨ s.main.before = false

/-- A chunk that has been passed on and not answered is inside the send function. -/
theorem sending_of_not_answered (hreach : senderMachine.Reach ok s) {k : Nat}
    (hk : s.PassedOr k) (hnot : ¬ s.AnsweredOr k) :
    (∃ c, s.thread = .sending c) ∧ k < s.outcomes.length + 1 := by
  have hlength := (delivery hreach).1.outcomesLength
  rcases hk with hpassed | hreason
  · have hle : s.outcomes.length ≤ k := by
      by_contra hlt
      exact hnot (Or.inl (not_le.1 hlt))
    cases hpc : s.thread with
    | sending c =>
        simp only [hpc, ThreadPc.unanswered] at hlength
        exact ⟨⟨c, rfl⟩, hlength ▸ hpassed⟩
    | _ =>
        simp only [hpc, ThreadPc.unanswered] at hlength
        omega
  · exact absurd (Or.inr hreason) hnot

/-- The next step of the send thread is the return. -/
theorem variant_answer (k : Nat) :
    senderMachine.Variant ok (Steps .send) (State.PassedOr k) (State.AnsweredOr k)
      fun _ => 0 := by
  intro s a s' hreach hk hnot _ hstep
  have htr := State.transition hstep
  rcases sending_of_not_answered hreach hk hnot with ⟨⟨c, hpc⟩, hlt⟩
  by_cases ha : Steps .send a
  · left
    have hthread := (control hreach).thread
    rw [hpc] at hthread
    have hcall := hthread.eq_none
    cases htr with
    | sendReturns ok c' =>
        left
        simpa using hlt
    | queueSection t ch c' next hsome =>
        cases ha
        rw [hcall] at hsome
        cases hsome
    | popNothing hsome | popChunk k' c' hsome =>
        rw [hcall] at hsome
        cases hsome
    | loopEnter hother | loopExit hother | passChunk c' hother | release r c' hother
    | brokenExit hother =>
        rw [hpc] at hother
        cases hother
    | _ => cases ha
  · rcases htr.send_frame ha with ⟨-, hpassed, houtcomes, -⟩
    have hlater : s'.PassedOr k := by
      rcases hk with hpassed' | hfailed | hdestroyed
      · exact Or.inl (hpassed ▸ hpassed')
      · exact Or.inr (Or.inl (houtcomes ▸ hfailed))
      · exact absurd (Or.inr (Or.inr hdestroyed)) hnot
    exact Or.inr ⟨hlater, le_refl _, fun h => absurd h ha⟩

/-- The send function returns from every chunk it has been given. -/
theorem exists_answered (hsend : x.WeaklyFair (Steps .send)) {n k : Nat}
    (hk : (x.state n).PassedOr k) : ∃ m, n ≤ m ∧ (x.state m).AnsweredOr k := by
  refine (variant_answer k).of_weaklyFair x.meets_true hsend ?_ hk
  intro s hreach hs hnot
  rcases (sending_of_not_answered hreach hs hnot).1 with ⟨c, hpc⟩
  have hthread := (control hreach).thread
  rw [hpc] at hthread
  rw [enabled_iff]
  refine State.ready_of_local (control hreach) hthread.eq_none ?_ ?_ <;> simp [hpc]

/-- A chunk is sent, and the send thread waits for another one. -/
def sendThenWait : List Action :=
  .callSend (some ⟨[1#8, 2#8], 0, 0#16, 2⟩) :: (quietSteps .main 5 ++ quietSteps .send 12)

/-- In a fair execution the two numbers that were submitted are passed to the kernel. -/
theorem eventually_passed_run :
    ∃ x : senderMachine.Execution, x.WeaklyFair (Steps .main) ∧ x.WeaklyFair (Steps .send) ∧
      ∃ m, 2 ≤ m ∧ ((x.state m).passed[0]? = some (copyOf 0 ⟨[1#8, 2#8], 0, 0#16, 2⟩) ∨
        false ∈ (x.state m).outcomes ∨ (x.state m).main.before = false) := by
  have hrun : senderMachine.run create sendThenWait = some _ := rfl
  -- at the end the main thread is idle, and the send thread waits for a signal
  have hmain : (Machine.Execution.ofRun rfl hrun).WeaklyFair (Steps .main) := by
    apply Machine.Execution.weaklyFair_ofRun
    rw [enabled_iff]
    rintro ⟨ch, hsome⟩
    cases hsome
  have hsend : (Machine.Execution.ofRun rfl hrun).WeaklyFair (Steps .send) := by
    apply Machine.Execution.weaklyFair_ofRun
    rw [enabled_iff]
    rintro ⟨ch, hsome⟩
    cases hsome
  exact ⟨_, hmain, hsend, eventually_passed hmain hsend rfl⟩

end Sender

end Iemnet
