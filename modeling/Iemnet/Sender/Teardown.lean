import Iemnet.Queue.Uses
import Iemnet.Sender.Control

/-!
# Tearing a sender down

{lit}`queue_finish` signals the popping thread once and then waits until nobody
uses the queue.  A thread that starts to wait on the empty queue after the signal,
while the use counter it has raised keeps {lit}`queue_finish` waiting, is never
woken: both threads are stuck, and the main thread holds the sender's mutex.

Main results:

- Theorem {lit}`teardown_live`: if the send thread never starts to wait in that
  window, no state before the end of {lit}`iemnet__sender_destroy` is stuck.
- Theorem {lit}`lateWait_blocks`: every wait started in the window ends in a stuck
  state.
- Theorem {lit}`teardown_stuck`: the window can be hit.
-/

namespace Iemnet

open Foundations

namespace Sender

/-- The main thread has signalled in {lit}`queue_finish` and not yet left it. -/
def State.InWindow (s : State) : Prop :=
  s.pool.call .main = some .finishTest ∨ s.pool.call .main = some .finishWait

/-- The step in which the send thread starts to wait on the empty queue while the
main thread is in the window. -/
def LateWait (s : State) (a : Action) : Prop :=
  (∃ ch, a = .step .send ch) ∧ s.pool.call .send = some .popBlockLock ∧
    s.pool.queue.head = none ∧ s.InWindow

/-- A step other than a spurious wake-up. -/
def Action.Genuine : Action → Prop
  | .spurious _ => False
  | _ => True

/-- Genuine steps without a late wait. -/
def Prompt (s : State) (a : Action) : Prop :=
  a.Genuine ∧ ¬ LateWait s a

/-- Neither thread can take a step. -/
def State.Stuck (s : State) : Prop :=
  ∀ a : Action, a.Genuine → s.step a = none

/-! ## The invariant of a prompt run -/

/-- How often a call in progress is counted by {lit}`used`. -/
def usesOf (c : Option (Call Copy)) : Nat :=
  (c.map fun c => c.inUse.toNat).getD 0

/-- The use counter counts the pops in progress. -/
def Counted (s : State) : Prop :=
  s.pool.queue.used = usesOf (s.pool.call .send) + usesOf (s.pool.call .main)

/-- {lit}`queue_finish` waits only while a pop is in progress, and a pop that waits in
the window has been woken. -/
structure Teardown (s : State) : Prop where
  waiting : Tid.main ∈ s.pool.queue.usedcond.waiting → s.pool.queue.used ≠ 0
  window : s.InWindow → s.pool.queue.done = true ∧
    (s.pool.call .send = some .popBlockWait → Tid.send ∈ s.pool.queue.cond.woken)

/-- A new sender is not being torn down. -/
theorem teardown_create : Teardown create := by
  refine ⟨?_, ?_⟩
  · simp [create, Pool.create, queueCreate, CondVar.idle]
  · rintro (h | h) <;> cases h

/-- A call uses the queue or does not. -/
@[simp]
theorem usesOf_some (c : Call Copy) : usesOf (some c) = c.inUse.toNat :=
  rfl

variable {s s' : State}

/-- Only a call can use the queue. -/
theorem usesOf_eq (c : Option (Call Copy)) : usesOf c = (c.any Call.inUse).toNat := by
  cases c with
  | none => rfl
  | some c => rfl

/-- The users of the queue are among the two threads. -/
theorem ncard_users (p : Pool Tid Copy) :
    p.users.ncard = usesOf (p.call .send) + usesOf (p.call .main) := by
  have hmem : ∀ t, t ∈ p.users ↔ (p.call t).any Call.inUse = true := fun _ => Iff.rfl
  rw [usesOf_eq, usesOf_eq]
  by_cases hsend : (p.call .send).any Call.inUse = true
  · by_cases hmain : (p.call .main).any Call.inUse = true
    · have hall : p.users = {.send, .main} := by
        ext t
        cases t <;> simp [hmem, hsend, hmain]
      rw [hall, Set.ncard_pair (by simp), hsend, hmain]
      rfl
    · have hone : p.users = {.send} := by
        ext t
        cases t <;> simp [hmem, hsend, hmain]
      rw [hone, Set.ncard_singleton, hsend, Bool.eq_false_of_not_eq_true hmain]
      rfl
  · by_cases hmain : (p.call .main).any Call.inUse = true
    · have hone : p.users = {.main} := by
        ext t
        cases t <;> simp [hmem, hsend, hmain]
      rw [hone, Set.ncard_singleton, hmain, Bool.eq_false_of_not_eq_true hsend]
      rfl
    · have hnone : p.users = ∅ := by
        ext t
        cases t <;> simp [hmem, hsend, hmain]
      rw [hnone, Set.ncard_empty, Bool.eq_false_of_not_eq_true hsend,
        Bool.eq_false_of_not_eq_true hmain]
      rfl

/-- The queue counts the users in every state. -/
theorem counted {ok : State → Action → Prop} (h : senderMachine.Reach ok s) : Counted s := by
  have hused := (Pool.counted (reachable_pool h)).used
  rw [ncard_users] at hused
  exact_mod_cast hused

/-- A call that starts or ends is not inside a wait. -/
theorem Teardown.setPool (h : Teardown s) {p : Pool Tid Copy} (hqueue : p.queue = s.pool.queue)
    (hwindow : p.call .main = some .finishTest ∨ p.call .main = some .finishWait → s.InWindow)
    (hsend : p.call .send = some .popBlockWait → s.pool.call .send = some .popBlockWait)
    (hpool : s'.pool = p) : Teardown s' := by
  subst hpool
  refine ⟨?_, ?_⟩
  · rw [hqueue]
    exact h.waiting
  · intro hin
    rw [hqueue]
    exact ⟨(h.window (hwindow hin)).1, fun hc => (h.window (hwindow hin)).2 (hsend hc)⟩

/-- A pop of the send thread keeps the teardown in order. -/
theorem Teardown.entered_send (h : Teardown s)
    (hpool : s'.pool = s.pool.entered .send .popBlock) : Teardown s' := by
  refine h.setPool (p := s.pool.entered .send .popBlock) rfl ?_ ?_ hpool
  · intro hin
    simpa [State.InWindow] using hin
  · simp [Pool.entered, QueueOp.entry]

/-- A call of the main thread keeps the teardown in order. -/
theorem Teardown.entered_main (h : Teardown s) {op : QueueOp Copy}
    (hpool : s'.pool = s.pool.entered .main op) : Teardown s' := by
  refine h.setPool (p := s.pool.entered .main op) rfl ?_ ?_ hpool
  · rintro (hin | hin) <;> cases op <;> simp [Pool.entered, QueueOp.entry] at hin
  · simp

/-- Leaving a call keeps the teardown in order. -/
theorem Teardown.left (h : Teardown s) {t : Tid} (hpool : s'.pool = s.pool.left t) :
    Teardown s' := by
  cases t with
  | send =>
      refine h.setPool (p := s.pool.left .send) rfl ?_ ?_ hpool
      · intro hin
        simpa [State.InWindow] using hin
      · simp
  | main => exact h.setPool (p := s.pool.left .main) rfl (by simp) (by simp) hpool

/-- A section of the send thread. -/
theorem Teardown.sendSection (h : Teardown s) (hcount : Counted s) (hc : Control s)
    (hwaits : s.pool.Waits) {addr : Nat} {wake : Option Tid} {c : Call Copy}
    {next : Queue Tid Copy × Call Copy}
    (hcall : s.pool.call .send = some c)
    (hstep : c.step .send addr wake s.pool.queue = some next)
    (hprompt : c = .popBlockLock → s.pool.queue.head = none → ¬ s.InWindow)
    (hpool : s'.pool = s.pool.moved .send next) : Teardown s' := by
  have hsync := Call.sync hstep
  rcases Call.step_popBlock (hc.thread_inPop hcall).2 hstep with ⟨hdone, huse, hwait⟩
  have hused : next.1.used = (next.2.inUse.toNat : Int) + usesOf (s.pool.call .main) := by
    have hbalance := hsync.used
    rw [Counted, hcall, usesOf_some] at hcount
    omega
  refine ⟨?_, ?_⟩
  · intro hmain
    rw [hpool, Pool.moved_queue] at hmain ⊢
    rcases huse with huse | ⟨data, rfl⟩
    · simp only [huse, Bool.toNat_true, Nat.cast_one] at hused
      omega
    · -- the decrement has woken the only thread that can wait here
      rcases Option.map_eq_some_iff.1 hstep with ⟨q', hq', rfl⟩
      rcases Option.map_eq_some_iff.1 hq' with ⟨usedcond, husedcond, rfl⟩
      exfalso
      have hmain : Tid.main ∈ usedcond.waiting := hmain
      have hinside : Tid.main ∈ s.pool.queue.usedcond.inside :=
        (CondVar.mem_signal husedcond _).1 (List.mem_append_left _ hmain)
      have honly : ∀ u ∈ s.pool.queue.usedcond.waiting, u = Tid.main := by
        intro u hu
        rcases (hwaits.usedcond u).1 (List.mem_append_left _ hu) with ⟨c, hcu, hcw⟩
        cases u with
        | main => rfl
        | send =>
            rw [hcall] at hcu
            cases hcu
            cases hcw
      have hwoken := CondVar.woken_of_signal husedcond honly hinside
      have hnodup := (CondVar.perm_signal husedcond).nodup_iff.2 hwaits.usedcondNodup
      exact (List.nodup_append.1 hnodup).2.2 _ hmain _ hwoken rfl
  · intro hin
    have hin : s.InWindow := by simpa [State.InWindow, hpool, Pool.moved] using hin
    rw [hpool, Pool.moved_queue, hdone]
    refine ⟨(h.window hin).1, fun hnext => ?_⟩
    have hnext : next.2 = .popBlockWait := by simpa [Pool.moved] using hnext
    rcases hwait hnext with ⟨hlock, hhead⟩ | ⟨-, hnotdone⟩
    · exact absurd hin (hprompt hlock hhead)
    · simp [(h.window hin).1] at hnotdone

/-- A section of the main thread. -/
theorem Teardown.mainSection (h : Teardown s) (hc : Control s) (hwaits : s.pool.Waits)
    {addr : Nat} {wake : Option Tid} {c : Call Copy} {next : Queue Tid Copy × Call Copy}
    (hcall : s.pool.call .main = some c)
    (hstep : c.step .main addr wake s.pool.queue = some next)
    (hpool : s'.pool = s.pool.moved .main next) : Teardown s' := by
  have hsync := Call.sync hstep
  have husedcond := hsync.usedcond.inside hwaits.usedcondNodup
    (by simp [hwaits.usedcond, hcall])
  -- only a thread inside queue_finish reaches its program points
  have hcovers : next.2 = .finishTest ∨ next.2 = .finishWait → QueueOp.finish.Covers c := by
    intro hnext
    have hmain := hc.main
    rw [hcall] at hmain
    rcases hmain.op_of_some with ⟨op, -, hop⟩
    have hop' := hop.step hstep
    cases op with
    | finish => exact hop
    | _ => rcases hnext with hnext | hnext <;> rw [hnext] at hop' <;> exact hop'.elim
  refine ⟨?_, ?_⟩
  · intro hmain
    rw [hpool, Pool.moved_queue] at hmain ⊢
    have hinside := (husedcond.2 .main).1 (List.mem_append_left _ hmain)
    have hnext : next.2 = .finishWait := by
      cases hcase : next.2 <;> simp [hcase, Call.waitsFinish] at hinside
      rfl
    rcases Call.step_finishing (hcovers (Or.inr hnext)) hstep (by rw [hnext]; rfl) with
      ⟨-, htest, -⟩ | ⟨-, -, hused, hsame, -⟩
    · simp [hnext] at htest
    · rw [hsame]
      exact hused
  · intro hin
    have hin : next.2 = .finishTest ∨ next.2 = .finishWait := by
      simpa [State.InWindow, hpool, Pool.moved] using hin
    have hrunning : next.2.finished = false := by
      rcases hin with hin | hin <;> rw [hin] <;> rfl
    rw [hpool, Pool.moved_queue]
    rcases Call.step_finishing (hcovers hin) hstep hrunning with
      ⟨rfl, -, hdone, hsignal⟩ | ⟨hwindow, -, -, -, hcond, hdone⟩
    · -- the signal reaches the send thread if it waits
      refine ⟨hdone, fun hsend => ?_⟩
      have hsend : s.pool.call .send = some .popBlockWait := by
        simpa [Pool.moved] using hsend
      refine CondVar.woken_of_signal hsignal ?_ ((hwaits.cond .send).2 ⟨_, hsend, rfl⟩)
      intro u hu
      rcases (hwaits.cond u).1 (List.mem_append_left _ hu) with ⟨c, hcu, hcw⟩
      cases u with
      | send => rfl
      | main =>
          rw [hcall] at hcu
          cases hcu
          cases hcw
    · have hin' : s.InWindow := by
        rcases hwindow with rfl | rfl
        · exact Or.inl hcall
        · exact Or.inr hcall
      rw [hcond, hdone]
      simpa [Pool.moved] using h.window hin'

/-- A prompt step keeps the invariant. -/
theorem Teardown.transition (h : Teardown s) (hcount : Counted s) (hc : Control s)
    (hwaits : s.pool.Waits) {a : Action} (hprompt : Prompt s a) (htr : Transition s a s') :
    Teardown s' := by
  cases htr with
  | queueSection t ch c next hcall hstep =>
      cases t with
      | main => exact h.mainSection hc hwaits hcall hstep rfl
      | send =>
          refine h.sendSection hcount hc hwaits hcall hstep ?_ rfl
          rintro rfl hhead hin
          exact hprompt.2 ⟨⟨ch, rfl⟩, hcall, hhead, hin⟩
  | spurious t c q hcall hwake => exact hprompt.1.elim
  | loopEnter => exact h.entered_send rfl
  | sendNothing | sendCopy | destroyWait | destroyGone | relockWait | relockGone | join
  | drainRelease => exact h.entered_main rfl
  | popNothing | popChunk | pushReturn | finishReturn | finish2Return | drainEmpty
  | drainChunk => exact h.left rfl
  | finish3Return =>
      have hleft : Teardown { s with pool := s.pool.left .main } := h.left rfl
      exact hleft.entered_main rfl
  | _ => exact { h with }

/-- The teardown is in order in every run in which the finish comes in time. -/
theorem teardown (h : senderMachine.Reach Prompt s) : Teardown s := by
  refine Machine.Reach.invariant ?_ ?_ h
  · rintro s rfl
    exact teardown_create
  · intro s a s' hreach hteardown hprompt hstep
    exact hteardown.transition (counted hreach) (control hreach)
      (Pool.waits (reachable_pool hreach)) hprompt
      (State.transition hstep)

/-! ## Progress -/

/-- Some genuine step is possible. -/
def State.Live (s : State) : Prop :=
  ∃ a : Action, a.Genuine ∧ (s.step a).isSome

/-- Where a thread can make a step the sender is alive. -/
theorem State.live_of_step (t : Tid) (ch : Choice) (h : (s.advance t ch).isSome) : s.Live :=
  ⟨.step t ch, trivial, h⟩

/-- A thread that is in no call can enter one. -/
theorem State.isSome_enter {t : Tid} {op : QueueOp Copy} (hcall : s.pool.call t = none) :
    (s.enter t op).isSome := by
  rw [State.enter_eq_some.2 ⟨hcall, rfl⟩]
  rfl

/-- A finished call can be left. -/
theorem State.isSome_leave {t : Tid} {c : Call Copy} (hcall : s.pool.call t = some c)
    (hfinished : c.finished = true) : (s.leave t).isSome := by
  rw [State.leave_eq_some.2 ⟨⟨c, hcall, hfinished⟩, rfl⟩]
  rfl

/-- A thread inside a queue function, not waiting in vain, can take a step. -/
theorem State.live_of_section {l : List (Nat × Copy)} (hpool : s.pool.Inv l)
    (hfree : ∃ a, s.pool.queue.heap a = none) {t : Tid} {c : Call Copy}
    (hcall : s.pool.call t = some c) (hrunning : c.finished = false)
    (hpop : c = .popBlockWait → t ∈ s.pool.queue.cond.woken)
    (hfinish : c = .finishWait → t ∈ s.pool.queue.usedcond.woken) : s.Live := by
  rcases hpool.progress hfree hcall hrunning hpop hfinish with ⟨addr, wake, hsome⟩
  rcases Option.isSome_iff_exists.1 hsome with ⟨next, hnext⟩
  refine State.live_of_step t ⟨true, addr, wake, true⟩ ?_
  have hsection : s.queueSection t ⟨true, addr, wake, true⟩ = some _ :=
    State.queueSection_eq_some.2 ⟨c, next, hcall, hnext, rfl⟩
  cases t <;> simp [State.advance, hcall, hrunning, hsection]

/-- The main thread outside the queue can take a step unless it is done. -/
theorem State.live_of_mainLocal (hc : Control s) (hcall : s.pool.call .main = none)
    (hpc : s.main ≠ .destroyed) : s.Live := by
  have hmain := hc.main
  rw [hcall] at hmain
  have hfree : s.main.owner = none → s.mtx = none := fun h => by rw [hc.mtx, h]
  by_cases hidle : s.main = .idle
  · exact ⟨.callDestroy, trivial, by simp [State.step, hidle]⟩
  refine State.live_of_step .main ⟨true, 0, none, true⟩ ?_
  simp only [State.advance, hcall]
  unfold State.mainLocal
  cases hcase : s.main with
  | idle => exact absurd hcase hidle
  | sendCheck c =>
      simp only [hfree (by rw [hcase]; rfl), Option.isSome_none, Bool.false_eq_true, if_false]
      split
      · split <;> exact State.isSome_enter hcall
      · rfl
  | destroyLock =>
      simp only [hfree (by rw [hcase]; rfl), Option.isSome_none, Bool.false_eq_true, if_false]
      split
      · unfold State.destroyLoop
        split <;> exact State.isSome_enter hcall
      · rfl
  | relock =>
      simp only [hfree (by rw [hcase]; rfl), Option.isSome_none, Bool.false_eq_true, if_false]
      unfold State.destroyLoop
      split <;> exact State.isSome_enter hcall
  | joining =>
      have hexited : s.thread = .exited := hc.late (by rw [hcase]; rfl)
      simp only [hexited, if_true]
      exact State.isSome_enter hcall
  | drainRelease c => exact State.isSome_enter hcall
  | destroyed => exact absurd hcase hpc
  | refused => exact absurd hcase hc.accepted
  | pushing _ | finishing | finishing2 | finishing3 | draining =>
      rw [hcase] at hmain
      exact hmain.elim

/-- The main thread can return from a queue function that has finished. -/
theorem State.live_of_mainReturn (hc : Control s) {c : Call Copy}
    (hcall : s.pool.call .main = some c) (hfinished : c.finished = true) : s.Live := by
  have hmain := hc.main
  rw [hcall] at hmain
  rcases hmain.op_of_some with ⟨op, hop, hcovers⟩
  refine State.live_of_step .main ⟨true, 0, none, true⟩ ?_
  simp only [State.advance, hcall, hfinished, if_true]
  unfold State.mainReturn
  cases hcase : s.main with
  | pushing data =>
      rw [hcase] at hop
      cases hop
      cases c <;> first | exact hcovers.elim | cases hfinished
      exact State.isSome_leave hcall rfl
  | finishing | finishing2 =>
      rw [hcase] at hop
      cases hop
      cases c <;> first | exact hcovers.elim | cases hfinished
      exact State.isSome_leave hcall rfl
  | finishing3 =>
      rw [hcase] at hop
      cases hop
      cases c <;> first | exact hcovers.elim | cases hfinished
      have hleave : State.leave { s with main := .draining } .main = some _ :=
        State.leave_eq_some.2 ⟨⟨_, hcall, rfl⟩, rfl⟩
      simp only [hleave, Option.bind_some]
      exact State.isSome_enter (call_left_self ..)
  | draining =>
      rw [hcase] at hop
      cases hop
      cases c <;> first | exact hcovers.elim | cases hfinished
      rename_i data
      rcases data with - | ⟨k, d⟩ <;> exact State.isSome_leave hcall rfl
  | _ => simp [hcase, MainPc.op] at hop

/-- Before the end of {lit}`iemnet__sender_destroy` a state of a prompt run is not
stuck. -/
theorem live_of_teardown (hc : Control s) (hcount : Counted s) (ht : Teardown s)
    (hwaits : s.pool.Waits) {l : List (Nat × Copy)} (hpool : s.pool.Inv l)
    (hfree : ∃ a, s.pool.queue.heap a = none) (hpc : s.main ≠ .destroyed) : s.Live := by
  cases hcall : s.pool.call .main with
  | none => exact State.live_of_mainLocal hc hcall hpc
  | some c =>
      cases hfinished : c.finished with
      | true => exact State.live_of_mainReturn hc hcall hfinished
      | false =>
          by_cases hwaiting : Tid.main ∈ s.pool.queue.usedcond.waiting
          · -- the queue is in use, so the send thread is popping, and it has been woken
            have hin : s.InWindow := by
              rcases (hwaits.usedcond .main).1 (List.mem_append_left _ hwaiting) with
                ⟨c', hc', hcw⟩
              cases c' <;> simp [Call.waitsFinish] at hcw
              exact Or.inr hc'
            have hused := ht.waiting hwaiting
            have hmainUse : usesOf (s.pool.call .main) = 0 := by
              rcases hin with hin | hin <;> rw [hin] <;> rfl
            rw [Counted, hmainUse] at hcount
            cases hsend : s.pool.call .send with
            | none =>
                rw [hsend] at hcount
                exact absurd hcount hused
            | some c' =>
                have huse : c'.inUse = true := by
                  rw [hsend, usesOf_some] at hcount
                  cases hcase : c'.inUse
                  · rw [hcase] at hcount
                    exact absurd hcount hused
                  · rfl
                have hcovers := (hc.thread_inPop hsend).2
                refine State.live_of_section hpool hfree hsend ?_ ?_ ?_
                · cases hcase : c'.finished
                  · rfl
                  · simp [Call.inUse_of_finished hcase] at huse
                · rintro rfl
                  exact (ht.window hin).2 hsend
                · rintro rfl
                  exact hcovers.elim
          · refine State.live_of_section hpool hfree hcall hfinished ?_ ?_
            · rintro rfl
              have hmain := hc.main
              rw [hcall] at hmain
              rcases hmain.op_of_some with ⟨op, hop, hcovers⟩
              cases hcase : s.main <;> rw [hcase] at hop <;> cases hop <;> exact hcovers.elim
            · rintro rfl
              have hinside := (hwaits.usedcond .main).2 ⟨_, hcall, rfl⟩
              exact (List.mem_append.1 hinside).resolve_left hwaiting

/-- In every run without spurious wake-ups in which the send thread never starts to
wait on the empty queue while {lit}`queue_finish` has signalled and not yet left,
one of the two threads can take a step in every state before the end of
{lit}`iemnet__sender_destroy`. -/
theorem teardown_live (h : senderMachine.Reach Prompt s) (hpc : s.main ≠ .destroyed) :
    ∃ a : Action, a.Genuine ∧ (s.step a).isSome := by
  have hreach := reachable_pool h
  rcases Pool.exists_inv hreach with ⟨l, hpool⟩
  exact live_of_teardown (control h) (counted h) (teardown h) (Pool.waits hreach) hpool
    (Pool.exists_free hreach) hpc

/-- Steps of the main thread meet the condition. -/
theorem prompt_main (s : State) (ch : Choice) : Prompt s (.step .main ch) := by
  refine ⟨trivial, ?_⟩
  rintro ⟨⟨ch', hch'⟩, -⟩
  cases hch'

/-- Calling the destructor meets the condition. -/
theorem prompt_callDestroy (s : State) : Prompt s .callDestroy := by
  refine ⟨trivial, ?_⟩
  rintro ⟨⟨ch', hch'⟩, -⟩
  cases hch'

/-- Outside {lit}`queue_finish` the send thread may wait. -/
theorem prompt_send {s : State} (ch : Choice) (hcall : s.pool.call .main = none) :
    Prompt s (.step .send ch) := by
  refine ⟨trivial, ?_⟩
  rintro ⟨-, -, -, hin | hin⟩ <;> simp [hcall] at hin

/-- The main thread waits in {lit}`queue_finish` for a pop that had been waiting since
before: the signal has woken it. -/
theorem teardown_live_run :
    ∃ s, senderMachine.Reach Prompt s ∧ s.pool.call .main = some .finishWait ∧
      ∃ a : Action, a.Genuine ∧ (s.step a).isSome := by
  have h₀ : senderMachine.Reach Prompt create := .start rfl
  have h₁ := h₀.next (prompt_send ⟨true, 0, none, true⟩ rfl) rfl
  have h₂ := h₁.next (prompt_send ⟨true, 0, none, true⟩ rfl) rfl
  have h₃ := h₂.next (prompt_send ⟨true, 0, none, true⟩ rfl) rfl
  have h₄ := h₃.next (prompt_callDestroy _) rfl
  have h₅ := h₄.next (prompt_main _ ⟨true, 0, none, true⟩) rfl
  have h₆ := h₅.next (prompt_main _ ⟨true, 0, some .send, true⟩) rfl
  have h₇ := h₆.next (prompt_main _ ⟨true, 0, none, true⟩) rfl
  exact ⟨_, h₇, rfl, teardown_live h₇ (by simp)⟩

/-! ## The window -/

/-- A thread whose call has not finished works on the queue. -/
theorem State.advance_eq_queueSection {t : Tid} {ch : Choice} {c : Call Copy}
    (hcall : s.pool.call t = some c) (hrunning : c.finished = false) :
    s.advance t ch = s.queueSection t ch := by
  cases t <;> simp [State.advance, hcall, hrunning]

/-- Both threads wait for a signal that nobody is left to give. -/
theorem State.stuck_of_waiting (hsend : s.pool.call .send = some .popBlockWait)
    (hsendWoken : Tid.send ∉ s.pool.queue.cond.woken)
    (hmain : s.pool.call .main = some .finishWait)
    (hmainWoken : Tid.main ∉ s.pool.queue.usedcond.woken) (hpc : s.main ≠ .idle) :
    s.Stuck := by
  intro a ha
  cases a with
  | callSend c => simp [State.step, hpc]
  | callDestroy => simp [State.step, hpc]
  | spurious t => exact ha.elim
  | step t ch =>
      cases t with
      | send =>
          have hresume : s.pool.queue.cond.resume .send = none := by
            simp [CondVar.resume, hsendWoken]
          simp [State.step, State.advance_eq_queueSection hsend rfl, State.queueSection,
            Pool.step, hsend, Call.step, hresume]
      | main =>
          have hresume : s.pool.queue.usedcond.resume .main = none := by
            simp [CondVar.resume, hmainWoken]
          simp [State.step, State.advance_eq_queueSection hmain rfl, State.queueSection,
            Pool.step, hmain, Call.step, hresume]

/-- While the queue is in use the main thread can only go on to wait. -/
theorem State.exists_mainWait (hwaits : s.pool.Waits) (hused : s.pool.queue.used ≠ 0)
    (hmain : s.pool.call .main = some .finishTest ∨
      s.pool.call .main = some .finishWait ∧ Tid.main ∈ s.pool.queue.usedcond.woken) :
    ∃ ch s', s.step (.step .main ch) = some s' ∧ s'.main = s.main ∧
      s'.pool.call .send = s.pool.call .send ∧ s'.pool.queue.cond = s.pool.queue.cond ∧
      s'.pool.call .main = some .finishWait ∧ Tid.main ∉ s'.pool.queue.usedcond.woken := by
  have hsection : ∀ c, s.pool.call .main = some c → c.finished = false →
      ∀ u, c.step .main 0 none s.pool.queue =
        some ({ s.pool.queue with usedcond := u }, .finishWait) → Tid.main ∉ u.woken →
      ∃ ch s', s.step (.step .main ch) = some s' ∧ s'.main = s.main ∧
        s'.pool.call .send = s.pool.call .send ∧ s'.pool.queue.cond = s.pool.queue.cond ∧
        s'.pool.call .main = some .finishWait ∧ Tid.main ∉ s'.pool.queue.usedcond.woken := by
    intro c hcall hrunning u hstep hu
    refine ⟨⟨true, 0, none, true⟩, { s with
      pool := s.pool.moved .main ({ s.pool.queue with usedcond := u }, .finishWait) }, ?_, rfl,
      ?_, rfl, ?_, hu⟩
    · simp only [State.step, State.advance_eq_queueSection hcall hrunning]
      exact State.queueSection_eq_some.2 ⟨c, _, hcall, hstep, rfl⟩
    · simp [Pool.moved]
    · simp [Pool.moved]
  rcases hmain with hcall | ⟨hcall, hwoken⟩
  · have hout : Tid.main ∉ s.pool.queue.usedcond.inside := by
      simp [hwaits.usedcond, hcall, Call.waitsFinish]
    refine hsection _ hcall rfl (s.pool.queue.usedcond.wait .main) ?_ ?_
    · simp [Call.step, Queue.finishLoop, hused]
    · exact fun hmem => hout (List.mem_append_right _ hmem)
  · have hresume := CondVar.resume_eq_some.2 ⟨hwoken, rfl⟩
    have hnodup : s.pool.queue.usedcond.woken.Nodup :=
      (List.nodup_append.1 hwaits.usedcondNodup).2.1
    refine hsection _ hcall rfl (CondVar.wait ⟨s.pool.queue.usedcond.waiting,
      s.pool.queue.usedcond.woken.erase .main⟩ .main) ?_ ?_
    · simp [Call.step, hresume, Queue.finishLoop, hused]
    · exact hnodup.not_mem_erase

/-- A late wait is fatal: the state behind it, or the one behind the next step of the
main thread, is stuck, and {lit}`iemnet__sender_destroy` has not returned. -/
theorem lateWait_blocks (h : senderMachine.Reachable s) {a : Action} (hlate : LateWait s a)
    (hstep : s.step a = some s') :
    ∃ s'', (s'' = s' ∨ ∃ ch, s'.step (.step .main ch) = some s'') ∧ s''.Stuck ∧
      s''.main ≠ .destroyed := by
  rcases hlate with ⟨⟨ch, rfl⟩, hsend, hhead, hin⟩
  have hreach' : senderMachine.Reachable s' := h.next (a := .step .send ch) trivial hstep
  have hwaits := Pool.waits (reachable_pool h)
  have hwaits' := Pool.waits (reachable_pool hreach')
  have hout : Tid.send ∉ s.pool.queue.cond.inside := by simp [hwaits.cond, hsend, Call.waitsPop]
  have hsendWoken : Tid.send ∉ s.pool.queue.cond.woken := fun hmem =>
    hout (List.mem_append_right _ hmem)
  have hmainPc : s.main ≠ .idle ∧ s.main ≠ .destroyed := by
    have hinside := (control h).main
    constructor <;> rintro hpc <;> rw [hpc] at hinside <;>
      rcases hin with hin | hin <;> rw [hin] at hinside <;> exact hinside
  -- the late wait changes nothing but the condition variable
  simp only [State.step, State.advance_eq_queueSection hsend rfl] at hstep
  rcases State.queueSection_eq_some.1 hstep with ⟨c, next, hcall, hnext, rfl⟩
  rw [hsend] at hcall
  cases hcall
  rcases Queue.popTest_cases hnext with ⟨-, rfl⟩ | ⟨head, nodes, hhead', -, -⟩
  · have hused : s.pool.queue.used ≠ 0 := by
      have hcount := counted h
      rw [Counted, hsend] at hcount
      simp only [usesOf_some, Call.inUse, Bool.toNat_true, Nat.cast_one] at hcount
      omega
    by_cases hblocked : s.pool.call .main = some .finishWait ∧
        Tid.main ∉ s.pool.queue.usedcond.woken
    · refine ⟨_, Or.inl rfl, State.stuck_of_waiting ?_ hsendWoken ?_ hblocked.2 hmainPc.1,
        hmainPc.2⟩
      · simp [Pool.moved]
      · simpa [Pool.moved] using hblocked.1
    · rcases State.exists_mainWait (s := { s with pool := s.pool.moved .send _ }) hwaits' hused
        (by
          rcases hin with hin | hin
          · exact Or.inl (by simpa [Pool.moved] using hin)
          · exact Or.inr ⟨by simpa [Pool.moved] using hin, by
              by_contra hnot
              exact hblocked ⟨hin, hnot⟩⟩) with
        ⟨ch', s'', hstep', hpc, hsend', hcond, hmain, hwoken⟩
      refine ⟨s'', Or.inr ⟨ch', hstep'⟩, State.stuck_of_waiting ?_ ?_ hmain hwoken ?_, ?_⟩
      · rw [hsend']
        simp [Pool.moved]
      · rw [hcond]
        exact hsendWoken
      · rw [hpc]
        exact hmainPc.1
      · rw [hpc]
        exact hmainPc.2
  · simp [hhead] at hhead'

/-- The send thread enters {lit}`queue_pop_block` just before {lit}`keepsending` is
cleared, and starts to wait just after {lit}`queue_finish` has signalled. -/
def lateWait : List Action :=
  [.callDestroy, .step .send ⟨true, 0, none, true⟩, .step .main ⟨true, 0, none, true⟩,
    .step .main ⟨true, 0, none, true⟩, .step .send ⟨true, 0, none, true⟩,
    .step .send ⟨true, 0, none, true⟩, .step .main ⟨true, 0, none, true⟩]

/-- A run without spurious wake-ups after which neither thread can move, inside
{lit}`iemnet__sender_destroy`. -/
theorem teardown_stuck :
    ∃ s, senderMachine.Reach (fun _ a => a.Genuine) s ∧ s.main ≠ .destroyed ∧
      ∀ a : Action, a.Genuine → s.step a = none := by
  have hrun : senderMachine.run create lateWait = some _ := rfl
  have hgenuine : ∀ a ∈ lateWait, a.Genuine := by
    intro a ha
    simp only [lateWait, List.mem_cons, List.not_mem_nil, or_false] at ha
    rcases ha with rfl | rfl | rfl | rfl | rfl | rfl | rfl <;> trivial
  refine ⟨_, Machine.Reach.run (.start rfl) (Machine.runMeets_of_forall create hgenuine) hrun,
    by simp, ?_⟩
  exact State.stuck_of_waiting rfl (by decide) rfl (by decide) (by simp)

end Sender
end Iemnet
