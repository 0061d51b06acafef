import Iemnet.Sender.Transitions

/-!
# The control invariant of the sender

How the program points of the two threads, the flags, the mutex and the calls in
progress on the queue fit together.

Main results:

- Theorem {lit}`Control.transition`: every transition keeps the invariant.
- Theorem {lit}`control`: it holds in every reachable state.
-/

namespace Iemnet

open Foundations

namespace Sender

/-- The queue function a program point of the send thread is inside. -/
def ThreadPc.op : ThreadPc → Option (QueueOp Copy)
  | .inPop => some .popBlock
  | _ => none

/-- The queue function a program point of the main thread is inside. -/
def MainPc.op : MainPc → Option (QueueOp Copy)
  | .pushing data => some (.push data)
  | .finishing => some .finish
  | .finishing2 => some .finish
  | .finishing3 => some .finish
  | .draining => some .popNoblock
  | _ => none

/-- {lit}`iemnet__sender_destroy` has not cleared {lit}`keepsending` yet. -/
def MainPc.before : MainPc → Bool
  | .idle => true
  | .sendCheck _ => true
  | .pushing _ => true
  | .destroyLock => true
  | _ => false

/-- {lit}`iemnet__sender_destroy` has found {lit}`isrunning` false. -/
def MainPc.late : MainPc → Bool
  | .finishing2 => true
  | .joining => true
  | .finishing3 => true
  | .draining => true
  | .drainRelease _ => true
  | .destroyed => true
  | _ => false

/-- The owner of the sender's mutex between two steps. -/
def MainPc.owner : MainPc → Option Tid
  | .finishing => some .main
  | _ => none

/-- A call in progress belongs to the function the program point is inside. -/
def Inside : Option (QueueOp Copy) → Option (Call Copy) → Prop
  | none, none => True
  | some op, some c => op.Covers c
  | _, _ => False

/-- Where no operation is due, there is no call. -/
theorem Inside.eq_none {c : Option (Call Copy)} (h : Inside none c) : c = none := by
  cases c with
  | none => rfl
  | some c => exact h.elim

/-- A call belongs to the operation that is due. -/
theorem Inside.op_of_some {op : Option (QueueOp Copy)} {c : Call Copy}
    (h : Inside op (some c)) : ∃ op', op = some op' ∧ op'.Covers c := by
  cases op with
  | none => exact h.elim
  | some op => exact ⟨op, rfl, h⟩

/-- How flags, mutex, program points and calls fit together. -/
structure Control (s : State) : Prop where
  thread : Inside s.thread.op (s.pool.call .send)
  main : Inside s.main.op (s.pool.call .main)
  mtx : s.mtx = s.main.owner
  running : s.isrunning = true ↔ s.thread ≠ .exited
  keep : s.keepsending = s.main.before
  late : s.main.late = true → s.thread = .exited
  accepted : s.main ≠ .refused
  cleared : s.clearedAt = none ↔ s.main.before = true

/-- A new sender has both threads at their beginnings. -/
theorem control_create : Control create := by
  refine ⟨trivial, trivial, rfl, ?_, rfl, ?_, ?_, ?_⟩ <;>
    simp [create, MainPc.late, MainPc.before]

/-! ## Calls after a transition -/

/-- Who has entered an operation is inside it. -/
theorem inside_entered (p : Pool Tid Copy) (t : Tid) (op : QueueOp Copy) :
    Inside (some op) ((p.entered t op).call t) := by
  simp [Pool.entered, Inside, QueueOp.covers_entry]

/-- Who has left a call is in none. -/
@[simp]
theorem call_left_self (p : Pool Tid Copy) (t : Tid) : (p.left t).call t = none := by
  simp [Pool.left]

/-- Who has left a call is outside. -/
theorem inside_left (p : Pool Tid Copy) (t : Tid) : Inside none ((p.left t).call t) := by
  simp [Inside]

/-- The main thread enters, and the send thread stays in its call. -/
@[simp]
theorem call_entered_main (p : Pool Tid Copy) (op : QueueOp Copy) :
    (p.entered .main op).call .send = p.call .send := by
  simp [Pool.entered]

/-- The send thread enters, and the main thread stays in its call. -/
@[simp]
theorem call_entered_send (p : Pool Tid Copy) (op : QueueOp Copy) :
    (p.entered .send op).call .main = p.call .main := by
  simp [Pool.entered]

/-- The main thread leaves, and the send thread stays in its call. -/
@[simp]
theorem call_left_main (p : Pool Tid Copy) : (p.left .main).call .send = p.call .send := by
  simp [Pool.left]

/-- The send thread leaves, and the main thread stays in its call. -/
@[simp]
theorem call_left_send (p : Pool Tid Copy) : (p.left .send).call .main = p.call .main := by
  simp [Pool.left]

/-- A section keeps both threads inside the functions they have called. -/
theorem Inside.moved {p : Pool Tid Copy} {t u : Tid} {op : Option (QueueOp Copy)}
    {addr : Nat} {wake : Option Tid} {c : Call Copy} {next : Queue Tid Copy × Call Copy}
    (h : Inside op (p.call u)) (hcall : p.call t = some c)
    (hstep : c.step t addr wake p.queue = some next) :
    Inside op ((p.moved t next).call u) := by
  by_cases hut : u = t
  · subst hut
    rw [hcall] at h
    rcases h.op_of_some with ⟨op', rfl, hcovers⟩
    simpa [Pool.moved, Inside] using hcovers.step hstep
  · simpa [Pool.moved, hut] using h

variable {s s' : State}

/-- A move of the main thread: the flags and the mutex have to fit its new program
point. -/
theorem Control.mainMove (h : Control s) (hthread : s'.thread = s.thread)
    (hrunning : s'.isrunning = s.isrunning) (hsend : s'.pool.call .send = s.pool.call .send)
    (hmain : Inside s'.main.op (s'.pool.call .main)) (hmtx : s'.mtx = s'.main.owner)
    (hkeep : s'.keepsending = s'.main.before)
    (hcleared : s'.clearedAt = none ↔ s'.main.before = true)
    (hlate : s'.main.late = true → s.thread = .exited) (haccepted : s'.main ≠ .refused) :
    Control s' := by
  refine ⟨?_, hmain, hmtx, ?_, hkeep, ?_, haccepted, hcleared⟩
  · rw [hthread, hsend]
    exact h.thread
  · rw [hthread, hrunning]
    exact h.running
  · rw [hthread]
    exact hlate

/-- A move of the main thread before {lit}`keepsending` is cleared. -/
theorem Control.beforeMove (h : Control s) (hthread : s'.thread = s.thread)
    (hrunning : s'.isrunning = s.isrunning) (hsend : s'.pool.call .send = s.pool.call .send)
    (hmain : Inside s'.main.op (s'.pool.call .main)) (hmtx : s'.mtx = s.mtx)
    (hkeep : s'.keepsending = s.keepsending) (hcleared : s'.clearedAt = s.clearedAt)
    (hbefore : s.main.before = true) (hbefore' : s'.main.before = true) : Control s' := by
  have howner : ∀ m : MainPc, m.before = true → m.owner = none := by
    intro m hm
    cases m <;> simp_all [MainPc.before, MainPc.owner]
  have hlate : ∀ m : MainPc, m.before = true → m.late = false := by
    intro m hm
    cases m <;> simp_all [MainPc.before, MainPc.late]
  refine h.mainMove hthread hrunning hsend hmain ?_ ?_ ?_ ?_ ?_
  · rw [hmtx, h.mtx, howner _ hbefore, howner _ hbefore']
  · rw [hkeep, h.keep, hbefore, hbefore']
  · rw [hcleared, h.cleared, hbefore, hbefore']
  · simp [hlate _ hbefore']
  · intro hrefused
    simp [hrefused, MainPc.before] at hbefore'

/-- A move of the main thread after that. -/
theorem Control.afterMove (h : Control s) (hthread : s'.thread = s.thread)
    (hrunning : s'.isrunning = s.isrunning) (hsend : s'.pool.call .send = s.pool.call .send)
    (hmain : Inside s'.main.op (s'.pool.call .main)) (hmtx : s'.mtx = s'.main.owner)
    (hkeep : s'.keepsending = false) (hcleared : s'.clearedAt ≠ none)
    (hafter' : s'.main.before = false) (hlate : s'.main.late = true → s.thread = .exited)
    (haccepted : s'.main ≠ .refused) : Control s' := by
  refine h.mainMove hthread hrunning hsend hmain hmtx ?_ ?_ hlate haccepted
  · rw [hkeep, hafter']
  · simp [hcleared, hafter']

/-- A move of the send thread. -/
theorem Control.threadMove (h : Control s) (hmain : s'.main = s.main)
    (hcall : s'.pool.call .main = s.pool.call .main) (hmtx : s'.mtx = s.mtx)
    (hkeep : s'.keepsending = s.keepsending) (hcleared : s'.clearedAt = s.clearedAt)
    (hthread : Inside s'.thread.op (s'.pool.call .send))
    (hrunning : s'.isrunning = true ↔ s'.thread ≠ .exited)
    (hexited : s.thread = .exited → s'.thread = .exited) : Control s' := by
  refine ⟨hthread, ?_, ?_, hrunning, ?_, ?_, ?_, ?_⟩
  · rw [hmain, hcall]
    exact h.main
  · rw [hmtx, hmain, h.mtx]
  · rw [hkeep, hmain, h.keep]
  · rw [hmain]
    exact fun hl => hexited (h.late hl)
  · rw [hmain]
    exact h.accepted
  · rw [hmain, hcleared]
    exact h.cleared

/-- The send thread is at the program point its call belongs to. -/
theorem Control.thread_inPop (h : Control s) {c : Call Copy}
    (hcall : s.pool.call .send = some c) : s.thread = .inPop ∧ QueueOp.popBlock.Covers c := by
  have hthread := h.thread
  rw [hcall] at hthread
  rcases hthread.op_of_some with ⟨op, hop, hcovers⟩
  cases hpc : s.thread <;> simp_all [ThreadPc.op]

/-- Once the flag is cleared it stays so. -/
theorem Control.keepsending_eq_false (h : Control s) (hafter : s.main.before = false) :
    s.keepsending = false := by
  rw [h.keep, hafter]

/-- Once the flag is cleared the moment is on record. -/
theorem Control.clearedAt_ne_none (h : Control s) (hafter : s.main.before = false) :
    s.clearedAt ≠ none := by
  simp [h.cleared, hafter]

/-- The send thread that says it has stopped has stopped. -/
theorem Control.exited_of_stopped (h : Control s) (hrun : s.isrunning = false) :
    s.thread = .exited := by
  by_contra hne
  simp [h.running.2 hne] at hrun

/-! ## Groups of transitions -/

/-- The send thread works on a chunk, outside the queue. -/
theorem Control.threadWorks (h : Control s) (hpc : s.thread.op = none)
    (halive : s.thread ≠ .exited) {m : ThreadPc} (hop : m.op = none) (hm : m ≠ .exited)
    (p : List Copy) (o : List Bool) (r : List Copy) :
    Control { s with thread := m, passed := p, outcomes := o, released := r } := by
  refine h.threadMove rfl rfl rfl rfl rfl ?_ ?_ fun hexited => absurd hexited halive
  · simpa [hpc, hop] using h.thread
  · simp [h.running, halive, hm]

/-- The send thread ends. -/
theorem Control.threadExits (h : Control s) (hpc : s.thread.op = none) :
    Control { s with isrunning := false, thread := .exited } := by
  have hthread := h.thread
  rw [hpc] at hthread
  exact h.threadMove rfl rfl rfl rfl rfl hthread (by simp) (by simp)

/-- The send thread calls {lit}`queue_pop_block`. -/
theorem Control.threadEnters (h : Control s) (hpc : s.thread = .loopTest) :
    Control { s with thread := .inPop, pool := s.pool.entered .send .popBlock } := by
  refine h.threadMove rfl (by simp) rfl rfl rfl (inside_entered ..) ?_ ?_
  · simp [h.running, hpc]
  · simp [hpc]

/-- {lit}`queue_pop_block` returns. -/
theorem Control.popReturns (h : Control s) {c : Call Copy} (hcall : s.pool.call .send = some c)
    {m : ThreadPc} (hop : m.op = none) (hm : m ≠ .exited) :
    Control { s with thread := m, pool := s.pool.left .send } := by
  have hpc := (h.thread_inPop hcall).1
  refine h.threadMove rfl (by simp) rfl rfl rfl ?_ ?_ ?_
  · rw [hop]
    exact inside_left ..
  · simp [h.running, hpc, hm]
  · simp [hpc]

/-- The main thread moves between functions, none of them a queue function. -/
theorem Control.mainStays (h : Control s) (hpc : s.main.op = none)
    (hbefore : s.main.before = true) {m : MainPc} (hop : m.op = none) (hm : m.before = true)
    (r : List (BitVec 32)) : Control { s with main := m, results := r } := by
  refine h.beforeMove rfl rfl rfl ?_ rfl rfl rfl hbefore hm
  simpa [hpc, hop] using h.main

/-- {lit}`iemnet__sender_send` calls {lit}`queue_push`. -/
theorem Control.mainPushes (h : Control s) {c : Option Chunk} (hpc : s.main = .sendCheck c)
    (data : Option Copy) (l : List Chunk) :
    Control { s with
      submitted := l, main := .pushing data, pool := s.pool.entered .main (.push data) } :=
  h.beforeMove rfl rfl (by simp) (inside_entered ..) rfl rfl rfl (by rw [hpc]; rfl) rfl

/-- {lit}`iemnet__sender_destroy` has cleared {lit}`keepsending` and calls a queue function. -/
theorem Control.destroyEnters (h : Control s) {m : MainPc} {op : QueueOp Copy} {x : Option Tid}
    {a : Option Nat} (r : List Copy) (hop : m.op = some op) (hafter : m.before = false)
    (hmtx : x = m.owner) (ha : a ≠ none) (hlate : m.late = true → s.thread = .exited) :
    Control { s with
      keepsending := false, clearedAt := a, mtx := x, released := r, main := m
      pool := s.pool.entered .main op } := by
  refine h.afterMove rfl rfl (by simp) ?_ hmtx rfl ha hafter hlate ?_
  · rw [hop]
    exact inside_entered ..
  · intro hrefused
    have hrefused : m = .refused := hrefused
    simp [hrefused, MainPc.op] at hop

/-- A queue function returns to {lit}`iemnet__sender_destroy`. -/
theorem Control.destroyLeaves (h : Control s) (hbefore : s.main.before = false) {m : MainPc}
    {x : Option Tid} (hop : m.op = none) (hafter : m.before = false) (hmtx : x = m.owner)
    (hlate : m.late = true → s.thread = .exited) (haccepted : m ≠ .refused) :
    Control { s with mtx := x, main := m, pool := s.pool.left .main } := by
  refine h.afterMove rfl rfl (by simp) ?_ hmtx (h.keepsending_eq_false hbefore)
    (h.clearedAt_ne_none hbefore) hafter hlate haccepted
  rw [hop]
  exact inside_left ..

/-- {lit}`iemnet__sender_destroy` goes on without changing the flag again. -/
theorem Control.destroyContinues (h : Control s) (hbefore : s.main.before = false) {m : MainPc}
    {op : QueueOp Copy} (r : List Copy) (hop : m.op = some op) (hafter : m.before = false)
    (hmtx : s.mtx = m.owner) (hlate : m.late = true → s.thread = .exited) :
    Control { s with released := r, main := m, pool := s.pool.entered .main op } := by
  have henters := h.destroyEnters r hop hafter hmtx (h.clearedAt_ne_none hbefore) hlate
  rwa [← h.keepsending_eq_false hbefore] at henters

/-- Every transition keeps the control invariant. -/
theorem Control.transition (h : Control s) {a : Action} (htr : Transition s a s') : Control s' := by
  have hlate : s.main.late = true → s.thread = .exited := h.late
  have hmtx : s.mtx = s.main.owner := h.mtx
  cases htr with
  | queueSection t ch c next hcall hstep =>
      exact { h with
        thread := h.thread.moved hcall hstep
        main := h.main.moved hcall hstep }
  | spurious t c q hcall hwake => exact { h with }
  | loopEnter hpc => exact h.threadEnters hpc
  | loopExit hpc => exact h.threadExits (by rw [hpc]; rfl)
  | brokenExit hpc => exact h.threadExits (by rw [hpc]; rfl)
  | popNothing hcall => exact h.popReturns hcall rfl (by simp)
  | popChunk k c hcall => exact h.popReturns hcall rfl (by simp)
  | passChunk c hpc =>
      exact h.threadWorks (by rw [hpc]; rfl) (by simp [hpc]) rfl (by simp) _ s.outcomes s.released
  | sendReturns ok c hpc =>
      exact h.threadWorks (by rw [hpc]; rfl) (by simp [hpc]) rfl (by simp) s.passed _ s.released
  | release ok c hpc =>
      exact h.threadWorks (by rw [hpc]; rfl) (by simp [hpc]) (by cases ok <;> rfl)
        (by cases ok <;> simp) s.passed s.outcomes _
  | callSend c hpc =>
      exact h.mainStays (by rw [hpc]; rfl) (by rw [hpc]; rfl) rfl rfl s.results
  | callDestroy hpc =>
      exact h.mainStays (by rw [hpc]; rfl) (by rw [hpc]; rfl) rfl rfl s.results
  | sendRefused c hpc =>
      exact h.mainStays (by rw [hpc]; rfl) (by rw [hpc]; rfl) rfl rfl _
  | sendNothing c hpc => exact h.mainPushes hpc none s.submitted
  | sendCopy src chunk hpc => exact h.mainPushes hpc _ _
  | pushReturn data size hpc hcall =>
      exact h.beforeMove rfl rfl (by simp) (inside_left ..) rfl rfl rfl (by rw [hpc]; rfl) rfl
  | destroyRefused hpc _ hkeep =>
      -- not reachable: nobody else clears the flag
      have hkept := h.keep
      rw [hpc, hkeep] at hkept
      cases hkept
  | destroyWait hpc =>
      exact h.destroyEnters s.released rfl rfl rfl (by simp) (by simp [MainPc.late])
  | destroyGone hpc hfree _ hrun =>
      exact h.destroyEnters s.released rfl rfl hfree (by simp) fun _ => h.exited_of_stopped hrun
  | relockWait hpc =>
      exact h.destroyEnters s.released rfl rfl rfl (h.clearedAt_ne_none (by rw [hpc]; rfl))
        (by simp [MainPc.late])
  | relockGone hpc hfree hrun =>
      exact h.destroyContinues (by rw [hpc]; rfl) s.released rfl rfl hfree
        fun _ => h.exited_of_stopped hrun
  | join hpc hexited =>
      rw [hpc] at hmtx
      exact h.destroyContinues (by rw [hpc]; rfl) s.released rfl rfl hmtx fun _ => hexited
  | drainRelease c hpc =>
      rw [hpc] at hmtx hlate
      exact h.destroyContinues (by rw [hpc]; rfl) _ rfl rfl hmtx fun _ => hlate rfl
  | finishReturn hpc =>
      exact h.destroyLeaves (by rw [hpc]; rfl) rfl rfl rfl (by simp [MainPc.late]) (by simp)
  | finish2Return hpc | drainEmpty hpc | drainChunk k c hpc =>
      rw [hpc] at hmtx hlate
      exact h.destroyLeaves (by rw [hpc]; rfl) rfl rfl hmtx (fun _ => hlate rfl) (by simp)
  | finish3Return hpc =>
      rw [hpc] at hmtx hlate
      have hleft := h.destroyLeaves (m := .joining) (by rw [hpc]; rfl) rfl rfl hmtx
        (fun _ => hlate rfl) (by simp)
      exact hleft.destroyContinues rfl s.released rfl rfl hmtx fun _ => hlate rfl

/-- The control invariant holds in every reachable state. -/
theorem control {ok : State → Action → Prop} {s : State} (h : senderMachine.Reach ok s) :
    Control s := by
  refine Machine.Reach.invariant ?_ ?_ h
  · rintro s rfl
    exact control_create
  · intro s a s' _ hcontrol _ hstep
    exact hcontrol.transition (State.transition hstep)

end Sender
end Iemnet
