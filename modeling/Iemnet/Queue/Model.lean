import Iemnet.Data.Chunk
import Iemnet.Foundations.CondVar
import Iemnet.Foundations.LinkedList
import Iemnet.Foundations.TransitionSystem

/-!
# The thread-safe queue

The queue of iemnet_data.c as a system of threads.  Every section between
{lit}`pthread_mutex_lock` and {lit}`pthread_mutex_unlock` is one step, and so is
each piece of code between two sections that touches memory others could see
({lit}`malloc` and {lit}`free` of a node).  A {lit}`Call` is the program point of
a thread inside one of the five queue functions.

What the scheduler, the allocator and the wake-up of a condition variable decide
is carried by the action: the address {lit}`malloc` returns (any address that is
not allocated, so addresses are re-used) and the thread a signal wakes.

The fields {lit}`pushed`, {lit}`popped` and {lit}`returned` are history: no step
reads them to decide anything.  The number drawn when a node is detached travels
with the call as its ticket.
-/

namespace Iemnet

open Foundations
open Foundations.LinkedList

/-- What the queue reads of the chunks it stores: {lit}`data->size`. -/
class Payload (χ : Type) where
  size : χ → Nat

instance : Payload Chunk :=
  ⟨Chunk.size⟩

/-- {lit}`t_node`; its {lit}`data` is a pointer. -/
abbrev Node (χ : Type) :=
  Cell Nat (Option χ)

/-- The linked list of the queue with its byte counter, and its history. -/
structure NodeList (χ : Type) where
  heap : Heap Nat (Option χ)
  head : Option Nat
  tail : Option Nat
  size : BitVec 32
  pushed : List χ
  popped : Nat
  returned : List (Nat × χ)

/-- {lit}`t_iemnet_queue`. -/
structure Queue (τ χ : Type) extends NodeList χ where
  cond : CondVar τ
  done : Bool
  usedcond : CondVar τ
  used : Int

/-- {lit}`queue_create`. -/
def queueCreate (τ χ : Type) : Queue τ χ where
  heap := fun _ => none
  head := none
  tail := none
  size := 0#32
  pushed := []
  popped := 0
  returned := []
  cond := .idle
  done := false
  usedcond := .idle
  used := 0

/-- The program points inside the queue functions. -/
inductive Call (χ : Type)
  /-- {lit}`queue_push`, before the section that reads the size. -/
  | push (data : Option χ)
  /-- Before the {lit}`malloc` of the node. -/
  | pushAlloc (data : χ)
  /-- Before the section that links the node. -/
  | pushLink (n : Nat) (data : χ)
  /-- {lit}`queue_pop_block`, before {lit}`queue_use_increment`. -/
  | popBlock
  | popBlockLock
  /-- Inside {lit}`pthread_cond_wait`. -/
  | popBlockWait
  /-- {lit}`queue_pop_noblock`, before {lit}`queue_use_increment`. -/
  | popNoblock
  | popNoblockLock
  /-- The node is detached and the mutex released; the node is still to be freed. -/
  | popFree (head : Nat) (ticket : Nat)
  /-- Before {lit}`queue_use_decrement`. -/
  | popDone (data : Option (Nat × χ))
  /-- {lit}`queue_getsize`. -/
  | getsize
  /-- {lit}`queue_finish`, before the section that sets {lit}`done`. -/
  | finish
  /-- Before the section that tests {lit}`used`. -/
  | finishTest
  /-- Inside {lit}`pthread_cond_wait` on {lit}`usedcond`. -/
  | finishWait
  | retSize (size : BitVec 32)
  | retChunk (data : Option (Nat × χ))
  | retVoid

section Sections

variable {τ χ : Type} [DecidableEq τ] [Payload χ]

/-- The assignments at the end of the linking section, after {lit}`head` or the
link of the old tail node has been set. -/
def NodeList.counted (q : NodeList χ) (heap : Heap Nat (Option χ)) (head : Option Nat)
    (n : Nat) (data : χ) : NodeList χ where
  heap := heap
  head := head
  tail := some n
  size := q.size + BitVec.ofNat 32 (Payload.size data)
  pushed := q.pushed ++ [data]
  popped := q.popped
  returned := q.returned

/-- Link node {lit}`n` behind the tail and count its bytes. -/
def NodeList.link (q : NodeList χ) (n : Nat) (data : χ) : Option (NodeList χ) :=
  match q.tail with
  | none => some (q.counted q.heap (some n) n data)
  | some t =>
      (q.heap t).map fun node =>
        q.counted (Function.update q.heap t (some ⟨some n, node.data⟩)) q.head n data

/-- The assignments that detach the head node {lit}`node`. -/
def NodeList.detached (q : NodeList χ) (node : Node χ) : NodeList χ :=
  { q with
    head := node.next
    tail := if node.next.isNone then none else q.tail
    size := match node.data with
      | some data => q.size - BitVec.ofNat 32 (Payload.size data)
      | none => q.size
    popped := q.popped + 1 }

/-- Detach the head node at address {lit}`head`. -/
def NodeList.unlink (q : NodeList χ) (head : Nat) : Option (NodeList χ) :=
  (q.heap head).map q.detached

/-- {lit}`queue_use_increment`. -/
def Queue.useIncrement (q : Queue τ χ) : Queue τ χ :=
  { q with used := q.used + 1 }

/-- {lit}`queue_use_decrement`. -/
def Queue.useDecrement (q : Queue τ χ) (wake : Option τ) : Option (Queue τ χ) :=
  (q.usedcond.signal wake).map fun usedcond =>
    { q with used := q.used - 1, usedcond := usedcond }

/-- The section of {lit}`queue_pop_block` from a test of the loop condition on:
wait if there is no head, else detach it. -/
def Queue.popTest (t : τ) (q : Queue τ χ) : Option (Queue τ χ × Call χ) :=
  match q.head with
  | none => some ({ q with cond := q.cond.wait t }, .popBlockWait)
  | some head =>
      (q.unlink head).map fun nodes =>
        ({ q with toNodeList := nodes }, .popFree head q.popped)

/-- The section of {lit}`queue_finish` from a test of {lit}`used` on. -/
def Queue.finishLoop (t : τ) (q : Queue τ χ) : Queue τ χ × Call χ :=
  if q.used ≠ 0 then ({ q with usedcond := q.usedcond.wait t }, .finishWait)
  else (q, .retVoid)

omit [DecidableEq τ] in
/-- The pop section ends in the wait or with a detached node. -/
theorem Queue.popTest_cases {q : Queue τ χ} {t : τ} {next : Queue τ χ × Call χ}
    (h : q.popTest t = some next) :
    (q.head = none ∧ next = ({ q with cond := q.cond.wait t }, .popBlockWait)) ∨
      ∃ head nodes, q.head = some head ∧ q.unlink head = some nodes ∧
        next = ({ q with toNodeList := nodes }, .popFree head q.popped) := by
  unfold Queue.popTest at h
  split at h
  · rename_i hhead
    exact Or.inl ⟨hhead, (Option.some.inj h).symm⟩
  · rename_i head hhead
    rcases Option.map_eq_some_iff.1 h with ⟨nodes, hnodes, rfl⟩
    exact Or.inr ⟨head, nodes, hhead, hnodes, rfl⟩

omit [DecidableEq τ] [Payload χ] in
/-- The loop of the finish waits while somebody uses the queue, and ends otherwise. -/
theorem Queue.finishLoop_cases (t : τ) (q : Queue τ χ) :
    (q.used ≠ 0 ∧
        q.finishLoop t = ({ q with usedcond := q.usedcond.wait t }, .finishWait)) ∨
      (q.used = 0 ∧ q.finishLoop t = (q, .retVoid)) := by
  unfold Queue.finishLoop
  split
  · rename_i h
    exact Or.inl ⟨h, rfl⟩
  · rename_i h
    exact Or.inr ⟨not_not.1 h, rfl⟩

/-- One step of thread {lit}`t` inside a queue function. -/
def Call.step (t : τ) (addr : Nat) (wake : Option τ) (q : Queue τ χ) :
    Call χ → Option (Queue τ χ × Call χ)
  | .push none => some (q, .retSize q.size)
  | .push (some data) => some (q, .pushAlloc data)
  | .pushAlloc data =>
      if (q.heap addr).isNone then
        some ({ q with heap := Function.update q.heap addr (some ⟨none, some data⟩) },
          .pushLink addr data)
      else none
  | .pushLink n data =>
      (q.link n data).bind fun nodes =>
        (q.cond.signal wake).map fun cond =>
          ({ q with toNodeList := nodes, cond := cond }, .retSize nodes.size)
  | .popBlock => some (q.useIncrement, .popBlockLock)
  | .popBlockLock => q.popTest t
  | .popBlockWait =>
      (q.cond.resume t).bind fun cond =>
        if q.done then some ({ q with cond := cond }, .popDone none)
        else Queue.popTest t { q with cond := cond }
  | .popNoblock => some (q.useIncrement, .popNoblockLock)
  | .popNoblockLock =>
      match q.head with
      | none => some (q, .popDone none)
      | some head =>
          (q.unlink head).map fun nodes =>
            ({ q with toNodeList := nodes }, .popFree head q.popped)
  | .popFree head ticket =>
      (q.heap head).map fun node =>
        ({ q with heap := Function.update q.heap head none },
          .popDone (node.data.map fun data => (ticket, data)))
  | .popDone data =>
      (q.useDecrement wake).map fun q =>
        ({ q with returned := q.returned ++ data.toList }, .retChunk data)
  | .getsize => some (q, .retSize q.size)
  | .finish =>
      (q.cond.signal wake).map fun cond =>
        ({ q with done := true, cond := cond }, .finishTest)
  | .finishTest => some (q.finishLoop t)
  | .finishWait =>
      (q.usedcond.resume t).map fun usedcond =>
        Queue.finishLoop t { q with usedcond := usedcond }
  | .retSize _ => none
  | .retChunk _ => none
  | .retVoid => none

end Sections

/-! ## Any number of threads -/

/-- The entry points. -/
inductive QueueOp (χ : Type)
  | push (data : Option χ)
  | popBlock
  | popNoblock
  | getsize
  | finish

/-- The program point at which a call starts. -/
def QueueOp.entry {χ : Type} : QueueOp χ → Call χ
  | .push data => .push data
  | .popBlock => .popBlock
  | .popNoblock => .popNoblock
  | .getsize => .getsize
  | .finish => .finish

/-- A queue and what each thread is doing in it. -/
structure Pool (τ χ : Type) where
  queue : Queue τ χ
  call : τ → Option (Call χ)

/-- What can happen next. -/
inductive PoolAction (τ χ : Type)
  /-- A thread calls a queue function. -/
  | enter (t : τ) (op : QueueOp χ)
  /-- A thread executes its next section. -/
  | step (t : τ) (addr : Nat) (wake : Option τ)
  /-- A thread leaves a condition wait although nobody signalled. -/
  | spurious (t : τ)
  /-- A call returns. -/
  | leave (t : τ)

/-- The call has returned to its caller. -/
def Call.finished {χ : Type} : Call χ → Bool
  | .retSize _ | .retChunk _ | .retVoid => true
  | _ => false

section Threads

variable {τ χ : Type} [DecidableEq τ] [Payload χ]

/-- A spurious wake-up of thread {lit}`t` at its condition wait. -/
def Queue.spurious (q : Queue τ χ) (t : τ) : Call χ → Option (Queue τ χ)
  | .popBlockWait => (q.cond.signal (some t)).map fun cond => { q with cond := cond }
  | .finishWait =>
      (q.usedcond.signal (some t)).map fun usedcond => { q with usedcond := usedcond }
  | _ => none

/-- The step function of the threaded queue. -/
def Pool.step (s : Pool τ χ) : PoolAction τ χ → Option (Pool τ χ)
  | .enter t op =>
      if (s.call t).isNone then
        some { s with call := Function.update s.call t (some op.entry) }
      else none
  | .step t addr wake =>
      (s.call t).bind fun c =>
        (c.step t addr wake s.queue).map fun next =>
          ⟨next.1, Function.update s.call t (some next.2)⟩
  | .spurious t =>
      (s.call t).bind fun c => (s.queue.spurious t c).map fun q => { s with queue := q }
  | .leave t =>
      (s.call t).bind fun c =>
        if c.finished then some { s with call := Function.update s.call t none } else none

/-- A new queue that no thread uses yet. -/
def Pool.create (τ χ : Type) : Pool τ χ :=
  ⟨queueCreate τ χ, fun _ => none⟩

/-- The threaded queue as a transition system. -/
def queueMachine (τ χ : Type) [DecidableEq τ] [Payload χ] :
    Machine (Pool τ χ) (PoolAction τ χ) where
  init s := s = Pool.create τ χ
  step := Pool.step

end Threads

/-! ## What a step is -/

section Moves

variable {τ χ : Type} [DecidableEq τ]

/-- Thread {lit}`t` has called a queue function. -/
def Pool.entered (s : Pool τ χ) (t : τ) (op : QueueOp χ) : Pool τ χ :=
  { s with call := Function.update s.call t (some op.entry) }

/-- Thread {lit}`t` has returned to its caller. -/
def Pool.left (s : Pool τ χ) (t : τ) : Pool τ χ :=
  { s with call := Function.update s.call t none }

/-- Thread {lit}`t` has executed a section. -/
def Pool.moved (s : Pool τ χ) (t : τ) (next : Queue τ χ × Call χ) : Pool τ χ :=
  ⟨next.1, Function.update s.call t (some next.2)⟩

/-- Entering a call does not touch the queue. -/
@[simp]
theorem Pool.entered_queue (s : Pool τ χ) (t : τ) (op : QueueOp χ) :
    (s.entered t op).queue = s.queue :=
  rfl

/-- After a step of a call the queue is the one that the step has left. -/
@[simp]
theorem Pool.moved_queue (s : Pool τ χ) (t : τ) (next : Queue τ χ × Call χ) :
    (s.moved t next).queue = next.1 :=
  rfl

variable [Payload χ] {s s' : Pool τ χ} {t : τ}

/-- A thread enters a queue function from outside. -/
theorem Pool.step_enter {op : QueueOp χ} :
    s.step (.enter t op) = some s' ↔ s.call t = none ∧ s' = s.entered t op := by
  simp only [Pool.step, Option.isNone_iff_eq_none]
  constructor
  · intro h
    split at h
    · rename_i hcall
      exact ⟨hcall, (Option.some.inj h).symm⟩
    · contradiction
  · rintro ⟨hcall, rfl⟩
    rw [if_pos hcall]
    rfl

/-- A thread leaves a queue function that has come to its end. -/
theorem Pool.step_leave :
    s.step (.leave t) = some s' ↔
      (∃ c, s.call t = some c ∧ c.finished = true) ∧ s' = s.left t := by
  constructor
  · intro h
    rcases Option.bind_eq_some_iff.1 h with ⟨c, hcall, hrest⟩
    split at hrest
    · rename_i hfinished
      exact ⟨⟨c, hcall, hfinished⟩, (Option.some.inj hrest).symm⟩
    · contradiction
  · rintro ⟨⟨c, hcall, hfinished⟩, rfl⟩
    refine Option.bind_eq_some_iff.2 ⟨c, hcall, ?_⟩
    rw [if_pos hfinished]
    rfl

/-- A thread inside a queue function executes its next section. -/
theorem Pool.step_step {addr : Nat} {wake : Option τ} :
    s.step (.step t addr wake) = some s' ↔
      ∃ c next, s.call t = some c ∧ c.step t addr wake s.queue = some next ∧
        s' = s.moved t next := by
  constructor
  · intro h
    rcases Option.bind_eq_some_iff.1 h with ⟨c, hcall, hrest⟩
    rcases Option.map_eq_some_iff.1 hrest with ⟨next, hnext, rfl⟩
    exact ⟨c, next, hcall, hnext, rfl⟩
  · rintro ⟨c, next, hcall, hnext, rfl⟩
    exact Option.bind_eq_some_iff.2 ⟨c, hcall, Option.map_eq_some_iff.2 ⟨next, hnext, rfl⟩⟩

omit [Payload χ] in
/-- A spurious wake-up concerns a condition variable only. -/
theorem Queue.spurious_nodes {q q' : Queue τ χ} {c : Call χ}
    (h : q.spurious t c = some q') : q'.toNodeList = q.toNodeList := by
  cases c <;> simp only [Queue.spurious, reduceCtorEq] at h
  all_goals
    rcases Option.map_eq_some_iff.1 h with ⟨cond, -, rfl⟩
    rfl

/-- The moves of the threads. -/
inductive Pool.Move (s : Pool τ χ) : PoolAction τ χ → Pool τ χ → Prop
  | enter (t : τ) (op : QueueOp χ) (hcall : s.call t = none) :
      Pool.Move s (.enter t op) (s.entered t op)
  | execute (t : τ) (addr : Nat) (wake : Option τ) (c : Call χ) (next : Queue τ χ × Call χ)
      (hcall : s.call t = some c) (hstep : c.step t addr wake s.queue = some next) :
      Pool.Move s (.step t addr wake) (s.moved t next)
  | spurious (t : τ) (q : Queue τ χ) (hnodes : q.toNodeList = s.queue.toNodeList) :
      Pool.Move s (.spurious t) { s with queue := q }
  | leave (t : τ) (c : Call χ) (hcall : s.call t = some c) (hfinished : c.finished = true) :
      Pool.Move s (.leave t) (s.left t)

/-- Every step is one of the moves. -/
theorem Pool.move {a : PoolAction τ χ} (h : s.step a = some s') : s.Move a s' := by
  cases a with
  | enter t op =>
      rcases Pool.step_enter.1 h with ⟨hcall, rfl⟩
      exact .enter t op hcall
  | step t addr wake =>
      rcases Pool.step_step.1 h with ⟨c, next, hcall, hstep, rfl⟩
      exact .execute t addr wake c next hcall hstep
  | spurious t =>
      rcases Option.bind_eq_some_iff.1 h with ⟨c, -, hrest⟩
      rcases Option.map_eq_some_iff.1 hrest with ⟨q, hq, rfl⟩
      exact .spurious t q (Queue.spurious_nodes hq)
  | leave t =>
      rcases Pool.step_leave.1 h with ⟨⟨c, hcall, hfinished⟩, rfl⟩
      exact .leave t c hcall hfinished

end Moves

end Iemnet
