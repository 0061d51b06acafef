import Iemnet.Queue.Model

/-!
# The sender and its thread

iemnet_sender.c as a system of two threads: the send thread runs
{lit}`iemnet__sender_sendthread`, the main thread makes calls of
{lit}`iemnet__sender_send` and one of {lit}`iemnet__sender_destroy`.  While a
thread is inside a queue function its steps are those of the queue; outside,
every section of the sender's own mutex is one step.

{lit}`iemnet__sender_destroy` keeps that mutex over its calls of
{lit}`queue_finish`, so the mutex has an owner field.  What the send function
returns is left to the environment.
-/

namespace Iemnet

open Foundations

/-- The two threads that share a sender. -/
inductive Tid
  | main
  | send
deriving DecidableEq, Repr

/-- A chunk made by {lit}`iemnet__chunk_create_chunk`; the serial number stands
for the identity of the allocation. -/
structure Copy where
  serial : Nat
  chunk : Chunk
deriving DecidableEq, Repr

instance : Payload Copy :=
  ⟨fun c => c.chunk.size⟩

namespace Sender

/-- Program points of {lit}`iemnet__sender_sendthread`. -/
inductive ThreadPc
  /-- Before the section that tests {lit}`keepsending`. -/
  | loopTest
  /-- Inside {lit}`queue_pop_block`. -/
  | inPop
  /-- Before the call of the send function. -/
  | got (c : Copy)
  /-- Inside the send function. -/
  | sending (c : Copy)
  /-- The send function has returned, the chunk is still to be destroyed. -/
  | sent (ok : Bool) (c : Copy)
  /-- After a failed send, before the section that leaves the loop. -/
  | brokenLock
  | exited
deriving DecidableEq

/-- Program points of the main thread. -/
inductive MainPc
  /-- Outside the sender's functions. -/
  | idle
  /-- {lit}`iemnet__sender_send`, before the section that tests
  {lit}`isrunning`. -/
  | sendCheck (c : Option Chunk)
  /-- Inside {lit}`queue_push`. -/
  | pushing (copy : Option Copy)
  /-- {lit}`iemnet__sender_destroy`, before its first lock. -/
  | destroyLock
  /-- Inside {lit}`queue_finish` with the sender's mutex held. -/
  | finishing
  /-- Between the unlock and the lock of the loop. -/
  | relock
  /-- Inside the {lit}`queue_finish` after the loop. -/
  | finishing2
  /-- Before {lit}`pthread_join`. -/
  | joining
  /-- Inside the {lit}`queue_finish` of {lit}`queue_destroy`. -/
  | finishing3
  /-- Inside {lit}`queue_pop_noblock` of {lit}`queue_destroy`. -/
  | draining
  /-- Before {lit}`iemnet__chunk_destroy` in {lit}`queue_destroy`. -/
  | drainRelease (c : Copy)
  /-- {lit}`iemnet__sender_destroy` has returned and the sender is freed. -/
  | destroyed
  /-- {lit}`iemnet__sender_destroy` has returned at once. -/
  | refused
deriving DecidableEq

/-- The sender with its queue, both program points, and the history of what was
submitted, passed to the send function, answered by it and released. -/
structure State where
  keepsending : Bool
  isrunning : Bool
  mtx : Option Tid
  pool : Pool Tid Copy
  thread : ThreadPc
  main : MainPc
  submitted : List Chunk
  results : List (BitVec 32)
  passed : List Copy
  outcomes : List Bool
  clearedAt : Option Nat
  released : List Copy

/-- {lit}`iemnet__sender_create` for a thread that could be started. -/
def create : State where
  keepsending := true
  isrunning := true
  mtx := none
  pool := Pool.create Tid Copy
  thread := .loopTest
  main := .idle
  submitted := []
  results := []
  passed := []
  outcomes := []
  clearedAt := none
  released := []

/-- What the environment decides about a step: whether an allocation succeeds,
the address of a new node, whom a signal wakes, and what the send function
returns. -/
structure Choice where
  mem : Bool
  addr : Nat
  wake : Option Tid
  ok : Bool

namespace State

/-- Call a queue function. -/
def enter (s : State) (t : Tid) (op : QueueOp Copy) : Option State :=
  (s.pool.step (.enter t op)).map fun pool => { s with pool := pool }

/-- Return from a queue function. -/
def leave (s : State) (t : Tid) : Option State :=
  (s.pool.step (.leave t)).map fun pool => { s with pool := pool }

/-- The next section inside a queue function. -/
def queueSection (s : State) (t : Tid) (ch : Choice) : Option State :=
  (s.pool.step (.step t ch.addr ch.wake)).map fun pool => { s with pool := pool }

/-- The send thread outside the queue. -/
def threadLocal (s : State) (ch : Choice) : Option State :=
  match s.thread with
  | .loopTest =>
      if s.mtx.isSome then none
      else if s.keepsending then { s with thread := .inPop }.enter .send .popBlock
      else some { s with isrunning := false, thread := .exited }
  | .inPop => none
  | .got c => some { s with passed := s.passed ++ [c], thread := .sending c }
  | .sending c => some { s with outcomes := s.outcomes ++ [ch.ok], thread := .sent ch.ok c }
  | .sent ok c =>
      some { s with
        released := s.released ++ [c]
        thread := if ok then .loopTest else .brokenLock }
  | .brokenLock =>
      if s.mtx.isSome then none
      else some { s with isrunning := false, thread := .exited }
  | .exited => none

/-- The send thread when {lit}`queue_pop_block` has returned. -/
def threadReturn (s : State) : Call Copy → Option State
  | .retChunk none => { s with thread := .loopTest }.leave .send
  | .retChunk (some (_, c)) => { s with thread := .got c }.leave .send
  | _ => none

/-- The test of {lit}`isrunning` in {lit}`iemnet__sender_destroy`, the mutex being
held: one more round with the mutex, or on without it. -/
def destroyLoop (s : State) : Option State :=
  if s.isrunning then
    { s with keepsending := false, mtx := some .main, main := .finishing }.enter .main .finish
  else { s with main := .finishing2 }.enter .main .finish

/-- The main thread outside the queue. -/
def mainLocal (s : State) (ch : Choice) : Option State :=
  match s.main with
  | .idle => none
  | .sendCheck c =>
      if s.mtx.isSome then none
      else if s.isrunning then
        match c, chunkCreateChunk ch.mem c with
        | some src, some chunk =>
            { s with
              submitted := s.submitted ++ [src]
              main := .pushing (some ⟨s.submitted.length, chunk⟩) }.enter .main
              (.push (some ⟨s.submitted.length, chunk⟩))
        | _, _ => { s with main := .pushing none }.enter .main (.push none)
      else some { s with results := s.results ++ [-1#32], main := .idle }
  | .pushing _ => none
  | .destroyLock =>
      if s.mtx.isSome then none
      else if s.keepsending then
        { s with keepsending := false, clearedAt := some s.passed.length }.destroyLoop
      else some { s with main := .refused }
  | .finishing => none
  | .relock => if s.mtx.isSome then none else s.destroyLoop
  | .finishing2 => none
  | .joining =>
      if s.thread = .exited then { s with main := .finishing3 }.enter .main .finish else none
  | .finishing3 => none
  | .draining => none
  | .drainRelease c =>
      { s with released := s.released ++ [c], main := .draining }.enter .main .popNoblock
  | .destroyed => none
  | .refused => none

/-- The main thread when a queue function has returned. -/
def mainReturn (s : State) (c : Call Copy) : Option State :=
  match s.main, c with
  | .pushing _, .retSize size =>
      { s with results := s.results ++ [size], main := .idle }.leave .main
  | .finishing, .retVoid => { s with mtx := none, main := .relock }.leave .main
  | .finishing2, .retVoid => { s with main := .joining }.leave .main
  | .finishing3, .retVoid =>
      ({ s with main := .draining }.leave .main).bind fun s => s.enter .main .popNoblock
  | .draining, .retChunk none => { s with main := .destroyed }.leave .main
  | .draining, .retChunk (some (_, c)) => { s with main := .drainRelease c }.leave .main
  | _, _ => none

/-- The next step of a thread. -/
def advance (s : State) (t : Tid) (ch : Choice) : Option State :=
  match s.pool.call t, t with
  | none, .send => s.threadLocal ch
  | none, .main => s.mainLocal ch
  | some c, .send => if c.finished then s.threadReturn c else s.queueSection .send ch
  | some c, .main => if c.finished then s.mainReturn c else s.queueSection .main ch

end State

/-- What can happen next. -/
inductive Action
  /-- The main thread calls {lit}`iemnet__sender_send`. -/
  | callSend (c : Option Chunk)
  /-- The main thread calls {lit}`iemnet__sender_destroy`. -/
  | callDestroy
  | step (t : Tid) (ch : Choice)
  /-- A thread leaves a condition wait although nobody signalled. -/
  | spurious (t : Tid)

/-- The step function of the sender. -/
def State.step (s : State) : Action → Option State
  | .callSend c => if s.main = .idle then some { s with main := .sendCheck c } else none
  | .callDestroy => if s.main = .idle then some { s with main := .destroyLock } else none
  | .step t ch => s.advance t ch
  | .spurious t =>
      (s.pool.step (.spurious t)).map fun pool => { s with pool := pool }

end Sender

open Sender in
/-- The sender as a transition system. -/
def senderMachine : Machine Sender.State Sender.Action where
  init s := s = create
  step := State.step

/-! ## The default send function -/

/-- The system call made for a chunk. -/
inductive SendRequest
  | send (data : List (BitVec 8))
  | sendto (data : List (BitVec 8)) (addr : Int) (port : BitVec 16) (family : Int)
deriving DecidableEq, Repr

/-- What {lit}`iemnet__sender_defaultsend` asks of the kernel. -/
def defaultsendRequest (c : Chunk) : SendRequest :=
  if c.port ≠ 0#16 then .sendto c.data c.addr c.port c.family else .send c.data

/-- The {lit}`struct sockaddr_in` that {lit}`iemnet__sender_defaultsend` fills in for
{lit}`sendto`; {lit}`htonl` takes the low 32 bits of the {lit}`long`. -/
def SendRequest.sockaddr (abi : Abi) : SendRequest → Option SockaddrIn
  | .sendto _ addr port family => some ⟨family, abi.ntohl (BitVec.ofInt 32 addr), abi.ntohs port⟩
  | .send _ => none

/-- What {lit}`iemnet__sender_defaultsend` makes of the kernel's answer. -/
def defaultsendResult (result : Int) : Bool :=
  if result < 0 then false else true

end Iemnet
