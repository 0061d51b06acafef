import Iemnet.Client.UdpSend
import Iemnet.Sender.Answers

/-!
# The UDP sender object and its send thread

{lit}`udpsend_send` waits for {lit}`iemnet__sender_send`, while the send thread goes on.
{lit}`UdpSend.Coupled` is the object together with the sender that {lit}`x_sender` points
to.

Main results:

- Theorem {lit}`UdpSend.Underway.step`: what a step inside the sender can do to a call.
- Theorem {lit}`udpsend_stays_iff`: a list leaves the object connected exactly if the queue
  then holds at least one byte and fewer than 2^31.
-/

namespace Iemnet

open Pd Foundations

namespace UdpSend

/-! ## The object with its sender -/

/-- The object, the sender that {lit}`x_sender` points to, the list that
{lit}`udpsend_send` has handed to {lit}`iemnet__sender_send`, and whether the last call of
{lit}`iemnet__chunk_create_chunk` there found memory for the copy. -/
structure Coupled where
  object : UdpSend
  sender : Sender.Metered
  call : Option (ClientEnv × List Atom)
  copyMem : Bool

/-- What can happen next. -/
inductive Action
  | connect (env : ClientEnv) (hostname : String) (fportno : FloatArg) (o : ConnectOutcome)
  | disconnect
  | send (env : ClientEnv) (argv : List Atom)
  /-- A thread executes its next section inside the sender. -/
  | step (t : Tid) (ch : Sender.Choice)
  /-- A thread leaves a condition wait although nobody signalled. -/
  | spurious (t : Tid)
  /-- {lit}`iemnet__sender_send` has returned, and {lit}`udpsend_send` goes on. -/
  | returned

namespace Coupled

/-- A new sender for the object that has just connected. -/
def attach (w : Coupled) (object : UdpSend) : Coupled :=
  if w.object.sender = none ∧ object.sender ≠ none then
    { w with object := object, sender := ⟨Sender.create, []⟩ }
  else { w with object := object }

/-- Whether there is memory for the copy, if the main thread asks for it in this step of
the sender. -/
def asksMem (s : Sender.State) (before : Bool) : Sender.Action → Bool
  | .step .main ch =>
      match s.main with
      | .sendCheck _ => ch.mem
      | _ => before
  | _ => before

/-- A step inside the sender, while the object has one. -/
def senderStep (w : Coupled) (a : Sender.Action) : Option Coupled :=
  if w.object.sender = none then none
  else (meteredMachine.step w.sender a).map fun m =>
    { w with sender := m, copyMem := asksMem w.sender.sender w.copyMem a }

/-- {lit}`udpsend_send` calls {lit}`iemnet__sender_send`, if there is a sender. -/
def begin (w : Coupled) (env : ClientEnv) (argv : List Atom) : Option Coupled :=
  if w.object.sender = none then some { w with object := w.object.send env argv }
  else
    (meteredMachine.step w.sender (.callSend (chunkCreateList env.mem argv))).map fun m =>
      { w with sender := m, call := some (env, argv) }

/-- {lit}`udpsend_send` after the call.  {lit}`iemnet__sender_destroy` waits for the thread,
so nothing is left of a sender that is destroyed here. -/
def finish (w : Coupled) (env : ClientEnv) (argv : List Atom) (size : BitVec 32) : Coupled :=
  { w with object := w.object.send { env with sent := size.toInt } argv, call := none }

/-- The step function. -/
def step (w : Coupled) : Action → Option Coupled
  | .connect env hostname fportno o =>
      if w.call = none ∧ w.object.Possible o then
        some (w.attach (w.object.connect env hostname fportno o))
      else none
  | .disconnect =>
      if w.call = none then some { w with object := w.object.disconnect } else none
  | .send env argv => if w.call = none then w.begin env argv else none
  | .step t ch => w.senderStep (.step t ch)
  | .spurious t => w.senderStep (.spurious t)
  | .returned =>
      match w.call, w.sender.sender.main, w.sender.sender.results.getLast? with
      | some (env, argv), .idle, some size => some (w.finish env argv size)
      | _, _, _ => none

end Coupled

end UdpSend

/-- The object with its sender as a transition system. -/
def udpsendMachine : Machine UdpSend.Coupled UdpSend.Action where
  init w := ∃ abi, w = ⟨UdpSend.new abi, ⟨Sender.create, []⟩, none, true⟩
  step w a := w.step a

namespace UdpSend

variable {w w' : Coupled} {argv : List Atom}

/-! ## What goes on inside a call -/

/-- The number of bytes that {lit}`iemnet__sender_send` adds to the queue for a list: none
unless there was memory for the chunk and for its copy. -/
def addedBytes (mem copyMem : Bool) (argv : List Atom) : Nat :=
  if mem ∧ copyMem then argv.length else 0

/-- Nothing is added exactly for the empty list and after a failed allocation. -/
theorem addedBytes_eq_zero_iff {mem copyMem : Bool} :
    addedBytes mem copyMem argv = 0 ↔ argv = [] ∨ mem = false ∨ copyMem = false := by
  unfold addedBytes
  split
  · rename_i h
    simp [h.1, h.2]
  · rename_i h
    rw [not_and_or, Bool.not_eq_true, Bool.not_eq_true] at h
    simp [h]

/-- The copy of the chunk of a list has the bytes of the list. -/
theorem size_copy (mem copyMem : Bool) (argv : List Atom) :
    ((chunkCreateChunk copyMem (chunkCreateList mem argv)).map Chunk.size).getD 0 =
      addedBytes mem copyMem argv := by
  cases mem with
  | false => simp [chunkCreateList, chunkCreateEmpty, chunkCreateChunk, addedBytes]
  | true =>
      rw [chunkCreateList_eq]
      by_cases hnil : argv = []
      · simp [hnil, chunkCreateChunk, addedBytes]
      · rw [if_neg hnil]
        have hbytes : listBytes argv ≠ [] := by simpa [listBytes] using hnil
        cases copyMem with
        | false => simp [chunkCreateChunk, chunkCreateData, chunkCreateEmpty, addedBytes]
        | true =>
            rw [chunkCreateChunk_eq hbytes]
            simp [Chunk.size, listBytes, addedBytes]

/-- A verdict on a call that adds a number of bytes. -/
def VerdictFor (added : Nat) : Sender.Verdict → Prop
  | .stopped => True
  | .queued _ size _ => size = added

/-- How far {lit}`iemnet__sender_send` is with a list. -/
def Underway (env : ClientEnv) (argv : List Atom) (copyMem : Bool) (m : Sender.Metered) :
    Prop :=
  match m.sender.main with
  | .sendCheck c => c = chunkCreateList env.mem argv
  | .pushing copy =>
      Sender.pushedBytes copy = addedBytes env.mem copyMem argv ∧
        ∀ v, m.sender.pool.call .main = some (.retSize v) →
          ∃ backlog total, m.verdicts.getLast? =
            some (.queued backlog (Sender.pushedBytes copy) total)
  | .idle =>
      ∃ verdict, m.verdicts.getLast? = some verdict ∧
        VerdictFor (addedBytes env.mem copyMem argv) verdict
  | _ => False

/-- A step inside the sender takes the call on. -/
theorem Underway.step {env : ClientEnv} {copyMem : Bool} {m m' : Sender.Metered}
    {a : Sender.Action} (h : Underway env argv copyMem m) (hc : Sender.Control m.sender)
    (ha : (∀ c, a ≠ .callSend c) ∧ a ≠ .callDestroy) (hstep : meteredMachine.step m a = some m') :
    Underway env argv (Coupled.asksMem m.sender copyMem a) m' := by
  rcases Option.map_eq_some_iff.1 hstep with ⟨s, hs, rfl⟩
  have hsame : s.main = m.sender.main → s.pool.call .main = m.sender.pool.call .main →
      m.sender.verdict s a = [] →
      Underway env argv copyMem ⟨s, m.verdicts ++ m.sender.verdict s a⟩ := by
    intro hmain hcall hverdict
    rw [hverdict, List.append_nil]
    unfold Underway at h ⊢
    dsimp only
    rw [hmain, hcall]
    exact h
  have hmain := hc.main
  cases Sender.State.transition hs with
  | callSend c => exact absurd rfl (ha.1 c)
  | callDestroy => exact absurd rfl ha.2
  | spurious | loopExit | passChunk | sendReturns | release | brokenExit =>
      exact hsame rfl rfl rfl
  | loopEnter | popNothing | popChunk => exact hsame rfl (by simp) rfl
  | queueSection t ch c next hcall hsection =>
      cases t with
      | send => exact hsame rfl (by simp [Pool.moved]) rfl
      | main =>
          have hbefore := hmain
          rw [hcall] at hbefore
          rcases hbefore.op_of_some with ⟨op, hop, hcovers⟩
          unfold Underway at h ⊢
          cases hpc : m.sender.main with
          | pushing copy =>
              rw [hpc] at h hop
              cases hop
              rw [Coupled.asksMem, hpc]
              refine ⟨h.1, fun v hv => ?_⟩
              have hnext : next.2 = .retSize v := by simpa [Pool.moved] using hv
              refine ⟨m.sender.pool.queue.bytes, next.1.bytes, ?_⟩
              simp [Sender.State.verdict, hpc, hcall, Pool.moved, hnext]
          | idle | sendCheck =>
              rw [hpc] at hop
              cases hop
          | destroyLock | finishing | relock | finishing2 | joining | finishing3 | draining
          | drainRelease | destroyed | refused =>
              rw [hpc] at h
              exact h.elim
  | sendRefused c hpc _ _ hcall =>
      refine ⟨.stopped, ?_, trivial⟩
      simp [Sender.State.verdict, hpc, hcall]
  | @sendNothing ch c hpc hmtx hrun hcall hnothing =>
      unfold Underway at h
      rw [hpc] at h
      have hadded := size_copy env.mem ch.mem argv
      rw [← h, hnothing] at hadded
      rw [Coupled.asksMem, hpc]
      refine ⟨hadded, fun v hv => ?_⟩
      simp [Pool.entered, QueueOp.entry] at hv
  | @sendCopy ch src chunk hpc _ _ hcopy =>
      unfold Underway at h
      rw [hpc] at h
      have hadded := size_copy env.mem ch.mem argv
      rw [← h, hcopy] at hadded
      rw [Coupled.asksMem, hpc]
      refine ⟨hadded, fun v hv => ?_⟩
      simp [Pool.entered, QueueOp.entry] at hv
  | pushReturn copy size hpc hcall =>
      unfold Underway at h
      rw [hpc] at h
      rcases h.2 size hcall with ⟨backlog, total, hlast⟩
      rw [Coupled.asksMem, hpc]
      refine ⟨.queued backlog (Sender.pushedBytes copy) total, ?_, h.1⟩
      simp [Sender.State.verdict, hpc, hlast]
  | destroyWait hpc | destroyGone hpc | destroyRefused hpc | finishReturn hpc | relockWait hpc
  | relockGone hpc | finish2Return hpc | join hpc | finish3Return hpc | drainEmpty hpc
  | drainChunk _ _ hpc | drainRelease _ hpc =>
      unfold Underway at h
      rw [hpc] at h
      exact h.elim

/-! ## The invariant -/

/-- The sender is one that was made and used as it should be, and a call is made by a
connected object. -/
structure Coupled.Inv (w : Coupled) : Prop where
  reach : meteredMachine.Reachable w.sender
  call : ∀ env argv, w.call = some (env, argv) →
    w.object.Connected ∧ Underway env argv w.copyMem w.sender

/-- Between messages nothing is asked of the sender. -/
theorem Coupled.inv_of_idle (hreach : meteredMachine.Reachable w.sender)
    (hcall : w.call = none) : w.Inv := by
  refine ⟨hreach, fun env argv hsome => ?_⟩
  rw [hcall] at hsome
  cases hsome

/-- The steps of the sender keep the call and the sender together. -/
theorem Coupled.Inv.senderStep (h : w.Inv) {a : Sender.Action}
    (ha : (∀ c, a ≠ .callSend c) ∧ a ≠ .callDestroy) (hstep : w.senderStep a = some w') :
    w'.Inv := by
  simp only [Coupled.senderStep] at hstep
  split at hstep
  · cases hstep
  · rcases Option.map_eq_some_iff.1 hstep with ⟨m, hm, rfl⟩
    refine ⟨h.reach.next trivial hm, fun env argv hcall => ?_⟩
    rcases h.call env argv hcall with ⟨hconnected, hunderway⟩
    exact ⟨hconnected,
      hunderway.step (Sender.control (Sender.metered_reachable h.reach)) ha hm⟩

/-- A call begins with a sender that is idle. -/
theorem Coupled.Inv.begin (h : w.Inv) (hidle : w.call = none) {env : ClientEnv}
    {argv : List Atom} (hstep : w.begin env argv = some w') : w'.Inv := by
  simp only [Coupled.begin] at hstep
  split at hstep
  · cases hstep
    exact inv_of_idle h.reach hidle
  · rename_i hconnected
    rcases Option.map_eq_some_iff.1 hstep with ⟨m, hm, rfl⟩
    refine ⟨h.reach.next trivial hm, fun env' argv' hcall => ⟨hconnected, ?_⟩⟩
    cases hcall
    rcases Option.map_eq_some_iff.1 hm with ⟨s, hs, rfl⟩
    have ht : Sender.Transition _ (.callSend (chunkCreateList env.mem argv)) s :=
      Sender.State.transition hs
    cases ht with
    | callSend c hpc => rfl

/-- Every step keeps the call and the sender together. -/
theorem Coupled.Inv.step (h : w.Inv) {a : Action} (hstep : udpsendMachine.step w a = some w') :
    w'.Inv := by
  cases a with
  | connect env hostname fportno o =>
      simp only [udpsendMachine, Coupled.step, Option.ite_none_right_eq_some,
        Option.some.injEq] at hstep
      rcases hstep with ⟨⟨hidle, _⟩, rfl⟩
      unfold Coupled.attach
      split
      · exact inv_of_idle (.start rfl) hidle
      · exact inv_of_idle h.reach hidle
  | disconnect =>
      simp only [udpsendMachine, Coupled.step, Option.ite_none_right_eq_some,
        Option.some.injEq] at hstep
      rcases hstep with ⟨hidle, rfl⟩
      exact inv_of_idle h.reach hidle
  | send env argv =>
      simp only [udpsendMachine, Coupled.step, Option.ite_none_right_eq_some] at hstep
      exact h.begin hstep.1 hstep.2
  | step t ch => exact h.senderStep ⟨by simp, by simp⟩ hstep
  | spurious t => exact h.senderStep ⟨by simp, by simp⟩ hstep
  | returned =>
      simp only [udpsendMachine, Coupled.step] at hstep
      split at hstep
      · cases hstep
        exact inv_of_idle h.reach rfl
      · cases hstep

/-- The call and the sender are together in every state. -/
theorem coupled_inv (h : udpsendMachine.Reachable w) : w.Inv := by
  apply h.invariant
  · rintro w ⟨abi, rfl⟩
    exact Coupled.inv_of_idle (.start rfl) rfl
  · exact fun w a w' _ hw _ hstep => hw.step hstep

/-! ## The end of a call -/

/-- What {lit}`udpsend_send` goes on with is the verdict on its call. -/
theorem Coupled.Inv.returned (h : w.Inv) (hstep : udpsendMachine.step w .returned = some w') :
    ∃ env argv verdict size, w.call = some (env, argv) ∧
      w.sender.verdicts.getLast? = some verdict ∧
      VerdictFor (addedBytes env.mem w.copyMem argv) verdict ∧
      verdict.Agrees size ∧ w.object.Connected ∧ w' = w.finish env argv size := by
  simp only [udpsendMachine, Coupled.step] at hstep
  split at hstep
  · rename_i env argv size hcall hpc hsize
    cases hstep
    rcases h.call env argv hcall with ⟨hconnected, hunderway⟩
    unfold Underway at hunderway
    rw [hpc] at hunderway
    rcases hunderway with ⟨verdict, hlast, hfor⟩
    refine ⟨env, argv, verdict, size, hcall, hlast, hfor, ?_, hconnected, rfl⟩
    have hc := Sender.control (Sender.metered_reachable h.reach)
    have hmain := hc.main
    rw [hpc] at hmain
    have hanswers : w.sender.sender.answers = w.sender.sender.results := by
      rw [Sender.State.answers, hmain.eq_none]
      exact List.append_nil _
    have hagree := Sender.agreement h.reach
    rw [hanswers] at hagree
    rw [List.getLast?_eq_getElem?] at hlast hsize
    rw [hagree.length_eq] at hlast
    exact Sender.agrees_result h.reach hsize hlast
  · cases hstep

/-- A number as a 32-bit {lit}`int` is positive exactly if it is not too large. -/
theorem one_le_toInt_iff {n : Nat} (hn : n < 2 ^ 32) :
    1 ≤ (BitVec.ofNat 32 n).toInt ↔ 1 ≤ n ∧ n < 2 ^ 31 := by
  rw [BitVec.toInt_ofNat']
  by_cases hlt : n < 2 ^ 31
  · rw [Int.bmod_eq_of_le (by omega) (by omega)]
    omega
  · have hwrap : ((n : Int)).bmod (2 ^ 32) = n - 2 ^ 32 := by
      rw [Int.bmod_def]
      norm_num
      omega
    rw [hwrap]
    omega

end UdpSend

/-- In every reachable state in which {lit}`udpsend_send` comes back from
{lit}`iemnet__sender_send`: if the thread was found stopped, the object is disconnected;
if not, its list has added its bytes to the queue, or nothing exactly if the list is empty
or an allocation has failed, and with a backlog below 2^31 bytes the object stays connected
exactly if there is at least one byte in the queue after the push and there are fewer than
2^31. -/
theorem udpsend_stays_iff {w w' : UdpSend.Coupled} (h : udpsendMachine.Reachable w)
    (hstep : udpsendMachine.step w .returned = some w') {env : ClientEnv} {argv : List Atom}
    (hcall : w.call = some (env, argv)) (hargc : argv.length < 2 ^ 31) :
    (w.sender.verdicts.getLast? = some .stopped →
      w'.object.sender = none ∧ w'.object.fd < 0) ∧
    ∀ backlog size total,
      w.sender.verdicts.getLast? = some (.queued backlog size total) → backlog < 2 ^ 31 →
        size = UdpSend.addedBytes env.mem w.copyMem argv ∧
        (size = 0 ↔ argv = [] ∨ env.mem = false ∨ w.copyMem = false) ∧
        (w.object.Stays w'.object ↔
          1 ≤ backlog + UdpSend.addedBytes env.mem w.copyMem argv ∧
            backlog + UdpSend.addedBytes env.mem w.copyMem argv < 2 ^ 31) := by
  rcases (UdpSend.coupled_inv h).returned hstep with
    ⟨env', argv', verdict, size, hcall', hlast, hfor, hagrees, hconnected, rfl⟩
  rw [hcall] at hcall'
  cases hcall'
  constructor
  · intro hstopped
    rw [hlast] at hstopped
    cases hstopped
    subst hagrees
    have hnone : (-1#32).toInt < 1 := by decide
    exact UdpSend.send_disconnects hconnected argv hnone
  · intro backlog bytes total hqueued hbacklog
    rw [hlast] at hqueued
    cases hqueued
    obtain ⟨htotal, rfl⟩ := hagrees
    have hbytes : bytes = UdpSend.addedBytes env.mem w.copyMem argv := hfor
    have hsmall : bytes < 2 ^ 31 := by
      rw [hbytes, UdpSend.addedBytes]
      split
      · exact hargc
      · norm_num
    refine ⟨hbytes, ?_, ?_⟩
    · rw [hbytes]
      exact UdpSend.addedBytes_eq_zero_iff
    · rw [← hbytes, ← htotal]
      exact (UdpSend.send_stays_iff hconnected argv).trans
        (UdpSend.one_le_toInt_iff (by omega))

namespace UdpSend

/-- A new object. -/
def fresh : Coupled :=
  ⟨new ⟨true, 64⟩, ⟨Sender.create, []⟩, none, true⟩

/-- A freshly connected udpsend is a start. -/
theorem init_fresh : udpsendMachine.init fresh :=
  ⟨_, rfl⟩

/-- The object connects and is given a list; the main thread then takes {lit}`n` steps, and
the send thread does nothing meanwhile. -/
def connectAndSend (argv : List Atom) (n : Nat) : List Action :=
  [.connect (plainClientEnv true 0) "localhost" ⟨3000, 0#32⟩ ⟨some 5, fun _ => true⟩,
    .send (plainClientEnv true 0) argv] ++ List.replicate n (.step .main ⟨true, 0, none, true⟩)

/-- A list of two numbers leaves the object connected. -/
theorem udpsend_stays_two :
    ∃ w w', udpsendMachine.run fresh (connectAndSend [setFloat 5, setFloat 6] 5) = some w ∧
      udpsendMachine.step w .returned = some w' ∧
      w.sender.verdicts = [.queued 0 2 2] ∧ w.object.Stays w'.object := by
  have hrun : udpsendMachine.run fresh (connectAndSend [setFloat 5, setFloat 6] 5) =
      some _ := rfl
  have hiff := (udpsend_stays_iff (Machine.reach_of_run init_fresh hrun) rfl rfl
    (by decide)).2 0 2 2 rfl (by norm_num)
  exact ⟨_, _, hrun, rfl, rfl, hiff.2.2.2 ⟨by decide, by decide⟩⟩

/-- The empty list disconnects an object with an empty queue, and its thread is
running. -/
theorem udpsend_empty_disconnects :
    ∃ w w', udpsendMachine.Reachable w ∧ w.sender.sender.isrunning = true ∧
      w.call = some (plainClientEnv true 0, []) ∧ w.sender.verdicts = [.queued 0 0 0] ∧
      udpsendMachine.step w .returned = some w' ∧ ¬ w.object.Stays w'.object := by
  have hrun : udpsendMachine.run fresh (connectAndSend [] 3) = some _ := rfl
  refine ⟨_, _, Machine.reach_of_run init_fresh hrun, rfl, rfl, rfl, rfl, fun hstays => ?_⟩
  have hsender := hstays.1
  cases hsender

end UdpSend

end Iemnet
