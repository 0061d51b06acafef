import Iemnet.Sender.Delivery

/-!
# What a call of the sender returns

The result of {lit}`iemnet__sender_send` is fixed by one locked section: the test of
{lit}`isrunning`, or the last section of {lit}`queue_push`.  {lit}`Metered` records
beside the sender what was the case in that section.

Main results:

- Theorem {lit}`State.answered`: every step adds as many verdicts as answers, and they
  agree.
- Theorem {lit}`send_result_iff`: a call that finds the thread running returns the number
  of bytes queued after the push exactly if there are fewer than 2^31.
-/

namespace Iemnet

open Foundations

namespace Sender

/-- What decides the result of a call. -/
inductive Verdict
  /-- {lit}`isrunning` was found cleared. -/
  | stopped
  /-- Before the section {lit}`backlog` bytes were queued; it added {lit}`size` bytes, and
  then {lit}`total` bytes were queued. -/
  | queued (backlog size total : Nat)
deriving DecidableEq, Repr

/-- The sender with the verdicts of the calls of {lit}`iemnet__sender_send`. -/
structure Metered where
  sender : State
  verdicts : List Verdict

/-- The number of bytes that {lit}`queue_push` adds to the queue. -/
def pushedBytes (copy : Option Copy) : Nat :=
  (copy.map Payload.size).getD 0

/-- The verdict that falls in a step. -/
def State.verdict (s s' : State) : Action → List Verdict
  | .step .main _ =>
      match s.main, s.pool.call .main, s'.pool.call .main with
      | .sendCheck _, none, none => [.stopped]
      | .pushing copy, some _, some (.retSize _) =>
          [.queued s.pool.queue.bytes (pushedBytes copy) s'.pool.queue.bytes]
      | _, _, _ => []
  | _ => []

/-- The size that a call has to return. -/
def returnedSize : Option (Call Copy) → Option (BitVec 32)
  | some (.retSize size) => some size
  | _ => none

/-- The results so far, with that of a call of {lit}`queue_push` that has still to
return. -/
def State.answers (s : State) : List (BitVec 32) :=
  s.results ++ (returnedSize (s.pool.call .main)).toList

/-- What the verdict means for the result. -/
def Verdict.Agrees : Verdict → BitVec 32 → Prop
  | .stopped, v => v = -1#32
  | .queued backlog size total, v =>
      total = backlog + size ∧ v = BitVec.ofNat 32 total

end Sender

open Sender in
/-- The sender with its verdicts as a transition system. -/
def meteredMachine : Machine Metered Action where
  init m := m = ⟨create, []⟩
  step m a := (senderMachine.step m.sender a).map fun s =>
    ⟨s, m.verdicts ++ m.sender.verdict s a⟩

namespace Sender

variable {s s' : State} {a : Action}

/-! ## The last section of a push -/

/-- What is pending inside {lit}`queue_push` is its argument. -/
theorem pending_of_push {copy : Option Copy} {c : Call Copy}
    (h : (QueueOp.push copy).Covers c) (hunfinished : c.finished = false) : c.pending = copy := by
  cases c <;> simp_all [QueueOp.Covers, Call.pending, Call.finished]

/-- A section of {lit}`queue_push` that returns has linked its argument. -/
theorem bytes_of_retSize {l : List (Nat × Copy)} (hpool : s.pool.Inv l) {addr : Nat}
    {wake : Option Tid} {copy : Option Copy} {c : Call Copy} {q : Queue Tid Copy} {v : BitVec 32}
    (hcall : s.pool.call .main = some c) (hcovers : (QueueOp.push copy).Covers c)
    (hstep : c.step .main addr wake s.pool.queue = some (q, .retSize v)) :
    q.bytes = s.pool.queue.bytes + pushedBytes copy := by
  have heffect := Call.effect (hpool.ok .main c hcall) hstep
  have hle := hpool.shape.popped_le
  have hunfinished : c.finished = false := by
    cases c <;> first | rfl | cases hstep
  have hpending := pending_of_push hcovers hunfinished
  unfold pushedBytes
  cases heffect with
  | quiet hpushed hpopped hsame _ =>
      rw [← hpending, ← hsame, NodeList.bytes, NodeList.bytes, hpushed, hpopped]
      rfl
  | link d hpushed hpopped hbefore _ _ =>
      rw [← hpending, hbefore, NodeList.bytes, NodeList.bytes, hpushed, hpopped,
        List.drop_append_of_le_length hle]
      simp
  | detach _ _ _ _ hticket => cases hticket

/-! ## One step -/

/-- Only {lit}`queue_push` returns a size to the main thread. -/
theorem Control.pushing_of_retSize (hc : Control s) {addr : Nat} {wake : Option Tid}
    {c : Call Copy} {q q' : Queue Tid Copy} {v : BitVec 32}
    (hcall : s.pool.call .main = some c)
    (hstep : c.step .main addr wake q = some (q', .retSize v)) :
    ∃ copy, s.main = .pushing copy ∧ (QueueOp.push copy).Covers c := by
  have hmain := hc.main
  rw [hcall] at hmain
  rcases hmain.op_of_some with ⟨op, hop, hcovers⟩
  have hcovers' := hcovers.step hstep
  cases hpc : s.main with
  | pushing copy =>
      rw [hpc] at hop
      cases hop
      exact ⟨copy, rfl, hcovers⟩
  | finishing | finishing2 | finishing3 | draining =>
      rw [hpc] at hop
      cases hop
      cases hcovers'
  | idle | sendCheck | destroyLock | relock | joining | drainRelease | destroyed | refused =>
      rw [hpc] at hop
      cases hop

/-- A step that fixes the result of a call is the one that has a verdict, and they
agree. -/
theorem State.answered {l : List (Nat × Copy)} (hpool : s.pool.Inv l) (hc : Control s)
    (ht : Transition s a s') :
    ∃ new, s'.answers = s.answers ++ new ∧
      List.Forall₂ Verdict.Agrees (s.verdict s' a) new := by
  have hquiet : s'.results = s.results →
      returnedSize (s'.pool.call .main) = returnedSize (s.pool.call .main) →
      s.verdict s' a = [] →
      ∃ new, s'.answers = s.answers ++ new ∧
        List.Forall₂ Verdict.Agrees (s.verdict s' a) new := by
    intro hresults hsize hverdict
    refine ⟨[], ?_, hverdict ▸ .nil⟩
    rw [State.answers, State.answers, hresults, hsize, List.append_nil]
  cases ht with
  | queueSection t ch c next hcall hstep =>
      cases t with
      | send => exact hquiet rfl (by simp [Pool.moved]) rfl
      | main =>
          have hbefore : returnedSize (some c) = none := by
            cases c <;> first | rfl | cases hstep
          rcases next with ⟨q, c'⟩
          cases c' with
          | retSize v =>
              rcases hc.pushing_of_retSize hcall hstep with ⟨copy, hpc, hcovers⟩
              have hbytes := bytes_of_retSize hpool hcall hcovers hstep
              rcases hpool.callStep hcall hstep with ⟨l', hpool'⟩
              have hsize : q.size = BitVec.ofNat 32 q.bytes := hpool'.shape.size_eq
              refine ⟨[v], ?_, ?_⟩
              · rw [State.answers, State.answers, hcall, hbefore]
                simp [Pool.moved, returnedSize]
              · simp only [State.verdict, hpc, hcall, Pool.moved, Function.update_self]
                exact .cons ⟨hbytes, (callStep_retSize hstep).trans hsize⟩ .nil
          | _ =>
              refine hquiet rfl ?_ ?_
              · rw [hcall, hbefore]
                simp [Pool.moved, returnedSize]
              · simp only [State.verdict, hcall, Pool.moved, Function.update_self]
                cases s.main <;> rfl
  | pushReturn data size hpc hcall =>
      refine ⟨[], ?_, ?_⟩
      · simp [State.answers, hcall, returnedSize]
      · simp [State.verdict, hpc, hcall]
  | sendRefused c hpc hmtx hrun hcall =>
      refine ⟨[-1#32], ?_, ?_⟩
      · simp [State.answers, hcall, returnedSize]
      · simp [State.verdict, hpc, hcall, Verdict.Agrees]
  | callSend | callDestroy | spurious | loopExit | passChunk | sendReturns | release
  | brokenExit => exact hquiet rfl rfl rfl
  | loopEnter => exact hquiet rfl (by simp) rfl
  | popNothing | popChunk => exact hquiet rfl (by simp) rfl
  | destroyRefused hpc _ _ hcall =>
      exact hquiet rfl rfl (by simp [State.verdict, hpc])
  | sendNothing c hpc _ _ hcall | sendCopy _ _ hpc _ _ _ hcall
  | destroyWait hpc _ _ _ hcall | destroyGone hpc _ _ _ hcall | relockWait hpc _ _ hcall
  | relockGone hpc _ _ hcall | join hpc _ hcall | drainRelease _ hpc hcall =>
      refine hquiet rfl ?_ ?_
      · simp [hcall, Pool.entered, QueueOp.entry, returnedSize]
      · simp [State.verdict, hpc, Pool.entered]
  | finishReturn hpc hcall | finish2Return hpc hcall | drainEmpty hpc hcall
  | drainChunk _ _ hpc hcall =>
      refine hquiet rfl ?_ ?_
      · simp [hcall, returnedSize]
      · simp [State.verdict, hpc]
  | finish3Return hpc hcall =>
      refine hquiet rfl ?_ ?_
      · simp [hcall, Pool.entered, QueueOp.entry, returnedSize]
      · simp [State.verdict, hpc]

/-! ## All runs -/

variable {m : Metered} {ok : Metered → Action → Prop}

/-- Measuring the answers adds no states to the sender. -/
theorem metered_reachable (h : meteredMachine.Reach ok m) :
    senderMachine.Reachable m.sender := by
  apply h.invariant (I := fun m => senderMachine.Reachable m.sender)
  · rintro m rfl
    exact .start rfl
  · rintro m a m' _ hm _ hstep
    rcases Option.map_eq_some_iff.1 hstep with ⟨s, hs, rfl⟩
    exact hm.next trivial hs

/-- The verdicts agree with the answers. -/
theorem agreement (h : meteredMachine.Reach ok m) :
    List.Forall₂ Verdict.Agrees m.verdicts m.sender.answers := by
  apply h.invariant (I := fun m => List.Forall₂ Verdict.Agrees m.verdicts m.sender.answers)
  · rintro m rfl
    exact .nil
  · rintro m a m' hreach hagree _ hstep
    rcases Option.map_eq_some_iff.1 hstep with ⟨s, hs, rfl⟩
    have hsender := metered_reachable hreach
    rcases Pool.exists_inv (reachable_pool hsender) with ⟨l, hpool⟩
    rcases State.answered hpool (control hsender) (State.transition hs) with ⟨new, hnew, hlast⟩
    rw [hnew]
    exact List.rel_append hagree hlast

/-- The verdict on a call that has returned. -/
theorem agrees_result (h : meteredMachine.Reach ok m) {i : Nat} {v : BitVec 32}
    {verdict : Verdict} (hv : m.sender.results[i]? = some v)
    (hverdict : m.verdicts[i]? = some verdict) : verdict.Agrees v := by
  rcases List.getElem?_eq_some_iff.1 hverdict with ⟨hi, rfl⟩
  have hanswer : m.sender.answers[i]? = some v := by
    rw [State.answers, List.getElem?_append_left (List.getElem?_eq_some_iff.1 hv).1, hv]
  rcases List.getElem?_eq_some_iff.1 hanswer with ⟨hj, rfl⟩
  exact (agreement h).get hi hj

/-- A call that finds the thread running goes on to {lit}`queue_push`. -/
theorem Control.pushing_of_sendCheck (hc : Control s) {c : Option Chunk} {ch : Choice}
    (hpc : s.main = .sendCheck c) (hrun : s.isrunning = true)
    (ht : Transition s (.step .main ch) s') :
    s.verdict s' (.step .main ch) = [] ∧ ∃ copy, s'.main = .pushing copy := by
  have hmain := hc.main
  rw [hpc] at hmain
  have hcall := hmain.eq_none
  cases ht with
  | queueSection _ _ _ _ hinside => rw [hcall] at hinside; cases hinside
  | sendRefused _ _ _ hstopped => rw [hrun] at hstopped; cases hstopped
  | sendNothing => exact ⟨by simp [State.verdict, hpc, Pool.entered], none, rfl⟩
  | sendCopy => exact ⟨by simp [State.verdict, hpc, Pool.entered], _, rfl⟩
  | pushReturn _ _ hpc' | destroyWait hpc' | destroyGone hpc' | destroyRefused hpc'
  | finishReturn hpc' | relockWait hpc' | relockGone hpc' | finish2Return hpc' | join hpc'
  | finish3Return hpc' | drainEmpty hpc' | drainChunk _ _ hpc' | drainRelease _ hpc' =>
      rw [hpc] at hpc'
      cases hpc'

/-- A number as a 32-bit {lit}`int`. -/
theorem toInt_ofNat_eq_iff (n : Nat) :
    (0 ≤ (BitVec.ofNat 32 n).toInt ∧ (BitVec.ofNat 32 n).toInt = n) ↔ n < 2 ^ 31 := by
  rw [BitVec.toInt_ofNat']
  constructor
  · rintro ⟨_, heq⟩
    have hlt := @Int.bmod_lt n (2 ^ 32) (by norm_num)
    omega
  · intro hlt
    rw [Int.bmod_eq_of_le (by omega) (by omega)]
    omega

end Sender

open Sender in
/-- In every run of a sender: a call of {lit}`iemnet__sender_send` that finds
{lit}`isrunning` set goes on to {lit}`queue_push`; and what it returns is not negative and
the number of bytes queued after the push exactly if the bytes queued before and those of
its chunk are fewer than 2^31. -/
theorem send_result_iff {m : Metered} (h : meteredMachine.Reachable m) :
    (∀ c ch m', m.sender.main = .sendCheck c → m.sender.isrunning = true →
      meteredMachine.step m (.step .main ch) = some m' →
        m'.verdicts = m.verdicts ∧ ∃ copy, m'.sender.main = .pushing copy) ∧
    ∀ (i : Nat) (v : BitVec 32) (backlog size total : Nat), m.sender.results[i]? = some v →
      m.verdicts[i]? = some (.queued backlog size total) →
        ((0 ≤ v.toInt ∧ v.toInt = total) ↔ backlog + size < 2 ^ 31) := by
  constructor
  · intro c ch m' hpc hrun hstep
    rcases Option.map_eq_some_iff.1 hstep with ⟨s, hs, rfl⟩
    have hc := control (metered_reachable h)
    rcases hc.pushing_of_sendCheck hpc hrun (State.transition hs) with ⟨hnone, hpushing⟩
    exact ⟨by rw [hnone, List.append_nil], hpushing⟩
  · intro i v backlog size total hv hverdict
    rcases agrees_result h hv hverdict with ⟨htotal, rfl⟩
    rw [← htotal]
    exact toInt_ofNat_eq_iff total

namespace Sender

/-- While nothing has been popped, everything submitted is queued. -/
theorem size_of_unpopped (h : senderMachine.Reachable s) (hcall : s.pool.call .main = none)
    (hpopped : s.pool.queue.popped = 0) :
    s.pool.queue.size = BitVec.ofNat 32 (s.submitted.map Chunk.size).sum := by
  rcases Pool.exists_inv (reachable_pool h) with ⟨l, hpool⟩
  have hcontent := (delivery h).1.content
  rw [State.pending, hcall] at hcontent
  have hpushed : s.pool.queue.pushed = copiesOf s.submitted := by simpa using hcontent
  have hsizes : (copiesOf s.submitted).map Payload.size = s.submitted.map Chunk.size := by
    apply List.ext_getElem <;> simp [copiesOf, copyOf, Payload.size, Chunk.size]
  rw [hpool.shape.size_eq, NodeList.bytes, hpopped, List.drop_zero, hpushed, hsizes]

/-- The main thread sends a chunk, and the send thread does nothing meanwhile. -/
def sendAlone (c : Chunk) (addr : Nat) : List Action :=
  .callSend (some c) :: List.replicate 5 (.step .main ⟨true, addr, none, true⟩)

/-- Two small chunks. -/
theorem send_result_iff_run :
    ∃ m, meteredMachine.run ⟨create, []⟩
        (sendAlone ⟨[1#8, 2#8], 0, 0#16, 2⟩ 0 ++ sendAlone ⟨[3#8], 0, 0#16, 2⟩ 1) = some m ∧
      m.verdicts = [.queued 0 2 2, .queued 2 1 3] ∧ m.sender.results = [2#32, 3#32] ∧
      0 ≤ (3#32).toInt ∧ (3#32).toInt = (3 : Nat) := by
  have hrun : meteredMachine.run ⟨create, []⟩
      (sendAlone ⟨[1#8, 2#8], 0, 0#16, 2⟩ 0 ++ sendAlone ⟨[3#8], 0, 0#16, 2⟩ 1) = some _ := rfl
  have hiff := (send_result_iff (Machine.reach_of_run rfl hrun)).2 1 (3#32) 2 1 3 rfl rfl
  exact ⟨_, hrun, rfl, rfl, hiff.2 (by norm_num)⟩

/-- What the second of two calls returns while the send thread does nothing. -/
theorem result_sendAlone (x y : BitVec 8) (xs ys : List (BitVec 8)) :
    ∃ m, meteredMachine.Reachable m ∧ m.sender.isrunning = true ∧
      m.sender.submitted = [⟨x :: xs, 0, 0#16, 2⟩, ⟨y :: ys, 0, 0#16, 2⟩] ∧
      (∃ backlog size total, m.verdicts[1]? = some (.queued backlog size total)) ∧
      m.sender.results[1]? = some (BitVec.ofNat 32
        (List.map Chunk.size [⟨x :: xs, 0, 0#16, 2⟩, ⟨y :: ys, 0, 0#16, 2⟩]).sum) := by
  have hrun : meteredMachine.run ⟨create, []⟩ (sendAlone ⟨x :: xs, 0, 0#16, 2⟩ 0 ++
      sendAlone ⟨y :: ys, 0, 0#16, 2⟩ 1) = some _ := rfl
  have hreach := Machine.reach_of_run rfl hrun
  exact ⟨_, hreach, rfl, rfl, ⟨_, _, _, rfl⟩,
    congrArg some (size_of_unpopped (metered_reachable hreach) rfl rfl)⟩

/-- Two chunks of 2^30 bytes, the first of which has not been sent yet: the second call
returns a negative number, and the thread is running. -/
theorem send_result_negative :
    ∃ m, meteredMachine.Reachable m ∧ m.sender.isrunning = true ∧
      m.sender.submitted.map Chunk.size = [2 ^ 30, 2 ^ 30] ∧
      (∃ backlog size total, m.verdicts[1]? = some (.queued backlog size total)) ∧
      ∃ v, m.sender.results[1]? = some v ∧ v.toInt < 0 := by
  rcases result_sendAlone 0#8 0#8 (List.replicate (2 ^ 30 - 1) 0#8)
    (List.replicate (2 ^ 30 - 1) 0#8) with ⟨m, hreach, hrun, hsubmitted, hverdict, hresult⟩
  have hsize : Chunk.size ⟨0#8 :: List.replicate (2 ^ 30 - 1) 0#8, 0, 0#16, 2⟩ = 2 ^ 30 := by
    rw [Chunk.size, List.length_cons, List.length_replicate]
    norm_num
  refine ⟨m, hreach, hrun, ?_, hverdict, _, hresult, ?_⟩
  · rw [hsubmitted, List.map_cons, List.map_cons, hsize, List.map_nil]
  · rw [List.map_cons, List.map_cons, hsize, List.map_nil]
    decide

end Sender
end Iemnet
