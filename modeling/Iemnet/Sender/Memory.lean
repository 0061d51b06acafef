import Iemnet.Queue.Memory
import Iemnet.Sender.Delivery

/-!
# Where the sender's memory is

Every chunk that {lit}`iemnet__sender_send` copies, and every node the queue allocates for
one, is in one place at any moment: on its way into the queue, in the queue, in the hand of
a thread, or released.

Main results:

- Theorem {lit}`handling_step`: one step copies, passes or destroys one chunk, or none.
- Theorem {lit}`Delivery.places`: the copies made, by where they are.
- Theorem {lit}`memory_accounted`: the same with the nodes, and what is left when
  {lit}`iemnet__sender_destroy` has returned.
-/

namespace Iemnet
namespace Sender

open Foundations

variable {s : State}

/-! ## One step -/

/-- The copy has been made and not been released. -/
def State.Unreleased (s : State) (c : Copy) : Prop :=
  c ∈ copiesOf s.submitted ∧ c ∉ s.released

/-- What one step does with chunks. -/
inductive Handling (s s' : State) : Prop
  | nothing (hsubmitted : s'.submitted = s.submitted) (hpassed : s'.passed = s.passed)
      (hreleased : s'.released = s.released)
  /-- {lit}`iemnet__sender_send` copies its chunk. -/
  | copies (src : Chunk) (hpc : s.main = .sendCheck (some src))
      (hcopy : chunkCreateChunk true (some src) = some { src with family := afInet })
      (hsubmitted : s'.submitted = s.submitted ++ [src]) (hpassed : s'.passed = s.passed)
      (hreleased : s'.released = s.released)
  /-- The send thread calls the send function. -/
  | passes (c : Copy) (hlive : s.Unreleased c) (hsubmitted : s'.submitted = s.submitted)
      (hpassed : s'.passed = s.passed ++ [c]) (hreleased : s'.released = s.released)
  /-- {lit}`iemnet__chunk_destroy` for a copy. -/
  | releases (c : Copy) (hlive : s.Unreleased c) (hsubmitted : s'.submitted = s.submitted)
      (hpassed : s'.passed = s.passed) (hreleased : s'.released = s.released ++ [c])

/-- A copy in the hand of a thread has not been released. -/
theorem Delivery.live_of_hand (h : Delivery s) {c : Copy} (hc : c ∈ copiesOf s.submitted)
    (hhand : c.serial ∈ s.threadHand ++ s.mainHand) : s.Unreleased c := by
  refine ⟨hc, fun hreleased => ?_⟩
  have hnodup : (s.released.map Copy.serial ++ (s.threadHand ++ s.mainHand)).Nodup := by
    rw [h.ledger]
    exact List.nodup_range
  exact List.disjoint_of_nodup_append hnodup (List.mem_map_of_mem hreleased) hhand

/-- The copy in the hand of the send thread has not been released. -/
theorem Delivery.live_thread (h : Delivery s) {c : Copy} (hc : s.thread.copy = some c) :
    s.Unreleased c := by
  apply h.live_of_hand (h.threadCopy c hc)
  simp [State.threadHand, hc]

/-- The copy in the hand of the main thread has not been released. -/
theorem Delivery.live_main (h : Delivery s) {c : Copy} (hc : s.main.copy = some c) :
    s.Unreleased c := by
  apply h.live_of_hand (h.mainCopy c hc)
  simp [State.mainHand, hc]

/-- What a transition does with the copies that it handles. -/
theorem Delivery.handling (h : Delivery s) {s' : State} {a : Action} (htr : Transition s a s') :
    Handling s s' := by
  cases htr with
  | passChunk c hpc hcall => exact .passes c (h.live_thread (by rw [hpc]; rfl)) rfl rfl rfl
  | release ok c hpc hcall => exact .releases c (h.live_thread (by rw [hpc]; rfl)) rfl rfl rfl
  | drainRelease c hpc hcall => exact .releases c (h.live_main (by rw [hpc]; rfl)) rfl rfl rfl
  | @sendCopy ch src chunk hpc hmtx hrun hcopy hcall =>
      have hmem : ch.mem = true := by
        by_contra hno
        rw [Bool.not_eq_true] at hno
        simp [hno, chunkCreateChunk, chunkCreateData, chunkCreateEmpty] at hcopy
      have hchunk := congrArg Copy.chunk (copyOf_of_chunkCreateChunk (i := 0) hcopy)
      rw [hmem] at hcopy
      exact .copies src hpc (hcopy.trans (congrArg some hchunk)) rfl rfl rfl
  | _ => exact .nothing rfl rfl rfl

/-- In every reachable state, one step copies, passes or destroys one chunk, or none. -/
theorem handling_step {s' : State} (h : senderMachine.Reachable s) {a : Action}
    (hs : s.step a = some s') : Handling s s' :=
  (delivery h).1.handling (State.transition hs)

/-- Nobody but its caller brings the main thread to the entry of
{lit}`iemnet__sender_send`. -/
theorem asked_of_step {s' : State} {a : Action} (hs : s.step a = some s') {c : Option Chunk}
    (hpc : s'.main = .sendCheck c) : a = .callSend c ∨ s.main = .sendCheck c := by
  cases State.transition hs with
  | callSend c' hidle =>
      cases hpc
      exact Or.inl rfl
  | queueSection | spurious | loopEnter | loopExit | popNothing | popChunk | passChunk
  | sendReturns | release | brokenExit => exact Or.inr hpc
  | _ => cases hpc

/-! ## Places -/

/-- The numbers of the copies made, in order: those released, those in the hands of the two
threads, those in the queue and the one that is still to be linked. -/
theorem Delivery.places (h : Delivery s) {l : List (Nat × Copy)} (hshape : s.pool.queue.Shape l) :
    s.released.map Copy.serial ++ (s.threadHand ++ s.mainHand) ++
      ((l.map fun p => p.2.serial) ++ s.pending.map Copy.serial) =
      List.range s.submitted.length := by
  have hmade : (copiesOf s.submitted).map Copy.serial = List.range s.submitted.length :=
    (numbered_copiesOf s.submitted).trans (by rw [copiesOf, List.length_mapIdx])
  have hqueued : (l.map fun p => p.2.serial) =
      (s.pool.queue.pushed.map Copy.serial).drop s.pool.queue.popped := by
    rw [← List.map_drop, hshape.content, List.map_map]
    rfl
  have hlength : s.pool.queue.pushed.length ≤ s.submitted.length := by
    simpa [copiesOf] using h.pushed_prefix.length_le
  have hpushed : s.pool.queue.pushed.map Copy.serial =
      List.range s.pool.queue.pushed.length := by
    have hbegin := h.pushed_prefix.map Copy.serial
    rw [hmade, List.prefix_iff_eq_take, List.length_map] at hbegin
    rw [hbegin, List.take_range, Nat.min_eq_left hlength]
  calc s.released.map Copy.serial ++ (s.threadHand ++ s.mainHand) ++
        ((l.map fun p => p.2.serial) ++ s.pending.map Copy.serial)
      = List.range s.pool.queue.popped ++
          (List.range s.pool.queue.pushed.length).drop s.pool.queue.popped ++
          s.pending.map Copy.serial := by
        rw [h.ledger, hqueued, hpushed, List.append_assoc]
    _ = List.range s.pool.queue.pushed.length ++ s.pending.map Copy.serial := by
        have htake : List.range s.pool.queue.popped =
            (List.range s.pool.queue.pushed.length).take s.pool.queue.popped := by
          rw [List.take_range, Nat.min_eq_left hshape.popped_le]
        rw [htake, List.take_append_drop]
    _ = List.range s.submitted.length := by
        rw [← hpushed, ← List.map_append, h.content, hmade]

/-- When {lit}`iemnet__sender_destroy` has returned, neither thread is inside the queue. -/
theorem Control.call_of_destroyed (h : Control s) (hdestroyed : s.main = .destroyed) (t : Tid) :
    s.pool.call t = none := by
  cases t with
  | main =>
      have hmain := h.main
      rw [hdestroyed] at hmain
      exact hmain.eq_none
  | send =>
      have hthread := h.thread
      rw [h.late (by rw [hdestroyed]; rfl)] at hthread
      exact hthread.eq_none

/-- In every state reached by the send thread and a main thread that sends any chunks and
destroys the sender: every allocated node is in the list or in the hand of exactly one
thread, and every copy made has been released or is in exactly one place; once
{lit}`iemnet__sender_destroy` has returned, no node is allocated and every copy made has
been released. -/
theorem memory_accounted (h : senderMachine.Reachable s) :
    ∃ l, s.pool.queue.Shape l ∧
      (∀ a, s.pool.queue.heap a ≠ none ↔
        Xor (a ∈ l.map Prod.fst) (∃! t, s.pool.Holds t a)) ∧
      s.released.map Copy.serial ++ (s.threadHand ++ s.mainHand) ++
        ((l.map fun p => p.2.serial) ++ s.pending.map Copy.serial) =
        List.range s.submitted.length ∧
      (s.main = .destroyed →
        (∀ a, s.pool.queue.heap a = none) ∧ s.released = copiesOf s.submitted) := by
  rcases delivery h with ⟨hdelivery, hdrained⟩
  have hcontrol := control h
  rcases Pool.placed (reachable_pool h) with ⟨l, hinv, hnodes⟩
  have hshape := hinv.shape
  refine ⟨l, hshape, hnodes, hdelivery.places hshape, fun hdestroyed => ?_⟩
  have hcall := hcontrol.call_of_destroyed hdestroyed
  have hpopped : s.pool.queue.popped = s.pool.queue.pushed.length := hdrained (Or.inl hdestroyed)
  have hempty : l = [] := by
    have hcontent := hshape.content
    rw [hpopped, List.drop_length] at hcontent
    exact List.map_eq_nil_iff.1 hcontent.symm
  constructor
  · intro a
    by_contra ha
    rcases (hnodes a).1 ha with ⟨hmem, -⟩ | ⟨hheld, -⟩
    · simp [hempty] at hmem
    · rcases hheld.exists with ⟨t, c, hc, -⟩
      rw [hcall t] at hc
      contradiction
  · exact hdelivery.released_eq hdrained hcontrol hdestroyed

/-- A chunk is sent and the sender destroyed. -/
theorem memory_accounted_run :
    ∃ s, senderMachine.run create sendThenDestroy = some s ∧ s.main = .destroyed ∧
      ∀ a, s.pool.queue.heap a = none := by
  have hrun : senderMachine.run create sendThenDestroy = some _ := rfl
  rcases memory_accounted (Machine.reach_of_run rfl hrun) with ⟨l, -, -, -, hend⟩
  exact ⟨_, hrun, rfl, (hend rfl).1⟩

end Sender
end Iemnet
