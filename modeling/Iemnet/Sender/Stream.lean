import Iemnet.Foundations.PartialWrite
import Iemnet.Sender.Delivery

/-!
# The byte stream of a TCP sender

The sender with {lit}`iemnet__sender_defaultsend` on a stream socket, and the kernel
behind the socket.  Each call of {lit}`send` is answered by any count up to the size
offered, or by {lit}`-1`; the kernel then holds the first that many bytes.  The
thread looks only at the sign of the answer.

Bytes are followed together with the number of their chunk and their place in it,
so that a byte skipped is not made up for by an equal byte behind it.

Main results:

- Theorem {lit}`streamed`: what the kernel holds are the prefixes it announced.
- Theorem {lit}`stream_prefix_iff`: it holds a prefix of the submitted stream exactly
  when it took nothing after a short answer.
- Theorem {lit}`stream_skips`: one short answer makes the stream skip bytes.
-/

namespace Iemnet

open Foundations
open Foundations.PartialWrite

namespace Sender

/-- A byte with the number of its chunk and its place there. -/
abbrev Placed :=
  Nat × Nat × BitVec 8

/-- The bytes of one call of {lit}`send`. -/
def placed (serial : Nat) (data : List (BitVec 8)) : List Placed :=
  data.mapIdx fun i b => (serial, i, b)

/-- A call of {lit}`send` as a block offered and the answer to it. -/
def offered (w : Copy × Int) : List Placed × Int :=
  (placed w.1.serial w.1.chunk.data, w.2)

/-- The stream a sequence of submitted chunks stands for. -/
def streamOf (submitted : List Chunk) : List Placed :=
  ((copiesOf submitted).map fun c => placed c.serial c.chunk.data).flatten

/-- The sender, the bytes the kernel has accepted, and the answers it gave. -/
structure Stream where
  sender : State
  accepted : List Placed
  writes : List (Copy × Int)

/-- The chunks of a stream socket carry no port. -/
def portless (c : Option Chunk) : Prop :=
  ∀ src, c = some src → src.port = 0#16

instance (c : Option Chunk) : Decidable (portless c) :=
  match c with
  | none => isTrue (by simp [portless])
  | some src =>
      if h : src.port = 0#16 then isTrue (by simp [portless, h])
      else isFalse (by simp [portless, h])

/-- One step; the number is the kernel's answer where the step is the return of
{lit}`send`, and is not looked at elsewhere. -/
def Stream.step (s : Stream) (a : Action × Int) : Option Stream :=
  match a.1, s.sender.thread with
  | .step .send ch, .sending c =>
      match defaultsendRequest c.chunk with
      | .send data =>
          if -1 ≤ a.2 ∧ a.2 ≤ data.length then
            (s.sender.step (.step .send { ch with ok := defaultsendResult a.2 })).map
              fun sender =>
                { sender := sender
                  accepted := s.accepted ++ (placed c.serial data).take a.2.toNat
                  writes := s.writes ++ [(c, a.2)] }
          else none
      | .sendto _ _ _ _ => none
  | .callSend c, _ =>
      if portless c then
        (s.sender.step (.callSend c)).map fun sender => { s with sender := sender }
      else none
  | act, _ => (s.sender.step act).map fun sender => { s with sender := sender }

/-- A new sender on a fresh connection. -/
def Stream.create : Stream :=
  ⟨Sender.create, [], []⟩

/-- A TCP sender with its kernel as a transition system. -/
def streamMachine : Machine Stream (Action × Int) where
  init := fun s => s = Stream.create
  step := Stream.step

variable {s s' : Stream}

/-- A step is a return of {lit}`send`, or a step of the sender alone that is none. -/
theorem Stream.step_cases {a : Action × Int} (h : s.step a = some s') :
    (∃ (ch : Choice) (c : Copy), s.sender.thread = .sending c ∧ -1 ≤ a.2 ∧ a.2 ≤ c.chunk.size ∧
        s.sender.step (.step .send { ch with ok := defaultsendResult a.2 }) =
          some s'.sender ∧
        s'.accepted = s.accepted ++ (placed c.serial c.chunk.data).take a.2.toNat ∧
        s'.writes = s.writes ++ [(c, a.2)]) ∨
      ((∀ ch c, a.1 = .step .send ch → s.sender.thread ≠ .sending c) ∧
        s.sender.step a.1 = some s'.sender ∧ s'.accepted = s.accepted ∧
        s'.writes = s.writes) := by
  unfold Stream.step at h
  split at h
  · rename_i ch c hact hpc
    split at h
    · rename_i data hrequest
      have hdata : data = c.chunk.data := by
        unfold defaultsendRequest at hrequest
        split at hrequest
        · cases hrequest
        · cases hrequest
          rfl
      subst hdata
      split at h
      · rename_i hrange
        rcases Option.map_eq_some_iff.1 h with ⟨sender, hsender, rfl⟩
        exact Or.inl ⟨ch, c, hpc, hrange.1, hrange.2, hsender, rfl, rfl⟩
      · contradiction
    · contradiction
  · rename_i c hact
    split at h
    · rcases Option.map_eq_some_iff.1 h with ⟨sender, hsender, rfl⟩
      refine Or.inr ⟨?_, by rw [hact]; exact hsender, rfl, rfl⟩
      intro ch c' hstep
      rw [hact] at hstep
      cases hstep
    · contradiction
  · rename_i hnot
    rcases Option.map_eq_some_iff.1 h with ⟨sender, hsender, rfl⟩
    refine Or.inr ⟨?_, hsender, rfl, rfl⟩
    intro ch c hstep hpc
    exact hnot ch c hstep hpc

/-- The sender inside a reachable stream is a reachable sender. -/
theorem reachable_sender (h : streamMachine.Reachable s) :
    senderMachine.Reachable s.sender := by
  refine Machine.Reach.invariant
    (I := fun s : Stream => senderMachine.Reachable s.sender) ?_ ?_ h
  · rintro s rfl
    exact .start rfl
  · intro s a s' _ hsender _ hstep
    rcases Stream.step_cases hstep with ⟨ch, c, -, -, -, hnext, -⟩ | ⟨-, hnext, -⟩
    · exact hsender.next (a := .step .send _) trivial hnext
    · exact hsender.next (a := a.1) trivial hnext

/-! ## What the kernel holds -/

/-- The answers belong to the calls in order, and the kernel holds what it
announced. -/
structure Streamed (s : Stream) : Prop where
  copies : s.writes.map Prod.fst = s.sender.passed.take s.sender.outcomes.length
  outcomes : s.sender.outcomes = s.writes.map fun w => defaultsendResult w.2
  range : ∀ w ∈ s.writes, -1 ≤ w.2 ∧ w.2 ≤ w.1.chunk.size
  accepted : s.accepted = taken (s.writes.map offered)

/-- A new sender has written nothing. -/
theorem streamed_create : Streamed Stream.create := by
  refine ⟨rfl, rfl, ?_, rfl⟩
  intro w hw
  cases hw

/-- The copy inside the send function is the one passed last. -/
theorem Delivery.passed_of_sending {s : State} (h : Delivery s) (hc : Control s) {c : Copy}
    (hpc : s.thread = .sending c) : s.passed[s.outcomes.length]? = some c := by
  have hcall : s.pool.call .send = none := by
    have hthread := hc.thread
    rw [hpc] at hthread
    exact hthread.eq_none
  have hledger := h.ledger
  rw [hc.mainHand_eq_nil (by simp [hpc])] at hledger
  simp only [State.threadHand, hcall, ticketOf_none, hpc, ThreadPc.copy, Option.map_some,
    Option.toList_some, List.nil_append, List.append_nil] at hledger
  have hserial := (eq_length_of_append_singleton hledger).1
  rw [List.length_map] at hserial
  have hlength := h.passedLength (by simp [hpc])
  have hanswered := h.outcomesLength
  simp only [hpc, ThreadPc.unreleased, ThreadPc.unanswered] at hlength hanswered
  -- the member in that place has the number of the copy, so it is the copy
  have hlt : s.outcomes.length < s.passed.length := by omega
  have hmem : s.passed[s.outcomes.length] ∈ copiesOf s.submitted :=
    h.passedMem _ (List.getElem_mem hlt)
  have hnumber : s.passed[s.outcomes.length].serial = c.serial := by
    rw [h.passedNumbered.number_getElem (List.getElem?_eq_getElem hlt)]
    omega
  have hleft := (numbered_copiesOf s.submitted).getElem_number hmem
  have hright := (numbered_copiesOf s.submitted).getElem_number
    (h.threadCopy c (by rw [hpc]; rfl))
  rw [hnumber, hright] at hleft
  rw [List.getElem?_eq_getElem hlt]
  exact hleft.symm

/-- Any other step of the sender only extends what has been passed. -/
theorem Transition.outcomes_eq {s s' : State} {a : Action} (h : Transition s a s')
    (hnot : ∀ ch c, a = .step .send ch → s.thread ≠ .sending c) :
    s'.outcomes = s.outcomes ∧ s.passed <+: s'.passed := by
  cases h with
  | sendReturns ok c hpc _ => exact absurd hpc (hnot _ c rfl)
  | passChunk c hpc _ => exact ⟨rfl, List.prefix_append _ _⟩
  | _ => exact ⟨rfl, List.prefix_rfl⟩

/-- Every step keeps the answers of the kernel beside the copies that were passed. -/
theorem Streamed.step (h : Streamed s) (hreach : senderMachine.Reachable s.sender)
    {a : Action × Int} (hstep : s.step a = some s') : Streamed s' := by
  have hdelivery := (delivery hreach).1
  rcases Stream.step_cases hstep with
    ⟨ch, c, hpc, hlow, hhigh, hnext, haccepted, hwrites⟩ |
      ⟨hnot, hnext, haccepted, hwrites⟩
  · have hlast := hdelivery.passed_of_sending (control hreach) hpc
    have hcall : s.sender.pool.call .send = none := by
      have hthread := (control hreach).thread
      rw [hpc] at hthread
      exact hthread.eq_none
    simp only [State.step, State.advance, hcall, State.threadLocal, hpc,
      Option.some.injEq] at hnext
    have hpassed : s'.sender.passed = s.sender.passed := by rw [← hnext]
    have houtcomes : s'.sender.outcomes = s.sender.outcomes ++ [defaultsendResult a.2] := by
      rw [← hnext]
    refine ⟨?_, ?_, ?_, ?_⟩
    · rw [hwrites, houtcomes, hpassed, List.map_append, h.copies, List.length_append,
        List.length_singleton, List.take_add_one, hlast]
      rfl
    · rw [hwrites, houtcomes, h.outcomes, List.map_append]
      rfl
    · intro w hw
      rw [hwrites, List.mem_append, List.mem_singleton] at hw
      rcases hw with hw | rfl
      · exact h.range w hw
      · exact ⟨hlow, hhigh⟩
    · rw [haccepted, hwrites, h.accepted, List.map_append, taken_append]
      simp [offered]
  · rcases (State.transition hnext).outcomes_eq hnot with ⟨houtcomes, hpassed⟩
    refine ⟨?_, by rw [houtcomes, hwrites, h.outcomes], by rw [hwrites]; exact h.range,
      by rw [haccepted, hwrites, h.accepted]⟩
    have hle : s.sender.outcomes.length ≤ s.sender.passed.length := by
      have := hdelivery.outcomesLength
      omega
    rcases hpassed with ⟨more, hmore⟩
    rw [hwrites, houtcomes, h.copies, ← hmore, List.take_append_of_le_length hle]

/-- The answers of the kernel stand beside the copies that were passed, in every state. -/
theorem streamed (h : streamMachine.Reachable s) : Streamed s := by
  refine Machine.Reach.invariant ?_ ?_ h
  · rintro s rfl
    exact streamed_create
  · intro s a s' hreach hstreamed _ hstep
    exact hstreamed.step (reachable_sender hreach) hstep

/-! ## The order of the bytes -/

/-- The call of {lit}`send` was answered with less than was offered. -/
def CutShort (w : Copy × Int) : Prop :=
  0 ≤ w.2 ∧ w.2 < w.1.chunk.size

instance (w : Copy × Int) : Decidable (CutShort w) :=
  inferInstanceAs (Decidable (0 ≤ w.2 ∧ w.2 < w.1.chunk.size))

/-- Every byte of a chunk has one place. -/
theorem length_placed (serial : Nat) (data : List (BitVec 8)) :
    (placed serial data).length = data.length := by
  simp [placed]

/-- No byte of the stream occurs twice. -/
theorem nodup_stream {l : List Copy} (h : Numbered Copy.serial l) :
    (l.map fun c => placed c.serial c.chunk.data).flatten.Nodup := by
  rw [List.nodup_flatten]
  constructor
  · intro block hblock
    rcases List.mem_map.1 hblock with ⟨c, -, rfl⟩
    refine List.Nodup.of_map (fun b => b.2.1) ?_
    have hplaces : (placed c.serial c.chunk.data).map (fun b => b.2.1) =
        List.range c.chunk.data.length := by
      apply List.ext_getElem <;> simp [placed]
    rw [hplaces]
    exact List.nodup_range
  · have hserials : l.Pairwise fun c c' => c.serial ≠ c'.serial :=
      List.pairwise_map.1 h.nodup
    refine List.pairwise_map.2 (hserials.imp ?_)
    intro c c' hne b hb hb'
    simp only [placed, List.mem_mapIdx] at hb hb'
    rcases hb with ⟨i, hi, rfl⟩
    rcases hb' with ⟨j, hj, heq⟩
    exact hne (Prod.mk.inj heq).1.symm

/-- Without their places the bytes are the submitted payloads. -/
theorem map_streamOf (submitted : List Chunk) :
    (streamOf submitted).map (fun b => b.2.2) = (submitted.map Chunk.data).flatten := by
  have hblock : ∀ c : Copy, (placed c.serial c.chunk.data).map (fun b => b.2.2) =
      c.chunk.data := by
    intro c
    apply List.ext_getElem <;> simp [placed]
  have hcopies : (copiesOf submitted).map (fun c => c.chunk.data) =
      submitted.map Chunk.data := by
    apply List.ext_getElem <;> simp [copiesOf, copyOf]
  rw [streamOf, List.map_flatten, List.map_map, ← hcopies]
  congr 1
  exact List.map_congr_left fun c _ => hblock c

/-- The blocks offered so far are the beginning of the stream. -/
theorem Streamed.exists_rest (h : Streamed s) (hdelivery : Delivery s.sender) :
    (∃ rest, streamOf s.sender.submitted =
      (s.writes.map fun w => placed w.1.serial w.1.chunk.data).flatten ++ rest) ∧
      (s.writes.map fun w => placed w.1.serial w.1.chunk.data).flatten.Nodup := by
  have hfirst : s.writes.map Prod.fst <+: copiesOf s.sender.submitted := by
    rw [h.copies, (numbered_copiesOf _).eq_take hdelivery.passedMem hdelivery.passedNumbered]
    exact (List.take_prefix _ _).trans (List.take_prefix _ _)
  have hblocks : (s.writes.map fun w => placed w.1.serial w.1.chunk.data) =
      (s.writes.map Prod.fst).map fun c => placed c.serial c.chunk.data := by
    simp
  rcases hfirst with ⟨more, hmore⟩
  have hsplit : streamOf s.sender.submitted =
      ((s.writes.map Prod.fst).map fun c => placed c.serial c.chunk.data).flatten ++
        (more.map fun c => placed c.serial c.chunk.data).flatten := by
    rw [streamOf, ← hmore, List.map_append, List.flatten_append]
  rw [hblocks]
  refine ⟨⟨_, hsplit⟩, ?_⟩
  have hnodup := nodup_stream (numbered_copiesOf s.sender.submitted)
  rw [← streamOf, hsplit] at hnodup
  exact (List.nodup_append.1 hnodup).1

/-- Only the last call can have been refused: the thread breaks its loop. -/
theorem Streamed.refused (h : Streamed s) (hdelivery : Delivery s.sender) :
    s.writes.Pairwise fun w _ => 0 ≤ w.2 := by
  have htrue : ∀ {ws : List (Copy × Int)},
      false ∉ ws.map (fun w => defaultsendResult w.2) → ∀ w ∈ ws, 0 ≤ w.2 := by
    intro ws hws w hw
    by_contra hneg
    refine hws (List.mem_map.2 ⟨w, hw, ?_⟩)
    simp [defaultsendResult, Int.not_le.1 hneg]
  rcases hdelivery.outcomesOk with hnone | ⟨-, l, houtcomes, hl⟩
  · rw [h.outcomes] at hnone
    exact List.pairwise_of_forall_mem_list fun w hw _ _ => htrue hnone w hw
  · rw [h.outcomes] at houtcomes
    rcases List.map_eq_append_iff.1 houtcomes with ⟨ws, last, hws, hfirst, hlast⟩
    rcases List.map_eq_singleton_iff.1 hlast with ⟨w', rfl, -⟩
    rw [← hfirst] at hl
    rw [hws, List.pairwise_append]
    exact ⟨List.pairwise_of_forall_mem_list fun w hw _ _ => htrue hl w hw, by simp,
      fun w hw _ _ => htrue hl w hw⟩

/-- In every state reached with any answers of the kernel, the bytes it holds are a
prefix of the stream of submitted chunks exactly when it took nothing after an answer
that was cut short; in that case they are a prefix also as plain bytes. -/
theorem stream_prefix_iff {s : Stream} (h : streamMachine.Reachable s) :
    (s.accepted <+: streamOf s.sender.submitted ↔
      s.writes.Pairwise fun w w' => CutShort w → w'.2 ≤ 0) ∧
    (s.accepted <+: streamOf s.sender.submitted →
      s.accepted.map (fun b => b.2.2) <+: (s.sender.submitted.map Chunk.data).flatten) := by
  have hstreamed := streamed h
  have hdelivery := (delivery (reachable_sender h)).1
  rcases hstreamed.exists_rest hdelivery with ⟨⟨rest, hrest⟩, hnodup⟩
  constructor
  · have hblocks : (s.writes.map offered).map Prod.fst =
        s.writes.map fun w => placed w.1.serial w.1.chunk.data := by
      simp [offered]
    have hle : ∀ w ∈ s.writes.map offered, w.2 ≤ (w.1.length : Int) := by
      intro w hw
      rcases List.mem_map.1 hw with ⟨w', hw', rfl⟩
      simpa [offered, length_placed, Chunk.size] using (hstreamed.range w' hw').2
    have hiff := taken_prefix_iff rest (by rw [hblocks]; exact hnodup) hle
      (List.pairwise_map.2 (hstreamed.refused hdelivery))
    rw [hblocks, ← hrest, ← hstreamed.accepted, List.pairwise_map] at hiff
    simpa only [Short, CutShort, offered, length_placed, Chunk.size] using hiff
  · intro hbegin
    rw [← map_streamOf]
    exact hbegin.map _

/-- One chunk goes through the queue and is offered to the kernel, which answers
{lit}`r`. -/
def sendOne (addr : Nat) (data : List (BitVec 8)) (r : Int) : List (Action × Int) :=
  [(.callSend (some ⟨data, 0, 0#16, 2⟩), 0)] ++
    List.replicate 5 (.step .main ⟨true, addr, none, true⟩, 0) ++
    List.replicate 9 (.step .send ⟨true, addr, none, true⟩, r)

/-- Two chunks taken whole arrive in order. -/
theorem stream_prefix_run :
    ∃ s, streamMachine.run Stream.create (sendOne 0 [1#8, 2#8] 2 ++ sendOne 0 [3#8] 1) = some s ∧
      s.accepted <+: streamOf s.sender.submitted := by
  have hrun : streamMachine.run Stream.create
      (sendOne 0 [1#8, 2#8] 2 ++ sendOne 0 [3#8] 1) = some _ := rfl
  refine ⟨_, hrun, (stream_prefix_iff (Machine.reach_of_run rfl hrun)).1.2 ?_⟩
  decide

/-- The kernel takes one of two bytes, and then the chunk behind them. -/
theorem stream_skips :
    ∃ s, streamMachine.run Stream.create (sendOne 0 [1#8, 2#8] 1 ++ sendOne 0 [3#8] 1) = some s ∧
      s.sender.submitted.map Chunk.data = [[1#8, 2#8], [3#8]] ∧
      s.accepted.map (fun b => b.2.2) = [1#8, 3#8] ∧
      ¬ s.accepted.map (fun b => b.2.2) <+: (s.sender.submitted.map Chunk.data).flatten := by
  have hrun : streamMachine.run Stream.create
      (sendOne 0 [1#8, 2#8] 1 ++ sendOne 0 [3#8] 1) = some _ := rfl
  exact ⟨_, hrun, rfl, rfl, by decide⟩

end Sender
end Iemnet
