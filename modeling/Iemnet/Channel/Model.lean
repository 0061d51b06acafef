import Iemnet.Data.Integrity
import Iemnet.Sender.Stream

/-!
# From one patch to another

A TCP connection with both its ends: an application that sends lists, the sender with
its queue and its thread, the kernel, a stream that keeps bytes and their order but cuts
them anywhere, and the receiving object with its float list.  Threads, kernel and reader
take their steps in any order.

Main results:

- Theorem {lit}`carried`: what has been submitted, accepted and output at any moment.
- Theorem {lit}`channel_carries`: the numbers output are the first of the numbers sent.
-/

namespace Iemnet

open Foundations
open Pd
open Sender

namespace Channel

/-- The connection; {lit}`asked` is the history of the lists that were sent, and
{lit}`arrived` counts the bytes the reader has got. -/
structure Link where
  stream : Stream
  asked : List (List Atom)
  arrived : Nat
  floatlist : Floatlist
  serialize : Int
  output : List Message

/-- What can happen next. -/
inductive Event
  /-- The application sends a list. -/
  | send (argv : List Atom)
  /-- Any other step of the sender and its kernel. -/
  | sender (a : Action × Int)
  /-- {lit}`recvfrom` returns the next {lit}`n` bytes of the stream. -/
  | recv (n : Nat) (source : SockaddrIn) (raw : Nat → Atom)
  /-- A {lit}`serialize` message to the reader. -/
  | serialize (doit : Int)

/-- The bytes the kernel has taken and the reader has not got. -/
def Link.ahead (s : Link) : List Placed :=
  s.stream.accepted.drop s.arrived

/-- The bytes the reader has got. -/
def Link.got (s : Link) : List (BitVec 8) :=
  (s.stream.accepted.take s.arrived).map fun b => b.2.2

def Link.step (abi : Abi) (s : Link) : Event → Option Link
  | .send argv =>
      (s.stream.step (.callSend (chunkCreateList true argv), 0)).map fun stream =>
        { s with stream := stream, asked := s.asked ++ [argv] }
  | .sender (.callSend _, _) => none
  | .sender a => (s.stream.step a).map fun stream => { s with stream := stream }
  | .recv n source raw =>
      if 0 < n ∧ n ≤ inbufsize ∧ n ≤ s.ahead.length then
        (receive abi s.serialize s.floatlist
            ⟨(s.ahead.take n).map fun b => b.2.2, source, raw⟩).map fun r =>
          { s with
            arrived := s.arrived + n
            floatlist := r.1
            output := s.output ++ r.2 }
      else none
  | .serialize doit => some { s with serialize := doit }

end Channel

open Channel in
/-- A fresh connection; the reader's object has just been made. -/
def channelMachine (abi : Abi) : Machine Link Event where
  init s := ∃ raw cl, floatlistCreate true raw 1024 = some cl ∧
    s = ⟨Stream.create, [], 0, cl, 1, []⟩
  step := Link.step abi

namespace Channel

variable {abi : Abi} {s s' : Link}

/-- The main thread of the sender gets the memory it asks for. -/
def Event.Allocates : Event → Prop
  | .sender (.step .main ch, _) => ch.mem = true
  | _ => True

/-- A step is one of the application, of the sender and its kernel, or of the reader. -/
inductive Move (abi : Abi) (s : Link) : Event → Link → Prop
  | send (argv : List Atom) (stream : Stream)
      (hstep : s.stream.step (.callSend (chunkCreateList true argv), 0) = some stream) :
      Move abi s (.send argv) { s with stream := stream, asked := s.asked ++ [argv] }
  | sender (a : Action × Int) (stream : Stream) (hnot : ∀ c, a.1 ≠ .callSend c)
      (hstep : s.stream.step a = some stream) :
      Move abi s (.sender a) { s with stream := stream }
  | recv (n : Nat) (source : SockaddrIn) (raw : Nat → Atom) (r : Floatlist × List Message)
      (hpos : 0 < n) (hbuf : n ≤ inbufsize) (hahead : n ≤ s.ahead.length)
      (hreceive : receive abi s.serialize s.floatlist
        ⟨(s.ahead.take n).map fun b => b.2.2, source, raw⟩ = some r) :
      Move abi s (.recv n source raw) { s with
        arrived := s.arrived + n, floatlist := r.1, output := s.output ++ r.2 }
  | serialize (doit : Int) : Move abi s (.serialize doit) { s with serialize := doit }

/-- Every event is one of the moves. -/
theorem Link.move {e : Event} (h : s.step abi e = some s') : Move abi s e s' := by
  cases e with
  | send argv =>
      rcases Option.map_eq_some_iff.1 h with ⟨stream, hstream, rfl⟩
      exact .send argv stream hstream
  | sender a =>
      rcases a with ⟨act, r⟩
      cases act with
      | callSend c => cases h
      | callDestroy | step | spurious =>
          rcases Option.map_eq_some_iff.1 h with ⟨stream, hstream, rfl⟩
          exact .sender _ stream (by simp) hstream
  | recv n source raw =>
      simp only [Link.step] at h
      split at h
      · rename_i hn
        rcases Option.map_eq_some_iff.1 h with ⟨r, hr, rfl⟩
        exact .recv n source raw r hn.1 hn.2.1 hn.2.2 hr
      · contradiction
  | serialize doit =>
      cases h
      exact .serialize doit

/-! ## What is submitted -/

/-- The bytes of the chunks that {lit}`iemnet__sender_send` has taken. -/
def sentBytes (s : State) : List (BitVec 8) :=
  (s.submitted.map Chunk.data).flatten

/-- The bytes of a chunk that it still has to look at. -/
def handBytes : MainPc → List (BitVec 8)
  | .sendCheck c => payload c
  | _ => []

/-- The messages that {lit}`iemnet__sender_send` puts on the wire for a chunk, one or none. -/
def blocks (c : Option Chunk) : List (List (BitVec 8)) :=
  (c.map Chunk.data).toList.filter (· ≠ [])

/-- The messages of the chunks that {lit}`iemnet__sender_send` has taken. -/
def sentBlocks (s : State) : List (List (BitVec 8)) :=
  s.submitted.map Chunk.data

/-- The messages of a chunk that it still has to look at. -/
def handBlocks : MainPc → List (List (BitVec 8))
  | .sendCheck c => blocks c
  | _ => []

/-- A chunk with bytes is one block. -/
theorem blocks_of_ne_nil {c : Chunk} (h : c.data ≠ []) : blocks (some c) = [c.data] := by
  simp [blocks, h]

/-- A message is what there is of a payload. -/
theorem flatten_blocks (c : Option Chunk) : (blocks c).flatten = payload c := by
  cases c with
  | none => rfl
  | some c =>
      by_cases hne : c.data = []
      · simp [blocks, payload, hne]
      · simp [blocks, payload, hne]

/-- The block in the hand of the main thread has the bytes in its hand. -/
theorem flatten_handBlocks (m : MainPc) : (handBlocks m).flatten = handBytes m := by
  cases m with
  | sendCheck c => exact flatten_blocks c
  | _ => rfl

/-- A copy that cannot be made for lack of bytes. -/
theorem blocks_eq_nil {mem : Bool} (hmem : mem = true) {c : Option Chunk}
    (h : ∀ src chunk, c = some src → chunkCreateChunk mem c ≠ some chunk) : blocks c = [] := by
  cases c with
  | none => rfl
  | some src =>
      by_contra hne
      rw [hmem] at h
      have hdata : src.data ≠ [] := by
        intro hnil
        exact hne (by simp [blocks, hnil])
      exact h src _ rfl (chunkCreateChunk_eq hdata)

/-- With memory, a step of the sender loses no message as long as its thread runs; and once
the thread is gone, no chunk is taken. -/
theorem sentBlocks_step {t t' : State} {a : Action}
    (hmem : ∀ ch, a = .step .main ch → ch.mem = true) (hnot : ∀ c, a ≠ .callSend c)
    (hstep : t.step a = some t') :
    (t'.isrunning = true → t.isrunning = true) ∧
      (t.isrunning = true →
        sentBlocks t' ++ handBlocks t'.main = sentBlocks t ++ handBlocks t.main) ∧
      (t.isrunning = false → sentBlocks t' = sentBlocks t) := by
  have hkeep : ∀ {m : MainPc}, handBlocks t.main = [] → handBlocks m = [] →
      sentBlocks t ++ handBlocks m = sentBlocks t ++ handBlocks t.main := by
    intro m hbefore hafter
    rw [hbefore, hafter]
  cases State.transition hstep with
  | callSend c => exact absurd rfl (hnot c)
  | sendRefused c hpc hmtx hrun => exact ⟨id, by simp [hrun], fun _ => rfl⟩
  | @sendNothing ch c hpc hmtx hrun hcall hnothing =>
      refine ⟨id, fun _ => hkeep ?_ rfl, fun _ => rfl⟩
      rw [hpc]
      refine blocks_eq_nil (hmem ch rfl) ?_
      rintro src chunk rfl hchunk
      rw [hnothing] at hchunk
      cases hchunk
  | sendCopy src chunk hpc hmtx hrun hcopy =>
      rcases chunkCreateChunk_some hcopy with ⟨_, ⟨⟩, hne, -⟩
      refine ⟨id, fun _ => ?_, by simp [hrun]⟩
      simp [sentBlocks, handBlocks, hpc, blocks_of_ne_nil hne]
  | callDestroy hpc | pushReturn data size hpc | destroyWait hpc | destroyGone hpc
  | destroyRefused hpc | finishReturn hpc | relockWait hpc | relockGone hpc | finish2Return hpc
  | join hpc | finish3Return hpc | drainEmpty hpc | drainChunk k c hpc | drainRelease c hpc =>
      exact ⟨id, fun _ => hkeep (by rw [hpc]; rfl) rfl, fun _ => rfl⟩
  | loopExit | brokenExit => exact ⟨by simp, fun _ => rfl, fun _ => rfl⟩
  | _ => exact ⟨id, fun _ => rfl, fun _ => rfl⟩

/-! ## What the kernel holds -/

/-- What the kernel has taken stays. -/
theorem accepted_grows {t t' : Stream} {a : Action × Int} (h : t.step a = some t') :
    t.accepted <+: t'.accepted := by
  rcases Stream.step_cases h with ⟨ch, c, -, -, -, -, hmore, -⟩ | ⟨-, -, hsame, -⟩
  · rw [hmore]
    exact List.prefix_append _ _
  · rw [hsame]

/-- The step of the sender in a step of its stream. -/
def label (t : Stream) (a : Action × Int) : Action :=
  match a.1, t.sender.thread with
  | .step .send ch, .sending _ => .step .send { ch with ok := defaultsendResult a.2 }
  | act, _ => act

/-- A step of the stream is a step of its sender. -/
theorem step_label {t t' : Stream} {a : Action × Int} (h : t.step a = some t') :
    t.sender.step (label t a) = some t'.sender := by
  rcases a with ⟨act, r⟩
  simp only [Stream.step] at h
  split at h
  · rename_i ch c hpc
    split at h
    · split at h
      · rcases Option.map_eq_some_iff.1 h with ⟨sender, hsender, rfl⟩
        simpa only [label, hpc] using hsender
      · cases h
    · cases h
  · split at h
    · rcases Option.map_eq_some_iff.1 h with ⟨sender, hsender, rfl⟩
      exact hsender
    · cases h
  · rename_i hnot
    rcases Option.map_eq_some_iff.1 h with ⟨sender, hsender, rfl⟩
    unfold label
    split
    · rename_i ch c hact hpc
      exact absurd hpc (hnot ch c hact)
    · exact hsender

/-- Only the return of {lit}`send` is a step of its own. -/
theorem label_cases (t : Stream) (a : Action × Int) :
    label t a = a.1 ∨ ∃ ch, label t a = .step .send ch := by
  unfold label
  split
  · exact Or.inr ⟨_, rfl⟩
  · exact Or.inl rfl

/-- The application has called {lit}`iemnet__sender_send`. -/
theorem callSend_cases {t t' : Stream} {c : Option Chunk} {r : Int}
    (h : t.step (.callSend c, r) = some t') :
    portless c ∧ t.sender.main = .idle ∧
      t' = { t with sender := { t.sender with main := .sendCheck c } } := by
  simp only [Stream.step] at h
  split at h
  · rename_i hportless
    rcases Option.map_eq_some_iff.1 h with ⟨sender, hsender, rfl⟩
    simp only [State.step] at hsender
    split at hsender
    · rename_i hidle
      cases hsender
      exact ⟨hportless, hidle, rfl⟩
    · cases hsender
  · cases h

/-- The same for a step of the sender and its kernel. -/
theorem sentBlocks_stream {t t' : Stream} {a : Action × Int} (hmem : Event.Allocates (.sender a))
    (hnot : ∀ c, a.1 ≠ .callSend c) (h : t.step a = some t') :
    (t'.sender.isrunning = true → t.sender.isrunning = true) ∧
      (t.sender.isrunning = true → sentBlocks t'.sender ++ handBlocks t'.sender.main =
        sentBlocks t.sender ++ handBlocks t.sender.main) ∧
      (t.sender.isrunning = false → sentBlocks t'.sender = sentBlocks t.sender) := by
  refine sentBlocks_step ?_ ?_ (step_label h)
  · intro ch hch
    rcases label_cases t a with hlabel | ⟨ch', hlabel⟩
    · rcases a with ⟨act, r⟩
      cases hlabel.symm.trans hch
      exact hmem
    · cases hlabel.symm.trans hch
  · intro c hc
    rcases label_cases t a with hlabel | ⟨ch', hlabel⟩
    · exact hnot c (hlabel.symm.trans hc)
    · cases hlabel.symm.trans hc

/-- A step of the sender and its kernel loses no bytes as long as the thread runs. -/
theorem sent_step {t t' : Stream} {a : Action × Int} (hmem : Event.Allocates (.sender a))
    (hnot : ∀ c, a.1 ≠ .callSend c) (h : t.step a = some t') :
    (t'.sender.isrunning = true → t.sender.isrunning = true) ∧
      (t.sender.isrunning = true → sentBytes t'.sender ++ handBytes t'.sender.main =
        sentBytes t.sender ++ handBytes t.sender.main) ∧
      (t.sender.isrunning = false → sentBytes t'.sender = sentBytes t.sender) := by
  rcases sentBlocks_stream hmem hnot h with ⟨hbefore, halive, hgone⟩
  refine ⟨hbefore, fun hrun => ?_, fun hrun => congrArg List.flatten (hgone hrun)⟩
  have hbytes := congrArg List.flatten (halive hrun)
  rw [List.flatten_append, List.flatten_append, flatten_handBlocks, flatten_handBlocks] at hbytes
  exact hbytes

/-- What was written are the first of the copies that were submitted. -/
theorem writes_initial {t : Stream} (h : Streamed t) (hdelivery : Delivery t.sender) :
    t.writes.map Prod.fst <+: copiesOf t.sender.submitted := by
  rw [h.copies, (numbered_copiesOf _).eq_take hdelivery.passedMem hdelivery.passedNumbered]
  exact (List.take_prefix _ _).trans (List.take_prefix _ _)

/-- A kernel that takes nothing after a short answer holds the beginning of the stream. -/
theorem accepted_prefix_stream {t : Stream} (h : Streamed t) (hdelivery : Delivery t.sender)
    (hshort : t.writes.Pairwise fun w w' => CutShort w → w'.2 ≤ 0) :
    t.accepted <+: streamOf t.sender.submitted := by
  rcases h.exists_rest hdelivery with ⟨⟨rest, hrest⟩, hnodup⟩
  have hblocks : (t.writes.map offered).map Prod.fst =
      t.writes.map fun w => placed w.1.serial w.1.chunk.data := by
    simp [offered]
  have hle : ∀ w ∈ t.writes.map offered, w.2 ≤ (w.1.length : Int) := by
    intro w hw
    rcases List.mem_map.1 hw with ⟨w', hw', rfl⟩
    simpa [offered, length_placed, Chunk.size] using (h.range w' hw').2
  rw [h.accepted, hrest, ← hblocks]
  refine (PartialWrite.taken_prefix_iff rest (by rw [hblocks]; exact hnodup) hle
    (List.pairwise_map.2 (h.refused hdelivery))).2 (List.pairwise_map.2 ?_)
  simpa only [PartialWrite.Short, CutShort, offered, length_placed, Chunk.size] using hshort

/-- A kernel that takes everything holds the chunks offered so far. -/
theorem accepted_of_whole {t : Stream} (h : Streamed t) (hdelivery : Delivery t.sender)
    (hwhole : ∀ w ∈ t.writes, w.2 = w.1.chunk.size) :
    t.accepted.map (fun b => b.2.2) =
      ((t.sender.submitted.take t.writes.length).map Chunk.data).flatten := by
  have hcopies : t.writes.map Prod.fst = copiesOf (t.sender.submitted.take t.writes.length) := by
    have hlength : (t.writes.map Prod.fst).length = t.writes.length := List.length_map _
    rw [List.prefix_iff_eq_take.1 (writes_initial h hdelivery), hlength]
    apply List.ext_getElem <;> simp [copiesOf]
  have hblocks : (t.writes.map offered).map Prod.fst =
      (copiesOf (t.sender.submitted.take t.writes.length)).map
        fun c => placed c.serial c.chunk.data := by
    rw [← hcopies]
    simp [offered]
  have hall : ∀ w ∈ t.writes.map offered, w.2 = (w.1.length : Int) := by
    intro w hw
    rcases List.mem_map.1 hw with ⟨w', hw', rfl⟩
    simpa [offered, length_placed, Chunk.size] using hwhole w' hw'
  rw [h.accepted, PartialWrite.taken_of_whole hall, hblocks]
  exact map_streamOf _

/-! ## What is output -/

/-- The invariant of the connection. -/
structure Carried (s : Link) : Prop where
  sent : ∃ rest, wire s.asked = sentBytes s.stream.sender ++ rest ∧
    (s.stream.sender.isrunning = true → rest = handBytes s.stream.sender.main)
  arrived : s.arrived ≤ s.stream.accepted.length
  wellTyped : s.floatlist.WellTyped
  output : s.output.flatMap Message.argv = byteAtoms s.got

/-- Another list puts its payload behind the others. -/
theorem wire_append (asked : List (List Atom)) (argv : List Atom) :
    wire (asked ++ [argv]) = wire asked ++ payload (chunkCreateList true argv) := by
  simp [wire]

/-- A new channel carries nothing. -/
theorem carried_create {raw : Nat → Atom} {cl : Floatlist}
    (h : floatlistCreate true raw 1024 = some cl) :
    Carried ⟨Stream.create, [], 0, cl, 1, []⟩ := by
  rcases floatlistCreate_wellTyped raw 1024 with ⟨cl', hcreate, hwell⟩
  rw [h, Option.some.injEq] at hcreate
  exact ⟨⟨[], rfl, fun _ => rfl⟩, le_refl 0, hcreate ▸ hwell, rfl⟩

/-- The bytes the reader has got do not change behind its back. -/
theorem got_eq {t : Stream} (hlater : s.stream.accepted <+: t.accepted)
    (h : s.arrived ≤ s.stream.accepted.length) :
    ({ s with stream := t } : Link).got = s.got := by
  rcases hlater with ⟨more, hmore⟩
  simp only [Link.got, ← hmore, List.take_append_of_le_length h]

/-- What {lit}`recvfrom` returns fits the buffer. -/
theorem valid_ahead {n : Nat} (source : SockaddrIn) (raw : Nat → Atom) (hpos : 0 < n)
    (hbuf : n ≤ inbufsize) (hn : n ≤ s.ahead.length) :
    Reception.Valid ⟨(s.ahead.take n).map fun b => b.2.2, source, raw⟩ := by
  have hlength : ((s.ahead.take n).map fun b => b.2.2).length = n := by simpa using hn
  exact ⟨List.length_pos_iff.1 (hlength.symm ▸ hpos), hlength.symm ▸ hbuf⟩

/-- Every event keeps the account of the bytes. -/
theorem Carried.step (h : Carried s) {e : Event} (hmem : e.Allocates)
    (hstep : s.step abi e = some s') : Carried s' := by
  cases Link.move hstep with
  | send argv stream hsend =>
      rcases h.sent with ⟨rest, hrest, hrunning⟩
      rcases callSend_cases hsend with ⟨-, hidle, rfl⟩
      refine ⟨⟨rest ++ payload (chunkCreateList true argv), ?_, fun hrun => ?_⟩, h.arrived,
        h.wellTyped, h.output⟩
      · rw [wire_append, hrest, List.append_assoc]
        rfl
      · rw [hrunning hrun, hidle]
        rfl
  | sender a stream hnot hsend =>
      have hlater := accepted_grows hsend
      refine ⟨?_, h.arrived.trans hlater.length_le, h.wellTyped, ?_⟩
      · rcases h.sent with ⟨rest, hrest, hrunning⟩
        rcases sent_step hmem hnot hsend with ⟨hbefore, halive, hgone⟩
        cases hrun : s.stream.sender.isrunning with
        | true =>
            refine ⟨handBytes stream.sender.main, ?_, fun _ => rfl⟩
            rw [halive hrun, hrest, hrunning hrun]
        | false =>
            refine ⟨rest, hrest.trans (by rw [hgone hrun]), fun hlater => ?_⟩
            rw [hbefore hlater] at hrun
            cases hrun
      · rw [h.output]
        exact congrArg byteAtoms (got_eq hlater h.arrived).symm
  | recv n source raw r hpos hbuf hahead hreceive =>
      rcases receive_spec abi s.serialize h.wellTyped (valid_ahead source raw hpos hbuf hahead) with
        ⟨cl, hcl, hwell⟩
      rw [hcl, Option.some.injEq] at hreceive
      subst hreceive
      refine ⟨h.sent, ?_, hwell, ?_⟩
      · have harrived := h.arrived
        rw [Link.ahead, List.length_drop] at hahead
        show s.arrived + n ≤ s.stream.accepted.length
        omega
      · simp only [List.flatMap_append, h.output, byteMessages_argv, Link.got, List.take_add,
          List.map_append, byteAtoms, Link.ahead]
  | serialize doit => exact ⟨h.sent, h.arrived, h.wellTyped, h.output⟩

/-- The stream inside a reachable connection is reachable. -/
theorem reachable_stream {ok : Link → Event → Prop} (h : (channelMachine abi).Reach ok s) :
    streamMachine.Reachable s.stream := by
  refine Machine.Reach.invariant (I := fun s : Link => streamMachine.Reachable s.stream) ?_ ?_ h
  · rintro s ⟨raw, cl, -, rfl⟩
    exact .start rfl
  · intro s e s' _ hstream _ hstep
    cases Link.move hstep with
    | send argv stream hsend =>
        exact hstream.next (a := (.callSend (chunkCreateList true argv), 0)) trivial hsend
    | sender a stream hnot hsend => exact hstream.next trivial hsend
    | recv | serialize => exact hstream

/-- The account of the bytes holds in every run with memory. -/
theorem carried (h : (channelMachine abi).Reach (fun _ e => e.Allocates) s) : Carried s := by
  refine Machine.Reach.invariant ?_ ?_ h
  · rintro s ⟨raw, cl, hcl, rfl⟩
    exact carried_create hcl
  · intro s e s' _ hcarried hmem hstep
    exact hcarried.step hmem hstep

/-- The reader can always get a part of what lies ahead. -/
theorem exists_recv (abi : Abi) (h : Carried s) {n : Nat} (source : SockaddrIn)
    (raw : Nat → Atom) (hpos : 0 < n) (hbuf : n ≤ inbufsize) (hn : n ≤ s.ahead.length) :
    ∃ s', s.step abi (.recv n source raw) = some s' ∧ s'.stream = s.stream ∧
      s'.asked = s.asked ∧ s'.arrived = s.arrived + n := by
  rcases receive_spec abi s.serialize h.wellTyped (valid_ahead source raw hpos hbuf hn) with
    ⟨cl, hcl, -⟩
  have hstep := congrArg (Option.map fun r : Floatlist × List Message => { s with
    arrived := s.arrived + n, floatlist := r.1, output := s.output ++ r.2 }) hcl
  exact ⟨_, (if_pos ⟨hpos, hbuf, hn⟩).trans hstep, rfl, rfl, rfl⟩

/-! ## From end to end -/

/-- The numbers that stand for the bytes of a sequence of lists. -/
def numbers (inputs : List (List Atom)) : List Atom :=
  inputs.flatten.map fun a => setFloat ((atomGetint a % 256 : Int) : ℚ)

/-- The bytes on the wire are the numbers that were sent. -/
theorem byteAtoms_wire (inputs : List (List Atom)) : byteAtoms (wire inputs) = numbers inputs := by
  rw [wire, listBytes_flatten, byteAtoms_listBytes, numbers]

/-- Nothing is under way: the application is outside of the sender, whose thread runs and
has offered everything; the kernel has taken it, and the reader has got it. -/
structure Settled (s : Link) : Prop where
  idle : s.stream.sender.main = .idle
  running : s.stream.sender.isrunning = true
  offered : s.stream.writes.length = s.stream.sender.submitted.length
  whole : ∀ w ∈ s.stream.writes, w.2 = w.1.chunk.size
  arrived : s.arrived = s.stream.accepted.length

/-- The reader has got the first of the bytes that were sent, and all of them once nothing
is under way. -/
theorem got_carried (h : (channelMachine abi).Reach (fun _ e => e.Allocates) s)
    (hshort : s.stream.writes.Pairwise fun w w' => CutShort w → w'.2 ≤ 0) :
    byteAtoms s.got <+: numbers s.asked ∧ (Settled s → byteAtoms s.got = numbers s.asked) := by
  have hcarried := carried h
  have hstreamed := streamed (reachable_stream h)
  have hdelivery := (delivery (reachable_sender (reachable_stream h))).1
  rcases hcarried.sent with ⟨rest, hrest, hrunning⟩
  rw [← byteAtoms_wire]
  constructor
  · have hbytes : s.got <+: sentBytes s.stream.sender := by
      rw [sentBytes, ← map_streamOf]
      exact ((List.take_prefix _ _).trans
        (accepted_prefix_stream hstreamed hdelivery hshort)).map _
    exact (hbytes.trans (hrest ▸ List.prefix_append _ _)).map _
  · intro hsettled
    have hall := accepted_of_whole hstreamed hdelivery hsettled.whole
    rw [hsettled.offered, List.take_length] at hall
    rw [hrest, hrunning hsettled.running, hsettled.idle, Link.got, hsettled.arrived,
      List.take_length, hall]
    simp [handBytes, sentBytes]

/-- Whatever threads, kernel and reader do in whatever order, and whether the output is
serialized or not: as long as the kernel takes nothing after a short answer, the numbers
that are output are the first of the numbers that were sent, truncated to bytes, and all
of them once nothing is under way. -/
theorem channel_carries (h : (channelMachine abi).Reach (fun _ e => e.Allocates) s)
    (hshort : s.stream.writes.Pairwise fun w w' => CutShort w → w'.2 ≤ 0) :
    s.output.flatMap Message.argv <+: numbers s.asked ∧
      (Settled s → s.output.flatMap Message.argv = numbers s.asked) := by
  rw [(carried h).output]
  exact got_carried h hshort

/-- A chunk that was handed over goes through the queue to the kernel, which takes {lit}`r`
bytes of it. -/
def sendSteps (r : Int) : List (Action × Int) :=
  (List.replicate 5 (Action.step .main ⟨true, 0, none, true⟩) ++
    List.replicate 9 (Action.step .send ⟨true, 0, none, true⟩)).map fun a => (a, r)

/-- A list is sent, and the kernel takes {lit}`r` bytes of its chunk. -/
def sendList (argv : List Atom) (r : Int) : List Event :=
  .send argv :: (sendSteps r).map .sender

/-- Two numbers are sent and received in one piece. -/
theorem channel_carries_run :
    ∃ s : Link, (channelMachine ⟨true, 64⟩).Reachable s ∧
      s.asked = [[setFloat (1 : Nat), setFloat (300 : Nat)]] ∧
      s.output.flatMap Message.argv = numbers s.asked := by
  rcases floatlistCreate_wellTyped (fun _ => setSymbol "junk") 1024 with ⟨cl, hcreate, hwell⟩
  have hrun : ∃ s, (channelMachine ⟨true, 64⟩).run ⟨Stream.create, [], 0, cl, 1, []⟩
      (sendList [setFloat (1 : Nat), setFloat (300 : Nat)] 2) = some s ∧
      s.asked = [[setFloat (1 : Nat), setFloat (300 : Nat)]] ∧
      s.stream.sender.main = .idle ∧ s.stream.sender.isrunning = true ∧
      s.stream.sender.submitted.length = 1 ∧ s.arrived = 0 ∧ s.stream.accepted.length = 2 ∧
      s.stream.writes.map (fun w => (w.1.chunk.size, w.2)) = [(2, 2)] :=
    ⟨_, rfl, rfl, rfl, rfl, rfl, rfl, rfl, rfl⟩
  rcases hrun with ⟨s, hrun, hasked, hidle, hrunning, hone, hnone, htwo, hwrites⟩
  have hmeets : (channelMachine ⟨true, 64⟩).RunMeets (fun _ e => e.Allocates)
      ⟨Stream.create, [], 0, cl, 1, []⟩
      (sendList [setFloat (1 : Nat), setFloat (300 : Nat)] 2) := by
    refine Machine.runMeets_of_forall (p := Event.Allocates) _ ?_
    simp [sendList, sendSteps, Event.Allocates]
  have hinit : (channelMachine ⟨true, 64⟩).Reach (fun _ e => e.Allocates)
      ⟨Stream.create, [], 0, cl, 1, []⟩ := .start ⟨_, cl, hcreate, rfl⟩
  have hreach := hinit.run hmeets hrun
  have hahead : s.ahead.length = 2 := by simp [Link.ahead, hnone, htwo]
  rcases exists_recv ⟨true, 64⟩ (carried hreach) ⟨2, 0#32, 0#16⟩ (fun _ => setFloat 0)
    Nat.two_pos (by decide) hahead.ge with ⟨s', hstep, hstream, hsame, harrived⟩
  have hok : Event.Allocates (.recv 2 ⟨2, 0#32, 0#16⟩ fun _ => setFloat 0) := trivial
  have hrecv := hreach.next hok hstep
  have hwhole : ∀ w ∈ s'.stream.writes, w.2 = w.1.chunk.size := by
    intro w hw
    rw [hstream] at hw
    have hmem := List.mem_map_of_mem (f := fun w => (w.1.chunk.size, w.2)) hw
    rw [hwrites, List.mem_singleton, Prod.mk.injEq] at hmem
    rw [hmem.1, hmem.2]
    rfl
  have hsettled : Settled s' := by
    refine ⟨hstream ▸ hidle, hstream ▸ hrunning, ?_, hwhole, ?_⟩
    · have hlength := congrArg List.length hwrites
      rw [List.length_map] at hlength
      rw [hstream, hlength, hone]
      rfl
    · rw [harrived, hstream, hnone, htwo]
  refine ⟨s', hrecv.reachable, hsame.trans hasked, (channel_carries hrecv ?_).2 hsettled⟩
  exact List.pairwise_of_forall_mem_list fun w hw _ _ hcut =>
    absurd hcut.2 (not_lt_of_ge (hwhole w hw).ge)

end Channel

end Iemnet
