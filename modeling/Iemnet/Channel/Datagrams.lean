import Iemnet.Channel.Model
import Iemnet.Receive.Attribution
import Iemnet.Receive.Ports

/-!
# Datagrams from many senders

Any number of patches send lists to a udpreceive.  Each has a sender with its queue and its
thread on a datagram socket of its own.  The network delivers what their kernels have taken
in any order, any number of times, or not at all.

Main results:

- Theorem {lit}`Faithful.datagram`: a datagram carries one list that was sent.
- Theorem {lit}`datagrams_intact`: what is output is always a whole list, behind the address
  of the patch that has sent it.
-/

namespace Iemnet

open Foundations Pd Sender

namespace Datagrams

open Channel

/-- A patch that sends. -/
structure Node where
  stream : Stream
  asked : List (List Atom)

/-- Nothing has been sent. -/
def Node.fresh : Node :=
  ⟨Stream.create, []⟩

/-- The patch sends a list. -/
def Node.send (n : Node) (argv : List Atom) : Option Node :=
  (n.stream.step (.callSend (chunkCreateList true argv), 0)).map fun stream =>
    ⟨stream, n.asked ++ [argv]⟩

/-- Any other step of its sender and its kernel. -/
def Node.sender (n : Node) : Action × Int → Option Node
  | (.callSend _, _) => none
  | a => (n.stream.step a).map fun stream => { n with stream := stream }

/-- The lists that make a datagram. -/
def Node.lists (n : Node) : List (List Atom) :=
  n.asked.filter (· ≠ [])

/-- The bytes of a datagram that the kernel has taken. -/
def Node.datagram (n : Node) (k : Nat) : Option (List (BitVec 8)) :=
  match n.stream.writes[k]? with
  | some (c, r) => if r = c.chunk.size then some c.chunk.data else none
  | none => none

/-- The patches, and the object that receives from them; {lit}`delivered` is the history of
the datagrams that it had memory for. -/
structure Network where
  nodes : Nat → Node
  receiver : UdpReceive
  delivered : List (Nat × Nat)

/-- What can happen next. -/
inductive Event
  /-- A patch sends a list. -/
  | send (i : Nat) (argv : List Atom)
  | sender (i : Nat) (a : Action × Int)
  /-- The network delivers datagram {lit}`k` of patch {lit}`i`, or delivers it again. -/
  | deliver (env : UdpReceive.Env) (fd : Int) (i k : Nat)
  /-- A message to the receiving object, or a {lit}`recvfrom` that brings no data. -/
  | receiver (env : UdpReceive.Env) (a : UdpReceive.Input)

/-- The input is a datagram with data. -/
def brings : UdpReceive.Input → Bool
  | .readable _ (.data _ _) => true
  | _ => false

def Network.step (source : Nat → SockaddrIn) (s : Network) : Event → Option Network
  | .send i argv => ((s.nodes i).send argv).map fun n =>
      { s with nodes := Function.update s.nodes i n }
  | .sender i a => ((s.nodes i).sender a).map fun n =>
      { s with nodes := Function.update s.nodes i n }
  | .deliver env fd i k =>
      ((s.nodes i).datagram k).bind fun bytes =>
        (s.receiver.step env (.readable fd (.data bytes (source i)))).map fun x =>
          { s with
            receiver := x
            delivered := if env.mem then s.delivered ++ [(i, k)] else s.delivered }
  | .receiver env a =>
      if brings a then none
      else (s.receiver.step env a).map fun x => { s with receiver := x }

end Datagrams

open Datagrams in
/-- Patches that have sent nothing, at their addresses, and a new receiving object. -/
def datagramsMachine (abi : Abi) (source : Nat → SockaddrIn) : Machine Network Event where
  init s := udpreceiveMachine.init s.receiver ∧ s.receiver.abi = abi ∧
    s.nodes = (fun _ => Node.fresh) ∧ s.delivered = []
  step := Network.step source

namespace Datagrams

open Channel

variable {abi : Abi} {source : Nat → SockaddrIn} {n n' : Node} {s s' : Network}

/-- The main threads of the patches get the memory they ask for. -/
def Event.Allocates : Event → Prop
  | .sender _ a => Channel.Event.Allocates (.sender a)
  | _ => True

/-! ## One patch -/

/-- The messages of a sequence of lists. -/
def messages (asked : List (List Atom)) : List (List (BitVec 8)) :=
  asked.flatMap fun argv => blocks (chunkCreateList true argv)

/-- The invariant of a patch. -/
structure Faithful (n : Node) : Prop where
  stream : streamMachine.Reachable n.stream
  sent : ∃ rest, messages n.asked = sentBlocks n.stream.sender ++ rest ∧
    (n.stream.sender.isrunning = true → rest = handBlocks n.stream.sender.main)

/-- A patch that has sent nothing is faithful. -/
theorem faithful_fresh : Faithful Node.fresh :=
  ⟨.start rfl, [], rfl, fun _ => rfl⟩

/-- Another list makes another message, unless it is empty. -/
theorem messages_append (asked : List (List Atom)) (argv : List Atom) :
    messages (asked ++ [argv]) = messages asked ++ blocks (chunkCreateList true argv) := by
  rw [messages, List.flatMap_append, List.flatMap_singleton]
  rfl

/-- A list that is not empty is a message. -/
theorem messages_eq (asked : List (List Atom)) :
    messages asked = (asked.filter (· ≠ [])).map listBytes := by
  induction asked with
  | nil => rfl
  | cons argv asked ih =>
      have hcons : messages (argv :: asked) =
          blocks (chunkCreateList true argv) ++ messages asked := List.flatMap_cons
      rw [hcons, ih, chunkCreateList_eq]
      by_cases hnil : argv = []
      · simp [hnil, blocks]
      · have hbytes : listBytes argv ≠ [] := by simpa [listBytes] using hnil
        simp [hnil, blocks, hbytes]

/-- Sending another list keeps the patch faithful. -/
theorem Faithful.send (h : Faithful n) {argv : List Atom} (hs : n.send argv = some n') :
    Faithful n' := by
  rcases h.sent with ⟨rest, hrest, hrunning⟩
  rcases Option.map_eq_some_iff.1 hs with ⟨stream, hstep, rfl⟩
  refine ⟨h.stream.next (a := (.callSend (chunkCreateList true argv), 0)) trivial hstep,
    rest ++ blocks (chunkCreateList true argv), ?_, fun hrun => ?_⟩
  · rcases callSend_cases hstep with ⟨-, -, rfl⟩
    rw [messages_append, hrest, List.append_assoc]
    rfl
  · rcases callSend_cases hstep with ⟨-, hidle, rfl⟩
    rw [hrunning hrun, hidle]
    rfl

/-- The other steps of a sender touch its stream only. -/
theorem Node.sender_cases {a : Action × Int} (hs : n.sender a = some n') :
    (∀ c, a.1 ≠ .callSend c) ∧ ∃ stream, n.stream.step a = some stream ∧
      n' = { n with stream := stream } := by
  rcases a with ⟨act, r⟩
  cases act with
  | callSend c => contradiction
  | callDestroy | step | spurious =>
      rcases Option.map_eq_some_iff.1 hs with ⟨stream, hstep, rfl⟩
      exact ⟨by simp, stream, hstep, rfl⟩

/-- The steps of the sender keep the patch faithful. -/
theorem Faithful.sender (h : Faithful n) {a : Action × Int}
    (hmem : Channel.Event.Allocates (.sender a)) (hs : n.sender a = some n') : Faithful n' := by
  rcases h.sent with ⟨rest, hrest, hrunning⟩
  rcases Node.sender_cases hs with ⟨hnot, stream, hstep, rfl⟩
  rcases sentBlocks_stream hmem hnot hstep with ⟨hbefore, halive, hgone⟩
  refine ⟨h.stream.next trivial hstep, ?_⟩
  cases hrun : n.stream.sender.isrunning with
  | true =>
      refine ⟨handBlocks stream.sender.main, ?_, fun _ => rfl⟩
      rw [halive hrun]
      exact hrunning hrun ▸ hrest
  | false =>
      refine ⟨rest, hrest.trans (by rw [hgone hrun]), fun hlater => ?_⟩
      rw [hbefore hlater] at hrun
      cases hrun

/-- What has been submitted are the first of the lists. -/
theorem Faithful.submitted (h : Faithful n) :
    n.stream.sender.submitted.map Chunk.data <+: n.lists.map listBytes := by
  rcases h.sent with ⟨rest, hrest, -⟩
  rw [Node.lists, ← messages_eq, hrest]
  exact List.prefix_append _ _

/-- The copies have the bytes of the chunks. -/
theorem map_copiesOf (l : List Chunk) :
    (copiesOf l).map (fun c => c.chunk.data) = l.map Chunk.data := by
  apply List.ext_getElem <;> simp [copiesOf, copyOf]

/-- A datagram is a list. -/
theorem Faithful.datagram (h : Faithful n) {k : Nat} {bytes : List (BitVec 8)}
    (hk : n.datagram k = some bytes) : (n.lists.map listBytes)[k]? = some bytes := by
  have hwrites := writes_initial (streamed h.stream)
    (delivery (reachable_sender h.stream)).1
  have hdata : (n.stream.writes.map fun w => w.1.chunk.data)[k]? = some bytes := by
    unfold Node.datagram at hk
    split at hk
    · rename_i c r hw
      split at hk
      · rw [List.getElem?_map, hw]
        exact hk
      · contradiction
    · contradiction
  have hsubmitted : n.stream.writes.map (fun w => w.1.chunk.data) <+:
      n.stream.sender.submitted.map Chunk.data := by
    have hcopies := hwrites.map fun c => c.chunk.data
    rw [map_copiesOf, List.map_map] at hcopies
    exact hcopies
  rcases hsubmitted.trans h.submitted with ⟨more, hmore⟩
  rw [← hmore, List.getElem?_append_left (List.getElem?_eq_some_iff.1 hdata).1]
  exact hdata

/-! ## The network -/

/-- A list of a patch as it is output, behind the address of the patch. -/
def Network.letter (abi : Abi) (source : Nat → SockaddrIn) (s : Network) (p : Nat × Nat) :
    List Atom × List Atom :=
  (sourceAtoms abi (source p.1), numbers (s.nodes p.1).lists[p.2]?.toList)

/-- The patches are faithful, and what has been output are lists of theirs. -/
structure Steady (abi : Abi) (source : Nat → SockaddrIn) (s : Network) : Prop where
  host : s.receiver.abi = abi
  faithful : ∀ i, Faithful (s.nodes i)
  wellTyped : ∀ cl ∈ s.receiver.floatlist, cl.WellTyped
  known : ∀ p ∈ s.delivered, p.2 < (s.nodes p.1).lists.length
  carries : Carries (s.receiver.log.flatMap labels)
    (s.delivered.map (s.letter abi source))

/-- At first nothing is under way. -/
theorem steady_init (h : (datagramsMachine abi source).init s) : Steady abi source s := by
  rcases s with ⟨x, nodes, delivered⟩
  rcases h with ⟨hinit, habi, rfl, rfl⟩
  rcases UdpReceive.init_adds hinit with ⟨hcarries, hwell⟩
  exact ⟨habi, fun _ => faithful_fresh, hwell, by simp, hcarries⟩

/-- The lists of a patch only become more. -/
theorem lists_update {nodes : Nat → Node} {i : Nat} (h : (nodes i).lists <+: n.lists) (j : Nat) :
    (nodes j).lists <+: (Function.update nodes i n j).lists := by
  by_cases hj : j = i
  · rw [hj, Function.update_self]
    exact h
  · rw [Function.update_of_ne hj]

/-- A step of a patch changes nothing that has been delivered. -/
theorem Steady.update (h : Steady abi source s) {i : Nat} (hn : Faithful n)
    (hlists : (s.nodes i).lists <+: n.lists) :
    Steady abi source { s with nodes := Function.update s.nodes i n } := by
  have hgrow := lists_update hlists
  refine ⟨h.host, fun j => ?_, h.wellTyped, fun p hp => ?_, ?_⟩
  · show Faithful (Function.update s.nodes i n j)
    by_cases hj : j = i
    · rw [hj, Function.update_self]
      exact hn
    · rw [Function.update_of_ne hj]
      exact h.faithful j
  · exact (h.known p hp).trans_le (hgrow p.1).length_le
  · have hsame : s.delivered.map (s.letter abi source) = s.delivered.map
        (Network.letter abi source { s with nodes := Function.update s.nodes i n }) := by
      refine List.map_congr_left fun p hp => ?_
      rcases hgrow p.1 with ⟨more, hmore⟩
      simp only [Network.letter, ← hmore, List.getElem?_append_left (h.known p hp)]
    exact hsame ▸ h.carries

/-- The receiving object has said something more. -/
theorem Steady.hear (h : Steady abi source s) {x : UdpReceive} {more : List (Nat × Nat)}
    (hadds : s.receiver.Adds (more.map (s.letter abi source)) x)
    (hmore : ∀ p ∈ more, p.2 < (s.nodes p.1).lists.length) :
    Steady abi source { s with receiver := x, delivered := s.delivered ++ more } := by
  refine ⟨hadds.abi.trans h.host, h.faithful, hadds.wellTyped h.wellTyped, fun p hp => ?_, ?_⟩
  · rcases List.mem_append.1 hp with hold | hnew
    · exact h.known p hold
    · exact hmore p hnew
  · rcases hadds.log with ⟨os, hlog, hcarries⟩
    rw [hlog, List.flatMap_append, List.map_append]
    exact h.carries.append hcarries

/-- The receiving object has said something, but brought no data. -/
theorem Steady.hear_nothing (h : Steady abi source s) {x : UdpReceive}
    (hadds : s.receiver.Adds [] x) : Steady abi source { s with receiver := x } := by
  rcases hadds.log with ⟨os, hlog, hcarries⟩
  refine ⟨hadds.abi.trans h.host, h.faithful, hadds.wellTyped h.wellTyped, h.known, ?_⟩
  rw [hlog, List.flatMap_append, ← List.append_nil (List.map _ _)]
  exact h.carries.append hcarries

/-- A datagram is delivered. -/
theorem Steady.deliver (h : Steady abi source s) (hlong : 32 ≤ abi.longBits)
    {env : UdpReceive.Env} {fd : Int} {i k : Nat} {bytes : List (BitVec 8)}
    (hbytes : (s.nodes i).datagram k = some bytes) {x : UdpReceive}
    (hx : s.receiver.step env (.readable fd (.data bytes (source i))) = some x) :
    Steady abi source { s with
      receiver := x
      delivered := if env.mem then s.delivered ++ [(i, k)] else s.delivered } := by
  have hadds := UdpReceive.step_adds (h.host ▸ hlong) h.wellTyped hx
  have hlist := (h.faithful i).datagram hbytes
  rw [List.getElem?_map] at hlist
  rcases Option.map_eq_some_iff.1 hlist with ⟨argv, hargv, rfl⟩
  rw [UdpReceive.incomings] at hadds
  split at hadds
  · rename_i hmem
    rw [if_pos hmem]
    refine h.hear ?_ ?_
    · have hletter : [(i, k)].map (s.letter abi source) =
          [(sourceAtoms s.receiver.abi (source i), byteAtoms (listBytes argv))] := by
        simp [Network.letter, h.host, hargv, numbers, byteAtoms_listBytes]
      rw [hletter]
      exact hadds
    · intro p hp
      rw [List.mem_singleton.1 hp]
      exact (List.getElem?_eq_some_iff.1 hargv).1
  · rename_i hmem
    rw [if_neg hmem]
    exact h.hear_nothing hadds

/-- Only a datagram brings anything to the patch of the receiver. -/
theorem incomings_eq_nil {x : UdpReceive} {env : UdpReceive.Env} {a : UdpReceive.Input}
    (h : ¬ brings a) : x.incomings env a = [] := by
  cases a with
  | readable fd r =>
      cases r with
      | data bytes source => exact absurd rfl h
      | _ => rfl
  | _ => rfl

/-- Every step keeps the network steady. -/
theorem Steady.step (h : Steady abi source s) (hlong : 32 ≤ abi.longBits) {e : Event}
    (hmem : e.Allocates) (hs : s.step source e = some s') : Steady abi source s' := by
  cases e with
  | send i argv =>
      rcases Option.map_eq_some_iff.1 hs with ⟨n, hn, rfl⟩
      refine h.update ((h.faithful i).send hn) ?_
      rcases Option.map_eq_some_iff.1 hn with ⟨stream, -, rfl⟩
      rw [Node.lists, Node.lists, List.filter_append]
      exact List.prefix_append _ _
  | sender i a =>
      rcases Option.map_eq_some_iff.1 hs with ⟨n, hn, rfl⟩
      refine h.update ((h.faithful i).sender hmem hn) ?_
      rcases Node.sender_cases hn with ⟨-, stream, -, rfl⟩
      exact List.prefix_refl _
  | deliver env fd i k =>
      rcases Option.bind_eq_some_iff.1 hs with ⟨bytes, hbytes, hread⟩
      rcases Option.map_eq_some_iff.1 hread with ⟨x, hx, rfl⟩
      exact h.deliver hlong hbytes hx
  | receiver env a =>
      simp only [Network.step] at hs
      split at hs
      · contradiction
      · rename_i hnot
        rcases Option.map_eq_some_iff.1 hs with ⟨x, hx, rfl⟩
        have hadds := UdpReceive.step_adds (h.host ▸ hlong) h.wellTyped hx
        rw [incomings_eq_nil hnot] at hadds
        exact h.hear_nothing hadds

/-- Everything under way is accounted for in every run with memory. -/
theorem steady (hlong : 32 ≤ abi.longBits)
    (h : (datagramsMachine abi source).Reach (fun _ e => e.Allocates) s) :
    Steady abi source s := by
  refine Machine.Reach.invariant ?_ ?_ h
  · exact fun s hs => steady_init hs
  · exact fun s e s' _ hsteady hmem hs => hsteady.step hlong hmem hs

/-! ## What is read back -/

/-- The datagrams of a patch, delivered once each and in order. -/
theorem Steady.channel_eq (h : Steady abi source s) (t : Option (List Atom)) {i count : Nat}
    (hown : ∀ j, sourceAtoms abi (source j) = sourceAtoms abi (source i) → j = i)
    (hinorder : (s.delivered.filter fun p => p.1 = i).map Prod.snd = List.range count) :
    channel (sourceAtoms abi (source i)) (attributed t (s.receiver.log.flatMap labels)) =
      ((s.nodes i).lists.take count).map fun argv => numbers [argv] := by
  have hcount : count ≤ (s.nodes i).lists.length := by
    by_contra hlt
    have hmem : (s.nodes i).lists.length ∈
        (s.delivered.filter fun p => p.1 = i).map Prod.snd := by
      rw [hinorder, List.mem_range]
      omega
    rcases List.mem_map.1 hmem with ⟨p, hp, hlast⟩
    rcases List.mem_filter.1 hp with ⟨hdelivered, hi⟩
    have hknown := h.known p hdelivered
    rw [of_decide_eq_true hi, hlast] at hknown
    exact absurd hknown (lt_irrefl _)
  have hfilter : (s.delivered.map (s.letter abi source)).filter
      (fun p => p.1 = sourceAtoms abi (source i)) =
      (s.delivered.filter fun p => p.1 = i).map (s.letter abi source) := by
    rw [List.filter_map]
    congr 1
    refine List.filter_congr fun p _ => ?_
    exact decide_eq_decide.2 ⟨hown p.1, fun hp => congrArg (sourceAtoms abi ∘ source) hp⟩
  have hletters : ((s.delivered.filter fun p => p.1 = i).map (s.letter abi source)).map Prod.snd =
      ((s.delivered.filter fun p => p.1 = i).map Prod.snd).map
        fun k => numbers (s.nodes i).lists[k]?.toList := by
    rw [List.map_map, List.map_map]
    refine List.map_congr_left fun p hp => ?_
    simp only [Function.comp_apply, Network.letter, of_decide_eq_true (List.mem_filter.1 hp).2]
  rw [h.carries.channel_eq, hfilter, hletters, hinorder]
  apply List.ext_getElem
  · simpa using hcount
  · intro k hk hk'
    have hlength : k < (s.nodes i).lists.length := by
      rw [List.length_map, List.length_range] at hk
      omega
    simp [hlength]

/-- Whatever the patches, their threads and kernels, the network and the receiving object do
in whatever order: a list that is output is one whole list of one patch, and the address
that was output last is the address of this patch.  Nothing is merged, split or made up,
and the lists of a patch whose datagrams are delivered once each and in order are read back
in their order. -/
theorem datagrams_intact (hlong : 32 ≤ abi.longBits)
    (h : (datagramsMachine abi source).Reach (fun _ e => e.Allocates) s)
    (t : Option (List Atom)) :
    attributed t (s.receiver.log.flatMap labels) = s.delivered.map (fun p =>
        (some (sourceAtoms abi (source p.1)), numbers (s.nodes p.1).lists[p.2]?.toList)) ∧
      (∀ p ∈ s.delivered, p.2 < (s.nodes p.1).lists.length) ∧
      ∀ i count, (∀ j, sourceAtoms abi (source j) = sourceAtoms abi (source i) → j = i) →
        (s.delivered.filter fun p => p.1 = i).map Prod.snd = List.range count →
        channel (sourceAtoms abi (source i)) (attributed t (s.receiver.log.flatMap labels)) =
          ((s.nodes i).lists.take count).map fun argv => numbers [argv] := by
  have hsteady := steady hlong h
  refine ⟨?_, hsteady.known, fun i count hown hinorder => ?_⟩
  · rw [hsteady.carries t, List.map_map]
    rfl
  · exact hsteady.channel_eq t hown hinorder

/-- A patch sends a list, and its kernel takes all {lit}`r` bytes. -/
def sendFrom (i : Nat) (argv : List Atom) (r : Int) : List Event :=
  .send i argv :: (sendSteps r).map (.sender i)

/-- Two patches send a list each; the second datagram arrives first, and once more. -/
def twoPatches : List Event :=
  sendFrom 0 [setFloat (1 : Nat), setFloat (2 : Nat)] 2 ++ sendFrom 1 [setFloat (3 : Nat)] 1 ++
    [.deliver plainUdpEnv 3 1 0, .deliver plainUdpEnv 3 0 0, .deliver plainUdpEnv 3 1 0]

/-- Patch {lit}`i` has port {lit}`i`. -/
def portSource (i : Nat) : SockaddrIn :=
  ⟨afInet, 0#32, BitVec.ofNat 16 i⟩

/-- Two patches send, and one of their datagrams arrives twice. -/
theorem datagrams_intact_run :
    ∃ s, (datagramsMachine ⟨true, 64⟩ portSource).Reachable s ∧
      s.delivered = [(1, 0), (0, 0), (1, 0)] ∧
      (attributed none (s.receiver.log.flatMap labels)).map Prod.fst =
        [1, 0, 1].map fun i => some (sourceAtoms ⟨true, 64⟩ (portSource i)) := by
  have hend : ((datagramsMachine ⟨true, 64⟩ portSource).run
      ⟨fun _ => Node.fresh, listeningUdp, []⟩ twoPatches).map (fun s => s.delivered) =
      some [(1, 0), (0, 0), (1, 0)] := by decide +kernel
  rcases Option.map_eq_some_iff.1 hend with ⟨s, hrun, hdelivered⟩
  have hinit : (datagramsMachine ⟨true, 64⟩ portSource).Reach (fun _ e => e.Allocates)
      ⟨fun _ => Node.fresh, listeningUdp, []⟩ := .start ⟨init_listeningUdp, rfl, rfl, rfl⟩
  have hmeets : (datagramsMachine ⟨true, 64⟩ portSource).RunMeets (fun _ e => e.Allocates)
      ⟨fun _ => Node.fresh, listeningUdp, []⟩ twoPatches := by
    refine Machine.runMeets_of_forall (p := Event.Allocates) _ ?_
    simp [twoPatches, sendFrom, sendSteps, Event.Allocates, Channel.Event.Allocates]
  have hreach := hinit.run hmeets hrun
  have hread := (datagrams_intact (by decide) hreach none).1
  refine ⟨s, hreach.reachable, hdelivered, ?_⟩
  rw [hread, hdelivered]
  rfl

end Datagrams

end Iemnet
