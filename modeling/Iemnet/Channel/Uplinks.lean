import Iemnet.Channel.Model
import Iemnet.TcpServer.Observer

/-!
# Many clients and one server

Any number of clients send lists to a tcpserver over connections of their own.  Each has a
sender with its queue and its thread, and a kernel that cuts the bytes anywhere; the server
serves its connections in any order, between messages of all kinds.  The patch of the server
sees nothing but the outlets.

Main results:

- Theorem {lit}`Steady.step`: what every step keeps.
- Theorem {lit}`uplinks_deliver`: the patch has, for every connected client, the first of the
  numbers that this client has sent, and all of them once nothing is under way.
-/

namespace Iemnet

open Foundations Pd Sender

namespace Uplinks

open Channel TcpServer

/-- The sending half of a connection; {lit}`arrived` counts the bytes that the server has
got. -/
structure Uplink where
  stream : Stream
  asked : List (List Atom)
  arrived : Nat

/-- Nothing has been sent. -/
def Uplink.fresh : Uplink :=
  ⟨Stream.create, [], 0⟩

/-- The bytes the kernel has taken and the server has not got. -/
def Uplink.ahead (u : Uplink) : List (BitVec 8) :=
  (u.stream.accepted.drop u.arrived).map fun b => b.2.2

/-- The bytes the server has got. -/
def Uplink.got (u : Uplink) : List (BitVec 8) :=
  (u.stream.accepted.take u.arrived).map fun b => b.2.2

/-- The client sends a list. -/
def Uplink.send (u : Uplink) (argv : List Atom) : Option Uplink :=
  (u.stream.step (.callSend (chunkCreateList true argv), 0)).map fun stream =>
    { u with stream := stream, asked := u.asked ++ [argv] }

/-- Any other step of the client's sender and its kernel. -/
def Uplink.sender (u : Uplink) : Action × Int → Option Uplink
  | (.callSend _, _) => none
  | a => (u.stream.step a).map fun stream => { u with stream := stream }

/-- The server with the sending halves of its connections, by their serials. -/
structure Network where
  server : Server
  links : Nat → Uplink

/-- What can happen next. -/
inductive Event
  /-- The client of a connection sends a list. -/
  | send (id : Nat) (argv : List Atom)
  | sender (id : Nat) (a : Action × Int)
  /-- A message to the server, or a call of one of its poll functions. -/
  | server (env : Env) (a : Input)

/-- The connection that an input brings bytes from, and the bytes. -/
def Network.incoming (s : Network) : Input → Option (Nat × List (BitVec 8))
  | .received fd (some c) =>
      match s.server.pollfn fd with
      | some (some y) => some (y.id, c.data)
      | _ => none
  | _ => none

/-- {lit}`recvfrom` returns the next bytes of the stream. -/
def Network.Possible (s : Network) (a : Input) : Prop :=
  ∀ p ∈ s.incoming a, p.2 ≠ [] ∧ p.2.length ≤ inbufsize ∧ p.2 <+: (s.links p.1).ahead

instance (s : Network) (a : Input) : Decidable (s.Possible a) :=
  inferInstanceAs (Decidable (∀ p ∈ s.incoming a, _ ∧ _ ∧ _))

/-- The bytes that are brought have arrived. -/
def Network.taken (s : Network) (a : Input) : Nat → Uplink :=
  match s.incoming a with
  | some (id, bytes) => Function.update s.links id
      { s.links id with arrived := (s.links id).arrived + bytes.length }
  | none => s.links

def Network.step (s : Network) : Event → Option Network
  | .send id argv => ((s.links id).send argv).map fun u =>
      { s with links := Function.update s.links id u }
  | .sender id a => ((s.links id).sender a).map fun u =>
      { s with links := Function.update s.links id u }
  | .server env a =>
      if s.Possible a then
        (s.server.step emit env a).map fun x => ⟨x, s.taken a⟩
      else none

end Uplinks

open Uplinks TcpServer in
/-- A new server, and clients that have sent nothing. -/
def uplinksMachine : Machine Network Event where
  init s := tcpserverMachine.init s.server ∧ s.links = fun _ => Uplink.fresh
  step := Network.step

namespace Uplinks

open Channel TcpServer

variable {abi : Abi} {u u' : Uplink} {s s' : Network}

/-- The clients' main threads get the memory they ask for, and the server tells its patch
everything. -/
def Fitting (s : Network) : Event → Prop
  | .send _ _ => True
  | .sender _ a => Channel.Event.Allocates (.sender a)
  | .server env a => Server.Fitting s.server (env, a)

/-! ## One connection -/

/-- A connection is the sending half of a channel. -/
def Linked (abi : Abi) (u : Uplink) : Prop :=
  ∃ t : Link, (channelMachine abi).Reach (fun _ e => e.Allocates) t ∧
    t.stream = u.stream ∧ t.asked = u.asked ∧ t.arrived = u.arrived

/-- A fresh connection is the sending half of a channel. -/
theorem linked_fresh (abi : Abi) : Linked abi Uplink.fresh := by
  rcases floatlistCreate_wellTyped (fun _ => setFloat 0) 1024 with ⟨cl, hcreate, -⟩
  exact ⟨_, .start ⟨_, cl, hcreate, rfl⟩, rfl, rfl, rfl⟩

/-- Sending another list keeps the connection the sending half of a channel. -/
theorem Linked.send (h : Linked abi u) {argv : List Atom} (hs : u.send argv = some u') :
    Linked abi u' := by
  rcases h with ⟨t, hreach, hstream, hasked, harrived⟩
  rcases Option.map_eq_some_iff.1 hs with ⟨stream, hstep, rfl⟩
  have hlink : t.step abi (.send argv) =
      some { t with stream := stream, asked := t.asked ++ [argv] } := by
    rw [Link.step, hstream, hstep]
    rfl
  exact ⟨_, hreach.next (a := .send argv) trivial hlink, rfl, by rw [hasked], harrived⟩

/-- The other steps of a sender touch its stream only. -/
theorem Uplink.sender_cases {a : Action × Int} (hs : u.sender a = some u') :
    (∀ c, a.1 ≠ .callSend c) ∧ ∃ stream, u.stream.step a = some stream ∧
      u' = { u with stream := stream } := by
  rcases a with ⟨act, r⟩
  cases act with
  | callSend c => contradiction
  | callDestroy | step | spurious =>
      rcases Option.map_eq_some_iff.1 hs with ⟨stream, hstep, rfl⟩
      exact ⟨by simp, stream, hstep, rfl⟩

/-- A step of the sender is a step of the channel. -/
theorem link_sender (abi : Abi) {t : Link} {a : Action × Int} (hnot : ∀ c, a.1 ≠ .callSend c) :
    t.step abi (.sender a) = (t.stream.step a).map fun stream => { t with stream := stream } := by
  rcases a with ⟨act, r⟩
  cases act with
  | callSend c => exact absurd rfl (hnot c)
  | callDestroy | step | spurious => rfl

/-- The steps of the sender keep the connection the sending half of a channel. -/
theorem Linked.sender (h : Linked abi u) {a : Action × Int}
    (hmem : Channel.Event.Allocates (.sender a)) (hs : u.sender a = some u') :
    Linked abi u' := by
  rcases h with ⟨t, hreach, hstream, hasked, harrived⟩
  rcases Uplink.sender_cases hs with ⟨hnot, stream, hstep, rfl⟩
  have hlink : t.step abi (.sender a) = some { t with stream := stream } := by
    rw [link_sender abi hnot, hstream, hstep]
    rfl
  exact ⟨_, hreach.next hmem hlink, rfl, hasked, harrived⟩

/-- No more has arrived than the kernel has taken. -/
theorem Linked.arrived_le (h : Linked abi u) : u.arrived ≤ u.stream.accepted.length := by
  rcases h with ⟨t, hreach, hstream, -, harrived⟩
  exact hstream ▸ harrived ▸ (carried hreach).arrived

/-- What has arrived does not change behind the server's back. -/
theorem Linked.got_eq (h : Linked abi u) {stream : Stream}
    (hlater : u.stream.accepted <+: stream.accepted) :
    Uplink.got { u with stream := stream } = u.got := by
  rcases hlater with ⟨more, hmore⟩
  simp only [Uplink.got, ← hmore, List.take_append_of_le_length h.arrived_le]

/-- The server gets the next bytes. -/
theorem Linked.recv (h : Linked abi u) {n : Nat} (hpos : 0 < n) (hbuf : n ≤ inbufsize)
    (hn : n ≤ u.ahead.length) : Linked abi { u with arrived := u.arrived + n } := by
  rcases h with ⟨t, hreach, hstream, hasked, harrived⟩
  have hahead : n ≤ t.ahead.length := by
    rw [Link.ahead, hstream, harrived]
    simpa [Uplink.ahead] using hn
  rcases exists_recv abi (carried hreach) ⟨2, 0#32, 0#16⟩ (fun _ => setFloat 0) hpos hbuf
    hahead with ⟨t', hstep, hstream', hasked', harrived'⟩
  refine ⟨t', hreach.next (a := .recv n _ _) trivial hstep, hstream'.trans hstream,
    hasked'.trans hasked, ?_⟩
  rw [harrived', harrived]

/-- Nothing is under way on a connection. -/
structure Settled (u : Uplink) : Prop where
  idle : u.stream.sender.main = .idle
  running : u.stream.sender.isrunning = true
  offered : u.stream.writes.length = u.stream.sender.submitted.length
  whole : ∀ w ∈ u.stream.writes, w.2 = w.1.chunk.size
  arrived : u.arrived = u.stream.accepted.length

instance (u : Uplink) : Decidable (Settled u) :=
  decidable_of_iff (_ ∧ _ ∧ _ ∧ _ ∧ _)
    ⟨fun h => ⟨h.1, h.2.1, h.2.2.1, h.2.2.2.1, h.2.2.2.2⟩,
      fun h => ⟨h.idle, h.running, h.offered, h.whole, h.arrived⟩⟩

/-- Where every answer was whole, no chunk was cut short. -/
theorem Settled.short (h : Settled u) :
    u.stream.writes.Pairwise fun w w' => CutShort w → w'.2 ≤ 0 :=
  List.pairwise_of_forall_mem_list fun w hw _ _ hcut => absurd hcut.2 (h.whole w hw).not_lt

/-- The server has got the first of the bytes that were sent. -/
theorem Linked.got (h : Linked abi u)
    (hshort : u.stream.writes.Pairwise fun w w' => CutShort w → w'.2 ≤ 0) :
    byteAtoms u.got <+: numbers u.asked ∧ (Settled u → byteAtoms u.got = numbers u.asked) := by
  rcases h with ⟨t, hreach, hstream, hasked, harrived⟩
  have hgot : t.got = u.got := by rw [Link.got, hstream, harrived, Uplink.got]
  rcases got_carried hreach (hstream ▸ hshort) with ⟨hfirst, hall⟩
  rw [hgot, hasked] at hfirst hall
  refine ⟨hfirst, fun hsettled => hall ⟨?_, ?_, ?_, ?_, ?_⟩⟩
  · exact hstream ▸ hsettled.idle
  · exact hstream ▸ hsettled.running
  · exact hstream ▸ hsettled.offered
  · exact hstream ▸ hsettled.whole
  · rw [harrived, hstream, hsettled.arrived]

/-! ## The network -/

/-- The connections are the sending halves of channels, and the patch of the server has been
told what has arrived on each. -/
structure Steady (abi : Abi) (s : Network) : Prop where
  linked : ∀ id, Linked abi (s.links id)
  ready : s.server.Ready
  followed : s.server.Followed fun id => byteAtoms (s.links id).got
  inv : ∃ l, s.server.Inv l

/-- At first nothing has arrived. -/
theorem steady_init (abi : Abi) (h : uplinksMachine.init s) : Steady abi s := by
  rcases s with ⟨x, links⟩
  rcases h with ⟨hinit, rfl⟩
  rcases Server.followed_new hinit with ⟨hfollowed, hready, hinv⟩
  exact ⟨fun _ => linked_fresh abi, hready, hfollowed, hinv⟩

/-- A change of one connection leaves the others as they are. -/
theorem linked_update {links : Nat → Uplink} (h : ∀ i, Linked abi (links i)) {id : Nat}
    (hu : Linked abi u) (i : Nat) : Linked abi (Function.update links id u i) := by
  by_cases hi : i = id
  · rw [hi, Function.update_self]
    exact hu
  · rw [Function.update_of_ne hi]
    exact h i

/-- A step of a client changes nothing that has arrived. -/
theorem Steady.update (h : Steady abi s) {id : Nat} (hlinked : Linked abi u)
    (hgot : u.got = (s.links id).got) :
    Steady abi { s with links := Function.update s.links id u } := by
  have hsame : (fun i => byteAtoms (Function.update s.links id u i).got) =
      fun i => byteAtoms (s.links i).got := by
    funext i
    by_cases hi : i = id
    · rw [hi, Function.update_self, hgot]
    · rw [Function.update_of_ne hi]
  exact ⟨linked_update h.linked hlinked, h.ready, hsame ▸ h.followed, h.inv⟩

/-- The next bytes have arrived. -/
theorem got_next {bytes : List (BitVec 8)} (h : bytes <+: u.ahead) :
    Uplink.got { u with arrived := u.arrived + bytes.length } = u.got ++ bytes := by
  have hbytes : bytes = u.ahead.take bytes.length := List.prefix_iff_eq_take.1 h
  have hmore : Uplink.got { u with arrived := u.arrived + bytes.length } =
      u.got ++ u.ahead.take bytes.length := by
    simp only [Uplink.got, Uplink.ahead, List.take_add, List.map_append, List.map_take]
  rw [hmore, ← hbytes]

/-- What has arrived after an input of the server is what the patch is told. -/
theorem collected_taken (a : Input) (hposs : s.Possible a) :
    collected (fun id => byteAtoms (s.links id).got) (s.server.incomings a) =
      fun id => byteAtoms (s.taken a id).got := by
  cases a with
  | received fd c =>
      cases c with
      | none => exact collected_nil _
      | some c =>
          cases hpoll : s.server.pollfn fd with
          | none =>
              simp only [Server.incomings, Network.taken, Network.incoming, hpoll]
              exact collected_nil _
          | some f =>
              cases f with
              | none =>
                  simp only [Server.incomings, Network.taken, Network.incoming, hpoll]
                  exact collected_nil _
              | some y =>
                  have hincoming : s.incoming (.received fd (some c)) = some (y.id, c.data) := by
                    simp only [Network.incoming, hpoll]
                  have hnext := (hposs _ hincoming).2.2
                  funext id
                  simp only [Server.incomings, Network.taken, hincoming, hpoll, collected_map]
                  by_cases hid : y.id = id
                  · rw [if_pos hid, ← hid, Function.update_self, got_next hnext, byteAtoms,
                      byteAtoms, byteAtoms, List.map_append]
                  · rw [if_neg hid, Function.update_of_ne (Ne.symm hid)]
  | _ => exact collected_nil _

/-- The inputs of the server keep the network steady. -/
theorem Steady.server (h : Steady abi s) {env : Env} {a : Input} {x : Server}
    (hok : Server.Fitting s.server (env, a)) (hposs : s.Possible a)
    (hs : s.server.step emit env a = some x) : Steady abi ⟨x, s.taken a⟩ := by
  rcases h.inv with ⟨l, hl⟩
  rcases h.followed.step h.ready hl hok hs with ⟨hfollowed, hready⟩
  refine ⟨?_, hready, collected_taken a hposs ▸ hfollowed, (Server.step_effect hl hs).inv hl⟩
  show ∀ id, Linked abi (s.taken a id)
  unfold Network.taken
  cases hincoming : s.incoming a with
  | none => exact h.linked
  | some p =>
      rcases hposs p hincoming with ⟨hne, hbuf, hnext⟩
      exact linked_update h.linked
        ((h.linked p.1).recv (List.length_pos_iff.2 hne) hbuf hnext.length_le)

/-- Every step keeps the network steady. -/
theorem Steady.step (h : Steady abi s) {e : Event} (hok : Fitting s e)
    (hs : s.step e = some s') : Steady abi s' := by
  cases e with
  | send id argv =>
      rcases Option.map_eq_some_iff.1 hs with ⟨u, hu, rfl⟩
      refine h.update ((h.linked id).send hu) ?_
      rcases Option.map_eq_some_iff.1 hu with ⟨stream, hstep, rfl⟩
      exact (h.linked id).got_eq (accepted_grows hstep)
  | sender id a =>
      rcases Option.map_eq_some_iff.1 hs with ⟨u, hu, rfl⟩
      refine h.update ((h.linked id).sender hok hu) ?_
      rcases Uplink.sender_cases hu with ⟨-, stream, hstep, rfl⟩
      exact (h.linked id).got_eq (accepted_grows hstep)
  | server env a =>
      simp only [Network.step] at hs
      split at hs
      · rename_i hposs
        rcases Option.map_eq_some_iff.1 hs with ⟨x, hx, rfl⟩
        exact h.server hok hposs hx
      · contradiction

/-- The network is steady in every fitting run. -/
theorem steady (abi : Abi) (h : uplinksMachine.Reach Fitting s) : Steady abi s := by
  refine Machine.Reach.invariant ?_ ?_ h
  · exact fun s hs => steady_init abi hs
  · exact fun s e s' _ hsteady hok hs => hsteady.step hok hs

/-- At any time, whatever clients, kernels and server do in whatever order: the patch has,
for every connected client in the order of the client numbers, the first of the numbers that
this client has sent, and all of them once nothing is under way on its connection. -/
theorem uplinks_deliver (h : uplinksMachine.Reach Fitting s)
    (hshort : ∀ y ∈ s.server.clients,
      (s.links y.id).stream.writes.Pairwise fun w w' => CutShort w → w'.2 ≤ 0) :
    ∃ got : SocketReceiver → List Atom,
      (s.server.said.foldl Observer.hear Observer.start).inbox =
        s.server.clients.map (fun y => (y.sock, got y)) ∧
      ∀ y ∈ s.server.clients, got y <+: numbers (s.links y.id).asked ∧
        (Settled (s.links y.id) → got y = numbers (s.links y.id).asked) := by
  have hsteady := steady s.server.abi h
  refine ⟨fun y => byteAtoms (s.links y.id).got, hsteady.followed.knows.inbox, fun y hy => ?_⟩
  exact (hsteady.linked y.id).got (hshort y hy)

/-- Two clients connect.  They send at the same time, the first one two numbers and the second
one a single number, and the two numbers are received one by one. -/
def twoClients : List Event :=
  [.server (Server.plainEnv []) (.incoming 3 (Server.caller 5)),
    .server (Server.plainEnv []) (.incoming 3 (Server.caller 6)),
    .send 1 [setFloat (1 : Nat), setFloat (300 : Nat)], .send 2 [setFloat (7 : Nat)]] ++
    ((sendSteps 2).zip (sendSteps 1)).flatMap (fun p => [.sender 1 p.1, .sender 2 p.2]) ++
    [.server (Server.plainEnv []) (.received 5 (some ⟨[1#8], 0, 0#16, afInet⟩)),
      .server (Server.plainEnv []) (.received 6 (some ⟨[7#8], 0, 0#16, afInet⟩)),
      .server (Server.plainEnv []) (.received 5 (some ⟨[44#8], 0, 0#16, afInet⟩))]

/-- An event that is fitting in any state. -/
def Ample : Event → Prop
  | .send _ _ => True
  | .sender _ a => Channel.Event.Allocates (.sender a)
  | .server env a => Server.Ample (env, a)

/-- An ample event is fitting in every state. -/
theorem Ample.fitting (s : Network) {e : Event} (h : Ample e) : Fitting s e := by
  cases e with
  | send id argv => trivial
  | sender id a => exact h
  | server env a => exact Server.Ample.fitting s.server h

/-- Every event of the run is ample. -/
theorem ample_twoClients : ∀ e ∈ twoClients, Ample e := by
  simp [twoClients, sendSteps, Ample, Server.Ample, Channel.Event.Allocates, Server.plainEnv,
    Server.caller]

/-- Two clients send at the same time, and the patch has the numbers of each. -/
theorem uplinks_deliver_run :
    ∃ s, uplinksMachine.Reachable s ∧
      (s.server.said.foldl Observer.hear Observer.start).inbox.map
        (fun r => r.2.length) = [2, 1] ∧
      (s.server.said.foldl Observer.hear Observer.start).inbox =
        s.server.clients.map fun y => (y.sock, numbers (s.links y.id).asked) := by
  have hend : (uplinksMachine.run ⟨Server.started, fun _ => Uplink.fresh⟩ twoClients).map
      (fun s => (s.server.clients.all fun y => decide (Settled (s.links y.id)),
        (s.server.said.foldl Observer.hear Observer.start).inbox.map fun r => r.2.length)) =
      some (true, [2, 1]) := by decide +kernel
  rcases Option.map_eq_some_iff.1 hend with ⟨s, hrun, hfinal⟩
  rw [Prod.mk.injEq] at hfinal
  rcases hfinal with ⟨hall, hlength⟩
  have hsettled : ∀ y ∈ s.server.clients, Settled (s.links y.id) := fun y hy =>
    of_decide_eq_true (List.all_eq_true.1 hall y hy)
  have hinit : uplinksMachine.Reach Fitting ⟨Server.started, fun _ => Uplink.fresh⟩ :=
    .start ⟨Server.init_started, rfl⟩
  have hreach := hinit.run ((Machine.runMeets_of_forall _ ample_twoClients).mono
    fun s _ he => he.fitting s) hrun
  rcases uplinks_deliver hreach (fun y hy => (hsettled y hy).short) with ⟨got, hinbox, hgot⟩
  refine ⟨s, hreach.reachable, hlength, hinbox.trans (List.map_congr_left fun y hy => ?_)⟩
  rw [(hgot y hy).2 (hsettled y hy)]

end Uplinks

end Iemnet
