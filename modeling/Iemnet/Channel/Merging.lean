import Iemnet.Channel.Uplinks
import Iemnet.Foundations.Merge
import Iemnet.Receive.Merging

/-!
# Many clients and one tcpreceive

The clients are as for a tcpserver, but the object that receives from them does not say
whose data it outputs.

Main results:

- Theorem {lit}`Steady.step`: what every step keeps.
- Theorem {lit}`merging_delivers`: the patch of the tcpreceive has a merge of what the
  clients have sent, and knows how many of them are connected.
-/

namespace Iemnet

open Foundations Pd Sender

namespace Merging

open Channel Uplinks

/-- The object with the sending halves of its connections, by their serials. -/
structure Network where
  receiver : TcpReceive
  links : Nat → Uplink

/-- What can happen next. -/
inductive Event
  /-- The client of a connection sends a list. -/
  | send (id : Nat) (argv : List Atom)
  | sender (id : Nat) (a : Action × Int)
  /-- A message to the object, or a call of one of its poll functions. -/
  | receiver (env : TcpReceive.Env) (a : TcpReceive.Input)

/-- The connection that an input brings bytes from, and the bytes. -/
def Network.incoming (s : Network) : TcpReceive.Input → Option (Nat × List (BitVec 8))
  | .readable fd (.data bytes _) =>
      (s.receiver.os.live.find? fun p => p.1 = fd).map fun p => (p.2, bytes)
  | _ => none

/-- {lit}`recvfrom` returns the next bytes of the stream. -/
def Network.Possible (s : Network) (a : TcpReceive.Input) : Prop :=
  ∀ p ∈ s.incoming a, p.2 <+: (s.links p.1).ahead

instance (s : Network) (a : TcpReceive.Input) : Decidable (s.Possible a) :=
  inferInstanceAs (Decidable (∀ p ∈ s.incoming a, _))

/-- The bytes that are brought have arrived. -/
def Network.taken (s : Network) (a : TcpReceive.Input) : Nat → Uplink :=
  match s.incoming a with
  | some (id, bytes) => Function.update s.links id
      { s.links id with arrived := (s.links id).arrived + bytes.length }
  | none => s.links

def Network.step (s : Network) : Event → Option Network
  | .send id argv => ((s.links id).send argv).map fun u =>
      { s with links := Function.update s.links id u }
  | .sender id a => ((s.links id).sender a).map fun u =>
      { s with links := Function.update s.links id u }
  | .receiver env a =>
      if s.Possible a then (s.receiver.step env a).map fun x => ⟨x, s.taken a⟩ else none

end Merging

open Merging in
/-- A new object, and clients that have sent nothing. -/
def mergingMachine : Machine Network Event where
  init s := tcpreceiveMachine.init s.receiver ∧ s.links = fun _ => Uplinks.Uplink.fresh
  step := Network.step

namespace Merging

open Channel Uplinks

variable {abi : Abi} {u u' : Uplink} {s s' : Network}

/-- There is memory for chunks and receivers, and the peer of a connection has a port. -/
def Fitting : Event → Prop
  | .send _ _ => True
  | .sender _ a => Channel.Event.Allocates (.sender a)
  | .receiver env a => TcpReceive.Admits (env, a) ∧ env.mem = true

/-- The numbers that have arrived on a connection. -/
def Network.arrived (s : Network) (id : Nat) : List Atom :=
  byteAtoms (s.links id).got

/-- The connections are the sending halves of channels, and what has arrived on them was
output. -/
structure Steady (abi : Abi) (s : Network) : Prop where
  linked : ∀ id, Linked abi (s.links id)
  kept : s.receiver.Kept
  wellTyped : ∀ cl ∈ s.receiver.floatlist, cl.WellTyped
  merges : Merges s.arrived s.receiver.stream
  current : s.receiver.Current

/-- At first nothing has arrived. -/
theorem steady_init (abi : Abi) (h : mergingMachine.init s) : Steady abi s := by
  rcases s with ⟨x, links⟩
  rcases h with ⟨hinit, rfl⟩
  rcases TcpReceive.new_outputs hinit with ⟨hstream, hcurrent, hwell⟩
  refine ⟨fun _ => linked_fresh abi, TcpReceive.reach_kept (.start hinit), hwell, ?_, hcurrent⟩
  rw [hstream]
  exact .nil

/-- A change of one connection changes what has arrived on it. -/
theorem arrived_update (x : TcpReceive) (links : Nat → Uplink) (id : Nat) (u : Uplink) :
    Network.arrived ⟨x, Function.update links id u⟩ =
      Function.update (Network.arrived ⟨x, links⟩) id (byteAtoms u.got) := by
  funext i
  show byteAtoms (Function.update links id u i).got = _
  by_cases hi : i = id
  · rw [hi, Function.update_self, Function.update_self]
  · rw [Function.update_of_ne hi, Function.update_of_ne hi]
    rfl

/-- A step of a client changes nothing that has arrived. -/
theorem Steady.update (h : Steady abi s) {id : Nat} (hlinked : Linked abi u)
    (hgot : u.got = (s.links id).got) :
    Steady abi { s with links := Function.update s.links id u } := by
  refine ⟨linked_update h.linked hlinked, h.kept, h.wellTyped, ?_, h.current⟩
  rw [arrived_update, hgot]
  exact (Function.update_eq_self id s.arrived).symm ▸ h.merges

/-- Data comes from an open connection. -/
theorem Steady.exists_serial (h : Steady abi s) {fd : Int} {w : Item Watch}
    (hpoll : s.receiver.pollfn fd = some (some w)) (bytes : List (BitVec 8))
    (source : SockaddrIn) :
    ∃ id, s.incoming (.readable fd (.data bytes source)) = some (id, bytes) := by
  rcases h.kept.polled hpoll with ⟨c, hc, hused, rfl⟩
  have hsocket : c.socket ∈ s.receiver.sockets :=
    List.mem_filterMap.2 ⟨c, List.mem_of_getElem? hc, hused.shown⟩
  have hnumber := h.kept.inv.numbers.mem_iff.2 (List.mem_append_left _ hsocket)
  rcases List.mem_map.1 hnumber with ⟨p, hp, hfd⟩
  have hfound : (s.receiver.os.live.find? fun p => p.1 = c.socket).isSome :=
    List.find?_isSome.2 ⟨p, hp, decide_eq_true hfd⟩
  rcases Option.isSome_iff_exists.1 hfound with ⟨q, hq⟩
  exact ⟨q.2, by rw [Network.incoming, hq]; rfl⟩

/-- The inputs of the receiver keep the network steady. -/
theorem Steady.receiver (h : Steady abi s) {env : TcpReceive.Env} {a : TcpReceive.Input}
    {x : TcpReceive} (hok : TcpReceive.Admits (env, a)) (hmem : env.mem = true)
    (hposs : s.Possible a) (hs : s.receiver.step env a = some x) :
    Steady abi ⟨x, s.taken a⟩ := by
  have hout := TcpReceive.step_outputs h.kept h.wellTyped hok hs
  have hkept := h.kept.step hok hs
  have hquiet : s.incoming a = none → TcpReceive.brings env a = [] →
      Steady abi ⟨x, s.taken a⟩ := by
    intro hnone hnothing
    rw [hnothing] at hout
    rw [Network.taken, hnone]
    refine ⟨h.linked, hkept, hout.wellTyped h.wellTyped, ?_, hout.current h.current⟩
    rw [hout.stream, List.append_nil]
    exact h.merges
  cases a with
  | readable fd r =>
      cases r with
      | data bytes source =>
          simp only [TcpReceive.step] at hs
          split at hs
          · rename_i w hpoll
            split at hs
            · rename_i hr
              rcases h.exists_serial hpoll bytes source with ⟨id, hincoming⟩
              have hnext := hposs _ hincoming
              rw [TcpReceive.brings, if_pos hmem] at hout
              rw [Network.taken, hincoming]
              have hlinked := (h.linked id).recv (List.length_pos_iff.2 hr.1) hr.2 hnext.length_le
              refine ⟨linked_update h.linked hlinked, hkept, hout.wellTyped h.wellTyped, ?_,
                hout.current h.current⟩
              rw [hout.stream, arrived_update, got_next hnext, byteAtoms, List.map_append]
              exact h.merges.append id (byteAtoms bytes)
            · contradiction
          · contradiction
      | emptyDatagram source | endOfStream source | error e source => exact hquiet rfl rfl
  | incoming fd o | port f o | serialize doit => exact hquiet rfl rfl

/-- Every step keeps the network steady. -/
theorem Steady.step (h : Steady abi s) {e : Event} (hok : Fitting e)
    (hs : s.step e = some s') : Steady abi s' := by
  cases e with
  | send id argv =>
      rcases Option.map_eq_some_iff.1 hs with ⟨u, hu, rfl⟩
      refine h.update ((h.linked id).send hu) ?_
      rcases Option.map_eq_some_iff.1 hu with ⟨stream, hstep, rfl⟩
      exact (h.linked id).got_eq (accepted_grows hstep)
  | sender id a =>
      rcases Option.map_eq_some_iff.1 hs with ⟨u, hu, rfl⟩
      refine h.update ((h.linked id).sender hok hu) ?_
      rcases Uplink.sender_cases hu with ⟨-, stream, hstep, rfl⟩
      exact (h.linked id).got_eq (accepted_grows hstep)
  | receiver env a =>
      simp only [Network.step] at hs
      split at hs
      · rename_i hposs
        rcases Option.map_eq_some_iff.1 hs with ⟨x, hx, rfl⟩
        exact h.receiver hok.1 hok.2 hposs hx
      · contradiction

/-- The network is steady in every run with memory. -/
theorem steady (abi : Abi) (h : mergingMachine.Reach (fun _ e => Fitting e) s) :
    Steady abi s := by
  refine Machine.Reach.invariant ?_ ?_ h
  · exact fun s hs => steady_init abi hs
  · exact fun s e s' _ hsteady hok hs => hsteady.step hok hs

/-- At any time, whatever clients, kernels and the object do in whatever order: the numbers
that are output are a merge of what has arrived on the connections, which on each of them
are the first of the numbers that its client has sent, and all of them once nothing is under
way; and the number of connections that was announced last is the number of open ones. -/
theorem merging_delivers (h : mergingMachine.Reach (fun _ e => Fitting e) s) :
    Merges s.arrived s.receiver.stream ∧
      (∀ id, ((s.links id).stream.writes.Pairwise fun w w' => CutShort w → w'.2 ≤ 0) →
        s.arrived id <+: numbers (s.links id).asked ∧
          (Settled (s.links id) → s.arrived id = numbers (s.links id).asked)) ∧
      s.receiver.announced = [setInt s.receiver.sockets.length] := by
  have hsteady := steady ⟨true, 64⟩ h
  refine ⟨hsteady.merges, fun id hshort => (hsteady.linked id).got hshort, ?_⟩
  rw [← hsteady.kept.inv.nconnections]
  exact hsteady.current

/-- A client sends a list, and its kernel takes all {lit}`r` bytes. -/
def sendOn (id : Nat) (argv : List Atom) (r : Int) : List Event :=
  .send id argv :: (sendSteps r).map (.sender id)

/-- The outcome of {lit}`recvfrom` that brings {lit}`bytes`. -/
def dataFrom (bytes : List (BitVec 8)) : Recvfrom :=
  .data bytes ⟨afInet, 0x0100007f#32, 0x3930#16⟩

/-- Two clients send; the first list is received in two pieces, with the second list
between them. -/
def twoClients : List Event :=
  [.receiver plainReceiveEnv (.incoming 3 (sender 5)),
    .receiver plainReceiveEnv (.incoming 3 (sender 6))] ++
    sendOn 1 [setFloat (1 : Nat), setFloat (2 : Nat)] 2 ++ sendOn 2 [setFloat (3 : Nat)] 1 ++
    [.receiver plainReceiveEnv (.readable 5 (dataFrom [1#8])),
      .receiver plainReceiveEnv (.readable 6 (dataFrom [3#8])),
      .receiver plainReceiveEnv (.readable 5 (dataFrom [2#8]))]

/-- Two clients send to one receiver, and their numbers are merged. -/
theorem merging_delivers_run :
    ∃ s, mergingMachine.Reachable s ∧
      Merges s.arrived s.receiver.stream ∧
      s.receiver.stream = [1, 3, 2].map (fun n : Nat => setFloat n) ∧
      s.receiver.announced = [setInt (2 : Nat)] := by
  have hend : (mergingMachine.run ⟨listeningReceiver, fun _ => Uplink.fresh⟩ twoClients).map
      (fun s => (s.receiver.stream, s.receiver.sockets.length)) =
      some ([1, 3, 2].map (fun n : Nat => setFloat n), 2) := by decide +kernel
  rcases Option.map_eq_some_iff.1 hend with ⟨s, hrun, hfinal⟩
  rw [Prod.mk.injEq] at hfinal
  rcases hfinal with ⟨hstream, hsockets⟩
  have hinit : mergingMachine.Reach (fun _ e => Fitting e)
      ⟨listeningReceiver, fun _ => Uplink.fresh⟩ := .start ⟨init_listeningReceiver, rfl⟩
  have hmeets : mergingMachine.RunMeets (fun _ e => Fitting e)
      ⟨listeningReceiver, fun _ => Uplink.fresh⟩ twoClients := by
    refine Machine.runMeets_of_forall (p := Fitting) _ ?_
    simp [twoClients, sendOn, sendSteps, Fitting, Channel.Event.Allocates, TcpReceive.Admits,
      sender, plainReceiveEnv]
  have hreach := hinit.run hmeets hrun
  rcases merging_delivers hreach with ⟨hmerges, -, hannounced⟩
  exact ⟨s, hreach.reachable, hmerges, hstream, hsockets ▸ hannounced⟩

end Merging

end Iemnet
