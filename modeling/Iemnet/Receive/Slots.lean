import Iemnet.Client.Resources
import Iemnet.Foundations.Cells
import Iemnet.Receive.TcpReceive

/-!
# The slots of the TCP receiver

A slot is taken when its socket is {lit}`-1`, given back when its port is positive, and
looked for by its descriptor.  The three agree: in every reachable state a slot is in use
in every respect or in none.

Main results:

- Theorems {lit}`Inv.disconnect` and {lit}`Inv.disconnectFrom`: closing one slot, and the
  loop over all of them.
- Theorems {lit}`Inv.entered` and {lit}`Inv.passed`: a connection is entered in a free
  slot, or closed at once.
- Theorem {lit}`Kept.setPort`: a port message, whatever becomes of it.
-/

namespace Iemnet

open Pd Foundations

/-- What a slot says about its descriptor. -/
def TcpConnection.shown (c : TcpConnection) : Option Int :=
  if c.socket = -1 then none else some c.socket

/-- The function registered for a slot. -/
def TcpConnection.poll (c : TcpConnection) : Option (Int × Option (Item Watch)) :=
  c.receiver.map fun r => (r.base.sockfd, some r)

/-- Slot {lit}`i` is in use. -/
structure TcpConnection.Used (c : TcpConnection) (i : Nat) : Prop where
  socket : 0 ≤ c.socket
  port : c.port ≠ 0
  owner : c.hasOwner = true
  receiver : ∃ r, c.receiver = some r ∧ r.base = ⟨c.socket, i⟩

/-- The slot is free. -/
structure TcpConnection.Unused (c : TcpConnection) : Prop where
  socket : c.socket = -1
  addr : c.addr = 0
  port : c.port = 0
  receiver : c.receiver = none

namespace TcpConnection

variable {c : TcpConnection} {i : Nat}

/-- A used slot shows its socket. -/
theorem Used.shown (h : c.Used i) : c.shown = some c.socket := by
  have := h.socket
  rw [TcpConnection.shown, if_neg (by omega)]

/-- An unused slot shows nothing. -/
theorem Unused.shown (h : c.Unused) : c.shown = none := by
  rw [TcpConnection.shown, if_pos h.socket]

/-- An unused slot is not polled. -/
theorem Unused.poll (h : c.Unused) : c.poll = none := by
  rw [TcpConnection.poll, h.receiver]
  rfl

/-- A slot that has been vacated is unused. -/
theorem unused_vacated (c : TcpConnection) : c.vacated.Unused :=
  ⟨rfl, rfl, rfl, rfl⟩

end TcpConnection

namespace TcpReceive

/-- The descriptors of the slots in use. -/
def sockets (x : TcpReceive) : List Int :=
  x.connection.filterMap TcpConnection.shown

/-- The functions registered for the slots. -/
def slotPolls (x : TcpReceive) : List (Int × Option (Item Watch)) :=
  x.connection.filterMap TcpConnection.poll

/-- The functions registered for listening sockets. -/
def listenerPolls (listener : Option Int) : List (Int × Option (Item Watch)) :=
  listener.toList.map fun fd => (fd, none)

/-- Every slot is in use or free, the counter counts the slots in use, and what is open,
received from and polled belongs to a slot in use or is the listening socket. -/
structure Inv (x : TcpReceive) (listener : Option Int) : Prop where
  length : x.connection.length = maxConnections
  slots : ∀ (i : Nat) (c : TcpConnection), x.connection[i]? = some c → c.Used i ∨ c.Unused
  nconnections : x.nconnections = x.sockets.length
  accounted : x.os.Accounted
  stray : x.os.stray = []
  numbers : x.os.numbers.Perm (x.sockets ++ listener.toList)
  accepted_iff : ∀ p ∈ x.os.live, p.2 ∈ x.accepted ↔ p.1 ∈ x.sockets
  accepted_lt : ∀ k ∈ x.accepted, k < x.os.issued
  receivers : x.receivers.Accounted
  receivers_live : x.receivers.live.Perm (x.connection.filterMap TcpConnection.receiver)
  receivers_stray : x.receivers.stray = []
  polls : x.polls.Perm (x.slotPolls ++ listenerPolls listener)

/-- The invariant between two inputs: the listening socket is the stored one, and an
object without one has no port. -/
structure Kept (x : TcpReceive) : Prop where
  inv : x.Inv (stored x.connectsocket)
  closed : x.connectsocket < 0 → x.connectsocket = -1 ∧ x.port = -1

variable {x x' : TcpReceive} {env : Env} {i : Nat} {c : TcpConnection}
  {listener : Option Int}

/-! ## What is the same -/

/-- The table and the descriptors are the same. -/
structure SameTable (x x' : TcpReceive) : Prop where
  connectsocket : x'.connectsocket = x.connectsocket
  port : x'.port = x.port
  nconnections : x'.nconnections = x.nconnections
  connection : x'.connection = x.connection
  polls : x'.polls = x.polls
  os : x'.os = x.os
  accepted : x'.accepted = x.accepted
  receivers : x'.receivers = x.receivers

/-- Nothing has changed. -/
theorem SameTable.refl (x : TcpReceive) : SameTable x x :=
  ⟨rfl, rfl, rfl, rfl, rfl, rfl, rfl, rfl⟩

/-- A table that stays the same twice stays the same. -/
theorem SameTable.trans {x₁ x₂ x₃ : TcpReceive} (h₁ : SameTable x₁ x₂)
    (h₂ : SameTable x₂ x₃) : SameTable x₁ x₃ :=
  ⟨h₂.connectsocket.trans h₁.connectsocket, h₂.port.trans h₁.port,
    h₂.nconnections.trans h₁.nconnections, h₂.connection.trans h₁.connection,
    h₂.polls.trans h₁.polls, h₂.os.trans h₁.os, h₂.accepted.trans h₁.accepted,
    h₂.receivers.trans h₁.receivers⟩

/-- An outlet call leaves the table alone. -/
theorem sameTable_emit (x : TcpReceive) (o : Output) : SameTable x (emit x o) :=
  ⟨rfl, rfl, rfl, rfl, rfl, rfl, rfl, rfl⟩

/-- Another list leaves the table alone. -/
theorem sameTable_floatlist (x : TcpReceive) (floatlist : Option Floatlist) :
    SameTable x { x with floatlist := floatlist } :=
  ⟨rfl, rfl, rfl, rfl, rfl, rfl, rfl, rfl⟩

/-- Putting out the number of connections leaves the table alone. -/
theorem sameTable_numconnout (x : TcpReceive) (n : Nat) : SameTable x (numconnout emit x n) :=
  (sameTable_emit _ _).trans (sameTable_emit _ _)

/-- Putting out an address leaves the table alone. -/
theorem sameTable_addrout (x : TcpReceive) (address : BitVec 32) (port : BitVec 16) :
    SameTable x (addrout emit x address port) :=
  (sameTable_emit _ _).trans (sameTable_emit _ _)

/-- Putting out what was received leaves the table alone. -/
theorem sameTable_deliver (env : Env) (x : TcpReceive) (c : Chunk) :
    SameTable x (x.deliver env c) := by
  have hfold : ∀ (ms : List Message) (y : TcpReceive),
      SameTable y (ms.foldl (fun x m => emit x (.plain .msgout m.selector m.argv)) y) := by
    intro ms
    induction ms with
    | nil => exact fun y => .refl y
    | cons m ms ih => exact fun y => (sameTable_emit y _).trans (ih _)
  unfold deliver
  dsimp only
  split
  · exact ⟨rfl, rfl, rfl, rfl, rfl, rfl, rfl, rfl⟩
  · exact (sameTable_floatlist x _).trans (hfold _ _)

/-- The same table has the same sockets. -/
theorem SameTable.sockets (h : SameTable x x') : x'.sockets = x.sockets := by
  rw [TcpReceive.sockets, h.connection, TcpReceive.sockets]

/-- The invariant holds as long as the table stays the same. -/
theorem Inv.same (h : x.Inv listener) (hsame : SameTable x x') : x'.Inv listener := by
  have hsockets := hsame.sockets
  have hslots : x'.slotPolls = x.slotPolls := by rw [slotPolls, hsame.connection, slotPolls]
  constructor
  · rw [hsame.connection]
    exact h.length
  · rw [hsame.connection]
    exact h.slots
  · rw [hsame.nconnections, hsockets]
    exact h.nconnections
  · rw [hsame.os]
    exact h.accounted
  · rw [hsame.os]
    exact h.stray
  · rw [hsame.os, hsockets]
    exact h.numbers
  · rw [hsame.os, hsockets, hsame.accepted]
    exact h.accepted_iff
  · rw [hsame.os, hsame.accepted]
    exact h.accepted_lt
  · rw [hsame.receivers]
    exact h.receivers
  · rw [hsame.receivers, hsame.connection]
    exact h.receivers_live
  · rw [hsame.receivers]
    exact h.receivers_stray
  · rw [hsame.polls, hslots]
    exact h.polls

/-- The table stays in order as long as it stays the same. -/
theorem Kept.same (h : x.Kept) (hsame : SameTable x x') : x'.Kept := by
  constructor
  · rw [hsame.connectsocket]
    exact h.inv.same hsame
  · rw [hsame.connectsocket, hsame.port]
    exact h.closed

/-! ## What the invariant says -/

/-- Descriptors that are polled are open, each once. -/
theorem Inv.polls_keys (h : x.Inv listener) : (x.polls.map Prod.fst).Perm x.os.numbers := by
  have hslots : x.slotPolls.map Prod.fst = x.sockets := by
    rw [slotPolls, sockets, List.map_filterMap]
    apply List.filterMap_congr
    intro c hc
    rcases List.getElem?_of_mem hc with ⟨i, hi⟩
    rcases h.slots i c hi with hused | hunused
    · rcases hused.receiver with ⟨r, hr, hbase⟩
      rw [hused.shown, TcpConnection.poll, hr, Option.map_some, Option.map_some, hbase]
    · rw [hunused.shown, hunused.poll]
      rfl
  have hlistener : (listenerPolls listener).map Prod.fst = listener.toList := by
    rw [listenerPolls, List.map_map]
    exact List.map_id _
  have hkeys := h.polls.map Prod.fst
  rw [List.map_append, hslots, hlistener] at hkeys
  exact hkeys.trans h.numbers.symm

/-- No descriptor is polled twice. -/
theorem Inv.polls_nodup (h : x.Inv listener) : (x.polls.map Prod.fst).Nodup :=
  h.polls_keys.nodup_iff.2 h.accounted.nodup

/-- The sockets and the listener are different. -/
theorem Inv.numbers_nodup (h : x.Inv listener) : (x.sockets ++ listener.toList).Nodup :=
  h.numbers.nodup_iff.1 h.accounted.nodup

/-- No socket is in two slots. -/
theorem Inv.sockets_nodup (h : x.Inv listener) : x.sockets.Nodup :=
  (List.nodup_append.1 h.numbers_nodup).1

/-- An unused slot is one without a socket. -/
theorem Inv.unused_iff (h : x.Inv listener) (hi : x.connection[i]? = some c) :
    c.Unused ↔ c.socket = -1 := by
  refine ⟨fun hunused => hunused.socket, fun hsocket => ?_⟩
  rcases h.slots i c hi with hused | hunused
  · have := hused.socket
    omega
  · exact hunused

/-- A used slot is one with a socket. -/
theorem Inv.used_iff (h : x.Inv listener) (hi : x.connection[i]? = some c) :
    c.Used i ↔ c.socket ≠ -1 := by
  constructor
  · intro hused
    have := hused.socket
    omega
  · intro hsocket
    rcases h.slots i c hi with hused | hunused
    · exact hused
    · exact absurd hunused.socket hsocket

/-- Looking for the descriptor of a slot in use finds this slot. -/
theorem Inv.findSocket (h : x.Inv listener) (hi : x.connection[i]? = some c) (hused : c.Used i) :
    x.findSocket c.socket = some i := by
  apply Cells.findIdx?_eq_of_unique hi (by simp)
  intro j d hj hd
  have hsocket : d.socket = c.socket := of_decide_eq_true hd
  have hshown : d.shown = some c.socket := by
    have := hused.socket
    rw [TcpConnection.shown, if_neg (by omega), hsocket]
  exact Cells.shown_unique h.sockets_nodup hj hshown hi hused.shown

/-! ## The end of a connection -/

/-- The object without the connection in slot {lit}`i`, which had the receiver {lit}`r`. -/
def ended (x : TcpReceive) (i : Nat) (c : TcpConnection) (r : Item Watch) : TcpReceive :=
  { x with
    polls := x.polls.eraseP fun p => p.1 = r.base.sockfd
    receivers := x.receivers.drop r
    os := x.os.close c.socket
    connection := x.connection.set i c.vacated
    nconnections := x.nconnections - 1 }

/-- What disconnecting makes of a used slot. -/
theorem disconnect_of_used {r : Item Watch} (hi : x.connection[i]? = some c) (hused : c.Used i)
    (hr : c.receiver = some r) :
    x.disconnect i = numconnout emit (x.ended i c r) (x.nconnections - 1) := by
  simp only [disconnect, hi, if_neg hused.port, hr, receiverDestroy, closesocket,
    if_pos hused.socket]
  rfl

/-- An unused slot is not disconnected. -/
theorem disconnect_of_unused (hi : x.connection[i]? = some c) (hunused : c.Unused) :
    x.disconnect i = x := by
  simp only [disconnect, hi, if_pos hunused.port]

/-- A slot that does not exist is not disconnected. -/
theorem disconnect_of_none (hi : x.connection[i]? = none) : x.disconnect i = x := by
  simp only [disconnect, hi]

/-- A connection that ends leaves the invariant. -/
theorem Inv.ended {r : Item Watch} (h : x.Inv listener) (hi : x.connection[i]? = some c)
    (hused : c.Used i) (hr : c.receiver = some r) (hbase : r.base = ⟨c.socket, i⟩) :
    (x.ended i c r).Inv listener := by
  have hunused : c.vacated.Unused := c.unused_vacated
  have hsockets : x.sockets.Perm (c.socket :: (x.ended i c r).sockets) :=
    Cells.perm_vacate hi hused.shown hunused.shown
  have hreceivers : (x.connection.filterMap TcpConnection.receiver).Perm
      (r :: (x.connection.set i c.vacated).filterMap TcpConnection.receiver) :=
    Cells.perm_vacate hi hr hunused.receiver
  have hpoll : c.poll = some (c.socket, some r) := by
    rw [TcpConnection.poll, hr, Option.map_some, hbase]
  have hslots : x.slotPolls.Perm ((c.socket, some r) :: (x.ended i c r).slotPolls) :=
    Cells.perm_vacate hi hpoll hunused.poll
  have hlive : r ∈ x.receivers.live :=
    h.receivers_live.mem_iff.2 (hreceivers.mem_iff.2 List.mem_cons_self)
  have hnumber : c.socket ∈ x.os.numbers :=
    h.numbers.mem_iff.2 (List.mem_append_left _ (hsockets.mem_iff.2 List.mem_cons_self))
  have hclose := Descriptors.numbers_close h.accounted.nodup hnumber
  rcases h.accounted.close_number hnumber with ⟨haccounted, hstray⟩
  constructor
  · exact List.length_set.trans h.length
  · intro j d hj
    rcases Cells.getElem?_set_cases hj with ⟨rfl, rfl⟩ | ⟨-, hj⟩
    · exact Or.inr hunused
    · exact h.slots j d hj
  · have hlength := hsockets.length_eq
    rw [← h.nconnections, List.length_cons] at hlength
    show x.nconnections - 1 = _
    omega
  · exact haccounted
  · exact hstray.trans h.stray
  · have hboth := (hclose.symm.trans h.numbers).trans (hsockets.append_right listener.toList)
    exact hboth.cons_inv
  · intro q hq
    have hne : q.1 ≠ c.socket := by
      intro heq
      have hmem : q.1 ∈ (x.os.close c.socket).numbers := List.mem_map_of_mem hq
      rw [heq] at hmem
      have hnodup := hclose.nodup_iff.1 h.accounted.nodup
      exact (List.nodup_cons.1 hnodup).1 hmem
    rw [show (x.ended i c r).accepted = x.accepted from rfl,
      h.accepted_iff q (Descriptors.live_close_subset hq), hsockets.mem_iff, List.mem_cons,
      or_iff_right hne]
  · intro k hk
    show k < (x.os.close c.socket).issued
    rw [Descriptors.issued_close]
    exact h.accepted_lt k hk
  · exact h.receivers.drop hlive
  · exact Foundations.Pool.drop_perm (h.receivers_live.trans hreceivers)
  · show (x.receivers.drop r).stray = []
    rw [Foundations.Pool.drop, if_pos hlive]
    exact h.receivers_stray
  · have hperm : x.polls.Perm
        ((c.socket, some r) :: ((x.ended i c r).slotPolls ++ listenerPolls listener)) :=
      h.polls.trans (hslots.append_right _)
    have herase := Cells.perm_eraseP_key h.polls_nodup hperm
    show (x.polls.eraseP fun p => p.1 = r.base.sockfd).Perm _
    rw [hbase]
    exact herase

/-- Closing a slot keeps the invariant, whatever the slot. -/
theorem Inv.disconnect (h : x.Inv listener) (id : Nat) : (x.disconnect id).Inv listener := by
  cases hid : x.connection[id]? with
  | none =>
      rw [disconnect_of_none hid]
      exact h
  | some c =>
      rcases h.slots id c hid with hused | hunused
      · rcases hused.receiver with ⟨r, hr, hbase⟩
        rw [disconnect_of_used hid hused hr]
        exact (h.ended hid hused hr hbase).same (sameTable_numconnout _ _)
      · rw [disconnect_of_unused hid hunused]
        exact h

/-- Closing a slot leaves it free and the others as they were. -/
theorem Inv.disconnect_slots (h : x.Inv listener) (id : Nat) {d : TcpConnection}
    (hd : (x.disconnect id).connection[i]? = some d) :
    d.Unused ∨ (i ≠ id ∧ x.connection[i]? = some d) := by
  by_cases hid : i = id
  · subst hid
    left
    cases hi : x.connection[i]? with
    | none =>
        rw [disconnect_of_none hi, hi] at hd
        cases hd
    | some c =>
        rcases h.slots i c hi with hused | hunused
        · rcases hused.receiver with ⟨r, hr, -⟩
          rw [disconnect_of_used hi hused hr, (sameTable_numconnout _ _).connection] at hd
          have hlt := (List.getElem?_eq_some_iff.1 hi).1
          rw [TcpReceive.ended, List.getElem?_set_self hlt] at hd
          exact Option.some.inj hd ▸ c.unused_vacated
        · rw [disconnect_of_unused hi hunused, hi] at hd
          exact Option.some.inj hd ▸ hunused
  · right
    refine ⟨hid, ?_⟩
    cases hc : x.connection[id]? with
    | none =>
        rw [disconnect_of_none hc] at hd
        exact hd
    | some c =>
        rcases h.slots id c hc with hused | hunused
        · rcases hused.receiver with ⟨r, hr, -⟩
          rw [disconnect_of_used hc hused hr, (sameTable_numconnout _ _).connection,
            TcpReceive.ended,
            List.getElem?_set_ne (Ne.symm hid)] at hd
          exact hd
        · rw [disconnect_of_unused hc hunused] at hd
          exact hd

/-- The loop of {lit}`tcpreceive_disconnect_all` keeps the invariant and frees the slots
it has passed. -/
theorem Inv.disconnectFrom (h : x.Inv listener) (m i : Nat) :
    (x.disconnectFrom m i).Inv listener ∧
      ∀ (j : Nat) (d : TcpConnection), (x.disconnectFrom m i).connection[j]? = some d →
        d.Unused ∨ (¬ (i ≤ j ∧ j < i + m) ∧ x.connection[j]? = some d) := by
  induction m generalizing x i with
  | zero =>
      refine ⟨h, fun j d hd => Or.inr ⟨?_, hd⟩⟩
      omega
  | succ m ih =>
      rcases ih (h.disconnect i) (i + 1) with ⟨hinv, hslots⟩
      refine ⟨hinv, fun j d hd => ?_⟩
      rcases hslots j d hd with hunused | ⟨hpassed, hd⟩
      · exact Or.inl hunused
      · rcases h.disconnect_slots i hd with hunused | ⟨hne, hd⟩
        · exact Or.inl hunused
        · refine Or.inr ⟨?_, hd⟩
          omega

/-- Disconnecting everybody keeps the invariant. -/
theorem Inv.disconnectAll (h : x.Inv listener) : x.disconnectAll.Inv listener :=
  (h.disconnectFrom maxConnections 0).1

/-- Once everybody has been disconnected all slots are unused. -/
theorem Inv.disconnectAll_unused (h : x.Inv listener)
    (hi : x.disconnectAll.connection[i]? = some c) : c.Unused := by
  rcases (h.disconnectFrom maxConnections 0).2 i c hi with hunused | ⟨hpassed, -⟩
  · exact hunused
  · have hlt := (List.getElem?_eq_some_iff.1 hi).1
    rw [h.disconnectAll.length] at hlt
    omega

/-- Without connections there is no socket in the table. -/
theorem Inv.disconnectAll_sockets (h : x.Inv listener) : x.disconnectAll.sockets = [] := by
  rw [sockets, List.filterMap_eq_nil_iff]
  intro c hc
  rcases List.getElem?_of_mem hc with ⟨i, hi⟩
  exact (h.disconnectAll_unused hi).shown

/-! ## A new connection -/

/-- What is entered for a connection in slot {lit}`i`. -/
def newConnection (x : TcpReceive) (i : Nat) (o : Incoming) : TcpConnection where
  addr := x.abi.toLong (x.abi.ntohl o.source.addr)
  port := x.abi.ntohs o.source.port
  socket := o.fd
  hasOwner := true
  receiver := some (x.receivers.next ⟨o.fd, i⟩)

/-- The object with a connection entered in slot {lit}`i`. -/
def entered (x : TcpReceive) (i : Nat) (o : Incoming) : TcpReceive :=
  { x.opened o.fd with
    receivers := x.receivers.make ⟨o.fd, i⟩
    polls := x.polls ++ [(o.fd, some (x.receivers.next ⟨o.fd, i⟩))]
    connection := x.connection.set i (x.newConnection i o)
    nconnections := x.nconnections + 1 }

/-- The object when the kernel has given it {lit}`fd` and it has closed it again;
{lit}`ks` is the serial if {lit}`accept` gave it. -/
def passed (x : TcpReceive) (fd : Int) (ks : List Nat) : TcpReceive :=
  { x with os := (x.os.acquire fd).close fd, accepted := x.accepted ++ ks }

variable {fd : Int} {o : Incoming} {ks : List Nat}

/-- A failed accept changes nothing. -/
theorem connectpoll_of_failed (ho : o.fd < 0) : x.connectpoll env fd o = x := by
  rw [connectpoll, if_pos ho, ite_self]

/-- A new connection goes to the first free slot. -/
theorem connectpoll_of_free (ho : 0 ≤ o.fd) (hreceiver : env.receiver = true)
    (hi : x.findSocket (-1) = some i) :
    x.connectpoll env x.connectsocket o =
      addrout emit (numconnout emit (x.entered i o) (x.nconnections + 1))
        (BitVec.ofInt 32 (x.abi.toLong (x.abi.ntohl o.source.addr)))
        (x.abi.ntohs o.source.port) := by
  have hfree : (x.opened o.fd).findSocket (-1) = some i := hi
  rw [connectpoll, if_neg (not_not_intro rfl), if_neg (Int.not_lt.2 ho)]
  simp only [addconnection, hfree, receiverCreate, if_pos hreceiver]
  rfl

/-- Without a free slot the new connection is closed. -/
theorem connectpoll_of_full (ho : 0 ≤ o.fd) (hfull : x.findSocket (-1) = none) :
    x.connectpoll env x.connectsocket o = x.passed o.fd [x.os.issued] := by
  have hnone : (x.opened o.fd).findSocket (-1) = none := hfull
  rw [connectpoll, if_neg (not_not_intro rfl), if_neg (Int.not_lt.2 ho)]
  simp only [addconnection, hnone, closesocket, if_pos ho]
  rfl

/-- The slot that is found free. -/
theorem Inv.findSocket_free (h : x.Inv listener) (hi : x.findSocket (-1) = some i) :
    ∃ c, x.connection[i]? = some c ∧ c.Unused := by
  rcases List.findIdx?_eq_some_iff_getElem.1 hi with ⟨hlt, hsocket, -⟩
  have hget := List.getElem?_eq_getElem hlt
  exact ⟨_, hget, (h.unused_iff hget).2 (of_decide_eq_true hsocket)⟩

/-- No slot is found exactly when all are in use. -/
theorem Inv.findSocket_none (h : x.Inv listener) :
    x.findSocket (-1) = none ↔
      ∀ (i : Nat) (c : TcpConnection), x.connection[i]? = some c → c.Used i := by
  rw [TcpReceive.findSocket, List.findIdx?_eq_none_iff]
  constructor
  · intro hnone i c hi
    rw [h.used_iff hi]
    exact of_decide_eq_false (hnone c (List.mem_of_getElem? hi))
  · intro hused c hc
    rcases List.getElem?_of_mem hc with ⟨i, hi⟩
    exact decide_eq_false ((h.used_iff hi).1 (hused i c hi))

/-- A new connection keeps the invariant. -/
theorem Inv.entered (h : x.Inv listener) (hfresh : x.FreshFd o.fd)
    (hport : x.abi.ntohs o.source.port ≠ 0) (hi : x.findSocket (-1) = some i) :
    (x.entered i o).Inv listener := by
  rcases h.findSocket_free hi with ⟨c, hc, hunused⟩
  have hused : (x.newConnection i o).Used i := ⟨hfresh.1, hport, rfl, ⟨_, rfl, rfl⟩⟩
  have hsockets : (x.entered i o).sockets.Perm (o.fd :: x.sockets) :=
    Cells.perm_fill hc hunused.shown hused.shown
  have hreceivers : ((x.connection.set i (x.newConnection i o)).filterMap
      TcpConnection.receiver).Perm
        (x.receivers.next ⟨o.fd, i⟩ :: x.connection.filterMap TcpConnection.receiver) :=
    Cells.perm_fill hc hunused.receiver rfl
  have hslots : (x.entered i o).slotPolls.Perm
      ((o.fd, some (x.receivers.next ⟨o.fd, i⟩)) :: x.slotPolls) :=
    Cells.perm_fill hc hunused.poll rfl
  constructor
  · exact List.length_set.trans h.length
  · intro j d hj
    rcases Cells.getElem?_set_cases hj with ⟨rfl, rfl⟩ | ⟨-, hj⟩
    · exact Or.inl hused
    · exact h.slots j d hj
  · rw [hsockets.length_eq, List.length_cons, ← h.nconnections]
    rfl
  · exact h.accounted.acquire hfresh.2.2
  · exact h.stray
  · have hnumbers : (x.os.acquire o.fd).numbers.Perm (o.fd :: x.os.numbers) := by
      rw [Descriptors.numbers_acquire]
      exact List.perm_append_singleton _ _
    exact (hnumbers.trans (h.numbers.cons o.fd)).trans (hsockets.symm.append_right _)
  · intro p hp
    rw [hsockets.mem_iff, List.mem_cons]
    show p.2 ∈ x.accepted ++ [x.os.issued] ↔ _
    rw [List.mem_append, List.mem_singleton]
    rcases List.mem_append.1 (show p ∈ x.os.live ++ [(o.fd, x.os.issued)] from hp) with hold | hnew
    · have hserial := h.accounted.serial_lt hold
      have hnumber : p.1 ≠ o.fd := fun heq => hfresh.2.2 (heq ▸ List.mem_map_of_mem hold)
      rw [h.accepted_iff p hold, or_iff_left (Nat.ne_of_lt hserial), or_iff_right hnumber]
    · rw [List.mem_singleton.1 hnew]
      exact iff_of_true (Or.inr rfl) (Or.inl rfl)
  · intro k hk
    show k < x.os.issued + 1
    rcases List.mem_append.1 hk with hold | hnew
    · exact Nat.lt_succ_of_lt (h.accepted_lt k hold)
    · rw [List.mem_singleton.1 hnew]
      exact Nat.lt_succ_self _
  · exact h.receivers.make _
  · have hmake : (x.receivers.make ⟨o.fd, i⟩).live.Perm
        (x.receivers.next ⟨o.fd, i⟩ :: x.receivers.live) := List.perm_append_singleton _ _
    exact (hmake.trans (h.receivers_live.cons _)).trans hreceivers.symm
  · exact h.receivers_stray
  · have hpolls : (x.entered i o).polls.Perm
        ((o.fd, some (x.receivers.next ⟨o.fd, i⟩)) :: x.polls) :=
      List.perm_append_singleton _ _
    exact (hpolls.trans (h.polls.cons _)).trans (hslots.symm.append_right _)

/-- A descriptor that comes and goes leaves the invariant alone. -/
theorem Inv.passed (h : x.Inv listener) (hfresh : x.FreshFd fd)
    (hks : ∀ k ∈ ks, k = x.os.issued) : (x.passed fd ks).Inv listener := by
  have hmem : (fd, x.os.issued) ∈ (x.os.acquire fd).live := by simp [Descriptors.acquire]
  have hacquire := h.accounted.acquire hfresh.2.2
  have hclosed := Descriptors.close_acquire h.accounted hfresh.2.2
  constructor
  · exact h.length
  · exact h.slots
  · exact h.nconnections
  · exact hacquire.close hmem
  · show ((x.os.acquire fd).close fd).stray = []
    rw [hclosed]
    exact h.stray
  · show ((x.os.acquire fd).close fd).numbers.Perm _
    rw [hclosed]
    exact h.numbers
  · intro p hp
    have hlive : p ∈ x.os.live := by
      have hboth : p ∈ ((x.os.acquire fd).close fd).live := hp
      rw [hclosed] at hboth
      exact hboth
    have hserial := h.accounted.serial_lt hlive
    have hnew : p.2 ∉ ks := fun hin => Nat.ne_of_lt hserial (hks _ hin)
    show p.2 ∈ x.accepted ++ ks ↔ _
    rw [List.mem_append, or_iff_left hnew]
    exact h.accepted_iff p hlive
  · intro k hk
    show k < ((x.os.acquire fd).close fd).issued
    rw [hclosed]
    rcases List.mem_append.1 hk with hold | hnew
    · exact Nat.lt_succ_of_lt (h.accepted_lt k hold)
    · rw [hks k hnew]
      exact Nat.lt_succ_self _
  · exact h.receivers
  · exact h.receivers_live
  · exact h.receivers_stray
  · exact h.polls

/-! ## The port -/

/-- The fields about the port are not part of the table. -/
theorem Inv.withPort (h : x.Inv listener) (connectsocket port : Int) :
    ({ x with connectsocket := connectsocket, port := port } : TcpReceive).Inv listener :=
  ⟨h.length, h.slots, h.nconnections, h.accounted, h.stray, h.numbers, h.accepted_iff,
    h.accepted_lt, h.receivers, h.receivers_live, h.receivers_stray, h.polls⟩

/-- The listening socket is closed. -/
theorem Inv.unlistened (h : x.Inv (some fd)) (hfd : 0 ≤ fd) :
    ((x.rmpollfn fd).closesocket fd).Inv none := by
  have hsplit : (x.sockets ++ [fd]).Perm (fd :: x.sockets) := List.perm_append_singleton _ _
  have hnumber : fd ∈ x.os.numbers :=
    h.numbers.mem_iff.2 (hsplit.mem_iff.2 List.mem_cons_self)
  have hclose := Descriptors.numbers_close h.accounted.nodup hnumber
  rcases h.accounted.close_number hnumber with ⟨haccounted, hstray⟩
  rw [closesocket, if_pos hfd]
  constructor
  · exact h.length
  · exact h.slots
  · exact h.nconnections
  · exact haccounted
  · exact hstray.trans h.stray
  · have hboth := (hclose.symm.trans h.numbers).trans hsplit
    show (x.os.close fd).numbers.Perm (x.sockets ++ [])
    rw [List.append_nil]
    exact hboth.cons_inv
  · intro q hq
    exact h.accepted_iff q (Descriptors.live_close_subset hq)
  · intro k hk
    show k < (x.os.close fd).issued
    rw [Descriptors.issued_close]
    exact h.accepted_lt k hk
  · exact h.receivers
  · exact h.receivers_live
  · exact h.receivers_stray
  · have hperm : x.polls.Perm ((fd, none) :: x.slotPolls) :=
      h.polls.trans (List.perm_append_singleton _ _)
    show (x.polls.eraseP fun p => p.1 = fd).Perm (x.slotPolls ++ [])
    rw [List.append_nil]
    exact Cells.perm_eraseP_key h.polls_nodup hperm

/-- A listening socket is opened. -/
theorem Inv.listening (h : x.Inv none) (hfresh : x.FreshFd fd) :
    ({ x with os := x.os.acquire fd, polls := x.polls ++ [(fd, none)] } :
      TcpReceive).Inv (some fd) := by
  have hnumbers : x.os.numbers.Perm x.sockets := by
    have hboth := h.numbers
    rw [Option.toList_none, List.append_nil] at hboth
    exact hboth
  have hpolls : x.polls.Perm x.slotPolls := by
    have hboth := h.polls
    rw [listenerPolls, Option.toList_none, List.map_nil, List.append_nil] at hboth
    exact hboth
  constructor
  · exact h.length
  · exact h.slots
  · exact h.nconnections
  · exact h.accounted.acquire hfresh.2.2
  · exact h.stray
  · show (x.os.acquire fd).numbers.Perm _
    rw [Descriptors.numbers_acquire]
    exact hnumbers.append_right [fd]
  · intro p hp
    rcases List.mem_append.1 (show p ∈ x.os.live ++ [(fd, x.os.issued)] from hp) with hold | hnew
    · exact h.accepted_iff p hold
    · rw [List.mem_singleton.1 hnew]
      refine iff_of_false (fun hk => ?_) (fun hsocket => ?_)
      · exact Nat.lt_irrefl _ (h.accepted_lt _ hk)
      · exact hfresh.2.2 (hnumbers.mem_iff.2 hsocket)
  · intro k hk
    exact Nat.lt_succ_of_lt (h.accepted_lt k hk)
  · exact h.receivers
  · exact h.receivers_live
  · exact h.receivers_stray
  · exact hpolls.append_right [(fd, none)]

/-- Closing the port keeps the invariant, and there is no listener left. -/
theorem Kept.closePort (h : x.Kept) :
    x.closePort.Inv none ∧ x.closePort.connectsocket = -1 ∧ x.closePort.port = -1 := by
  have hinv := h.inv
  unfold TcpReceive.closePort
  split
  case isTrue hopen =>
    rw [stored_of_nonneg hopen] at hinv
    exact ⟨(hinv.unlistened hopen).withPort (-1) (-1), rfl, rfl⟩
  case isFalse hopen =>
    rw [stored_of_neg (Int.not_le.1 hopen)] at hinv
    exact ⟨hinv, h.closed (Int.not_le.1 hopen)⟩

/-- Without a listener the table is in order. -/
theorem Kept.of_closed (h : x.Inv none) (hclosed : x.connectsocket = -1 ∧ x.port = -1) :
    x.Kept := by
  refine ⟨?_, fun _ => hclosed⟩
  rw [hclosed.1]
  exact h

/-- A {lit}`port` message keeps the invariant, whatever becomes of it. -/
theorem Kept.setPort (h : x.Kept) {fportno : FloatArg} {o : PortOutcome}
    (hpossible : x.Possible o) : (x.setPort env fportno o).Kept := by
  have hclose := h.closePort
  unfold TcpReceive.setPort
  split
  · exact h
  · dsimp only
    unfold Possible at hpossible
    generalize x.closePort = y at hclose hpossible ⊢
    rcases hclose with ⟨hinv, hclosed⟩
    have hkept := Kept.of_closed hinv hclosed
    cases hsocket : o.socket with
    | none => exact hkept
    | some sockfd =>
        have hfresh : y.FreshFd sockfd := hpossible sockfd hsocket
        have hpassed : (({ y with os := y.os.acquire sockfd } : TcpReceive).closesocket
            sockfd) = y.passed sockfd [] := by
          simp [closesocket, if_pos hfresh.1, TcpReceive.passed]
        have hfailed : (y.passed sockfd []).Kept :=
          Kept.of_closed (hinv.passed hfresh (by simp)) hclosed
        dsimp only
        rw [hpassed]
        split
        · exact hfailed.same (sameTable_emit _ _)
        · split
          · exact hfailed.same (sameTable_emit _ _)
          · refine Kept.same ⟨?_, fun hneg => absurd hneg (Int.not_lt.2 hfresh.1)⟩
              (sameTable_emit _ _)
            show Inv _ (stored sockfd)
            rw [stored_of_nonneg hfresh.1]
            exact (hinv.listening hfresh).withPort sockfd _

end TcpReceive

end Iemnet
