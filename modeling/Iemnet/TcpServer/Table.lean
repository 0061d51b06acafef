import Iemnet.TcpServer.Model

/-!
# The client table of the TCP server

With a patch that does not answer, every part of the server has an exact
description over the list of clients that the table holds.  {lit}`Server.Tabled` ties
that list to the slots, {lit}`Server.Inv` also to the open descriptors and to the
registered poll functions.

Main results:

- Theorem {lit}`disconnect_eq`: {lit}`tcpserver_disconnect` erases one entry of the
  list, and where it indexes the table beyond its end.
- Theorem {lit}`Inv.dropped`: the invariant after an entry has been erased.
-/

namespace Iemnet.TcpServer

open Pd Foundations

/-- The descriptor of a client with its serial. -/
def SocketReceiver.entry (y : SocketReceiver) : Int × Nat :=
  (y.fd, y.id)

/-- A descriptor that only one client has leads to that client. -/
theorem SocketReceiver.findIdx_fd {l : List SocketReceiver} {y : SocketReceiver} {i : Nat}
    (hnodup : (l.map SocketReceiver.fd).Nodup) (hi : l[i]? = some y) :
    l.findIdx? (fun z => z.fd = y.fd) = some i := by
  rcases List.getElem?_eq_some_iff.1 hi with ⟨hlt, rfl⟩
  rw [List.findIdx?_eq_some_iff_getElem]
  refine ⟨hlt, by simp, ?_⟩
  intro j hj heq
  have hfd : l[j].fd = l[i].fd := by simpa using heq
  have hjlt : j < l.length := hj.trans hlt
  have := SlotTable.index_unique hnodup (List.getElem?_eq_getElem hjlt) hi hfd
  omega

namespace Server

/-! ## Outputs -/

/-- The server after some outlet calls over an unchanged table. -/
def logged (x : Server) (outputs : List Output) : Server :=
  { x with log := x.log ++ outputs.map fun o => ⟨o, x.sr, x.nconnections⟩ }

variable {x : Server} {l : List SocketReceiver} {y : SocketReceiver}

/-- What is put out one after the other adds up. -/
@[simp]
theorem logged_logged (a b : List Output) : (x.logged a).logged b = x.logged (a ++ b) := by
  simp [logged]

/-- Putting out nothing changes nothing. -/
@[simp]
theorem logged_nil : x.logged [] = x := by
  simp [logged]

/-- An outlet call adds one output to the log. -/
theorem emit_eq (x : Server) (o : Output) : emit x o = x.logged [o] :=
  rfl

/-- The output of {lit}`tcpserver_info_event`. -/
def eventOutputs (event : InfoEvent) : List Output :=
  (infoEventName event).toList.map fun name => .plain .statusout "type" [setSymbol name]

/-- The outputs of {lit}`tcpserver_info_connection`. -/
def connectionOutputs (y : SocketReceiver) (event : InfoEvent) : List Output :=
  let addr := (addressBytes (BitVec.ofInt 32 y.host) ++ [y.port.toNat]).map
    fun n => setFloat (n : ℚ)
  eventOutputs event ++
    [⟨.statusout, "client",
        [clientNumber y.client, setInt y.fd, setSymbol y.hostname, setInt y.port.toNat],
        some y.id⟩,
      .plain .statusout "socket" [setInt y.fd],
      .plain .statusout "address" addr,
      .plain .addrout "list" addr,
      .plain .sockout "float" [setInt y.fd]]

/-- The outputs of {lit}`iemnet__numconnout`. -/
def numconnOutputs (n : Nat) : List Output :=
  [.plain .statusout "connections" [setInt n], .plain .connectout "float" [setInt n]]

/-- The outputs of {lit}`tcpserver_send_bytes_client`. -/
def sendOutputs (client : Nat) (size : Int) (y : SocketReceiver) : List Output :=
  eventOutputs .send ++
    [⟨.statusout, "sendbuffersize", [clientNumber client, setInt size, setInt y.fd],
      some y.id⟩]

/-- An event is nothing but output. -/
theorem infoEvent_emit (x : Server) (event : InfoEvent) :
    infoEvent emit x event = x.logged (eventOutputs event) := by
  cases event <;> first | rfl | exact logged_nil.symm

/-- The number of connections is nothing but output. -/
theorem numconnout_emit (x : Server) (n : Nat) :
    numconnout emit x n = x.logged (numconnOutputs n) := by
  simp [numconnout, numconnOutputs, emit_eq]

/-! ## Accesses that are in order -/

/-- Accessing a slot of the table is harmless. -/
theorem touch_of_lt {i : Nat} (h : i < x.sr.length) : x.touch i = x :=
  if_pos h

/-- Accessing a slot behind the table goes wrong. -/
theorem touch_of_ge {i : Nat} (h : x.sr.length ≤ i) :
    x.touch i = x.fault (.outOfBounds i) :=
  if_neg (Nat.not_lt.2 h)

/-- Reading a client that has not been freed is harmless. -/
theorem access_of_notMem (h : y.id ∉ x.freed) : x.access y = x :=
  if_neg h

/-- A client that has not been freed reads as it is. -/
theorem current_of_notMem (h : y.id ∉ x.freed) : x.current y = y :=
  if_neg h

/-- Information on a client that has not been freed is nothing but output. -/
theorem infoConnection_emit (h : y.id ∉ x.freed) (event : InfoEvent) :
    infoConnection emit x y event = x.logged (connectionOutputs y event) := by
  have hlogged : ∀ outputs, y.id ∉ (x.logged outputs).freed := fun _ => h
  simp [infoConnection, infoEvent_emit, addrout, emit_eq, connectionOutputs,
    access_of_notMem (hlogged _), current_of_notMem (hlogged _)]

/-- Writing a slot of the table is harmless. -/
theorem setSlot_of_lt {i : Nat} (h : i < x.sr.length) (y : Option SocketReceiver) :
    x.setSlot i y = { x with sr := x.sr.set i y } := by
  rw [setSlot, touch_of_lt h]

/-- The gap is closed slot by slot; only the last read can be out of bounds. -/
theorem closeGap_eq (x : Server) (k m : Nat) (h : k + m ≤ x.sr.length) :
    x.closeGap k m =
      { x with
        sr := SlotTable.closeGap x.sr k m
        faults := x.faults ++
          if m ≠ 0 ∧ k + m = x.sr.length then [.outOfBounds (k + m)] else [] } := by
  induction m generalizing x k with
  | zero => simp [closeGap, SlotTable.closeGap]
  | succ m ih =>
      by_cases hlast : k + 1 < x.sr.length
      · have hk : k < x.sr.length := by omega
        rw [closeGap, touch_of_lt hlast, setSlot_of_lt hk, ih _ _ (by simp; omega)]
        have hbound : (¬ m = 0 ∧ k + (m + 1) = x.sr.length) ↔
            k + (m + 1) = x.sr.length := by omega
        simp [SlotTable.closeGap, slot, hbound, Nat.add_right_comm, Nat.add_assoc]
      · have hm : m = 0 := by omega
        have hk : k + 1 = x.sr.length := by omega
        subst hm
        have hlt : k < (x.fault (.outOfBounds (k + 1))).sr.length := by
          show k < x.sr.length
          omega
        rw [closeGap, touch_of_ge (by omega), setSlot_of_lt hlt]
        simp [closeGap, SlotTable.closeGap, slot, fault, hk]

/-- What freeing a client does. -/
theorem socketreceiverFree_eq (h : y.id ∉ x.freed) (hfd : 0 ≤ y.fd) :
    x.socketreceiverFree (some y) =
      { x with
        polls := if y.hasReceiver then x.polls.eraseP fun p => p.1 = y.fd else x.polls
        os := x.os.close y.fd
        freed := x.freed ++ [y.id] } := by
  simp only [socketreceiverFree, access_of_notMem h, current_of_notMem h]
  cases y.hasReceiver <;> simp [rmpollfn, closesocket, hfd]

/-! ## The table -/

/-- The clients in the order of the table. -/
def clients (x : Server) : List SocketReceiver :=
  SlotTable.entries x.sr

/-- The table holds the clients {lit}`l`: they fill the first slots, none of them has
been freed, and each has its own descriptor. -/
structure Tabled (x : Server) (l : List SocketReceiver) : Prop where
  sr_eq : x.sr = SlotTable.table l (x.maxconnections - l.length)
  nconnections_eq : x.nconnections = l.length
  length_le : l.length ≤ x.maxconnections
  max_lt : x.maxconnections < 2 ^ 32
  range : ∀ y ∈ l, 0 ≤ y.fd ∧ y.fd < 2 ^ 31
  notFreed : ∀ y ∈ l, y.id ∉ x.freed
  fds_nodup : (l.map SocketReceiver.fd).Nodup
  ids_nodup : (l.map SocketReceiver.id).Nodup

namespace Tabled

variable {i : Nat}

/-- The table has as many slots as it may have connections. -/
theorem length_sr (h : x.Tabled l) : x.sr.length = x.maxconnections := by
  have := h.length_le
  rw [h.sr_eq, SlotTable.length_table]
  omega

/-- A slot holds the client with its index. -/
theorem slot_eq (h : x.Tabled l) (i : Nat) : x.slot i = l[i]? := by
  rw [slot, h.sr_eq, SlotTable.get_table]

/-- The clients of the table are those of the list. -/
theorem clients_eq (h : x.Tabled l) : x.clients = l := by
  rw [clients, h.sr_eq, SlotTable.entries_table]

/-- Accessing the slot of a client is harmless. -/
theorem touch_eq (h : x.Tabled l) (hi : i < l.length) : x.touch i = x := by
  apply touch_of_lt
  have := h.length_le
  rw [h.length_sr]
  omega

/-- There are no more clients than an int can count. -/
theorem length_le_int (h : x.Tabled l) : l.length ≤ 2 ^ 31 := by
  rw [← List.length_map (f := SocketReceiver.fd)]
  apply length_le_of_nodup h.fds_nodup
  intro fd hfd
  rcases List.mem_map.1 hfd with ⟨y, hy, rfl⟩
  exact_mod_cast h.range y hy

/-- A client is found by its descriptor. -/
theorem findIdx_fd (h : x.Tabled l) (hi : l[i]? = some y) :
    l.findIdx? (fun z => z.fd = y.fd) = some i :=
  SocketReceiver.findIdx_fd h.fds_nodup hi

/-- Serials tell the clients apart. -/
theorem id_eq_iff (h : x.Tabled l) {i j : Nat} {z : SocketReceiver} (hi : l[i]? = some z)
    (hj : l[j]? = some y) : z.id = y.id ↔ i = j := by
  constructor
  · exact SlotTable.index_unique h.ids_nodup hi hj
  · rintro rfl
    rw [Option.some.inj (hi.symm.trans hj)]

end Tabled

/-! ## The invariant -/

/-- The descriptors that do not belong to a client: the listener's, if the port is
open. -/
def Listening (x : Server) (ports : List (Int × Nat)) : Prop :=
  (x.connectsocket < 0 ∧ ports = []) ∨
    (0 ≤ x.connectsocket ∧
      ∃ k, k ∉ x.accepted.map Prod.snd ∧ ports = [(x.connectsocket, k)])

/-- The table holds the clients {lit}`l`: they fill the first slots, each of them
has its own open descriptor, the remaining open descriptor is the listener's, and
the registered poll functions are those of the listener and the receivers. -/
structure Inv (x : Server) (l : List SocketReceiver) : Prop where
  sr_eq : x.sr = SlotTable.table l (x.maxconnections - l.length)
  nconnections_eq : x.nconnections = l.length
  length_le : l.length ≤ x.maxconnections
  max_lt : x.maxconnections < 2 ^ 32
  owner : ∀ y ∈ l, y.hasOwner = true
  range : ∀ y ∈ l, 0 ≤ y.fd ∧ y.fd < 2 ^ 31
  notFreed : ∀ y ∈ l, y.id ∉ x.freed
  freed_lt : ∀ i ∈ x.freed, i < x.os.issued
  accounted : x.os.Accounted
  stray : x.os.stray = []
  live : ∃ ports, x.os.live.Perm (l.map SocketReceiver.entry ++ ports) ∧ x.Listening ports
  mem_accepted : ∀ y ∈ l, y.entry ∈ x.accepted
  accepted_lt : ∀ p ∈ x.accepted, p.2 < x.os.issued
  accepted_fd : ∀ p ∈ x.accepted, ∀ fd, (fd, p.2) ∈ x.os.live → fd = p.1
  polls_nodup : (x.polls.map Prod.fst).Nodup
  mem_polls : ∀ p, p ∈ x.polls ↔
    (p = (x.connectsocket, none) ∧ 0 ≤ x.connectsocket) ∨
      ∃ y ∈ l, y.hasReceiver = true ∧ p = (y.fd, some y)

section Consequences

variable {i : Nat}

/-- A client's descriptor is open. -/
theorem Inv.mem_live (h : x.Inv l) (hy : y ∈ l) : y.entry ∈ x.os.live := by
  rcases h.live with ⟨ports, hperm, _⟩
  exact hperm.mem_iff.2 (List.mem_append_left _ (List.mem_map_of_mem hy))

/-- No two clients have the same descriptor. -/
theorem Inv.fds_nodup (h : x.Inv l) : (l.map SocketReceiver.fd).Nodup := by
  rcases h.live with ⟨ports, hperm, _⟩
  have hnodup := (hperm.map Prod.fst).nodup_iff.1 h.accounted.nodup
  rw [List.map_append, List.map_map] at hnodup
  exact hnodup.of_append_left

/-- No two clients have the same serial. -/
theorem Inv.ids_nodup (h : x.Inv l) : (l.map SocketReceiver.id).Nodup := by
  rcases h.live with ⟨ports, hperm, _⟩
  have hlive := h.accounted.serials_nodup.of_append_left
  have hnodup := (hperm.map Prod.snd).nodup_iff.1 hlive
  rw [List.map_append, List.map_map] at hnodup
  exact hnodup.of_append_left

/-- The clients fill the table. -/
theorem Inv.tabled (h : x.Inv l) : x.Tabled l :=
  ⟨h.sr_eq, h.nconnections_eq, h.length_le, h.max_lt, h.range, h.notFreed, h.fds_nodup,
    h.ids_nodup⟩

/-- The table has as many slots as it may have connections. -/
theorem Inv.length_sr (h : x.Inv l) : x.sr.length = x.maxconnections :=
  h.tabled.length_sr

/-- A slot holds the client with its index. -/
theorem Inv.slot_eq (h : x.Inv l) (i : Nat) : x.slot i = l[i]? :=
  h.tabled.slot_eq i

/-- The clients of the table are those of the list. -/
theorem Inv.clients_eq (h : x.Inv l) : x.clients = l :=
  h.tabled.clients_eq

/-- Accessing the slot of a client is harmless. -/
theorem Inv.touch_eq (h : x.Inv l) (hi : i < l.length) : x.touch i = x :=
  h.tabled.touch_eq hi

/-- The serial of a client has been issued. -/
theorem Inv.id_lt (h : x.Inv l) (hy : y ∈ l) : y.id < x.os.issued :=
  h.accepted_lt _ (h.mem_accepted y hy)

end Consequences

/-! ## Changes that leave the table alone -/

/-- Nothing has changed but the history and the float list, and no index was out of
bounds. -/
def Quiet (x x' : Server) : Prop :=
  ∃ log faults sends floatlist,
    x' = { x with log := log, faults := faults, sends := sends, floatlist := floatlist } ∧
      ∀ i, .outOfBounds i ∈ faults ↔ .outOfBounds i ∈ x.faults

/-- Where nothing happens it is quiet. -/
theorem Quiet.refl (x : Server) : x.Quiet x :=
  ⟨_, _, _, _, rfl, fun _ => Iff.rfl⟩

/-- What is quiet twice is quiet. -/
theorem Quiet.trans {x₁ x₂ x₃ : Server} (h : x₁.Quiet x₂) (h' : x₂.Quiet x₃) :
    x₁.Quiet x₃ := by
  obtain ⟨log, faults, sends, floatlist, rfl, hf⟩ := h
  obtain ⟨log', faults', sends', floatlist', rfl, hf'⟩ := h'
  exact ⟨log', faults', sends', floatlist', rfl, fun i => (hf' i).trans (hf i)⟩

/-- Output leaves the target alone. -/
theorem Quiet.defaulttarget {x' : Server} (hq : x.Quiet x') :
    x'.defaulttarget = x.defaulttarget := by
  obtain ⟨log, faults, sends, floatlist, rfl, _⟩ := hq
  rfl

/-- Output issues no serial. -/
theorem Quiet.issued {x' : Server} (hq : x.Quiet x') : x'.os.issued = x.os.issued := by
  obtain ⟨log, faults, sends, floatlist, rfl, _⟩ := hq
  rfl

/-- Output leaves the table in order. -/
theorem Tabled.quiet {x' : Server} (h : x.Tabled l) (hq : x.Quiet x') : x'.Tabled l := by
  obtain ⟨log, faults, sends, floatlist, rfl, _⟩ := hq
  exact ⟨h.sr_eq, h.nconnections_eq, h.length_le, h.max_lt, h.range, h.notFreed, h.fds_nodup,
    h.ids_nodup⟩

/-- Output keeps the invariant. -/
theorem Inv.quiet {x' : Server} (h : x.Inv l) (hq : x.Quiet x') : x'.Inv l := by
  obtain ⟨log, faults, sends, floatlist, rfl, _⟩ := hq
  exact ⟨h.sr_eq, h.nconnections_eq, h.length_le, h.max_lt, h.owner, h.range, h.notFreed,
    h.freed_lt, h.accounted, h.stray, h.live, h.mem_accepted, h.accepted_lt, h.accepted_fd,
    h.polls_nodup, h.mem_polls⟩

theorem quiet_logged (x : Server) (outputs : List Output) : x.Quiet (x.logged outputs) :=
  ⟨_, _, _, _, rfl, fun _ => Iff.rfl⟩

theorem Tabled.logged (h : x.Tabled l) (outputs : List Output) :
    (x.logged outputs).Tabled l :=
  h.quiet (quiet_logged x outputs)

theorem Inv.logged (h : x.Inv l) (outputs : List Output) : (x.logged outputs).Inv l :=
  h.quiet (quiet_logged x outputs)

/-! ## Erasing an entry -/

/-- Looking at a slot changes nothing but the record of faults. -/
theorem touch_eq_faults (x : Server) (i : Nat) :
    x.touch i = { x with
      faults := x.faults ++ if x.sr.length ≤ i then [.outOfBounds i] else [] } := by
  by_cases hi : i < x.sr.length
  · rw [touch_of_lt hi, if_neg (by omega), List.append_nil]
  · rw [touch_of_ge (by omega), if_pos (by omega)]
    rfl

/-- The indices beyond the table that {lit}`tcpserver_disconnect` uses. -/
def overrun (x : Server) : List Fault :=
  (if x.maxconnections ≤ x.nconnections then [.outOfBounds x.nconnections] else []) ++
    if x.maxconnections ≤ x.nconnections + 1 then [.outOfBounds (x.nconnections + 1)] else []

/-- The server without the client {lit}`y` with index {lit}`i`. -/
def removed (x : Server) (l : List SocketReceiver) (i : Nat) (y : SocketReceiver) : Server :=
  { x with
    sr := SlotTable.table (l.eraseIdx i) (x.maxconnections - (l.eraseIdx i).length)
    nconnections := (l.eraseIdx i).length
    polls := if y.hasReceiver then x.polls.eraseP fun p => p.1 = y.fd else x.polls
    os := x.os.close y.fd
    freed := x.freed ++ [y.id]
    faults := x.faults ++ x.overrun }

/-- The server after {lit}`tcpserver_disconnect`. -/
def dropped (x : Server) (l : List SocketReceiver) (i : Nat) (y : SocketReceiver) : Server :=
  ((x.logged (connectionOutputs y .disconnect)).removed l i y).logged
    (numconnOutputs (l.eraseIdx i).length)

/-- Rearranging a table with one emptied slot. -/
theorem rearrange_eq {i : Nat} (hi : i < l.length)
    (hsr : x.sr = (SlotTable.table l (x.maxconnections - l.length)).set i none)
    (hn : x.nconnections = l.length) (hle : l.length ≤ x.maxconnections)
    (hint : l.length ≤ 2 ^ 31) :
    x.rearrange i =
      { x with
        sr := SlotTable.table (l.eraseIdx i) (x.maxconnections - (l.eraseIdx i).length)
        nconnections := (l.eraseIdx i).length
        faults := x.faults ++ x.overrun } := by
  have herase : (l.eraseIdx i).length = l.length - 1 := List.length_eraseIdx_of_lt hi
  have hlen : x.sr.length = x.maxconnections := by
    rw [hsr, List.length_set, SlotTable.length_table]
    omega
  have hgap : SlotTable.closeGap x.sr i (l.length - i) =
      SlotTable.table (l.eraseIdx i) (x.maxconnections - (l.eraseIdx i).length) := by
    rw [hsr, SlotTable.closeGap_table _ _ hi, herase]
    congr 1
    omega
  have hback : (max i l.length + 1) % 2 ^ 32 = l.length + 1 := by
    rw [Nat.max_eq_right (by omega), Nat.mod_eq_of_lt (by omega)]
  have hdec : (l.length + (2 ^ 32 - 1)) % 2 ^ 32 = (l.eraseIdx i).length := by omega
  have hreads : (l.length - i ≠ 0 ∧ l.length = x.sr.length) ↔
      x.maxconnections ≤ l.length := by omega
  have hloop : i + (l.length - i) = l.length := by omega
  have hclear : (SlotTable.table (l.eraseIdx i)
      (x.maxconnections - (l.eraseIdx i).length)).set (l.length + 1) none =
      SlotTable.table (l.eraseIdx i) (x.maxconnections - (l.eraseIdx i).length) :=
    SlotTable.set_none_of_ge _ _ (by omega)
  rw [rearrange, closeGap_eq x i _ (by omega)]
  simp only [hn, hloop, hreads, hback, hgap, setSlot, touch_eq_faults, hclear, hdec,
    SlotTable.length_table]
  have hlast : (l.eraseIdx i).length + (x.maxconnections - (l.eraseIdx i).length) ≤
      l.length + 1 ↔ x.maxconnections ≤ l.length + 1 := by omega
  simp only [hlast, overrun, hn, List.append_assoc]

/-- Freeing a client and closing the gap that it leaves. -/
theorem free_rearrange_eq {i : Nat} (h : x.Tabled l) (hi : l[i]? = some y) :
    ((x.socketreceiverFree (some y)).setSlot i none).rearrange i = x.removed l i y := by
  rcases List.getElem?_eq_some_iff.1 hi with ⟨hlt, _⟩
  have hy : y ∈ l := List.mem_of_getElem? hi
  have hfree := socketreceiverFree_eq (h.notFreed y hy) (h.range y hy).1
  have hslot : i < (x.socketreceiverFree (some y)).sr.length := by
    have := h.length_le
    have hlen : (x.socketreceiverFree (some y)).sr.length = x.maxconnections := by
      rw [hfree]
      exact h.length_sr
    omega
  rw [setSlot_of_lt hslot, hfree]
  apply (rearrange_eq hlt ?_ ?_ ?_ h.length_le_int).trans
  · rfl
  · exact congrArg (fun t => t.set i none) h.sr_eq
  · exact h.nconnections_eq
  · exact h.length_le

/-- The table in which {lit}`tcpserver_disconnect` has removed a client is the one without its
entry. -/
theorem disconnect_eq {i : Nat} (h : x.Tabled l) (hi : l[i]? = some y) :
    disconnect emit x i = x.dropped l i y := by
  rcases List.getElem?_eq_some_iff.1 hi with ⟨hlt, _⟩
  have hy : y ∈ l := List.mem_of_getElem? hi
  have h₁ := h.logged (connectionOutputs y .disconnect)
  have hinfo : (infoConnection emit x y .disconnect).touch i =
      x.logged (connectionOutputs y .disconnect) := by
    rw [infoConnection_emit (h.notFreed y hy), h₁.touch_eq hlt]
  simp only [disconnect, h.touch_eq hlt, h.slot_eq, hi, hinfo, h₁.slot_eq,
    free_rearrange_eq h₁ hi, numconnout_emit]
  rfl

/-! ## The invariant without an entry -/

section Removing

variable {i : Nat}

/-- A client and the others together are the list again. -/
theorem perm_eraseIdx (hi : l[i]? = some y) : l.Perm (y :: l.eraseIdx i) := by
  rcases List.getElem?_eq_some_iff.1 hi with ⟨hlt, rfl⟩
  exact (List.getElem_cons_eraseIdx_perm hlt).symm

theorem Tabled.ids_ne (h : x.Tabled l) (hi : l[i]? = some y) {z : SocketReceiver}
    (hz : z ∈ l.eraseIdx i) : z.id ≠ y.id := by
  have hnodup := ((perm_eraseIdx hi).map SocketReceiver.id).nodup_iff.1 h.ids_nodup
  rw [List.map_cons, List.nodup_cons] at hnodup
  exact fun heq => hnodup.1 (heq ▸ List.mem_map_of_mem hz)

theorem Tabled.fds_ne (h : x.Tabled l) (hi : l[i]? = some y) {z : SocketReceiver}
    (hz : z ∈ l.eraseIdx i) : z.fd ≠ y.fd := by
  have hnodup := ((perm_eraseIdx hi).map SocketReceiver.fd).nodup_iff.1 h.fds_nodup
  rw [List.map_cons, List.nodup_cons] at hnodup
  exact fun heq => hnodup.1 (heq ▸ List.mem_map_of_mem hz)

/-- The list loses the client that the shift loop overwrites. -/
theorem Tabled.removed (h : x.Tabled l) (hi : l[i]? = some y) :
    (x.removed l i y).Tabled (l.eraseIdx i) := by
  have hsub : (l.eraseIdx i).Sublist l := List.eraseIdx_sublist ..
  constructor
  case sr_eq => rfl
  case nconnections_eq => rfl
  case length_le => exact hsub.length_le.trans h.length_le
  case max_lt => exact h.max_lt
  case range => exact fun z hz => h.range z (hsub.subset hz)
  case notFreed =>
    intro z hz hfreed
    cases List.mem_append.1 hfreed with
    | inl hold => exact h.notFreed z (hsub.subset hz) hold
    | inr hnew => exact h.ids_ne hi hz (by simpa using hnew)
  case fds_nodup => exact h.fds_nodup.sublist (hsub.map _)
  case ids_nodup => exact h.ids_nodup.sublist (hsub.map _)

/-- The list loses the client that is disconnected. -/
theorem Tabled.dropped (h : x.Tabled l) (hi : l[i]? = some y) :
    (x.dropped l i y).Tabled (l.eraseIdx i) :=
  ((h.logged _).removed hi).logged _

/-- The listener's descriptor is not a client's. -/
theorem Inv.connectsocket_ne (h : x.Inv l) (hy : y ∈ l) (hopen : 0 ≤ x.connectsocket) :
    y.fd ≠ x.connectsocket := by
  rcases h.live with ⟨ports, hperm, hports⟩
  have hnodup := (hperm.map Prod.fst).nodup_iff.1 h.accounted.nodup
  rw [List.map_append, List.nodup_append] at hnodup
  cases hports with
  | inl hclosed => omega
  | inr hopened =>
      rcases hopened with ⟨_, k, _, rfl⟩
      intro heq
      have hfd : y.fd ∈ (l.map SocketReceiver.entry).map Prod.fst := by
        rw [List.map_map]
        exact List.mem_map_of_mem (f := Prod.fst ∘ SocketReceiver.entry) hy
      exact hnodup.2.2 _ hfd x.connectsocket (by simp) heq

/-- The poll list loses the receiver of a client that is removed, and nothing else. -/
theorem Inv.mem_polls_removed (h : x.Inv l) (hi : l[i]? = some y)
    (p : Int × Option SocketReceiver) :
    p ∈ (if y.hasReceiver then x.polls.eraseP fun q => q.1 = y.fd else x.polls) ↔
      (p = (x.connectsocket, none) ∧ 0 ≤ x.connectsocket) ∨
        ∃ z ∈ l.eraseIdx i, z.hasReceiver = true ∧ p = (z.fd, some z) := by
  have hy : y ∈ l := List.mem_of_getElem? hi
  have hmem : ∀ z, z ∈ l ↔ z = y ∨ z ∈ l.eraseIdx i := fun z => by
    rw [(perm_eraseIdx hi).mem_iff, List.mem_cons]
  by_cases hrec : y.hasReceiver = true
  · rw [if_pos hrec, mem_eraseP_key h.polls_nodup, h.mem_polls]
    constructor
    · rintro ⟨hlisten | ⟨z, hz, hzr, rfl⟩, hne⟩
      · exact Or.inl hlisten
      · cases (hmem z).1 hz with
        | inl hzy => exact absurd (congrArg SocketReceiver.fd hzy) hne
        | inr hrest => exact Or.inr ⟨z, hrest, hzr, rfl⟩
    · rintro (⟨rfl, hopen⟩ | ⟨z, hz, hzr, rfl⟩)
      · exact ⟨Or.inl ⟨rfl, hopen⟩, fun heq => h.connectsocket_ne hy hopen heq.symm⟩
      · exact ⟨Or.inr ⟨z, (hmem z).2 (Or.inr hz), hzr, rfl⟩, h.tabled.fds_ne hi hz⟩
  · rw [if_neg hrec, h.mem_polls]
    constructor
    · rintro (hlisten | ⟨z, hz, hzr, rfl⟩)
      · exact Or.inl hlisten
      · cases (hmem z).1 hz with
        | inl hzy => exact absurd (hzy ▸ hzr) hrec
        | inr hrest => exact Or.inr ⟨z, hrest, hzr, rfl⟩
    · rintro (hlisten | ⟨z, hz, hzr, rfl⟩)
      · exact Or.inl hlisten
      · exact Or.inr ⟨z, (hmem z).2 (Or.inr hz), hzr, rfl⟩

/-- The whole invariant survives the removal of a client from the table. -/
theorem Inv.removed (h : x.Inv l) (hi : l[i]? = some y) :
    (x.removed l i y).Inv (l.eraseIdx i) := by
  have hy : y ∈ l := List.mem_of_getElem? hi
  have htabled := h.tabled.removed hi
  have hsub : ∀ z ∈ l.eraseIdx i, z ∈ l := fun z hz => List.mem_of_mem_eraseIdx hz
  have hlive := h.mem_live hy
  have hclose : x.os.close y.fd =
      { x.os with live := x.os.live.erase y.entry, closed := x.os.closed ++ [y.id] } :=
    Descriptors.close_of_mem h.accounted.nodup hlive
  constructor
  case sr_eq => exact htabled.sr_eq
  case nconnections_eq => exact htabled.nconnections_eq
  case length_le => exact htabled.length_le
  case max_lt => exact htabled.max_lt
  case owner => exact fun z hz => h.owner z (hsub z hz)
  case range => exact htabled.range
  case notFreed => exact htabled.notFreed
  case freed_lt =>
    intro k hk
    show k < (x.os.close y.fd).issued
    rw [hclose]
    cases List.mem_append.1 hk with
    | inl hold => exact h.freed_lt k hold
    | inr hnew =>
        have hky : k = y.id := by simpa using hnew
        exact hky ▸ h.id_lt hy
  case accounted => exact h.accounted.close hlive
  case stray => exact (Descriptors.stray_close h.accounted.nodup hlive).trans h.stray
  case live =>
    rcases h.live with ⟨ports, hperm, hports⟩
    refine ⟨ports, ?_, hports⟩
    show (x.os.close y.fd).live.Perm _
    rw [hclose]
    have hmap : (l.map SocketReceiver.entry ++ ports).Perm
        (y.entry :: ((l.eraseIdx i).map SocketReceiver.entry ++ ports)) :=
      ((perm_eraseIdx hi).map SocketReceiver.entry).append_right ports
    have herase := (hperm.trans hmap).erase y.entry
    rwa [List.erase_cons_head] at herase
  case mem_accepted => exact fun z hz => h.mem_accepted z (hsub z hz)
  case accepted_lt =>
    intro p hp
    show p.2 < (x.os.close y.fd).issued
    rw [hclose]
    exact h.accepted_lt p hp
  case accepted_fd =>
    intro p hp fd hfd
    change (fd, p.2) ∈ (x.os.close y.fd).live at hfd
    rw [hclose] at hfd
    exact h.accepted_fd p hp fd (List.mem_of_mem_erase hfd)
  case polls_nodup =>
    show ((if y.hasReceiver then x.polls.eraseP fun p => p.1 = y.fd else x.polls).map
      Prod.fst).Nodup
    split
    · exact nodup_eraseP_key h.polls_nodup y.fd
    · exact h.polls_nodup
  case mem_polls => exact h.mem_polls_removed hi

/-- The whole invariant survives {lit}`tcpserver_disconnect`. -/
theorem Inv.dropped (h : x.Inv l) (hi : l[i]? = some y) :
    (x.dropped l i y).Inv (l.eraseIdx i) :=
  ((h.logged _).removed hi).logged _

end Removing

end Server
end Iemnet.TcpServer
