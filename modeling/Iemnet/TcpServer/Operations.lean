import Iemnet.TcpServer.Table

/-!
# The operations on the client table

Exact descriptions of the remaining parts of the server over the list of its
clients: the lookups, the ways an incoming connection can end, the port, and the
capacity; and what each of them does to the invariant.

Main results:

- Theorem {lit}`disconnectSocket_eq`: which entry, if any, is erased for a
  descriptor number.
- Theorems {lit}`Inv.registered`, {lit}`Inv.passing`: a connection is appended, or
  its descriptor is closed at once.
- Theorems {lit}`Inv.closePort`, {lit}`Inv.listening`, {lit}`Inv.resized`.
-/

namespace Iemnet.TcpServer

open Pd Foundations

namespace Server

variable {x : Server} {l : List SocketReceiver} {y : SocketReceiver}

/-! ## Lookups -/

/-- The loop finds the first client with the descriptor behind its start. -/
theorem socket2indexFrom_eq (h : x.Tabled l) (sockfd : Int) (m i : Nat)
    (hm : i + m = l.length) :
    x.socket2indexFrom sockfd m i =
      (x, ((l.drop i).findIdx? fun y => y.fd = sockfd).map (· + i)) := by
  induction m generalizing i with
  | zero =>
      have hdrop : l.drop i = [] := List.drop_eq_nil_of_le (by omega)
      simp [socket2indexFrom, hdrop]
  | succ m ih =>
      have hi : i < l.length := by omega
      have hfree := h.notFreed _ (List.getElem_mem hi)
      have hdrop : l.drop i = l[i] :: l.drop (i + 1) := List.drop_eq_getElem_cons hi
      rw [socket2indexFrom, h.touch_eq hi]
      simp only [h.slot_eq, List.getElem?_eq_getElem hi, access_of_notMem hfree,
        current_of_notMem hfree]
      rw [hdrop, List.findIdx?_cons]
      by_cases hfd : l[i].fd = sockfd
      · simp [hfd]
      · rw [if_neg hfd, ih (i + 1) (by omega)]
        simp [hfd, Option.map_map, Function.comp_def, Nat.add_assoc, Nat.add_comm 1]

/-- The function finds the first client with the descriptor. -/
theorem socket2index_eq (h : x.Tabled l) (sockfd : Int) :
    x.socket2index sockfd = (x, l.findIdx? fun y => y.fd = sockfd) := by
  have hfrom := socket2indexFrom_eq h sockfd l.length 0 (Nat.zero_add _)
  rw [socket2index, h.nconnections_eq, hfrom]
  simp

/-- An index is accepted if it counts a client, from 1 on. -/
theorem fixindex_eq_some {client : Int} {i : Nat} :
    x.fixindex client = some i ↔ client = i + 1 ∧ i < x.nconnections := by
  unfold fixindex
  by_cases hnone : x.nconnections = 0
  · simp [hnone]
  · rw [if_neg hnone]
    by_cases hrange : 0 < client ∧ client ≤ x.nconnections
    · rw [if_neg (not_not.2 hrange), Option.some.injEq]
      omega
    · rw [if_pos hrange]
      simp only [reduceCtorEq, false_iff]
      omega

/-- The index of the client that {lit}`tcpserver_disconnect_socket` drops. -/
def dropIndex (x : Server) (fsocket : FloatArg) : Option Nat :=
  (x.clients.findIdx? fun y => y.fd = fsocket.toInt).bind fun id =>
    x.fixindex (FloatArg.ofInt (id + 1)).toInt

/-- Who is dropped is in the table. -/
theorem dropIndex_lt {fsocket : FloatArg} {i : Nat} (h : x.Tabled l)
    (hi : x.dropIndex fsocket = some i) : i < l.length := by
  rcases Option.bind_eq_some_iff.1 hi with ⟨id, _, hid⟩
  rw [← h.nconnections_eq]
  exact (fixindex_eq_some.1 hid).2

/-- The socketreceiver at the index that has been dropped. -/
theorem disconnectSocket_eq (h : x.Tabled l) (fsocket : FloatArg) :
    disconnectSocket emit x fsocket =
      match x.dropIndex fsocket with
      | none => x
      | some i => disconnect emit x i := by
  rw [disconnectSocket, socket2index_eq h, dropIndex, h.clients_eq]
  cases l.findIdx? fun y => y.fd = fsocket.toInt with
  | none => rfl
  | some id => rfl

/-- A client number and a descriptor that survive as floats lead back to the client. -/
theorem dropIndex_of_fits {i : Nat} (h : x.Tabled l) (hi : l[i]? = some y)
    (hfd : (FloatArg.ofInt y.fd).toInt = y.fd)
    (hnumber : (FloatArg.ofInt ((i : Int) + 1)).toInt = i + 1) :
    x.dropIndex (FloatArg.ofInt y.fd) = some i := by
  have hlt : i < l.length := (List.getElem?_eq_some_iff.1 hi).1
  rw [dropIndex, h.clients_eq, hfd, h.findIdx_fd hi, Option.bind_some, hnumber,
    fixindex_eq_some, h.nconnections_eq]
  exact ⟨rfl, hlt⟩

/-! ## Incoming connections -/

/-- The socketreceiver made for an incoming connection. -/
def newClient (x : Server) (o : Incoming) : SocketReceiver :=
  newSocketreceiver x.abi x.os.issued o x.nconnections

/-- Whether an incoming connection becomes a client. -/
def Admits (x : Server) (o : Incoming) : Prop :=
  0 ≤ o.fd ∧ x.accepting ≠ 0 ∧ x.nconnections < x.maxconnections ∧ o.mem = true

instance (x : Server) (o : Incoming) : Decidable (x.Admits o) :=
  inferInstanceAs (Decidable (_ ∧ _ ∧ _ ∧ _))

/-- The server with a descriptor that was opened and closed again; {lit}`new` says
whether {lit}`accept` returned it. -/
def passed (x : Server) (fd : Int) (new : List (Int × Nat)) : Server :=
  { x with os := (x.os.acquire fd).close fd, accepted := x.accepted ++ new }

/-- The server with one more client. -/
def registered (x : Server) (l : List SocketReceiver) (o : Incoming) : Server :=
  { x with
    sr := SlotTable.table (l ++ [x.newClient o]) (x.maxconnections - (l.length + 1))
    nconnections := l.length + 1
    polls := if o.receiver then x.polls ++ [(o.fd, some (x.newClient o))] else x.polls
    os := x.os.acquire o.fd
    accepted := x.accepted ++ [(o.fd, x.os.issued)] }

/-- A connection that is not admitted has its descriptor closed. -/
theorem register_passed {o : Incoming} (hfd : 0 ≤ o.fd) (hout : ¬ x.Admits o) (id : Nat) :
    ∃ outputs, (∀ o ∈ outputs, o.about = none) ∧
      register emit x id o = (x.closesocket o.fd).logged outputs := by
  unfold register
  by_cases hacc : x.accepting = 0
  · refine ⟨numconnOutputs (x.closesocket o.fd).nconnections, ?_, ?_⟩
    · simp [numconnOutputs, Output.plain]
    · rw [if_pos hacc, numconnout_emit]
  · by_cases hfull : x.maxconnections ≤ x.nconnections
    · refine ⟨[], by simp, ?_⟩
      rw [if_neg hacc, if_pos hfull, logged_nil]
    · have hmem : o.mem ≠ true := fun hm => hout ⟨hfd, hacc, by omega, hm⟩
      refine ⟨[], by simp, ?_⟩
      rw [if_neg hacc, if_neg hfull, socketreceiverNew, if_neg hmem, logged_nil]

/-- Entering a client into a table with room. -/
theorem append_eq {y : SocketReceiver}
    (hsr : x.sr = SlotTable.table l (x.maxconnections - l.length))
    (hn : x.nconnections = l.length) (hroom : l.length < x.maxconnections)
    (hint : l.length ≤ 2 ^ 31) :
    x.append y = { x with
      sr := SlotTable.table (l ++ [y]) (x.maxconnections - (l.length + 1))
      nconnections := l.length + 1 } := by
  have hlen : x.nconnections < x.sr.length := by
    rw [hsr, SlotTable.length_table]
    omega
  have hspare : x.maxconnections - l.length = x.maxconnections - (l.length + 1) + 1 := by
    omega
  have hset : x.sr.set x.nconnections (some y) =
      SlotTable.table (l ++ [y]) (x.maxconnections - (l.length + 1)) := by
    rw [hsr, hn, hspare, SlotTable.set_table_length]
  have hmod : (x.nconnections + 1) % 2 ^ 32 = l.length + 1 := by
    rw [hn]
    exact Nat.mod_eq_of_lt (by omega)
  rw [append, setSlot_of_lt hlen, hset]
  simp only [hmod]

/-- The server after an admitted connection, before its outputs. -/
def admitted (x : Server) (id : Nat) (o : Incoming) : Server :=
  let y := newSocketreceiver x.abi id o x.nconnections
  { x with polls := if o.receiver then x.polls ++ [(o.fd, some y)] else x.polls }.append y

/-- What the registration of an admitted connection does. -/
theorem register_new {o : Incoming} (hin : x.Admits o) (id : Nat) :
    register emit x id o =
      numconnout emit
        (infoConnection emit (x.admitted id o)
          (newSocketreceiver x.abi id o x.nconnections) .illegal)
        (infoConnection emit (x.admitted id o)
          (newSocketreceiver x.abi id o x.nconnections) .illegal).nconnections := by
  rcases hin with ⟨_, hacc, hroom, hmem⟩
  rw [register, if_neg hacc, if_neg (Nat.not_le.2 hroom), socketreceiverNew, if_pos hmem]
  rfl

/-- An admitted connection becomes the last client. -/
theorem register_admitted (h : x.Inv l) {o : Incoming} (hin : x.Admits o)
    (outputs : List Output) :
    register emit ((x.opened o.fd).logged outputs) x.os.issued o =
      ((x.logged outputs).registered l o).logged
        (connectionOutputs (x.newClient o) .illegal ++ numconnOutputs (l.length + 1)) := by
  have hfresh : (x.newClient o).id ∉ ((x.logged outputs).registered l o).freed := fun hmem =>
    Nat.lt_irrefl _ (h.freed_lt _ hmem)
  have hroom : l.length < x.maxconnections := h.nconnections_eq ▸ hin.2.2.1
  have happend : ((x.opened o.fd).logged outputs).admitted x.os.issued o =
      (x.logged outputs).registered l o :=
    append_eq h.sr_eq h.nconnections_eq hroom h.tabled.length_le_int
  have hclient : newSocketreceiver ((x.opened o.fd).logged outputs).abi x.os.issued o
      ((x.opened o.fd).logged outputs).nconnections = x.newClient o := rfl
  have hcount : (((x.logged outputs).registered l o).logged
      (connectionOutputs (x.newClient o) .illegal)).nconnections = l.length + 1 := rfl
  rw [register_new (x := (x.opened o.fd).logged outputs) hin, happend, hclient,
    infoConnection_emit hfresh, numconnout_emit, hcount, logged_logged]

/-! ## The invariant after a connection -/

/-- The serials of the listeners have been issued. -/
theorem Inv.ports_lt (h : x.Inv l) {ports : List (Int × Nat)}
    (hperm : x.os.live.Perm (l.map SocketReceiver.entry ++ ports)) {p : Int × Nat}
    (hp : p ∈ ports) : p.2 < x.os.issued :=
  h.accounted.serial_lt (hperm.mem_iff.2 (List.mem_append_right _ hp))

/-- The listener's descriptor is not among those that {lit}`accept` returns. -/
theorem Listening.accepting {ports : List (Int × Nat)} (hports : x.Listening ports)
    (hlt : ∀ p ∈ ports, p.2 < x.os.issued) {new : List (Int × Nat)}
    (hnew : ∀ p ∈ new, p.2 = x.os.issued) {x' : Server}
    (hsocket : x'.connectsocket = x.connectsocket) (hacc : x'.accepted = x.accepted ++ new) :
    x'.Listening ports := by
  unfold Listening
  rw [hsocket, hacc]
  cases hports with
  | inl hclosed => exact Or.inl hclosed
  | inr hopen =>
      rcases hopen with ⟨hfd, k, hk, rfl⟩
      refine Or.inr ⟨hfd, k, ?_, rfl⟩
      rw [List.map_append, List.mem_append]
      rintro (hold | hin)
      · exact hk hold
      · rcases List.mem_map.1 hin with ⟨p, hp, hpk⟩
        have hklt := hlt (x.connectsocket, k) List.mem_cons_self
        rw [← hpk, hnew p hp] at hklt
        exact Nat.lt_irrefl _ hklt

/-- A descriptor that is closed at once changes nothing. -/
theorem Inv.passing (h : x.Inv l) {fd : Int} (hfresh : fd ∉ x.os.numbers)
    {new : List (Int × Nat)} (hnew : ∀ p ∈ new, p.2 = x.os.issued) :
    (x.passed fd new).Inv l := by
  have hclose := Descriptors.close_acquire h.accounted hfresh
  have hlive : (fd, x.os.issued) ∈ (x.os.acquire fd).live := by simp [Descriptors.acquire]
  constructor
  case sr_eq => exact h.sr_eq
  case nconnections_eq => exact h.nconnections_eq
  case length_le => exact h.length_le
  case max_lt => exact h.max_lt
  case owner => exact h.owner
  case range => exact h.range
  case notFreed => exact h.notFreed
  case freed_lt =>
    intro k hk
    show k < ((x.os.acquire fd).close fd).issued
    rw [hclose]
    exact Nat.lt_succ_of_lt (h.freed_lt k hk)
  case accounted => exact (h.accounted.acquire hfresh).close hlive
  case stray =>
    exact (Descriptors.stray_close (h.accounted.acquire hfresh).nodup hlive).trans h.stray
  case live =>
    rcases h.live with ⟨ports, hperm, hports⟩
    refine ⟨ports, ?_, hports.accepting (fun p => h.ports_lt hperm) hnew rfl rfl⟩
    show ((x.os.acquire fd).close fd).live.Perm _
    rw [hclose]
    exact hperm
  case mem_accepted => exact fun y hy => List.mem_append_left _ (h.mem_accepted y hy)
  case accepted_lt =>
    intro p hp
    show p.2 < ((x.os.acquire fd).close fd).issued
    rw [hclose]
    cases List.mem_append.1 hp with
    | inl hold => exact Nat.lt_succ_of_lt (h.accepted_lt p hold)
    | inr hin => exact hnew p hin ▸ Nat.lt_succ_self _
  case accepted_fd =>
    intro p hp fd' hfd'
    change (fd', p.2) ∈ ((x.os.acquire fd).close fd).live at hfd'
    rw [hclose] at hfd'
    cases List.mem_append.1 hp with
    | inl hold => exact h.accepted_fd p hold fd' hfd'
    | inr hin =>
        have hlt := h.accounted.serial_lt hfd'
        rw [hnew p hin] at hlt
        exact absurd hlt (Nat.lt_irrefl _)
  case polls_nodup => exact h.polls_nodup
  case mem_polls => exact h.mem_polls

/-- The descriptor of a client is open. -/
theorem Inv.fd_mem_numbers (h : x.Inv l) (hy : y ∈ l) : y.fd ∈ x.os.numbers :=
  List.mem_map_of_mem (f := Prod.fst) (h.mem_live hy)

/-- The descriptor of the listener is open. -/
theorem Inv.connectsocket_mem_numbers (h : x.Inv l) (hopen : 0 ≤ x.connectsocket) :
    x.connectsocket ∈ x.os.numbers := by
  rcases h.live with ⟨ports, hperm, hports⟩
  cases hports with
  | inl hclosed => omega
  | inr hopened =>
      rcases hopened with ⟨_, k, _, rfl⟩
      have hmem : (x.connectsocket, k) ∈ x.os.live :=
        hperm.mem_iff.2 (List.mem_append_right _ List.mem_cons_self)
      exact List.mem_map_of_mem (f := Prod.fst) hmem

/-- Only open descriptors are registered for polling. -/
theorem Inv.polls_subset (h : x.Inv l) {p : Int × Option SocketReceiver} (hp : p ∈ x.polls) :
    p.1 ∈ x.os.numbers := by
  rcases (h.mem_polls p).1 hp with ⟨rfl, hopen⟩ | ⟨y, hy, _, rfl⟩
  · exact h.connectsocket_mem_numbers hopen
  · exact h.fd_mem_numbers hy

/-- A fresh descriptor is not polled yet. -/
theorem Inv.polls_append (h : x.Inv l) {fd : Int} (hfresh : fd ∉ x.os.numbers)
    (f : Option SocketReceiver) : ((x.polls ++ [(fd, f)]).map Prod.fst).Nodup := by
  rw [List.map_append]
  apply List.nodup_append.2
  refine ⟨h.polls_nodup, by simp, ?_⟩
  intro a ha b hb hab
  rcases List.mem_map.1 ha with ⟨p, hp, rfl⟩
  have hbfd : b = fd := by simpa using hb
  exact hfresh (hbfd ▸ hab ▸ h.polls_subset hp)

/-- The invariant with one more client. -/
theorem Inv.registered (h : x.Inv l) {o : Incoming} (hin : x.Admits o)
    (hrange : o.fd < 2 ^ 31) (hfresh : o.fd ∉ x.os.numbers) :
    (x.registered l o).Inv (l ++ [x.newClient o]) := by
  have hroom : l.length < x.maxconnections := h.nconnections_eq ▸ hin.2.2.1
  have hcases : ∀ z ∈ l ++ [x.newClient o], z ∈ l ∨ z = x.newClient o := fun z hz => by
    simpa using hz
  constructor
  case sr_eq =>
    show SlotTable.table _ _ = SlotTable.table _ _
    rw [List.length_append, List.length_singleton]
    rfl
  case nconnections_eq => simp [Server.registered]
  case length_le =>
    rw [List.length_append, List.length_singleton]
    exact hroom
  case max_lt => exact h.max_lt
  case owner =>
    intro z hz
    cases hcases z hz with
    | inl hold => exact h.owner z hold
    | inr hnew => rw [hnew]; rfl
  case range =>
    intro z hz
    cases hcases z hz with
    | inl hold => exact h.range z hold
    | inr hnew => rw [hnew]; exact ⟨hin.1, hrange⟩
  case notFreed =>
    intro z hz hfreed
    cases hcases z hz with
    | inl hold => exact h.notFreed z hold hfreed
    | inr hnew =>
        rw [hnew] at hfreed
        exact Nat.lt_irrefl _ (h.freed_lt _ hfreed)
  case freed_lt => exact fun k hk => Nat.lt_succ_of_lt (h.freed_lt k hk)
  case accounted => exact h.accounted.acquire hfresh
  case stray => exact h.stray
  case live =>
    rcases h.live with ⟨ports, hperm, hports⟩
    refine ⟨ports, ?_, hports.accepting (fun p => h.ports_lt hperm)
      (show ∀ p ∈ [(o.fd, x.os.issued)], p.2 = x.os.issued by simp) rfl rfl⟩
    show (x.os.live ++ [(o.fd, x.os.issued)]).Perm _
    rw [List.map_append, List.append_assoc]
    have hmoved : (l.map SocketReceiver.entry ++ ports ++ [(o.fd, x.os.issued)]).Perm
        (l.map SocketReceiver.entry ++ ([(x.newClient o).entry] ++ ports)) := by
      rw [List.append_assoc]
      exact List.Perm.append_left _ List.perm_append_comm
    exact (hperm.append_right _).trans hmoved
  case mem_accepted =>
    intro z hz
    cases hcases z hz with
    | inl hold => exact List.mem_append_left _ (h.mem_accepted z hold)
    | inr hnew => rw [hnew]; exact List.mem_append_right _ List.mem_cons_self
  case accepted_lt =>
    intro p hp
    cases List.mem_append.1 hp with
    | inl hold => exact Nat.lt_succ_of_lt (h.accepted_lt p hold)
    | inr hnew =>
        have hpn : p = (o.fd, x.os.issued) := by simpa using hnew
        rw [hpn]
        exact Nat.lt_succ_self _
  case accepted_fd =>
    intro p hp fd hfd
    have hsplit : (fd, p.2) ∈ x.os.live ∨ (fd, p.2) = (o.fd, x.os.issued) := by
      simpa [Server.registered, Descriptors.acquire] using hfd
    cases List.mem_append.1 hp with
    | inl hold =>
        cases hsplit with
        | inl hlive => exact h.accepted_fd p hold fd hlive
        | inr heq =>
            have hlt := h.accepted_lt p hold
            rw [(Prod.mk.inj heq).2] at hlt
            exact absurd hlt (Nat.lt_irrefl _)
    | inr hnew =>
        have hpn : p = (o.fd, x.os.issued) := by simpa using hnew
        cases hsplit with
        | inl hlive =>
            have hlt := h.accounted.serial_lt hlive
            rw [hpn] at hlt
            exact absurd hlt (Nat.lt_irrefl _)
        | inr heq => rw [hpn, (Prod.mk.inj heq).1]
  case polls_nodup =>
    show ((if o.receiver then x.polls ++ [(o.fd, some (x.newClient o))] else x.polls).map
      Prod.fst).Nodup
    split
    · exact h.polls_append hfresh _
    · exact h.polls_nodup
  case mem_polls =>
    intro p
    show p ∈ (if o.receiver then x.polls ++ [(o.fd, some (x.newClient o))] else x.polls) ↔ _
    by_cases hrec : o.receiver = true
    · rw [if_pos hrec, List.mem_append, h.mem_polls]
      simp only [List.mem_append, List.mem_singleton]
      constructor
      · rintro ((hlisten | ⟨z, hz, hzr, rfl⟩) | rfl)
        · exact Or.inl hlisten
        · exact Or.inr ⟨z, Or.inl hz, hzr, rfl⟩
        · exact Or.inr ⟨x.newClient o, Or.inr rfl, hrec, rfl⟩
      · rintro (hlisten | ⟨z, hz | rfl, hzr, rfl⟩)
        · exact Or.inl (Or.inl hlisten)
        · exact Or.inl (Or.inr ⟨z, hz, hzr, rfl⟩)
        · exact Or.inr rfl
    · rw [if_neg hrec, h.mem_polls]
      constructor
      · rintro (hlisten | ⟨z, hz, hzr, rfl⟩)
        · exact Or.inl hlisten
        · exact Or.inr ⟨z, List.mem_append_left _ hz, hzr, rfl⟩
      · rintro (hlisten | ⟨z, hz, hzr, rfl⟩)
        · exact Or.inl hlisten
        · cases hcases z hz with
          | inl hold => exact Or.inr ⟨z, hold, hzr, rfl⟩
          | inr hnew =>
              rw [hnew] at hzr
              exact absurd hzr hrec

/-! ## The port and the capacity -/

/-- The server without its listener. -/
def unbound (x : Server) : Server :=
  { x with
    polls := x.polls.eraseP fun q => q.1 = x.connectsocket
    os := x.os.close x.connectsocket
    connectsocket := -1
    port := -1 }

/-- Closing the port unbinds it, if there is one. -/
theorem closePort_eq (x : Server) :
    x.closePort x.connectsocket = if 0 ≤ x.connectsocket then x.unbound else x := by
  unfold Server.closePort
  by_cases hopen : 0 ≤ x.connectsocket
  · rw [if_pos hopen, if_pos hopen, closesocket, if_pos hopen]
    rfl
  · rw [if_neg hopen, if_neg hopen]

/-- Closing the port. -/
theorem Inv.closePort (h : x.Inv l) : (x.closePort x.connectsocket).Inv l := by
  have hneg : ¬ (0 : Int) ≤ -1 := by decide
  rw [closePort_eq]
  by_cases hopen : 0 ≤ x.connectsocket
  · rw [if_pos hopen]
    rcases h.live with ⟨ports, hperm, hports⟩
    cases hports with
    | inl hclosed => omega
    | inr hopened =>
        rcases hopened with ⟨_, k, hk, rfl⟩
        have hlive : (x.connectsocket, k) ∈ x.os.live :=
          hperm.mem_iff.2 (List.mem_append_right _ List.mem_cons_self)
        have hclose := Descriptors.close_of_mem h.accounted.nodup hlive
        constructor
        case sr_eq => exact h.sr_eq
        case nconnections_eq => exact h.nconnections_eq
        case length_le => exact h.length_le
        case max_lt => exact h.max_lt
        case owner => exact h.owner
        case range => exact h.range
        case notFreed => exact h.notFreed
        case freed_lt =>
          show ∀ i ∈ x.freed, i < (x.os.close x.connectsocket).issued
          rw [hclose]
          exact h.freed_lt
        case accounted => exact h.accounted.close hlive
        case stray => exact (Descriptors.stray_close h.accounted.nodup hlive).trans h.stray
        case live =>
          refine ⟨[], ?_, Or.inl ⟨Int.not_le.1 hneg, rfl⟩⟩
          show (x.os.close x.connectsocket).live.Perm _
          rw [hclose, List.append_nil]
          have herase := (hperm.trans List.perm_append_comm).erase (x.connectsocket, k)
          rwa [List.singleton_append, List.erase_cons_head] at herase
        case mem_accepted => exact h.mem_accepted
        case accepted_lt =>
          show ∀ p ∈ x.accepted, p.2 < (x.os.close x.connectsocket).issued
          rw [hclose]
          exact h.accepted_lt
        case accepted_fd =>
          show ∀ p ∈ x.accepted, ∀ fd, (fd, p.2) ∈ (x.os.close x.connectsocket).live → _
          rw [hclose]
          exact fun p hp fd hfd => h.accepted_fd p hp fd (List.mem_of_mem_erase hfd)
        case polls_nodup => exact nodup_eraseP_key h.polls_nodup x.connectsocket
        case mem_polls =>
          intro p
          show p ∈ x.polls.eraseP (fun q => q.1 = x.connectsocket) ↔ _
          rw [mem_eraseP_key h.polls_nodup, h.mem_polls]
          constructor
          · rintro ⟨⟨rfl, _⟩ | hclient, hne⟩
            · exact absurd rfl hne
            · exact Or.inr hclient
          · rintro (⟨_, hfalse⟩ | ⟨z, hz, hzr, rfl⟩)
            · exact absurd hfalse hneg
            · exact ⟨Or.inr ⟨z, hz, hzr, rfl⟩, h.connectsocket_ne hz hopen⟩
  · rw [if_neg hopen]
    exact h

/-- Closing the port leaves the target and the serials alone. -/
theorem closePort_frame (x : Server) (fd : Int) :
    (x.closePort fd).defaulttarget = x.defaulttarget ∧
      (x.closePort fd).os.issued = x.os.issued := by
  unfold Server.closePort
  by_cases hfd : 0 ≤ fd
  · rw [if_pos hfd, closesocket, if_pos hfd]
    exact ⟨rfl, Descriptors.issued_close _ _⟩
  · rw [if_neg hfd]
    exact ⟨rfl, rfl⟩

/-- No serial is taken back. -/
theorem passed_issued (x : Server) (fd : Int) (new : List (Int × Nat)) :
    x.os.issued ≤ (x.passed fd new).os.issued := by
  show x.os.issued ≤ ((x.os.acquire fd).close fd).issued
  rw [Descriptors.issued_close]
  exact Nat.le_succ _

/-- A closed port has no descriptor. -/
theorem closePort_connectsocket (x : Server) :
    (x.closePort x.connectsocket).connectsocket < 0 := by
  rw [closePort_eq]
  split
  · show (-1 : Int) < 0
    decide
  · omega

/-- The server listening on a new descriptor. -/
def listening (x : Server) (fd : Int) (port : Int) : Server :=
  { x with
    os := x.os.acquire fd
    polls := x.polls ++ [(fd, none)]
    connectsocket := fd
    port := port }

/-- A closed port is opened. -/
theorem Inv.listening (h : x.Inv l) (hclosed : x.connectsocket < 0) {fd : Int}
    (hfd : 0 ≤ fd) (hfresh : fd ∉ x.os.numbers) (port : Int) :
    (x.listening fd port).Inv l := by
  constructor
  case sr_eq => exact h.sr_eq
  case nconnections_eq => exact h.nconnections_eq
  case length_le => exact h.length_le
  case max_lt => exact h.max_lt
  case owner => exact h.owner
  case range => exact h.range
  case notFreed => exact h.notFreed
  case freed_lt => exact fun k hk => Nat.lt_succ_of_lt (h.freed_lt k hk)
  case accounted => exact h.accounted.acquire hfresh
  case stray => exact h.stray
  case live =>
    rcases h.live with ⟨ports, hperm, hports⟩
    cases hports with
    | inr hopened => omega
    | inl hclosed =>
        refine ⟨[(fd, x.os.issued)], ?_, Or.inr ⟨hfd, x.os.issued, ?_, rfl⟩⟩
        · have hnone := hperm.append_right [(fd, x.os.issued)]
          rw [hclosed.2, List.append_nil] at hnone
          exact hnone
        · intro hold
          rcases List.mem_map.1 hold with ⟨p, hp, hpk⟩
          exact Nat.lt_irrefl _ (hpk ▸ h.accepted_lt p hp)
  case mem_accepted => exact h.mem_accepted
  case accepted_lt => exact fun p hp => Nat.lt_succ_of_lt (h.accepted_lt p hp)
  case accepted_fd =>
    intro p hp fd' hfd'
    have hsplit : (fd', p.2) ∈ x.os.live ∨ (fd', p.2) = (fd, x.os.issued) := by
      simpa [Server.listening, Descriptors.acquire] using hfd'
    cases hsplit with
    | inl hlive => exact h.accepted_fd p hp fd' hlive
    | inr heq =>
        have hlt := h.accepted_lt p hp
        rw [(Prod.mk.inj heq).2] at hlt
        exact absurd hlt (Nat.lt_irrefl _)
  case polls_nodup => exact h.polls_append hfresh none
  case mem_polls =>
    intro p
    show p ∈ x.polls ++ [(fd, none)] ↔ (p = (fd, none) ∧ 0 ≤ fd) ∨ _
    rw [List.mem_append, h.mem_polls, List.mem_singleton]
    constructor
    · rintro ((⟨_, hopen⟩ | hclient) | rfl)
      · omega
      · exact Or.inr hclient
      · exact Or.inl ⟨rfl, hfd⟩
    · rintro (⟨rfl, _⟩ | hclient)
      · exact Or.inr rfl
      · exact Or.inl (Or.inr hclient)

/-- The capacity is changed. -/
theorem Inv.resized (h : x.Inv l) {n : Nat} (hle : l.length ≤ n) (hlt : n < 2 ^ 32) :
    { x with sr := SlotTable.resize x.sr n, maxconnections := n }.Inv l := by
  have hsr : SlotTable.resize x.sr n = SlotTable.table l (n - l.length) := by
    rw [h.sr_eq, SlotTable.resize_table _ _ hle]
  exact ⟨hsr, h.nconnections_eq, hle, hlt, h.owner, h.range, h.notFreed,
    h.freed_lt, h.accounted, h.stray, h.live, h.mem_accepted, h.accepted_lt, h.accepted_fd,
    h.polls_nodup, h.mem_polls⟩

end Server
end Iemnet.TcpServer
