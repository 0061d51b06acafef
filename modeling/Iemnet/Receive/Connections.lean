import Iemnet.Receive.Slots

/-!
# Connections of the TCP receiver

Whatever connects, sends, leaves or is asked for, in any order and with descriptors that
the kernel uses again: the slots, the counter, the receivers and the kernel agree, and a
receiver whose connection ends frees its own slot.

Main results:

- Theorem {lit}`Kept.step`: every input keeps the invariant.
- Theorem {lit}`slots_agree`: the table in every reachable state, what the end of a
  connection and a new connection do to it, and what is left at the end.
-/

namespace Iemnet

open Pd Foundations

namespace TcpReceive

/-- A connection that {lit}`accept` returns has a peer with a port, and there is memory
for its receiver. -/
def Admits (a : Env × Input) : Prop :=
  match a.2 with
  | .incoming _ o => 0 ≤ o.fd → o.source.port ≠ 0 ∧ a.1.receiver = true
  | _ => True

variable {x x' : TcpReceive} {env : Env} {i : Nat} {fd : Int} {c : TcpConnection}
  {listener : Option Int}

/-! ## Polling -/

/-- The poll function that is called has been added. -/
theorem pollfn_mem {p : Option (Item Watch)} (h : x.pollfn fd = some p) : (fd, p) ∈ x.polls := by
  rcases Option.map_eq_some_iff.1 h with ⟨q, hq, rfl⟩
  have hkey : q.1 = fd := by simpa using List.find?_some hq
  rw [← hkey]
  exact List.mem_of_find?_eq_some hq

/-- The listener is polled on the listening socket only. -/
theorem Inv.pollfn_listener (h : x.Inv listener) (hpoll : x.pollfn fd = some none) :
    listener = some fd := by
  rcases List.mem_append.1 (h.polls.mem_iff.1 (pollfn_mem hpoll)) with hslot | hlistener
  · rcases List.mem_filterMap.1 hslot with ⟨c, -, hc⟩
    rcases Option.map_eq_some_iff.1 hc with ⟨r, -, hr⟩
    cases hr
  · rcases List.mem_map.1 hlistener with ⟨a, ha, heq⟩
    cases heq
    exact Option.mem_toList.1 ha

/-- The descriptor of a slot in use is polled for its receiver. -/
theorem Inv.pollfn_slot {r : Item Watch} (h : x.Inv listener) (hi : x.connection[i]? = some c)
    (hr : c.receiver = some r) (hbase : r.base = ⟨c.socket, i⟩) :
    x.pollfn c.socket = some (some r) := by
  have hpoll : c.poll = some (c.socket, some r) := by
    rw [TcpConnection.poll, hr, Option.map_some, hbase]
  have hmem : (c.socket, some r) ∈ x.polls :=
    h.polls.mem_iff.2 (List.mem_append_left _
      (List.mem_filterMap.2 ⟨c, List.mem_of_getElem? hi, hpoll⟩))
  have hsome : (x.polls.find? fun p => p.1 = c.socket).isSome :=
    List.find?_isSome.2 ⟨_, hmem, decide_eq_true rfl⟩
  rcases Option.isSome_iff_exists.1 hsome with ⟨q, hq⟩
  have hkey : q.1 = c.socket := by simpa using List.find?_some hq
  have hsame := List.inj_on_of_nodup_map h.polls_nodup (List.mem_of_find?_eq_some hq) hmem hkey
  rw [pollfn, hq, hsame]
  rfl

/-! ## Steps -/

/-- Disconnecting keeps the table in order. -/
theorem Kept.disconnect (h : x.Kept) (id : Nat) : (x.disconnect id).Kept := by
  have hport : (x.disconnect id).connectsocket = x.connectsocket ∧
      (x.disconnect id).port = x.port := by
    cases hid : x.connection[id]? with
    | none =>
        rw [disconnect_of_none hid]
        exact ⟨rfl, rfl⟩
    | some c =>
        rcases h.inv.slots id c hid with hused | hunused
        · rcases hused.receiver with ⟨r, hr, -⟩
          rw [disconnect_of_used hid hused hr]
          exact ⟨rfl, rfl⟩
        · rw [disconnect_of_unused hid hunused]
          exact ⟨rfl, rfl⟩
  constructor
  · rw [hport.1]
    exact h.inv.disconnect id
  · rw [hport.1, hport.2]
    exact h.closed

/-- Receiving keeps the table in order. -/
theorem Kept.readCallback (h : x.Kept) (slot : Nat) (data : Option Chunk) :
    (x.readCallback env slot data).Kept := by
  unfold TcpReceive.readCallback
  split
  · exact h
  · split
    · exact h
    · split
      · exact h
      · split
        · exact h.same (sameTable_deliver _ _ _)
        · exact h.disconnect _

/-- A new connection keeps the table in order. -/
theorem Kept.connectpoll {o : Incoming} (h : x.Kept) (hfresh : x.FreshFd o.fd)
    (hok : o.source.port ≠ 0 ∧ env.receiver = true) :
    (x.connectpoll env x.connectsocket o).Kept := by
  cases hi : x.findSocket (-1) with
  | some i =>
      rw [connectpoll_of_free hfresh.1 hok.2 hi]
      have hentered : (x.entered i o).Kept :=
        ⟨h.inv.entered hfresh (x.abi.ntohs_ne_zero hok.1) hi, h.closed⟩
      exact hentered.same ((sameTable_numconnout _ _).trans (sameTable_addrout _ _ _))
  | none =>
      rw [connectpoll_of_full hfresh.1 hi]
      exact ⟨h.inv.passed hfresh (by simp), h.closed⟩

/-- Who is called for an incoming connection is the listener, on the stored socket. -/
theorem Kept.incoming_fd (h : x.Kept) (hpoll : x.pollfn fd = some none) :
    fd = x.connectsocket := by
  have hstored := h.inv.pollfn_listener hpoll
  by_cases hopen : 0 ≤ x.connectsocket
  · rw [stored_of_nonneg hopen] at hstored
    exact (Option.some.inj hstored).symm
  · rw [stored_of_neg (Int.not_le.1 hopen)] at hstored
    cases hstored

/-- Every input keeps the invariant. -/
theorem Kept.step {a : Input} (h : x.Kept) (hok : Admits (env, a))
    (hs : x.step env a = some x') : x'.Kept := by
  cases a with
  | incoming fd o =>
      simp only [TcpReceive.step] at hs
      split at hs
      · rename_i hcall
        cases hs
        have hfd := h.incoming_fd hcall.1
        subst hfd
        by_cases ho : 0 ≤ o.fd
        · exact h.connectpoll (hcall.2.resolve_left (Int.not_lt.2 ho)) (hok ho)
        · rw [connectpoll_of_failed (Int.not_le.1 ho)]
          exact h
      · cases hs
  | readable fd r =>
      simp only [TcpReceive.step] at hs
      split at hs
      · split at hs
        · cases hs
          exact h.readCallback _ _
        · cases hs
      · cases hs
  | port fportno o =>
      simp only [TcpReceive.step] at hs
      split at hs
      · cases hs
        exact h.setPort ‹_›
      · cases hs
  | serialize doit =>
      cases hs
      exact h.same ⟨rfl, rfl, rfl, rfl, rfl, rfl, rfl, rfl⟩

/-- The table of a new object is in order. -/
theorem kept_blank (abi : Abi) (env : Env) : (blank abi env).Kept := by
  have hunused : ∀ c ∈ (blank abi env).connection, c.Unused := by
    intro c hc
    rw [List.eq_of_mem_replicate hc]
    exact ⟨rfl, rfl, rfl, rfl⟩
  have hsockets : (blank abi env).sockets = [] :=
    List.filterMap_eq_nil_iff.2 fun c hc => (hunused c hc).shown
  have hslots : (blank abi env).slotPolls = [] :=
    List.filterMap_eq_nil_iff.2 fun c hc => (hunused c hc).poll
  have hreceivers : (blank abi env).connection.filterMap TcpConnection.receiver = [] :=
    List.filterMap_eq_nil_iff.2 fun c hc => (hunused c hc).receiver
  refine ⟨?_, fun _ => ⟨rfl, rfl⟩⟩
  constructor
  · exact List.length_replicate
  · intro i c hi
    exact Or.inr (hunused c (List.mem_of_getElem? hi))
  · rw [hsockets]
    rfl
  · exact Descriptors.accounted_empty
  · rfl
  · rw [hsockets]
    exact List.Perm.refl _
  · intro p hp
    cases hp
  · intro k hk
    cases hk
  · exact Foundations.Pool.accounted_empty
  · rw [hreceivers]
    exact List.Perm.refl _
  · rfl
  · rw [hslots]
    exact List.Perm.refl _

/-- The invariant holds in every reachable state. -/
theorem reach_kept (h : tcpreceiveMachine.Reach (fun _ a => Admits a) x) : x.Kept := by
  apply h.invariant (I := Kept)
  · rintro x ⟨abi, env, f, o, ho, rfl⟩
    exact (kept_blank abi env).setPort ho
  · intro x a x' _ hkept hok hs
    exact hkept.step hok hs

/-! ## The end -/

/-- Deleting the object closes everything. -/
theorem Kept.free (h : x.Kept) : x.free.Inv none ∧ x.free.sockets = [] := by
  have hinv := h.inv
  unfold TcpReceive.free
  dsimp only
  split
  case isTrue hopen =>
    rw [stored_of_nonneg hopen] at hinv
    have hclosed := hinv.unlistened hopen
    have hsame := sameTable_floatlist
      ((x.rmpollfn x.connectsocket).closesocket x.connectsocket).disconnectAll none
    exact ⟨hclosed.disconnectAll.same hsame, hsame.sockets.trans hclosed.disconnectAll_sockets⟩
  case isFalse hopen =>
    rw [stored_of_neg (Int.not_le.1 hopen)] at hinv
    have hsame := sameTable_floatlist x.disconnectAll none
    exact ⟨hinv.disconnectAll.same hsame, hsame.sockets.trans hinv.disconnectAll_sockets⟩

/-- What was opened is closed once the object is deleted, once. -/
theorem Kept.free_closed (h : x.Kept) {k : Nat} (hk : k < x.free.os.issued) :
    x.free.os.closed.count k = 1 := by
  rcases h.free with ⟨hinv, hsockets⟩
  have hnumbers := hinv.numbers
  rw [hsockets] at hnumbers
  rcases hinv.accounted.open_or_closed hk with ⟨⟨fd, hfd⟩, -⟩ | ⟨-, hone⟩
  · have hmem : fd ∈ x.free.os.numbers := List.mem_map_of_mem (f := Prod.fst) hfd
    cases hnumbers.mem_iff.1 hmem
  · exact hone

/-- Disconnecting accepts nobody. -/
theorem disconnect_accepted (x : TcpReceive) (id : Nat) :
    (x.disconnect id).accepted = x.accepted := by
  have hdestroy : ∀ r : Option (Item Watch), (x.receiverDestroy r).accepted = x.accepted := by
    intro r
    cases r with
    | none => rfl
    | some r => rfl
  have hclose : ∀ (y : TcpReceive) (fd : Int), (y.closesocket fd).accepted = y.accepted := by
    intro y fd
    unfold TcpReceive.closesocket
    split <;> rfl
  unfold TcpReceive.disconnect
  split
  · rfl
  · split
    · rfl
    · exact (hclose _ _).trans (hdestroy _)

/-- Disconnecting many accepts nobody. -/
theorem disconnectFrom_accepted (x : TcpReceive) (m i : Nat) :
    (x.disconnectFrom m i).accepted = x.accepted := by
  induction m generalizing x i with
  | zero => rfl
  | succ m ih => exact (ih _ _).trans (x.disconnect_accepted i)

/-- Deleting the object accepts nobody. -/
theorem free_accepted (x : TcpReceive) : x.free.accepted = x.accepted := by
  unfold TcpReceive.free
  dsimp only
  split
  · have hclose : ((x.rmpollfn x.connectsocket).closesocket x.connectsocket).accepted =
        x.accepted := by
      unfold TcpReceive.closesocket
      split <;> rfl
    exact (disconnectFrom_accepted _ _ _).trans hclose
  · exact disconnectFrom_accepted _ _ _

/-! ## The table -/

/-- The slots, the counter, the receivers and the kernel agree. -/
structure Agrees (x : TcpReceive) : Prop where
  nconnections : x.nconnections = x.connection.countP fun c => c.socket ≠ -1
  distinct : ∀ (i j : Nat) (c d : TcpConnection), x.connection[i]? = some c →
    x.connection[j]? = some d → c.socket ≠ -1 → c.socket = d.socket → i = j
  used : ∀ (i : Nat) (c : TcpConnection), x.connection[i]? = some c → c.socket ≠ -1 →
    c.port ≠ 0 ∧ ∃ r ∈ x.receivers.live, c.receiver = some r ∧ r.base = ⟨c.socket, i⟩
  unused : ∀ c ∈ x.connection, c.socket = -1 → c.addr = 0 ∧ c.port = 0 ∧ c.receiver = none
  accepted : ∀ k ∈ x.accepted,
    (k ∈ x.os.live.map Prod.snd ∧ x.os.closed.count k = 0) ∨
      (k ∉ x.os.live.map Prod.snd ∧ x.os.closed.count k = 1)
  stray : x.os.stray = [] ∧ x.receivers.stray = []

/-- A table in order agrees with the numbers that are put out. -/
theorem Inv.agrees (h : x.Inv listener) : x.Agrees := by
  constructor
  · rw [h.nconnections, sockets, List.length_filterMap_eq_countP]
    apply List.countP_congr
    intro c hc
    rcases List.getElem?_of_mem hc with ⟨i, hi⟩
    rcases h.slots i c hi with hused | hunused
    · simp [hused.shown, (h.used_iff hi).1 hused]
    · simp [hunused.shown, hunused.socket]
  · intro i j c d hi hj hsocket heq
    have hc := ((h.used_iff hi).2 hsocket).shown
    rw [heq] at hsocket hc
    exact Cells.shown_unique h.sockets_nodup hi hc hj ((h.used_iff hj).2 hsocket).shown
  · intro i c hi hsocket
    have hused := (h.used_iff hi).2 hsocket
    rcases hused.receiver with ⟨r, hr, hbase⟩
    have hlive : r ∈ x.connection.filterMap TcpConnection.receiver :=
      List.mem_filterMap.2 ⟨c, List.mem_of_getElem? hi, hr⟩
    exact ⟨hused.port, r, h.receivers_live.mem_iff.2 hlive, hr, hbase⟩
  · intro c hc hsocket
    rcases List.getElem?_of_mem hc with ⟨i, hi⟩
    have hunused := (h.unused_iff hi).2 hsocket
    exact ⟨hunused.addr, hunused.port, hunused.receiver⟩
  · intro k hk
    rcases h.accounted.open_or_closed (h.accepted_lt k hk) with ⟨⟨fd, hfd⟩, hzero⟩ | ⟨hgone, hone⟩
    · exact Or.inl ⟨List.mem_map_of_mem hfd, hzero⟩
    · refine Or.inr ⟨fun hmem => ?_, hone⟩
      rcases List.mem_map.1 hmem with ⟨⟨fd, n⟩, hp, rfl⟩
      exact hgone fd hp
  · exact ⟨h.stray, h.receivers_stray⟩

/-- The end of a connection frees its slot and nothing else. -/
theorem Kept.ends (h : x.Kept) {r : Recvfrom} (hi : x.connection[i]? = some c)
    (hsocket : c.socket ≠ -1) (hr : r.Possible .stream)
    (hend : pollfun x.abi env.mem r = none) :
    x.findSocket c.socket = some i ∧
      ∃ x', x.step env (.readable c.socket r) = some x' ∧
        x'.connection = x.connection.set i c.vacated := by
  have hused := (h.inv.used_iff hi).2 hsocket
  have hfind := h.inv.findSocket hi hused
  rcases hused.receiver with ⟨w, hw, hbase⟩
  have hpoll := h.inv.pollfn_slot hi hw hbase
  have hcall : x.readCallback env i none = x.disconnect i := by
    simp [TcpReceive.readCallback, hi, hused.owner, hfind]
  refine ⟨hfind, x.disconnect i, ?_, ?_⟩
  · simp only [TcpReceive.step, hpoll, if_pos hr, hend, hbase, hcall]
  · rw [disconnect_of_used hi hused hw, (sameTable_numconnout _ _).connection]
    rfl

/-- A new connection is entered in a free slot, or all slots are in use and it is
closed. -/
theorem Kept.begins {o : Incoming} (h : x.Kept) (hok : Admits (env, .incoming fd o))
    (ho : 0 ≤ o.fd) (hs : x.step env (.incoming fd o) = some x') :
    (∃ i c, x.connection[i]? = some c ∧ c.socket = -1 ∧
        x'.connection = x.connection.set i (x.newConnection i o) ∧
        (o.fd, x.os.issued) ∈ x'.os.live) ∨
      ((∀ c ∈ x.connection, c.socket ≠ -1) ∧ x'.connection = x.connection ∧
        (∀ fd, (fd, x.os.issued) ∉ x'.os.live) ∧ x'.os.closed.count x.os.issued = 1) := by
  simp only [TcpReceive.step] at hs
  split at hs
  · rename_i hcall
    cases hs
    have hfd := h.incoming_fd hcall.1
    have hfresh := hcall.2.resolve_left (Int.not_lt.2 ho)
    subst hfd
    cases hi : x.findSocket (-1) with
    | some i =>
        left
        rcases h.inv.findSocket_free hi with ⟨c, hc, hunused⟩
        rw [connectpoll_of_free ho (hok ho).2 hi]
        refine ⟨i, c, hc, hunused.socket, rfl, ?_⟩
        show (o.fd, x.os.issued) ∈ (x.os.acquire o.fd).live
        simp [Descriptors.acquire]
    | none =>
        right
        have hall := h.inv.findSocket_none.1 hi
        have hpassed : (x.passed o.fd [x.os.issued]).Inv (stored x.connectsocket) :=
          h.inv.passed hfresh (by simp)
        have hclosed := Descriptors.close_acquire h.inv.accounted hfresh.2.2
        have hissued : x.os.issued < (x.passed o.fd [x.os.issued]).os.issued := by
          show x.os.issued < ((x.os.acquire o.fd).close o.fd).issued
          rw [hclosed]
          exact Nat.lt_succ_self _
        have hgone : ∀ fd, (fd, x.os.issued) ∉ (x.passed o.fd [x.os.issued]).os.live := by
          intro fd hlive
          have hold : (fd, x.os.issued) ∈ ((x.os.acquire o.fd).close o.fd).live := hlive
          rw [hclosed] at hold
          exact Nat.lt_irrefl _ (h.inv.accounted.serial_lt hold)
        rw [connectpoll_of_full ho hi]
        refine ⟨fun c hc => ?_, rfl, hgone, ?_⟩
        · rcases List.getElem?_of_mem hc with ⟨i, hi⟩
          exact (h.inv.used_iff hi).1 (hall i c hi)
        · rcases hpassed.accounted.open_or_closed hissued with ⟨⟨fd, hfd⟩, -⟩ | ⟨-, hone⟩
          · exact absurd hfd (hgone fd)
          · exact hone
  · cases hs

end TcpReceive

/-- In every reachable state the slots, the counter, the receivers and the kernel agree;
the end of a connection frees its slot, the one that is found by its descriptor, and leaves
the others as they are; a connection is closed at once only when all slots are in use;
{lit}`tcpreceive_disconnect_all` leaves every slot free, and when the object is deleted
every descriptor it has accepted has been closed exactly once. -/
theorem slots_agree {x : TcpReceive}
    (h : tcpreceiveMachine.Reach (fun _ a => TcpReceive.Admits a) x) :
    x.Agrees ∧
      (∀ env i c r, x.connection[i]? = some c → c.socket ≠ -1 → r.Possible .stream →
        pollfun x.abi env.mem r = none →
        x.findSocket c.socket = some i ∧
          ∃ x', x.step env (.readable c.socket r) = some x' ∧
            x'.connection = x.connection.set i c.vacated) ∧
      (∀ env fd o x', TcpReceive.Admits (env, .incoming fd o) → 0 ≤ o.fd →
        x.step env (.incoming fd o) = some x' →
        (∃ i c, x.connection[i]? = some c ∧ c.socket = -1 ∧
            x'.connection = x.connection.set i (x.newConnection i o) ∧
            (o.fd, x.os.issued) ∈ x'.os.live) ∨
          ((∀ c ∈ x.connection, c.socket ≠ -1) ∧ x'.connection = x.connection ∧
            (∀ fd, (fd, x.os.issued) ∉ x'.os.live) ∧ x'.os.closed.count x.os.issued = 1)) ∧
      (x.disconnectAll.nconnections = 0 ∧ ∀ c ∈ x.disconnectAll.connection, c.Unused) ∧
      x.free.os.stray = [] ∧ ∀ k ∈ x.accepted, x.free.os.closed.count k = 1 := by
  have hkept := TcpReceive.reach_kept h
  rcases hkept.free with ⟨hfree, -⟩
  refine ⟨hkept.inv.agrees, fun env i c r hi hsocket hr hend => hkept.ends hi hsocket hr hend,
    fun env fd o x' hok ho hs => hkept.begins hok ho hs, ⟨?_, fun c hc => ?_⟩, hfree.stray, ?_⟩
  · rw [hkept.inv.disconnectAll.nconnections, hkept.inv.disconnectAll_sockets]
    rfl
  · rcases List.getElem?_of_mem hc with ⟨i, hi⟩
    exact hkept.inv.disconnectAll_unused hi
  · intro k hk
    apply hkept.free_closed
    apply hfree.accepted_lt
    rw [x.free_accepted]
    exact hk

/-- Memory for receivers and chunks, and no answer from {lit}`getsockname`. -/
def plainReceiveEnv : TcpReceive.Env where
  receiver := true
  mem := true
  raw _ := setFloat 0
  sockname := none

/-- A new object that listens with descriptor 3. -/
def listeningReceiver : TcpReceive :=
  .new ⟨true, 64⟩ plainReceiveEnv ⟨3000, 0#32⟩ ⟨some 3, true, true⟩

/-- A connection from the local host. -/
def sender (fd : Int) : TcpReceive.Incoming :=
  ⟨fd, ⟨afInet, 0x0100007f#32, 0x3930#16⟩⟩

/-- Two connections, of which the first ends; its number is used again, and the port
changes. -/
def senderLeaves : List (TcpReceive.Env × TcpReceive.Input) :=
  [(plainReceiveEnv, .incoming 3 (sender 5)), (plainReceiveEnv, .incoming 3 (sender 6)),
    (plainReceiveEnv, .readable 5 (.endOfStream ⟨afInet, 0#32, 0#16⟩)),
    (plainReceiveEnv, .incoming 3 (sender 5)),
    (plainReceiveEnv, .port ⟨4000, 0#32⟩ ⟨some 3, true, true⟩)]

/-- The listening object is a start. -/
theorem init_listeningReceiver : tcpreceiveMachine.init listeningReceiver := by
  refine ⟨_, _, _, _, ?_, rfl⟩
  intro fd hfd
  have hthree : fd = 3 := (Option.some.inj hfd).symm
  subst hthree
  decide +kernel

/-- Every input of the run is admitted. -/
theorem admits_senderLeaves :
    tcpreceiveMachine.RunMeets (fun _ a => TcpReceive.Admits a) listeningReceiver
      senderLeaves := by
  apply Machine.runMeets_of_forall
  simp [senderLeaves, TcpReceive.Admits, sender, plainReceiveEnv]

/-- Of three senders one leaves; the deletion closes all the others once. -/
theorem slots_agree_run :
    ∃ x, tcpreceiveMachine.run listeningReceiver senderLeaves = some x ∧ x.nconnections = 2 ∧
      x.accepted = [1, 2, 3] ∧ x.os.closed = [1, 0] ∧ x.Agrees ∧
        ∀ k ∈ x.accepted, x.free.os.closed.count k = 1 := by
  have hrun : tcpreceiveMachine.run listeningReceiver senderLeaves = some _ := rfl
  have hreach := Machine.Reach.run (.start init_listeningReceiver) admits_senderLeaves hrun
  rcases slots_agree hreach with ⟨hagrees, -, -, -, -, hclosed⟩
  exact ⟨_, hrun, by decide +kernel, by decide +kernel, by decide +kernel, hagrees, hclosed⟩

end Iemnet
