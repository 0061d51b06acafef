import Iemnet.Receive.Connections
import Iemnet.Receive.UdpReceive
import Iemnet.TcpServer.Effects

/-!
# Ports

{lit}`tcpserver`, {lit}`tcpreceive` and {lit}`udpreceive` each have their own copy of the
code that closes the old port and opens a new one.  Whatever becomes of the calls on the
way, the stored socket, the stored port, the kernel and the poll functions agree.

Main results:

- Structure {lit}`PortInStep`: what the agreement says.
- Theorem {lit}`ports_in_step`: the three objects in every reachable state; the listener is
  called for its own socket only, and a closed object can be opened.
-/

namespace Iemnet

open Pd Foundations

/-- The socket {lit}`socket` is the only one of {lit}`listeners`, which are open; what has
been closed was open and has been closed once, and an object without a socket has no
port. -/
structure PortInStep (os : Descriptors) (listeners : List Int) (socket port : Int) : Prop where
  listeners : listeners = (stored socket).toList
  once : ∀ k, os.closed.count k ≤ 1
  stray : os.stray = []
  closed : socket < 0 → socket = -1 ∧ port = -1

/-! ## The TCP server -/

namespace TcpServer.Server

variable {x x' : Server} {l : List SocketReceiver} {env : Env} {a : Input}

/-- The open descriptors that {lit}`accept` has not returned. -/
def listeners (x : Server) : List Int :=
  (x.os.live.filter fun p => p.2 ∉ x.accepted.map Prod.snd).map Prod.fst

/-- The descriptors on which the listener is called. -/
def polledListeners (x : Server) : List Int :=
  (x.polls.filter fun p => p.2.isNone).map Prod.fst

/-- The open listener is the one that is stored. -/
theorem Inv.listeners_eq (h : x.Inv l) : x.listeners = (stored x.connectsocket).toList := by
  rcases h.live with ⟨ports, hperm, hports⟩
  have hclients : ((l.map SocketReceiver.entry).filter
      fun p => p.2 ∉ x.accepted.map Prod.snd) = [] := by
    rw [List.filter_eq_nil_iff]
    intro p hp
    rcases List.mem_map.1 hp with ⟨y, hy, rfl⟩
    have hmem : y.entry.2 ∈ x.accepted.map Prod.snd := List.mem_map_of_mem (h.mem_accepted y hy)
    simp only [hmem, not_true_eq_false, decide_false, Bool.false_eq_true, not_false_eq_true]
  have hlisteners : ((ports.filter fun p => p.2 ∉ x.accepted.map Prod.snd).map Prod.fst) =
      (stored x.connectsocket).toList := by
    rcases hports with ⟨hclosed, rfl⟩ | ⟨hopen, k, hk, rfl⟩
    · rw [stored_of_neg hclosed]
      rfl
    · rw [stored_of_nonneg hopen, List.filter_cons_of_pos (by simpa using hk)]
      rfl
  have hfilter := (hperm.filter fun p => p.2 ∉ x.accepted.map Prod.snd).map Prod.fst
  rw [List.filter_append, hclients, List.nil_append, hlisteners] at hfilter
  exact Cells.eq_toList_of_perm hfilter

/-- The polled listener is the one that is stored. -/
theorem Inv.polledListeners_eq (h : x.Inv l) :
    x.polledListeners = (stored x.connectsocket).toList := by
  have hnodup : (x.polls.filter fun p => p.2.isNone).Nodup := (h.polls_nodup.of_map _).filter _
  have hother : ((stored x.connectsocket).toList.map
      fun fd => (fd, (none : Option SocketReceiver))).Nodup := by
    unfold stored
    split <;> simp
  have hperm : (x.polls.filter fun p => p.2.isNone).Perm
      ((stored x.connectsocket).toList.map fun fd => (fd, none)) := by
    rw [List.perm_ext_iff_of_nodup hnodup hother]
    intro p
    rw [List.mem_filter, h.mem_polls]
    constructor
    · rintro ⟨⟨rfl, hopen⟩ | ⟨y, -, -, rfl⟩, hnone⟩
      · rw [stored_of_nonneg hopen]
        simp
      · cases hnone
    · intro hp
      rcases List.mem_map.1 hp with ⟨fd, hfd, rfl⟩
      by_cases hopen : 0 ≤ x.connectsocket
      · rw [stored_of_nonneg hopen] at hfd
        exact ⟨Or.inl ⟨by rw [List.mem_singleton.1 hfd], hopen⟩, rfl⟩
      · rw [stored_of_neg (Int.not_le.1 hopen)] at hfd
        cases hfd
  have hkeys := hperm.map Prod.fst
  have hid : (Prod.fst ∘ fun fd : Int => (fd, (none : Option SocketReceiver))) = id := rfl
  rw [List.map_map, hid, List.map_id] at hkeys
  exact Cells.eq_toList_of_perm hkeys

/-- A server without a socket has no port. -/
def Portless (x : Server) : Prop :=
  x.connectsocket < 0 → x.connectsocket = -1 ∧ x.port = -1

/-- A closed port is unknown. -/
theorem Portless.closePort (h : x.Portless) :
    (x.closePort x.connectsocket).connectsocket = -1 ∧
      (x.closePort x.connectsocket).port = -1 := by
  unfold Server.closePort
  split
  · exact ⟨rfl, rfl⟩
  · exact h (Int.not_le.1 ‹_›)

/-- Every effect keeps it. -/
theorem Portless.effect (h : x.Inv l) (hp : x.Portless) (he : Effect x l env a x') :
    x'.Portless := by
  have hlogged : ∀ outputs, (x.logged outputs).Portless := fun _ => hp
  cases he with
  | settled serialize accepting port defaulttarget floatlist faults outputs _ _ _ _ hport =>
      intro hclosed
      exact ⟨(hp hclosed).1, (hport hclosed).trans (hp hclosed).2⟩
  | resized n => exact hp
  | unbound before => exact fun _ => (hlogged before).closePort
  | failed fd before after => exact fun _ => (hlogged before).closePort
  | bound fd port before after _ _ _ hfresh =>
      intro hclosed
      exact absurd hfresh.1 (Int.not_le.2 hclosed)
  | refused fd o outputs => exact hp
  | registered fd o => exact hp
  | dropped i y => exact hp
  | droppedAll =>
      rcases disconnectAllFrom_induct (P := fun x _ => x.Portless) (2 ^ 32) 0 h hp
        (fun _ _ _ _ _ hp _ => hp) with ⟨_, _, hall⟩
      exact hall
  | offered =>
      have hretargeted : (x.retargeted a).Portless := by
        rcases retargeted_eq x a with ⟨sockfd, heq⟩
        rw [heq]
        exact hp
      rcases offers_induct (P := fun x _ => x.Portless) env (chunkCreateList env.mem a.atoms)
        (x.recipients a) (h.retargeted a) hretargeted
        (fun x x₁ l _ hp hq => by
          rcases hq with ⟨_, _, _, _, rfl, _⟩
          exact hp)
        (fun _ _ _ _ _ _ hp _ _ _ => hp) with ⟨_, _, hall⟩
      exact hall

/-- In every state a port is known only with a listener. -/
theorem reach_portless (h : tcpserverMachine.Reachable x) : x.Portless := by
  apply h.invariant (I := Portless)
  · rintro x ⟨abi, env, f, o, ho, rfl⟩
    have hblank : (blank abi env).Portless := fun _ => ⟨rfl, rfl⟩
    exact hblank.effect (inv_blank abi env) (new_effect abi f ho)
  · rintro x a x' hreach hp - hs
    rcases reach_inv hreach with ⟨l, hl⟩
    exact hp.effect hl (step_effect hl hs)

/-- A closed server can be opened. -/
theorem Portless.opens (h : x.Portless) {f : FloatArg} {fd : Int} (hclosed : x.connectsocket = -1)
    (hf : f.toInt ≠ -1) (hs : x.step emit env (.port f ⟨some fd, true, true⟩) = some x') :
    x'.connectsocket = fd := by
  have hport : x.port ≠ f.toInt := by
    rw [(h (by rw [hclosed]; decide)).2]
    exact hf.symm
  simp only [step, Option.ite_none_right_eq_some, Option.some.injEq] at hs
  rcases hs with ⟨-, rfl⟩
  have hlogged : (x.logged (eventOutputs .serverInfo)).port = x.port := rfl
  simp only [setPort, infoEvent_emit, hlogged, if_neg hport, not_true_eq_false, if_false]
  rcases announce_emit ((x.logged (eventOutputs .serverInfo)).closePort x.connectsocket
    |>.listening fd (((x.logged (eventOutputs .serverInfo)).closePort
      x.connectsocket).usedPort env f.toInt)) env.address with ⟨outputs, -, heq⟩
  exact congrArg Server.connectsocket heq

end TcpServer.Server

/-! ## The TCP receiver -/

namespace TcpReceive

variable {x x' : TcpReceive} {env : Env}

/-- The open descriptors that {lit}`accept` has not returned. -/
def listeners (x : TcpReceive) : List Int :=
  (x.os.live.filter fun p => p.2 ∉ x.accepted).map Prod.fst

/-- The descriptors on which the listener is called. -/
def polledListeners (x : TcpReceive) : List Int :=
  (x.polls.filter fun p => p.2.isNone).map Prod.fst

theorem Inv.listeners_eq {listener : Option Int} (h : x.Inv listener) :
    x.listeners = listener.toList := by
  have hserials : (x.os.live.filter fun p => p.2 ∉ x.accepted) =
      x.os.live.filter fun p => p.1 ∉ x.sockets := by
    apply List.filter_congr
    intro p hp
    rw [decide_eq_decide, h.accepted_iff p hp]
  have hnumbers : x.listeners = x.os.numbers.filter fun fd => fd ∉ x.sockets := by
    rw [listeners, hserials, Descriptors.numbers, List.filter_map]
    rfl
  have hsockets : (x.sockets.filter fun fd => fd ∉ x.sockets) = [] := by
    rw [List.filter_eq_nil_iff]
    intro fd hfd
    simp [hfd]
  have hlistener : (listener.toList.filter fun fd => fd ∉ x.sockets) = listener.toList := by
    rw [List.filter_eq_self]
    intro fd hfd
    rw [decide_eq_true_eq]
    exact fun hmem => (List.nodup_append.1 h.numbers_nodup).2.2 fd hmem fd hfd rfl
  have hfilter := h.numbers.filter fun fd => fd ∉ x.sockets
  rw [List.filter_append, hsockets, hlistener, List.nil_append, ← hnumbers] at hfilter
  exact Cells.eq_toList_of_perm hfilter

theorem Inv.polledListeners_eq {listener : Option Int} (h : x.Inv listener) :
    x.polledListeners = listener.toList := by
  have hslots : (x.slotPolls.filter fun p => p.2.isNone) = [] := by
    rw [List.filter_eq_nil_iff]
    intro p hp
    rcases List.mem_filterMap.1 hp with ⟨c, -, hc⟩
    rcases Option.map_eq_some_iff.1 hc with ⟨r, -, rfl⟩
    exact Bool.false_ne_true
  have hlistener : ((listenerPolls listener).filter fun p => p.2.isNone).map Prod.fst =
      listener.toList := by
    cases listener with
    | none => rfl
    | some fd => rfl
  have hfilter := (h.polls.filter fun p => p.2.isNone).map Prod.fst
  rw [List.filter_append, hslots, List.nil_append, hlistener] at hfilter
  exact Cells.eq_toList_of_perm hfilter

/-- A closed object can be opened. -/
theorem Kept.opens (h : x.Kept) {f : FloatArg} {fd : Int} (hclosed : x.connectsocket = -1)
    (hf : f.toInt ≠ -1) (hs : x.step env (.port f ⟨some fd, true, true⟩) = some x') :
    x'.connectsocket = fd := by
  have hport : x.port ≠ f.toInt := by
    rw [(h.closed (by rw [hclosed]; decide)).2]
    exact hf.symm
  simp only [TcpReceive.step, Option.ite_none_right_eq_some, Option.some.injEq] at hs
  rcases hs with ⟨-, rfl⟩
  simp only [TcpReceive.setPort, if_neg hport, not_true_eq_false, if_false]
  rfl

end TcpReceive

/-! ## The UDP receiver -/

namespace UdpReceive

variable {x x' : UdpReceive} {env : Env}

/-- The socket is polled, unless there was no memory for its receiver. -/
theorem Kept.polls_eq (h : x.Kept) (hheard : x.unheard = 0) :
    x.res.polls.map Prod.fst = (stored x.fd).toList := by
  rw [h.holding.polls, List.map_map]
  cases hreceiver : x.receiver with
  | none =>
      by_cases hopen : 0 ≤ x.fd
      · exact absurd hreceiver (h.heard hheard hopen)
      · rw [stored_of_neg (Int.not_le.1 hopen)]
        rfl
  | some w =>
      rw [h.holding.receiver_on w hreceiver]
      rfl

/-- A closed object can be opened. -/
theorem Kept.opens (h : x.Kept) {a : Atom} {fd : Int} (hclosed : x.fd = -1)
    (ha : a.type = .float) (hs : x.step env (.port [a] ⟨some fd, true⟩) = some x') :
    x'.fd = fd := by
  have hport : ∀ portno : BitVec 16, x.port ≠ portno.toNat := by
    intro portno heq
    rw [(h.closed (by rw [hclosed]; decide)).2] at heq
    omega
  simp only [UdpReceive.step, Option.ite_none_right_eq_some, Option.some.injEq] at hs
  rcases hs with ⟨-, rfl⟩
  simp only [UdpReceive.portMessage, ha, ne_eq, not_true_eq_false, if_false, UdpReceive.setport,
    if_neg (hport _)]
  rfl

end UdpReceive

open TcpServer in
/-- In every reachable state of the three objects the stored socket, the stored port, the
open sockets and the polled ones agree; nothing is closed twice.  The listener is only ever
called for the stored socket, and a closed object is opened by a message that names a port,
if the calls succeed. -/
theorem ports_in_step :
    (∀ x : Server, tcpserverMachine.Reachable x →
      PortInStep x.os x.listeners x.connectsocket x.port ∧
        x.polledListeners = (stored x.connectsocket).toList ∧
        (∀ env fd o x', tcpserverMachine.step x (env, .incoming fd o) = some x' →
          fd = x.connectsocket) ∧
        ∀ env f fd x', x.connectsocket = -1 → f.toInt ≠ -1 →
          tcpserverMachine.step x (env, .port f ⟨some fd, true, true⟩) = some x' →
          x'.connectsocket = fd) ∧
    (∀ x : TcpReceive, tcpreceiveMachine.Reach (fun _ a => TcpReceive.Admits a) x →
      PortInStep x.os x.listeners x.connectsocket x.port ∧
        x.polledListeners = (stored x.connectsocket).toList ∧
        (∀ env fd o x', tcpreceiveMachine.step x (env, .incoming fd o) = some x' →
          fd = x.connectsocket) ∧
        ∀ env f fd x', x.connectsocket = -1 → f.toInt ≠ -1 →
          tcpreceiveMachine.step x (env, .port f ⟨some fd, true, true⟩) = some x' →
          x'.connectsocket = fd) ∧
    ∀ x : UdpReceive, udpreceiveMachine.Reachable x →
      PortInStep x.res.os x.res.os.numbers x.fd x.port ∧
        (x.unheard = 0 → x.res.polls.map Prod.fst = (stored x.fd).toList) ∧
        (x.fd < 0 → x.receiver = none ∧ x.res.polls = []) ∧
        ∀ env a fd x', x.fd = -1 → a.type = .float →
          udpreceiveMachine.step x (env, .port [a] ⟨some fd, true⟩) = some x' → x'.fd = fd := by
  refine ⟨fun x hx => ?_, fun x hx => ?_, fun x hx => ?_⟩
  · rcases Server.reach_inv hx with ⟨l, hl⟩
    have hportless := Server.reach_portless hx
    refine ⟨⟨hl.listeners_eq, hl.accounted.count_closed_le, hl.stray, hportless⟩,
      hl.polledListeners_eq, fun env fd o x' hs => ?_,
      fun env f fd x' hclosed hf hs => hportless.opens hclosed hf hs⟩
    simp only [tcpserverMachine, Server.step, Option.ite_none_right_eq_some] at hs
    exact hl.of_pollfn_none hs.1.1
  · have hkept := TcpReceive.reach_kept hx
    refine ⟨⟨hkept.inv.listeners_eq, hkept.inv.accounted.count_closed_le, hkept.inv.stray,
        hkept.closed⟩, hkept.inv.polledListeners_eq, fun env fd o x' hs => ?_,
      fun env f fd x' hclosed hf hs => hkept.opens hclosed hf hs⟩
    simp only [tcpreceiveMachine, TcpReceive.step, Option.ite_none_right_eq_some] at hs
    exact hkept.incoming_fd hs.1.1
  · have hkept := udpreceive_kept hx
    refine ⟨⟨hkept.holding.os.numbers, hkept.holding.os.accounted.count_closed_le,
        hkept.holding.os.stray, hkept.closed⟩, hkept.polls_eq, fun hneg => ?_,
      fun env a fd x' hclosed ha hs => hkept.opens hclosed ha hs⟩
    rcases hkept.nothing hneg with ⟨hholding, hreceiver⟩
    exact ⟨hreceiver, hholding.polls⟩

/-- Memory for the receiver and for chunks, and no answer from {lit}`getsockname`. -/
def plainUdpEnv : UdpReceive.Env where
  receiver := true
  mem := true
  raw _ := setFloat 0
  sockname := none

/-- A new object that listens with descriptor 3. -/
def listeningUdp : UdpReceive :=
  .new ⟨true, 64⟩ plainUdpEnv ⟨3000, 0#32⟩ ⟨some 3, true⟩

/-- The listening object is a start. -/
theorem init_listeningUdp : udpreceiveMachine.init listeningUdp := by
  refine ⟨_, _, _, _, ?_, rfl⟩
  intro fd hfd
  have hthree : fd = 3 := (Option.some.inj hfd).symm
  subst hthree
  decide +kernel

/-- The new port is bound but cannot be listened to; the old one is asked for again. -/
def listensAgain : List (TcpReceive.Env × TcpReceive.Input) :=
  [(plainReceiveEnv, .port ⟨4000, 0#32⟩ ⟨some 3, true, false⟩),
    (plainReceiveEnv, .port ⟨3000, 0#32⟩ ⟨some 3, true, true⟩)]

open TcpServer in
/-- A port that cannot be opened closes the three objects; the next message opens them. -/
theorem ports_in_step_run :
    (∃ x, tcpserverMachine.run Server.started
        [(Server.plainEnv [], .port ⟨4000, 0#32⟩ ⟨some 3, false, true⟩),
          (Server.plainEnv [], .port ⟨3000, 0#32⟩ ⟨some 3, true, true⟩)] = some x ∧
      x.os.closed = [0, 1] ∧ PortInStep x.os x.listeners x.connectsocket x.port) ∧
    (∃ x, tcpreceiveMachine.run listeningReceiver listensAgain = some x ∧
      x.os.closed = [0, 1] ∧ PortInStep x.os x.listeners x.connectsocket x.port) ∧
    ∃ x, udpreceiveMachine.run listeningUdp
        [(plainUdpEnv, .port [setFloat 4000] ⟨none, true⟩),
          (plainUdpEnv, .port [setFloat 3000] ⟨some 3, true⟩)] = some x ∧
      x.res.os.closed = [0] ∧ x.res.polls.map Prod.fst = [3] ∧
        PortInStep x.res.os x.res.os.numbers x.fd x.port := by
  have hserver : tcpserverMachine.run Server.started
      [(Server.plainEnv [], .port ⟨4000, 0#32⟩ ⟨some 3, false, true⟩),
        (Server.plainEnv [], .port ⟨3000, 0#32⟩ ⟨some 3, true, true⟩)] = some _ := rfl
  have htcp : tcpreceiveMachine.run listeningReceiver listensAgain = some _ := rfl
  have hudp : udpreceiveMachine.run listeningUdp
      [(plainUdpEnv, .port [setFloat 4000] ⟨none, true⟩),
        (plainUdpEnv, .port [setFloat 3000] ⟨some 3, true⟩)] = some _ := rfl
  have hadmits : tcpreceiveMachine.RunMeets (fun _ a => TcpReceive.Admits a) listeningReceiver
      listensAgain := by
    apply Machine.runMeets_of_forall
    simp [listensAgain, TcpReceive.Admits]
  have hone := ports_in_step.1 _ (Machine.reach_of_run Server.init_started hserver)
  have htwo := ports_in_step.2.1 _ (Machine.Reach.run (.start init_listeningReceiver) hadmits htcp)
  have hthree := ports_in_step.2.2 _ (Machine.reach_of_run init_listeningUdp hudp)
  exact ⟨⟨_, hserver, by decide +kernel, hone.1⟩, ⟨_, htcp, by decide +kernel, htwo.1⟩,
    ⟨_, hudp, by decide +kernel, hthree.2.1 (by decide +kernel), hthree.1⟩⟩

end Iemnet
