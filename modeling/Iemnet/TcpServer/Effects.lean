import Iemnet.TcpServer.Handlers

/-!
# What one input does to the TCP server

Every input has one of ten effects on the server.  Everything that is proved about
all runs looks at the effects only.

Main results:

- Theorem {lit}`step_effect`: the effect of each input.
- Theorem {lit}`Effect.inv`: every effect keeps the invariant of the table, so it
  holds in every reachable state ({lit}`reach_inv`).
-/

namespace Iemnet.TcpServer

open Pd Foundations

/-- The atoms that an input sends. -/
def Input.atoms : Input → List Atom
  | .broadcast argv => argv
  | .defaultsend argv => argv
  | .sendClient argv => argv.tail
  | .sendSocket argv => argv.tail
  | _ => []

/-- Whether an input is about dropping one client. -/
def Input.Disconnects : Input → Prop
  | .received _ none => True
  | .disconnectClient _ => True
  | .disconnectSocket _ => True
  | _ => False

/-- Whether an input offers a chunk to clients. -/
def Input.Sends : Input → Prop
  | .broadcast _ => True
  | .defaultsend _ => True
  | .sendClient _ => True
  | .sendSocket _ => True
  | _ => False

/-- Whether an input sets the default target. -/
def Input.Targets : Input → Prop
  | .defaulttarget _ => True
  | .targetsocket _ => True
  | _ => False

/-- Who disconnects does not connect. -/
theorem Input.Disconnects.not_incoming {a : Input} (h : a.Disconnects) :
    ∀ fd o, a = .incoming fd o → o.fd < 0 := by
  rintro fd o rfl
  exact h.elim

namespace Server

variable {x x' : Server} {l : List SocketReceiver} {y : SocketReceiver} {env : Env}
  {a : Input}

/-- Every message about a client carries its current number or the one it was given
when it connected. -/
def Named (l : List SocketReceiver) (outputs : List Output) : Prop :=
  ∀ o ∈ outputs, ∀ id, o.about = some id →
    ∃ i y, l[i]? = some y ∧ y.id = id ∧
      (o.argv.head? = some (clientNumber i) ∨ o.argv.head? = some (clientNumber y.client))

/-- No message is about a client. -/
def Anonymous (outputs : List Output) : Prop :=
  ∀ o ∈ outputs, o.about = none

/-- The clients that an input drops from the table as it stands, each with the index
it is dropped under: for a failed send that is the index found for the descriptor,
whoever sits there. -/
def drops (x : Server) (env : Env) : Input → List (SocketReceiver × Nat)
  | .received fd none =>
      match x.pollfn fd with
      | some (some y) => (x.dropIndex (FloatArg.ofInt y.fd)).elim [] x.only
      | _ => []
  | .disconnectClient f => (x.fixindex f.toInt).elim [] x.only
  | .disconnectSocket f => (x.dropIndex f).elim [] x.only
  | .disconnectAll => x.everyone
  | a => (x.recipients a).filterMap fun p => (x.dropFor env p.1).map fun i => (p.1, i)

/-- The input neither drops a client nor accepts a connection. -/
def Still (x : Server) (env : Env) (a : Input) : Prop :=
  x.drops env a = [] ∧ ∀ fd o, a = .incoming fd o → o.fd < 0

/-- The default target after an input has been read. -/
def retargeted (x : Server) : Input → Server
  | .defaultsend _ => { x with defaulttarget := x.settledTarget }
  | _ => x

/-- What an input can do to a server that holds the clients {lit}`l`. -/
inductive Effect (x : Server) (l : List SocketReceiver) (env : Env) (a : Input) :
    Server → Prop
  /-- Settings and messages. -/
  | settled (serialize accepting port defaulttarget floatlist faults outputs)
      (hstill : x.Still env a) (hfaults : ∀ f ∈ faults, f = Fault.nullList)
      (houtputs : Named l outputs)
      (htarget : ¬ a.Targets → defaulttarget = x.defaulttarget)
      (hport : x.connectsocket < 0 → port = x.port) :
      Effect x l env a ({ x with
        serialize := serialize
        accepting := accepting
        port := port
        defaulttarget := defaulttarget
        floatlist := floatlist
        faults := x.faults ++ faults }.logged outputs)
  | resized (n : Nat) (hstill : x.Still env a) (hle : l.length ≤ n) (hlt : n < 2 ^ 32) :
      Effect x l env a { x with sr := SlotTable.resize x.sr n, maxconnections := n }
  /-- The port is closed, and no socket is opened. -/
  | unbound (before : List Output) (hstill : x.Still env a) (hbefore : Anonymous before) :
      Effect x l env a ((x.logged before).closePort x.connectsocket)
  /-- The port is closed, and the new socket is closed again. -/
  | failed (fd : Int) (before after : List Output) (hstill : x.Still env a)
      (hbefore : Anonymous before) (hafter : Anonymous after)
      (hfresh : FreshFd (x.closePort x.connectsocket) fd) :
      Effect x l env a
        ((((x.logged before).closePort x.connectsocket).passed fd []).logged after)
  | bound (fd port : Int) (before after : List Output) (hstill : x.Still env a)
      (hbefore : Anonymous before) (hafter : Anonymous after)
      (hfresh : FreshFd (x.closePort x.connectsocket) fd) :
      Effect x l env a
        ((((x.logged before).closePort x.connectsocket).listening fd port).logged after)
  | refused (fd : Int) (o : Incoming) (outputs : List Output) (ha : a = .incoming fd o)
      (hout : ¬ x.Admits o) (hfresh : FreshFd x o.fd) (houtputs : Anonymous outputs) :
      Effect x l env a
        (((x.logged (eventOutputs .connect)).passed o.fd [(o.fd, x.os.issued)]).logged outputs)
  | registered (fd : Int) (o : Incoming) (ha : a = .incoming fd o)
      (hin : x.Admits o) (hfresh : FreshFd x o.fd) :
      Effect x l env a
        (((x.logged (eventOutputs .connect)).registered l o).logged
          (connectionOutputs (x.newClient o) .illegal ++ numconnOutputs (l.length + 1)))
  | dropped (i : Nat) (y : SocketReceiver) (hi : l[i]? = some y)
      (hkind : a.Disconnects) (ha : x.drops env a = [(y, i)]) :
      Effect x l env a (x.dropped l i y)
  | droppedAll (ha : a = .disconnectAll) : Effect x l env a (x.disconnectAll emit)
  | offered (hkind : a.Sends) (ha : x.drops env a = (x.recipients a).filterMap fun p =>
        (x.dropFor env p.1).map fun i => (p.1, i)) :
      Effect x l env a
        ((x.recipients a).foldl (offer env (chunkCreateList env.mem a.atoms)) (x.retargeted a))

/-! ## Messages -/

/-- Outputs with the right numbers name the right clients. -/
theorem Numbered.named {outputs : List Output} (h : Numbered l outputs) : Named l outputs := by
  intro o ho id hid
  rcases h o ho id hid with ⟨i, y, hi, hy, hnumber⟩
  exact ⟨i, y, hi, hy, Or.inl hnumber⟩

/-- Outputs about nobody name nobody wrong. -/
theorem Anonymous.named {outputs : List Output} (h : Anonymous outputs) : Named l outputs :=
  (numbered_plain h).named

/-- Outputs one after the other name the right clients if both do. -/
theorem Named.append {o₁ o₂ : List Output} (h₁ : Named l o₁) (h₂ : Named l o₂) :
    Named l (o₁ ++ o₂) := by
  intro o ho
  cases List.mem_append.1 ho with
  | inl hin => exact h₁ o hin
  | inr hin => exact h₂ o hin

/-- Outputs one after the other are about nobody if both are. -/
theorem Anonymous.append {o₁ o₂ : List Output} (h₁ : Anonymous o₁) (h₂ : Anonymous o₂) :
    Anonymous (o₁ ++ o₂) := by
  intro o ho
  cases List.mem_append.1 ho with
  | inl hin => exact h₁ o hin
  | inr hin => exact h₂ o hin

/-- No output is about nobody. -/
theorem anonymous_nil : Anonymous [] := by
  intro o ho
  contradiction

/-- A plain output is about nobody. -/
theorem anonymous_plain (outlet : Outlet) (selector : String) (argv : List Atom) :
    Anonymous [.plain outlet selector argv] := by
  intro o ho
  have heq : o = .plain outlet selector argv := by simpa using ho
  rw [heq]
  rfl

/-- The output of an event is about nobody. -/
theorem anonymous_eventOutputs (event : InfoEvent) : Anonymous (eventOutputs event) :=
  eventOutputs_about event

/-- The number of connections is about nobody. -/
theorem anonymous_numconnOutputs (n : Nat) : Anonymous (numconnOutputs n) :=
  (anonymous_plain _ _ _).append (anonymous_plain _ _ _)

/-- The only client number in the messages about a connection is the cached one. -/
theorem connectionOutputs_about {event : InfoEvent} {o : Output}
    (ho : o ∈ connectionOutputs y event) {id : Nat} (hid : o.about = some id) :
    y.id = id ∧ o.argv.head? = some (clientNumber y.client) := by
  cases List.mem_append.1 ho with
  | inl hevent =>
      rw [eventOutputs_about event o hevent] at hid
      contradiction
  | inr hrest =>
      simp only [List.mem_cons, List.not_mem_nil, or_false] at hrest
      rcases hrest with rfl | rfl | rfl | rfl | rfl
      · exact ⟨Option.some.inj hid, rfl⟩
      all_goals contradiction

/-- Information on a connection names its client. -/
theorem named_connectionOutputs {i : Nat} (hi : l[i]? = some y) (event : InfoEvent) :
    Named l (connectionOutputs y event) := by
  intro o ho id hid
  rcases connectionOutputs_about ho hid with ⟨hy, hnumber⟩
  exact ⟨i, y, hi, hy, Or.inr hnumber⟩

/-! ## The effect of each input -/

/-- Outputs alone. -/
theorem Effect.logged (hstill : x.Still env a) (outputs : List Output)
    (h : Named l outputs) :
    Effect x l env a (x.logged outputs) := by
  have heffect : Effect x l env a _ := .settled x.serialize
    x.accepting x.port x.defaulttarget x.floatlist [] outputs hstill (by simp) h
    (fun _ => rfl) fun _ => rfl
  rwa [List.append_nil] at heffect

/-- An input to which nothing happens has its effect. -/
theorem Effect.refl (hstill : x.Still env a) : Effect x l env a x := by
  have heffect := Effect.logged (l := l) hstill [] anonymous_nil.named
  rwa [logged_nil] at heffect

/-- The effect of disconnecting the client in a slot. -/
theorem effect_disconnect (h : x.Inv l) {i : Nat} (hi : i < l.length)
    (hkind : a.Disconnects) (ha : x.drops env a = x.only i) :
    Effect x l env a (disconnect emit x i) := by
  have hget := List.getElem?_eq_getElem hi
  rw [disconnect_eq h.tabled hget]
  apply Effect.dropped i l[i] hget hkind
  rw [ha, only, h.clients_eq, hget]
  rfl

/-- The effect of disconnecting the client with a descriptor. -/
theorem effect_disconnectSocket (h : x.Inv l) (f : FloatArg) (hkind : a.Disconnects)
    (ha : x.drops env a = (x.dropIndex f).elim [] x.only) :
    Effect x l env a (disconnectSocket emit x f) := by
  rw [disconnectSocket_eq h.tabled]
  cases hdrop : x.dropIndex f with
  | none => exact .refl ⟨ha.trans (by rw [hdrop]; rfl), hkind.not_incoming⟩
  | some i =>
      exact effect_disconnect h (dropIndex_lt h.tabled hdrop) hkind (ha.trans (by rw [hdrop]; rfl))

/-- Messages that are put out are about nobody. -/
theorem foldl_emit (x : Server) (outlet : Outlet) (messages : List Message) :
    ∃ outputs, Anonymous outputs ∧
      messages.foldl (fun x m => emit x (.plain outlet m.selector m.argv)) x =
        x.logged outputs := by
  induction messages generalizing x with
  | nil => exact ⟨[], anonymous_nil, logged_nil.symm⟩
  | cons m messages ih =>
      rcases ih (x.logged [.plain outlet m.selector m.argv]) with ⟨outputs, hplain, heq⟩
      refine ⟨_, (anonymous_plain outlet m.selector m.argv).append hplain, ?_⟩
      rw [List.foldl_cons, emit_eq, heq, logged_logged]

/-- The receiver that is registered for a descriptor belongs to a client. -/
theorem Inv.of_pollfn (h : x.Inv l) {fd : Int} (hpoll : x.pollfn fd = some (some y)) :
    y ∈ l ∧ y.fd = fd ∧ y.hasReceiver = true := by
  rcases Option.map_eq_some_iff.1 hpoll with ⟨p, hfind, hp⟩
  have hmem := List.mem_of_find?_eq_some hfind
  have hfd : p.1 = fd := by simpa using List.find?_some hfind
  rcases (h.mem_polls p).1 hmem with ⟨rfl, _⟩ | ⟨z, hz, hzr, rfl⟩
  · contradiction
  · cases hp
    exact ⟨hz, hfd, hzr⟩

/-- The listener is registered for its own descriptor. -/
theorem Inv.of_pollfn_none (h : x.Inv l) {fd : Int} (hpoll : x.pollfn fd = some none) :
    fd = x.connectsocket := by
  rcases Option.map_eq_some_iff.1 hpoll with ⟨p, hfind, hp⟩
  have hmem := List.mem_of_find?_eq_some hfind
  have hfd : p.1 = fd := by simpa using List.find?_some hfind
  rcases (h.mem_polls p).1 hmem with ⟨rfl, _⟩ | ⟨z, hz, hzr, rfl⟩
  · exact hfd.symm
  · contradiction

/-- The effect of what a client sends, or of its end. -/
theorem effect_receiveCallback (h : x.Inv l) (hy : y ∈ l) (c : Option Chunk)
    (hkind : c = none → a.Disconnects)
    (ha : c = none → x.drops env a = (x.dropIndex (FloatArg.ofInt y.fd)).elim [] x.only)
    (hstill : c.isSome → x.Still env a) :
    Effect x l env a (receiveCallback emit env x y c) := by
  have hfree := h.notFreed y hy
  have howner := h.owner y hy
  simp only [receiveCallback, access_of_notMem hfree, current_of_notMem hfree, howner,
    not_true_eq_false, if_false]
  cases c with
  | none => exact effect_disconnectSocket h _ (hkind rfl) (ha rfl)
  | some c =>
      rcases List.getElem?_of_mem hy with ⟨i, hi⟩
      have hnamed := named_connectionOutputs hi .receive
      simp only [infoConnection_emit hfree]
      have hlist : (x.logged (connectionOutputs y .receive)).floatlist = x.floatlist := rfl
      rw [hlist]
      cases hload : chunk2list env.mem env.raw (some c) x.floatlist with
      | none =>
          exact Effect.settled x.serialize x.accepting x.port x.defaulttarget none [.nullList]
            (connectionOutputs y .receive) (hstill rfl) (by simp) hnamed (fun _ => rfl)
            fun _ => rfl
      | some cl =>
          rcases foldl_emit { x.logged (connectionOutputs y .receive) with
            floatlist := some cl } .msgout (streamout cl.argc cl.argv x.serialize) with
            ⟨outputs, hplain, heq⟩
          have heffect : Effect x l env a ({ x.logged (connectionOutputs y .receive) with
              floatlist := some cl }.logged outputs) := by
            have hsettled : Effect x l env a _ := .settled x.serialize
              x.accepting x.port x.defaulttarget (some cl) []
              (connectionOutputs y .receive ++ outputs) (hstill rfl) (by simp)
              (hnamed.append hplain.named)
              (fun _ => rfl) fun _ => rfl
            rw [← logged_logged, List.append_nil] at hsettled
            exact hsettled
          rw [← heq] at heffect
          exact heffect

/-- The effect of a new connection. -/
theorem effect_connectpoll (h : x.Inv l) {fd : Int} {o : Incoming}
    (hfd : fd = x.connectsocket) (ho : o.Possible x) :
    Effect x l env (.incoming fd o) (connectpoll emit x fd o) := by
  rw [connectpoll, if_neg (not_not.2 hfd)]
  by_cases hfail : o.fd < 0
  · rw [if_pos hfail, infoEvent_emit, numconnout_emit, logged_logged]
    exact .logged ⟨rfl, by rintro _ _ ⟨⟩; exact hfail⟩ _
      ((anonymous_eventOutputs _).append (anonymous_numconnOutputs _)).named
  · rw [if_neg hfail, infoEvent_emit]
    have hfresh : FreshFd x o.fd := ho.resolve_left hfail
    by_cases hin : x.Admits o
    · rw [register_admitted h hin]
      exact .registered fd o rfl hin hfresh
    · rcases register_passed (x := (x.opened o.fd).logged (eventOutputs .connect)) hfresh.1 hin
        x.os.issued with ⟨outputs, hplain, heq⟩
      rw [heq, closesocket, if_pos hfresh.1]
      exact .refused fd o outputs rfl hin hfresh hplain

/-- An address that is put out is about nobody. -/
theorem socket2addressout_emit (x : Server) (s : String) (address : Option SockaddrIn) :
    ∃ outputs, Anonymous outputs ∧
      socket2addressout emit x.abi x s address = x.logged outputs := by
  cases address with
  | none => exact ⟨[], anonymous_nil, logged_nil.symm⟩
  | some address => exact ⟨_, anonymous_plain _ _ _, emit_eq x _⟩

/-- The address and the port are announced. -/
theorem announce_emit (x : Server) (address : Option SockaddrIn) :
    ∃ outputs, Anonymous outputs ∧
      emit (socket2addressout emit x.abi x "local_address" address)
        (.plain .statusout "port"
          [setInt (socket2addressout emit x.abi x "local_address" address).port]) =
        x.logged outputs := by
  rcases socket2addressout_emit x "local_address" address with ⟨outputs, hplain, heq⟩
  refine ⟨_, hplain.append (anonymous_plain .statusout "port" [setInt x.port]), ?_⟩
  rw [heq, emit_eq, logged_logged]
  rfl

/-- A socket that is opened and closed is passed. -/
theorem closesocket_acquire (x : Server) {fd : Int} (hfd : 0 ≤ fd) :
    { x with os := x.os.acquire fd }.closesocket fd = x.passed fd [] := by
  simp [closesocket, hfd, passed]

/-- The effect of another port. -/
theorem effect_setPort (f : FloatArg) (o : PortOutcome) (ho : o.Possible x)
    (hstill : x.Still env a) : Effect x l env a (setPort emit env x f o) := by
  have hbefore := anonymous_eventOutputs .serverInfo
  have hport : (x.logged (eventOutputs .serverInfo)).port = x.port := rfl
  simp only [setPort, infoEvent_emit, hport]
  generalize hx₂ : (x.logged (eventOutputs .serverInfo)).closePort x.connectsocket = x₂
  by_cases hsame : x.port = f.toInt
  · rw [if_pos hsame]
    exact .logged hstill _ hbefore.named
  · rw [if_neg hsame]
    cases hsocket : o.socket with
    | none =>
        have heffect := Effect.unbound (l := l) _ hstill hbefore
        rwa [hx₂] at heffect
    | some fd =>
        have hfresh : FreshFd (x.closePort x.connectsocket) fd := ho fd (by rw [hsocket]; rfl)
        simp only [closesocket_acquire _ hfresh.1]
        have hfailed := Effect.failed (l := l) fd _ _ hstill
          hbefore (anonymous_plain .statusout "port" [setInt (-1)]) hfresh
        rw [hx₂] at hfailed
        by_cases hbind : o.bind = true
        · by_cases hlisten : o.listen = true
          · rw [if_neg (not_not.2 hbind), if_neg (not_not.2 hlisten)]
            have hbound := fun outputs hafter => Effect.bound (l := l) fd
              (x₂.usedPort env f.toInt) _ outputs hstill hbefore hafter hfresh
            rcases announce_emit (x₂.listening fd (x₂.usedPort env f.toInt)) env.address with
              ⟨outputs, hplain, heq⟩
            have heffect := hbound outputs hplain
            rw [hx₂, ← heq] at heffect
            exact heffect
          · rw [if_neg (not_not.2 hbind), if_pos hlisten]
            exact hfailed
        · rw [if_pos hbind]
          exact hfailed

/-! ## All inputs -/

/-- The effect of sending to a client by its number. -/
theorem effect_sendClient (h : x.Inv l) (argv : List Atom) :
    Effect x l env (.sendClient argv) (sendClient emit env x argv) := by
  cases argv with
  | nil =>
      rcases infoClients_eq h env (2 ^ 32) 0 with ⟨outputs, heq, hnum⟩
      rw [sendClient, heq]
      exact .logged ⟨rfl, by rintro _ _ ⟨⟩⟩ outputs hnum.named
  | cons a rest =>
      cases rest with
      | nil =>
          rw [sendClient]
          cases hfix : x.fixindex (toInt32 (atomGetint a)) with
          | none => exact .refl ⟨rfl, by rintro _ _ ⟨⟩⟩
          | some i =>
              have hi : i < l.length := h.nconnections_eq ▸ (fixindex_eq_some.1 hfix).2
              have hget := List.getElem?_eq_getElem hi
              simp only [if_true, infoClient_eq h env hget]
              exact .logged ⟨rfl, by rintro _ _ ⟨⟩⟩ _ (numbered_clientOutputs env hget).named
      | cons b rest =>
          rw [sendClient_eq h]
          exact .offered trivial rfl

/-- The effect of sending to a client by its descriptor. -/
theorem effect_sendSocket (h : x.Inv l) (argv : List Atom) :
    Effect x l env (.sendSocket argv) (sendSocket emit env x argv) := by
  cases argv with
  | nil => exact .refl ⟨rfl, by rintro _ _ ⟨⟩⟩
  | cons a rest =>
      rw [sendSocket_eq h]
      exact .offered trivial rfl

/-- The effect of choosing a default target. -/
theorem effect_setDefaulttarget (h : x.Inv l) (f : FloatArg) :
    Effect x l env (.defaulttarget f) (setDefaulttarget x f) := by
  have hset : ∀ sockfd, Effect x l env (.defaulttarget f)
      { x with defaulttarget := sockfd } := fun sockfd => by
    have heffect : Effect x l env (.defaulttarget f) _ := .settled
      x.serialize x.accepting x.port sockfd x.floatlist [] [] ⟨rfl, by rintro _ _ ⟨⟩⟩ (by simp)
      anonymous_nil.named
      (fun hnot => absurd trivial hnot) fun _ => rfl
    rwa [logged_nil, List.append_nil] at heffect
  simp only [setDefaulttarget]
  split
  · exact .refl ⟨rfl, by rintro _ _ ⟨⟩⟩
  · rename_i hrange
    split
    · exact hset 0
    · rename_i hzero
      have hi : f.toInt.natAbs - 1 < l.length := by
        have := h.nconnections_eq
        omega
      have hfree := h.notFreed _ (List.getElem_mem hi)
      simp only [h.touch_eq hi, h.slot_eq, List.getElem?_eq_getElem hi, access_of_notMem hfree]
      exact hset _

/-- The effect of another size of the table. -/
theorem effect_setMaxconnections (h : x.Inv l) (f : FloatArg)
    (hstill : x.Still env a) :
    Effect x l env a (setMaxconnections env x f) := by
  simp only [setMaxconnections]
  split
  · exact .refl hstill
  · split
    · exact .refl hstill
    · rename_i hle
      split
      · exact .refl hstill
      · split
        · have hroom : l.length ≤ f.toUInt := by
            have := h.nconnections_eq
            omega
          exact .resized f.toUInt hstill hroom f.toUInt_lt
        · exact .refl hstill

/-- The effect of asking for information. -/
theorem effect_info (hstill : x.Still env a) : Effect x l env a (info emit env x) := by
  simp only [info]
  split
  · exact .refl hstill
  · rename_i hopen
    cases x.reportedPort env with
    | none => exact .refl hstill
    | some port =>
        simp only [infoEvent_emit]
        rcases socket2addressout_emit ({ x with port := port }.logged (eventOutputs .serverInfo))
          "local_address" env.address with ⟨outputs, hplain, heq⟩
        have hnamed := ((anonymous_eventOutputs .serverInfo).append hplain).append
          ((anonymous_plain .statusout "port" [setInt port]).append
            (anonymous_plain .statusout "maxconnections" [setInt x.maxconnections]))
        have heffect : Effect x l env a _ := .settled x.serialize
          x.accepting port x.defaulttarget x.floatlist [] _ hstill (by simp) hnamed.named
          (fun _ => rfl) fun hclosed => absurd hclosed hopen
        rw [heq, emit_eq, emit_eq, logged_logged, logged_logged, logged_logged]
        simp only [List.append_nil, List.append_assoc] at heffect ⊢
        exact heffect

/-- The effect of every input. -/
theorem step_effect (h : x.Inv l) (hs : x.step emit env a = some x') :
    Effect x l env a x' := by
  have hset : ∀ serialize accepting defaulttarget,
      x.Still env a → (¬ a.Targets → defaulttarget = x.defaulttarget) → Effect x l env a { x with
        serialize := serialize, accepting := accepting, defaulttarget := defaulttarget } := by
    intro serialize accepting defaulttarget hstill htarget
    have heffect : Effect x l env a _ := .settled serialize
      accepting x.port defaulttarget x.floatlist [] [] hstill (by simp) anonymous_nil.named htarget
      fun _ => rfl
    rwa [logged_nil, List.append_nil] at heffect
  cases a with
  | incoming fd o =>
      simp only [step, Option.ite_none_right_eq_some, Option.some.injEq] at hs
      rcases hs with ⟨⟨hpoll, ho⟩, rfl⟩
      exact effect_connectpoll h (h.of_pollfn_none hpoll) ho
  | received fd c =>
      simp only [step] at hs
      cases hpoll : x.pollfn fd with
      | none => simp [hpoll] at hs
      | some f =>
          cases f with
          | none => simp [hpoll] at hs
          | some y =>
              simp only [hpoll, Option.some.injEq] at hs
              subst hs
              rcases h.of_pollfn hpoll with ⟨hy, _, _⟩
              apply effect_receiveCallback h hy
              · rintro rfl
                trivial
              · rintro rfl
                simp only [drops, hpoll]
              · cases c with
                | none => exact fun hc => absurd hc (by decide)
                | some c => exact fun _ => ⟨rfl, by rintro _ _ ⟨⟩⟩
  | disconnectClient f =>
      simp only [step, Option.some.injEq] at hs
      subst hs
      unfold disconnectClient
      cases hfix : x.fixindex f.toInt with
      | none => exact .refl ⟨by simp [drops, hfix], by rintro _ _ ⟨⟩⟩
      | some i =>
          have hi : i < l.length := h.nconnections_eq ▸ (fixindex_eq_some.1 hfix).2
          exact effect_disconnect h hi trivial (by simp [drops, hfix])
  | disconnectSocket f =>
      simp only [step, Option.some.injEq] at hs
      subst hs
      exact effect_disconnectSocket h f trivial rfl
  | disconnectAll =>
      simp only [step, Option.some.injEq] at hs
      subst hs
      exact .droppedAll rfl
  | sendSocket argv =>
      simp only [step, Option.some.injEq] at hs
      subst hs
      exact effect_sendSocket h argv
  | sendClient argv =>
      simp only [step, Option.some.injEq] at hs
      subst hs
      exact effect_sendClient h argv
  | broadcast argv =>
      simp only [step, Option.some.injEq] at hs
      subst hs
      rw [broadcast_eq h.tabled]
      exact .offered trivial rfl
  | defaulttarget f =>
      simp only [step, Option.some.injEq] at hs
      subst hs
      exact effect_setDefaulttarget h f
  | targetsocket f =>
      simp only [step, Option.some.injEq] at hs
      subst hs
      exact hset x.serialize x.accepting f.toInt ⟨rfl, by rintro _ _ ⟨⟩⟩
        fun hnot => absurd trivial hnot
  | defaultsend argv =>
      simp only [step, Option.some.injEq] at hs
      subst hs
      rw [defaultsend_eq h]
      exact .offered trivial rfl
  | serialize f =>
      simp only [step, Option.some.injEq] at hs
      subst hs
      exact hset f.toInt x.accepting x.defaulttarget ⟨rfl, by rintro _ _ ⟨⟩⟩ fun _ => rfl
  | accept f =>
      simp only [step, Option.some.injEq] at hs
      subst hs
      exact hset x.serialize f.toInt x.defaulttarget ⟨rfl, by rintro _ _ ⟨⟩⟩ fun _ => rfl
  | maxconnections f =>
      simp only [step, Option.some.injEq] at hs
      subst hs
      exact effect_setMaxconnections h f ⟨rfl, by rintro _ _ ⟨⟩⟩
  | port f o =>
      simp only [step, Option.ite_none_right_eq_some, Option.some.injEq] at hs
      rcases hs with ⟨ho, rfl⟩
      exact effect_setPort f o ho ⟨rfl, by rintro _ _ ⟨⟩⟩
  | info =>
      simp only [step, Option.some.injEq] at hs
      subst hs
      exact effect_info ⟨rfl, by rintro _ _ ⟨⟩⟩

/-! ## Effects of several drops -/

/-- The rule for a sequence of offers: what a quiet change and every erasure on
account of a failed send keep holds in the end. -/
theorem offers_induct {P : Server → List SocketReceiver → Prop} (env : Env)
    (chunk : Option Chunk) (ps : List (SocketReceiver × Nat)) (h : x.Inv l) (hP : P x l)
    (hquiet : ∀ x x₁ l, x.Inv l → P x l → x.Quiet x₁ → P x₁ l)
    (hdrop : ∀ x l i y p, x.Inv l → P x l → p ∈ ps → x.dropFor env p.1 = some i →
      l[i]? = some y → P (x.dropped l i y) (l.eraseIdx i)) :
    ∃ l', (ps.foldl (offer env chunk) x).Inv l' ∧ P (ps.foldl (offer env chunk) x) l' := by
  induction ps generalizing x l with
  | nil => exact ⟨l, h, hP⟩
  | cons p ps ih =>
      have hdrop' := fun x l i y q hinv hP' (hq : q ∈ ps) =>
        hdrop x l i y q hinv hP' (List.mem_cons_of_mem p hq)
      rcases offer_cases h.tabled env chunk p with ⟨x₁, hq, hsame | ⟨i, y, hi, hy, hdropped⟩⟩
      · rw [List.foldl_cons, hsame]
        exact ih (h.quiet hq) (hquiet x x₁ l h hP hq) hdrop'
      · rw [List.foldl_cons, hdropped]
        have h₁ := h.quiet hq
        have hP₁ := hquiet x x₁ l h hP hq
        exact ih (h₁.dropped hy)
          (hdrop x₁ l i y p h₁ hP₁ List.mem_cons_self ((hq.dropFor env p.1).trans hi) hy) hdrop'

/-- The rule for the loop of {lit}`tcpserver_disconnect_all`. -/
theorem disconnectAllFrom_induct {P : Server → List SocketReceiver → Prop} (fuel id : Nat)
    (h : x.Inv l) (hP : P x l)
    (hdrop : ∀ x l i y, x.Inv l → P x l → l[i]? = some y →
      P (x.dropped l i y) (l.eraseIdx i)) :
    ∃ l', (disconnectAllFrom emit x fuel id).Inv l' ∧
      P (disconnectAllFrom emit x fuel id) l' := by
  induction fuel generalizing x l id with
  | zero => exact ⟨l, h, hP⟩
  | succ fuel ih =>
      rw [disconnectAllFrom, h.nconnections_eq]
      by_cases hid : id < l.length
      · have hget := List.getElem?_eq_getElem hid
        rw [if_pos hid, disconnect_eq h.tabled hget]
        exact ih (id + 1) (h.dropped hget) (hdrop x l id l[id] h hP hget)
      · rw [if_neg hid]
        exact ⟨l, h, hP⟩

/-- Behind the last client there is nobody to disconnect. -/
theorem disconnectAllFrom_done (h : x.Inv l) (fuel : Nat) {id : Nat} (hid : l.length ≤ id) :
    disconnectAllFrom emit x fuel id = x := by
  cases fuel with
  | zero => rfl
  | succ fuel =>
      rw [disconnectAllFrom, h.nconnections_eq, if_neg (by omega)]

/-- The first round of {lit}`tcpserver_disconnect_all`. -/
theorem disconnectAll_eq (h : x.Inv l) :
    disconnectAll emit x =
      match l[0]? with
      | none => x
      | some y => disconnectAllFrom emit (x.dropped l 0 y) (2 ^ 32 - 1) 1 := by
  rw [disconnectAll, show (2 : Nat) ^ 32 = (2 ^ 32 - 1) + 1 by norm_num, disconnectAllFrom,
    h.nconnections_eq]
  cases hget : l[0]? with
  | none =>
      have hnil : l.length = 0 := by simpa using hget
      rw [if_neg (by omega)]
  | some y =>
      have hpos : 0 < l.length := (List.getElem?_eq_some_iff.1 hget).1
      rw [if_pos hpos, disconnect_eq h.tabled hget]
      rfl

/-! ## The invariant over runs -/

/-- The settings do not matter to the invariant. -/
theorem Inv.settings (h : x.Inv l) (serialize accepting port defaulttarget : Int)
    (floatlist : Option Floatlist) (faults : List Fault) :
    { x with
      serialize := serialize
      accepting := accepting
      port := port
      defaulttarget := defaulttarget
      floatlist := floatlist
      faults := faults }.Inv l :=
  ⟨h.sr_eq, h.nconnections_eq, h.length_le, h.max_lt, h.owner, h.range, h.notFreed,
    h.freed_lt, h.accounted, h.stray, h.live, h.mem_accepted, h.accepted_lt, h.accepted_fd,
    h.polls_nodup, h.mem_polls⟩

/-- Reading an input changes the default target at most. -/
theorem retargeted_eq (x : Server) (a : Input) :
    ∃ sockfd, x.retargeted a = { x with defaulttarget := sockfd } := by
  cases a
  case defaultsend => exact ⟨x.settledTarget, rfl⟩
  all_goals exact ⟨x.defaulttarget, rfl⟩

/-- Another target does not matter to the invariant. -/
theorem Inv.retargeted (h : x.Inv l) (a : Input) : (x.retargeted a).Inv l := by
  rcases retargeted_eq x a with ⟨sockfd, heq⟩
  rw [heq]
  exact h.retarget sockfd

/-- Closing the port keeps the invariant, whatever is put out. -/
theorem Inv.closePort_logged (h : x.Inv l) (outputs : List Output) :
    ((x.logged outputs).closePort x.connectsocket).Inv l :=
  (h.logged outputs).closePort

/-- Closing the port closes its descriptor, if it has one. -/
theorem closePort_os (x : Server) (fd : Int) :
    (x.closePort fd).os = if 0 ≤ fd then x.os.close fd else x.os := by
  unfold Server.closePort
  by_cases hfd : 0 ≤ fd
  · rw [if_pos hfd, if_pos hfd, closesocket, if_pos hfd]
    rfl
  · rw [if_neg hfd, if_neg hfd]

/-- What is put out does not make a descriptor less fresh. -/
theorem FreshFd.logged {fd : Int} (hfresh : FreshFd (x.closePort x.connectsocket) fd)
    (outputs : List Output) : FreshFd ((x.logged outputs).closePort x.connectsocket) fd := by
  have hos : ((x.logged outputs).closePort x.connectsocket).os =
      (x.closePort x.connectsocket).os := by
    rw [closePort_os, closePort_os]
    rfl
  unfold FreshFd
  rw [hos]
  exact hfresh

/-- Every effect keeps the invariant. -/
theorem Effect.inv (h : x.Inv l) (he : Effect x l env a x') : ∃ l', x'.Inv l' := by
  cases he with
  | settled serialize accepting port defaulttarget floatlist faults outputs =>
      exact ⟨l, (h.settings _ _ _ _ _ _).logged outputs⟩
  | resized n _ hle hlt => exact ⟨l, h.resized hle hlt⟩
  | unbound before => exact ⟨l, h.closePort_logged before⟩
  | failed fd before after _ _ _ hfresh =>
      have hfresh' := FreshFd.logged hfresh before
      exact ⟨l, ((h.closePort_logged before).passing hfresh'.2.2 (by simp)).logged after⟩
  | bound fd port before after _ _ _ hfresh =>
      have hclosed := closePort_connectsocket (x.logged before)
      have hfresh' := FreshFd.logged hfresh before
      exact ⟨l, ((h.closePort_logged before).listening hclosed hfresh'.1 hfresh'.2.2
        port).logged after⟩
  | refused fd o outputs _ _ hfresh =>
      exact ⟨l, ((h.logged _).passing hfresh.2.2 (by simp [Server.logged])).logged outputs⟩
  | registered fd o _ hin hfresh =>
      exact ⟨_, ((h.logged _).registered hin hfresh.2.1 hfresh.2.2).logged _⟩
  | dropped i y hi => exact ⟨_, h.dropped hi⟩
  | droppedAll =>
      rcases disconnectAllFrom_induct (P := fun _ _ => True) (2 ^ 32) 0 h trivial
        (fun _ _ _ _ _ _ _ => trivial) with ⟨l', h', _⟩
      exact ⟨l', h'⟩
  | offered =>
      rcases offers_induct (P := fun _ _ => True) env _ (x.recipients a)
        (h.retargeted a) trivial (fun _ _ _ _ _ _ => trivial)
        (fun _ _ _ _ _ _ _ _ _ _ => trivial) with ⟨l', h', _⟩
      exact ⟨l', h'⟩

/-- The serials only grow. -/
theorem Effect.issued_le (h : x.Inv l) (he : Effect x l env a x') :
    x.os.issued ≤ x'.os.issued := by
  have hdrop : ∀ (x : Server) (l : List SocketReceiver) (i : Nat) (y : SocketReceiver),
      (x.dropped l i y).os.issued = x.os.issued := fun x _ _ y =>
    Descriptors.issued_close x.os y.fd
  cases he with
  | settled | resized => exact Nat.le_refl _
  | unbound before => exact (closePort_frame (x.logged before) _).2.ge
  | failed fd before after =>
      exact (closePort_frame (x.logged before) x.connectsocket).2.ge.trans
        (passed_issued _ fd [])
  | bound fd port before after =>
      exact (closePort_frame (x.logged before) x.connectsocket).2.ge.trans (Nat.le_succ _)
  | refused fd o => exact passed_issued x o.fd [(o.fd, x.os.issued)]
  | registered => exact Nat.le_succ _
  | dropped i y => exact (hdrop x l i y).ge
  | droppedAll =>
      rcases disconnectAllFrom_induct (P := fun x' _ => x'.os.issued = x.os.issued) (2 ^ 32) 0 h
        rfl (fun x' l i y _ hissued _ => (hdrop x' l i y).trans hissued) with ⟨l', -, hissued⟩
      exact hissued.ge
  | offered =>
      have hsame : (x.retargeted a).os.issued = x.os.issued := by
        rcases retargeted_eq x a with ⟨sockfd, heq⟩
        rw [heq]
      rcases offers_induct (P := fun x' _ => x'.os.issued = x.os.issued) env _ (x.recipients a)
        (h.retargeted a) hsame (fun _ _ _ _ hissued hq => hq.issued.trans hissued)
        (fun x' l i y _ _ hissued _ _ _ => (hdrop x' l i y).trans hissued) with ⟨l', -, hissued⟩
      exact hissued.ge

/-- A blank object has the invariant. -/
theorem inv_blank (abi : Abi) (env : Env) : (blank abi env).Inv [] where
  sr_eq := rfl
  nconnections_eq := rfl
  length_le := Nat.zero_le _
  max_lt := (by decide : maxConnect < 2 ^ 32)
  owner := by simp
  range := by simp
  notFreed := by simp
  freed_lt := by simp [blank]
  accounted := Descriptors.accounted_empty
  stray := rfl
  live := ⟨[], List.Perm.refl _, Or.inl ⟨(by decide : (-1 : Int) < 0), rfl⟩⟩
  mem_accepted := by simp
  accepted_lt := by simp [blank]
  accepted_fd := by simp [blank]
  polls_nodup := by simp [blank]
  mem_polls := by
    intro p
    simp [blank]

/-- {lit}`tcpserver_new` acts like a message to the blank object. -/
theorem new_effect (abi : Abi) (f : FloatArg) {o : PortOutcome}
    (ho : o.Possible (blank abi env)) :
    Effect (blank abi env) [] env (.port f o) (new emit abi env f o) :=
  effect_setPort f o ho ⟨rfl, by rintro _ _ ⟨⟩⟩

/-- In every reachable state the table holds a list of clients. -/
theorem reach_inv {ok : Server → Env × Input → Prop} (h : tcpserverMachine.Reach ok x) :
    ∃ l, x.Inv l := by
  apply h.invariant (I := fun x => ∃ l, x.Inv l)
  · rintro x ⟨abi, env, f, o, ho, rfl⟩
    exact (new_effect abi f ho).inv (inv_blank abi env)
  · rintro x a x' _ ⟨l, hl⟩ _ hs
    exact (step_effect hl hs).inv hl

/-! ## A listening server -/

/-- An environment in which everything succeeds and every send leaves 7 bytes queued,
but for the clients in {lit}`broken`. -/
def plainEnv (broken : List Nat) : Env where
  sent id := if id ∈ broken then -1 else 7
  queued _ := 0
  mem := true
  raw _ := setFloat 0
  sockname := none
  address := none

/-- A connection from the local host. -/
def caller (fd : Int) : Incoming :=
  ⟨fd, ⟨afInet, 0x0100007f#32, 0x3930#16⟩, true, true, true⟩

/-- A new object that listens with descriptor 3. -/
def started : Server :=
  new emit ⟨true, 64⟩ (plainEnv []) ⟨3000, 0#32⟩ ⟨some 3, true, true⟩

/-- The listening object is a start. -/
theorem init_started : tcpserverMachine.init started := by
  refine ⟨_, _, _, _, ?_, rfl⟩
  intro fd hfd
  have hthree : fd = 3 := (Option.some.inj hfd).symm
  subst hthree
  decide

end Server
end Iemnet.TcpServer
