import Iemnet.UdpServer.Clients

/-!
# The descriptors that the UDP server closes

The number that {lit}`udpserver_sender_new` draws for a client from its static counter is
closed like a descriptor when the client goes.  As long as no client goes, the server
closes nothing but its own sockets.

Main results:

- Theorem {lit}`Owned.step`: one input during which no client is dropped.
- Theorem {lit}`closes_own`: whole runs, and {lit}`udpserver_free` after them.
-/

namespace Iemnet.UdpServer

open Pd Foundations

namespace Server

variable {x x' : Server} {env : Env} {y : UdpSender}

/-- No client has been silent for too long when a check is due. -/
def NobodyExpires (x : Server) (now : ℚ) : Prop :=
  x.Due now → ∀ y ∈ x.clients, x.inTime now y = true

/-- The input drops no client: it disconnects none, every send succeeds, and no client
expires. -/
def KeepsClients (x : Server) (a : Env × Input) : Prop :=
  match a.2 with
  | .disconnectClient f => x.fixindex f.toInt = none
  | .disconnectAll => x.nconnections = 0
  | .sendClient (c :: argv) =>
      ∀ id ∈ x.fixindex (toInt32 (atomGetint c)), ∀ y ∈ x.slot id, ¬ Fails a.1 argv y
  | .broadcast argv => x.NobodyExpires a.1.now ∧ ∀ y ∈ x.clients, ¬ Fails a.1 argv y
  | .defaultsend argv =>
      match x.targetIndex with
      | some id =>
          ∀ i, (if 0 < x.defaulttarget then i = id else i ≠ id) →
            ∀ y ∈ x.slot i, ¬ Fails a.1 argv y
      | none => x.NobodyExpires a.1.now ∧ ∀ y ∈ x.clients, ¬ Fails a.1 argv y
  | .info => x.NobodyExpires a.1.now
  | _ => True

/-! ## Operations that keep the socket -/

/-- The socket and the descriptors are the same. -/
structure SameOs (x x' : Server) : Prop where
  connectsocket : x'.connectsocket = x.connectsocket
  os : x'.os = x.os

theorem SameOs.refl (x : Server) : SameOs x x :=
  ⟨rfl, rfl⟩

theorem SameOs.trans {x₁ x₂ x₃ : Server} (h₁ : SameOs x₁ x₂) (h₂ : SameOs x₂ x₃) :
    SameOs x₁ x₃ :=
  ⟨h₂.connectsocket.trans h₁.connectsocket, h₂.os.trans h₁.os⟩

theorem sameOs_touch (x : Server) (i : Nat) : SameOs x (x.touch i) := by
  unfold touch
  split <;> exact ⟨rfl, rfl⟩

theorem sameOs_setSlot (x : Server) (i : Nat) (v : Option UdpSender) :
    SameOs x (x.setSlot i v) :=
  (sameOs_touch x i).trans ⟨rfl, rfl⟩

/-- A client is in the table if it is in some slot. -/
theorem mem_clients_iff : y ∈ x.clients ↔ ∃ i, x.slot i = some y :=
  SlotTable.mem_entries

/-- The clients of a table with one slot overwritten. -/
theorem mem_clients_setSlot {i : Nat} {v : Option UdpSender}
    (h : y ∈ (x.setSlot i v).clients) : y ∈ x.clients ∨ v = some y := by
  rcases mem_clients_iff.1 h with ⟨j, hj⟩
  have hget : SlotTable.get (x.sr.set i v) j = some y := hj
  rw [SlotTable.get_set] at hget
  split at hget
  · exact Or.inr hget
  · exact Or.inl (mem_clients_iff.2 ⟨j, hget⟩)

/-! ## Expiry -/

/-- Nothing but the places of the clients changes. -/
structure Keeps (x x' : Server) : Prop where
  same : SameOs x x'
  clients : ∀ y ∈ x'.clients, y ∈ x.clients

theorem Keeps.refl (x : Server) : Keeps x x :=
  ⟨.refl x, fun _ hy => hy⟩

/-- Steps that keep all clients can be chained. -/
theorem Keeps.trans {x₁ x₂ x₃ : Server} (h₁ : Keeps x₁ x₂) (h₂ : Keeps x₂ x₃) :
    Keeps x₁ x₃ :=
  ⟨h₁.same.trans h₂.same, fun y hy => h₁.clients y (h₂.clients y hy)⟩

theorem Keeps.counted (h : Keeps x x') (n : Nat) : Keeps x { x' with nconnections := n } :=
  ⟨⟨h.same.connectsocket, h.same.os⟩, h.clients⟩

theorem keeps_touch (x : Server) (i : Nat) : Keeps x (x.touch i) := by
  unfold touch
  split
  · exact .refl x
  · exact ⟨⟨rfl, rfl⟩, fun _ hy => hy⟩

theorem keeps_setSlot {v : Option UdpSender} (h : ∀ y ∈ v, y ∈ x.clients) (i : Nat) :
    Keeps x (x.setSlot i v) := by
  refine ⟨sameOs_setSlot x i v, fun y hy => ?_⟩
  rcases mem_clients_setSlot hy with hold | hnew
  · exact hold
  · exact h y hnew

/-- If nobody is late, the loop that expires clients keeps them all. -/
theorem keeps_expireFrom (now : ℚ) (m id w : Nat) (x : Server)
    (h : ∀ y ∈ x.clients, x.inTime now y = true) : Keeps x (x.expireFrom now m id w).1 := by
  induction m generalizing x id w with
  | zero => exact .refl x
  | succ m ih =>
      rw [expireFrom, slot_touch]
      have htimeout : (x.touch id).timeout = x.timeout := by
        unfold touch
        split <;> rfl
      have htouch := keeps_touch x id
      have hrest : ∀ y ∈ (x.touch id).clients, (x.touch id).inTime now y = true := by
        intro y hy
        rw [inTime, htimeout]
        exact h y (htouch.clients y hy)
      cases hslot : x.slot id with
      | none => exact htouch.trans (ih (id + 1) w _ hrest)
      | some y =>
          have hmem : y ∈ (x.touch id).clients :=
            mem_clients_iff.2 ⟨id, (slot_touch x id id).trans hslot⟩
          have hin : ¬ (x.touch id).timeout < clockGettimesince now y.lastseen :=
            not_lt.2 (of_decide_eq_true (hrest y hmem))
          dsimp only
          rw [if_neg hin]
          have hset : Keeps (x.touch id) ((x.touch id).setSlot w (some y)) := by
            apply keeps_setSlot
            intro z hz
            rw [Option.mem_some_iff] at hz
            exact hz ▸ hmem
          refine (htouch.trans hset).trans (ih (id + 1) (w + 1) _ ?_)
          intro z hz
          have hsame : ((x.touch id).setSlot w (some y)).timeout = (x.touch id).timeout := by
            unfold setSlot touch
            split <;> split <;> rfl
          rw [inTime, hsame]
          exact hrest z (hset.clients z hz)

theorem keeps_clearFrom (m w : Nat) (x : Server) : Keeps x (x.clearFrom m w) := by
  induction m generalizing x w with
  | zero => exact .refl x
  | succ m ih =>
      rw [clearFrom]
      exact (keeps_setSlot (by rintro _ ⟨⟩) w).trans (ih (w + 1) _)

theorem keeps_recountFrom (m i : Nat) (x : Server) : Keeps x (x.recountFrom m i).1 := by
  induction m generalizing x i with
  | zero => exact .refl x
  | succ m ih =>
      rw [recountFrom, slot_touch]
      cases x.slot i with
      | none => exact keeps_touch x i
      | some y => exact (keeps_touch x i).trans (ih (i + 1) _)

/-- A check that nobody fails closes nothing. -/
theorem keeps_autoremove {now : ℚ} (h : x.NobodyExpires now) : Keeps x (x.autoremove now) := by
  by_cases hdue : x.Due now
  · unfold autoremove
    rw [if_neg (not_le.2 hdue.1), if_neg (not_le.2 hdue.2)]
    dsimp only
    have hexpire := keeps_expireFrom now x.nconnections 0 0 { x with lastchecked := now } (h hdue)
    have hstart : Keeps x { x with lastchecked := now } := ⟨⟨rfl, rfl⟩, fun _ hy => hy⟩
    apply Keeps.counted
    exact ((hstart.trans hexpire).trans (keeps_clearFrom _ _ _)).trans
      (keeps_recountFrom _ _ _)
  · rw [autoremove_of_not_due hdue]
    exact .refl x

/-! ## Sending -/

/-- The slots and the descriptors are the same. -/
structure Still (x x' : Server) : Prop where
  same : SameOs x x'
  sr_eq : x'.sr = x.sr

theorem Still.refl (x : Server) : Still x x :=
  ⟨.refl x, rfl⟩

theorem Still.trans {x₁ x₂ x₃ : Server} (h₁ : Still x₁ x₂) (h₂ : Still x₂ x₃) :
    Still x₁ x₃ :=
  ⟨h₁.same.trans h₂.same, h₂.sr_eq.trans h₁.sr_eq⟩

theorem Still.slot_eq (h : Still x x') (i : Nat) : x'.slot i = x.slot i := by
  rw [slot, h.sr_eq]
  rfl

theorem still_touch (x : Server) (i : Nat) : Still x (x.touch i) := by
  unfold touch
  split <;> exact ⟨⟨rfl, rfl⟩, rfl⟩

/-- Sending to a client that does not fail leaves the table still. -/
theorem still_sendBytes {client : Nat} {argv : List Atom}
    (h : ∀ y ∈ x.slot client, ¬ Fails env argv y) :
    Still x (x.sendBytes env client (chunkCreateList env.mem argv)) := by
  have htouch := still_touch x client
  rcases sendBytes_cases x env client (chunkCreateList env.mem argv) with
    ⟨-, heq⟩ | ⟨-, heq⟩ | ⟨y, -, -, heq⟩ | ⟨y, c, hslot, hchunk, heq⟩ <;> rw [heq]
  · exact .refl x
  · exact htouch
  · exact htouch.trans ⟨⟨rfl, rfl⟩, rfl⟩
  · have hlist := chunk_of_list hchunk
    have hsize : ¬ sendSize env y < 0 := fun hneg => h y hslot ⟨hlist.1, hlist.2, hneg⟩
    rcases offered_frame (x.touch client) env client y c with ⟨_, _, hoffered⟩
    rw [if_neg hsize, hoffered]
    exact htouch.trans ⟨⟨rfl, rfl⟩, rfl⟩

/-- A loop over clients that do not fail leaves the table still. -/
theorem still_sendFrom {but : Option Nat} {argv : List Atom} (fuel client : Nat)
    (h : ∀ i, but ≠ some i → ∀ y ∈ x.slot i, ¬ Fails env argv y) :
    Still x (x.sendFrom env but (chunkCreateList env.mem argv) fuel client) := by
  induction fuel generalizing x client with
  | zero => exact .refl x
  | succ fuel ih =>
      rw [sendFrom]
      split
      · by_cases hbut : but = some client
        · rw [if_pos hbut]
          exact ih (client + 1) h
        · rw [if_neg hbut]
          have hsend := still_sendBytes (h client hbut)
          refine hsend.trans (ih (client + 1) fun i hi y hy => ?_)
          rw [hsend.slot_eq] at hy
          exact h i hi y hy
      · exact .refl x

/-- A broadcast that loses nobody leaves the descriptors as they are. -/
theorem sameOs_broadcast {argv : List Atom} (hexpire : x.NobodyExpires env.now)
    (hsend : ∀ y ∈ x.clients, ¬ Fails env argv y) : SameOs x (x.broadcast env argv) := by
  have hkeeps := keeps_autoremove hexpire
  have hloop : Still (x.autoremove env.now) ((x.autoremove env.now).sendFrom env none
      (chunkCreateList env.mem argv) (2 ^ 32) 0) := by
    apply still_sendFrom
    intro i _ y hy
    exact hsend y (hkeeps.clients y (mem_clients_iff.2 ⟨i, hy⟩))
  unfold broadcast
  dsimp only
  split
  · exact (hkeeps.same.trans hloop.same).trans ⟨rfl, rfl⟩
  · exact hkeeps.same.trans hloop.same

/-- So does a plain list that loses nobody. -/
theorem sameOs_defaultsend {argv : List Atom}
    (h : x.KeepsClients (env, .defaultsend argv)) : SameOs x (x.defaultsend env argv) := by
  simp only [KeepsClients] at h
  rcases defaultsend_cases x env argv with ⟨x₁, hsearched, hcases⟩
  rcases hsearched.faults with ⟨f, rfl⟩
  rcases hcases with ⟨hpos, id, hindex, -, hsend⟩ | ⟨hneg, id, hindex, -, hsend⟩ |
    ⟨hindex, hsend⟩ <;> rw [hindex] at h <;> rw [hsend]
  · simp only [if_pos hpos] at h
    have hone := still_sendBytes (x := { x with faults := f }) (h id rfl)
    exact ⟨hone.same.connectsocket, hone.same.os⟩
  · simp only [if_neg (not_lt.2 hneg.le)] at h
    have hothers : ∀ i, some id ≠ some i → ∀ y ∈ x.slot i, ¬ Fails env argv y :=
      fun i hi => h i fun heq => hi (congrArg some heq.symm)
    have hbut := still_sendFrom (x := { x with faults := f }) (2 ^ 32) 0 hothers
    exact ⟨hbut.same.connectsocket, hbut.same.os⟩
  · have hall := sameOs_broadcast (x := { x with faults := f, defaulttarget := 0 }) h.1 h.2
    exact ⟨hall.connectsocket, hall.os⟩

/-! ## Other inputs -/

theorem sameOs_senderAdd (x : Server) (env : Env) (host : Nat) (port : BitVec 16) :
    SameOs x (x.senderAdd env host port).1 := by
  rcases senderAdd_frame x env host port with ⟨_, _, _, _, _, hadd⟩
  rw [hadd]
  exact ⟨rfl, rfl⟩

/-- A datagram leaves the descriptors as they are. -/
theorem sameOs_receiveCallback (x : Server) (env : Env) (c : Option Chunk) :
    SameOs x (x.receiveCallback env c) := by
  cases c with
  | none => exact .refl x
  | some c =>
      have hadd := sameOs_senderAdd x env (x.abi.toULong c.addr) c.port
      unfold receiveCallback
      dsimp only
      rcases hr : x.senderAdd env (x.abi.toULong c.addr) c.port with ⟨x₁, _ | sdr⟩
      · rw [hr] at hadd
        exact hadd
      · rw [hr] at hadd
        simp only [infoConnection_eq, numconnout_eq]
        split <;> split <;> exact hadd.trans ⟨rfl, rfl⟩

theorem sameOs_infoClient (x : Server) (env : Env) (client : Nat) :
    SameOs x (x.infoClient env client) := by
  rcases infoClient_quiet x env client with ⟨_, _, hquiet⟩
  rw [hquiet]
  exact ⟨rfl, rfl⟩

theorem sameOs_infoClients (fuel : Nat) (x : Server) (env : Env) (client : Nat) :
    SameOs x (x.infoClients env fuel client) := by
  rcases infoClients_quiet fuel x env client with ⟨_, _, hquiet⟩
  rw [hquiet]
  exact ⟨rfl, rfl⟩

/-- A bang leaves the descriptors as they are if nobody is late. -/
theorem sameOs_info (h : x.NobodyExpires env.now) : SameOs x (x.info env) := by
  have hlearn : ∀ z : Server, SameOs z (z.learnPort env) := by
    intro z
    unfold learnPort
    split
    · split <;> exact ⟨rfl, rfl⟩
    · exact .refl z
  unfold info
  simp only [socket2addressout_eq, emit_eq, logged_logged]
  exact ((keeps_autoremove h).same.trans (hlearn _)).trans ⟨rfl, rfl⟩

/-! ## Binding -/

/-- The socket of the server, if it is open. -/
def socket (x : Server) : Option Int :=
  if 0 ≤ x.connectsocket then some x.connectsocket else none

/-- The server has its own socket open and nothing else, and has closed nothing but its
own sockets, each of them once. -/
def Owned (x : Server) : Prop :=
  x.os.Holding x.socket

theorem SameOs.owned (h : SameOs x x') (howned : x.Owned) : x'.Owned := by
  unfold Owned socket at howned ⊢
  rw [h.os, h.connectsocket]
  exact howned

/-- Closing a descriptor closes it once, and the server keeps its number. -/
theorem closesocket_os {sockfd : Int} (h : 0 ≤ sockfd) :
    (x.closesocket sockfd).os = x.os.close sockfd ∧
      (x.closesocket sockfd).connectsocket = x.connectsocket := by
  rw [closesocket, if_pos h]
  exact ⟨rfl, rfl⟩

/-- Closing the old port leaves nothing open. -/
theorem Owned.closePort (h : x.Owned) :
    x.closePort.connectsocket < 0 ∧ x.closePort.os.Holding none := by
  unfold Owned socket at h
  unfold Server.closePort
  split
  · rename_i hpos
    rw [if_pos hpos] at h
    refine ⟨by show (-1 : Int) < 0; omega, ?_⟩
    show (x.closesocket x.connectsocket).os.Holding none
    rw [(closesocket_os hpos).1]
    exact h.close
  · rename_i hneg
    rw [if_neg hneg] at h
    exact ⟨not_le.1 hneg, h⟩

/-- Whatever a bind does, the server keeps track of its own sockets. -/
theorem Owned.doBind (h : x.Owned) {ifaddr : Option String} {portno : BitVec 16}
    {o : BindOutcome} (ho : o.Possible x) : (x.doBind env ifaddr portno o).Owned := by
  unfold Server.doBind
  split
  · exact h
  · have hclosed := h.closePort
    dsimp only
    cases hsocket : o.socket with
    | none =>
        unfold Owned socket
        rw [if_neg (not_le.2 hclosed.1)]
        exact hclosed.2
    | some sockfd =>
        have hpos : 0 ≤ sockfd := (ho sockfd hsocket).1
        have hacquired := hclosed.2.acquire sockfd
        have hfailed : Owned ({ x.closePort with
            os := x.closePort.os.acquire sockfd }.closesocket sockfd) := by
          unfold Owned socket
          rw [(closesocket_os hpos).1, (closesocket_os hpos).2, if_neg (not_le.2 hclosed.1)]
          exact hacquired.close
        dsimp only
        split
        · exact hfailed
        · split
          · exact SameOs.owned ⟨rfl, rfl⟩ hfailed
          · have hlisten : ∀ z : Server, (z.listenOn env ifaddr portno sockfd).os = z.os ∧
                (z.listenOn env ifaddr portno sockfd).connectsocket = sockfd := by
              intro z
              unfold listenOn receiverCreate
              simp only [socket2addressout_eq, emit_eq, logged_logged]
              split <;> exact ⟨rfl, rfl⟩
            unfold Owned socket
            rw [(hlisten _).1, (hlisten _).2, if_pos hpos]
            exact hacquired

/-- A new port closes only the server's own descriptor. -/
theorem Owned.setPort (h : x.Owned) {f : FloatArg} {o : BindOutcome} (ho : o.Possible x) :
    (x.setPort env f o).Owned := by
  unfold Server.setPort
  split
  · exact h
  · exact h.doBind ho

/-- A new address closes only the server's own descriptor. -/
theorem Owned.bind (h : x.Owned) {argv : List Atom} {wild : BitVec 32} {o : BindOutcome}
    (ho : o.Possible x) : (x.bind env argv wild o).Owned := by
  unfold Server.bind
  split
  · exact h.doBind ho
  · dsimp only
    split
    · exact h
    · exact h.doBind ho
  · exact h

/-! ## Steps and runs -/

/-- An input that drops no client closes only what the server has opened. -/
theorem Owned.step (h : x.Owned) {a : Env × Input} (hkeeps : x.KeepsClients a)
    (hstep : udpserverMachine.step x a = some x') : x'.Owned := by
  rcases a with ⟨env, a⟩
  replace hstep : x.step env a = some x' := hstep
  cases a with
  | received fd c =>
      simp only [Server.step] at hstep
      split at hstep
      · cases hstep
        exact (sameOs_receiveCallback x env c).owned h
      · cases hstep
  | disconnectClient f =>
      cases hstep
      have hnone : x.fixindex f.toInt = none := hkeeps
      rw [disconnectClient, hnone]
      exact h
  | disconnectAll =>
      cases hstep
      have hzero : x.nconnections = 0 := hkeeps
      rw [disconnectAll, show 2 ^ 32 = (2 ^ 32 - 1) + 1 from rfl, disconnectAllFrom,
        if_neg (by omega)]
      exact h
  | accept f =>
      cases hstep
      exact SameOs.owned (x := x) ⟨rfl, rfl⟩ h
  | maxconnections f =>
      cases hstep
      refine SameOs.owned (x := x) ?_ h
      unfold setMaxconnections
      dsimp only
      split
      · exact .refl x
      · split
        · exact .refl x
        · split
          · exact .refl x
          · split <;> exact ⟨rfl, rfl⟩
  | timeout f =>
      cases hstep
      exact SameOs.owned (x := x) ⟨rfl, rfl⟩ h
  | sendClient argv =>
      cases hstep
      refine SameOs.owned ?_ h
      unfold sendClient
      cases argv with
      | nil => exact sameOs_infoClients (2 ^ 32) x env 0
      | cons c rest =>
          cases hfix : x.fixindex (toInt32 (atomGetint c)) with
          | none =>
              simp only [hfix]
              exact .refl x
          | some id =>
              simp only [hfix]
              split
              · exact sameOs_infoClient x env id
              · exact (still_sendBytes (hkeeps id hfix)).same
  | broadcast argv =>
      cases hstep
      exact (sameOs_broadcast hkeeps.1 hkeeps.2).owned h
  | defaultsend argv =>
      cases hstep
      exact (sameOs_defaultsend hkeeps).owned h
  | defaulttarget f =>
      cases hstep
      refine SameOs.owned (x := x) ?_ h
      unfold setDefaulttarget
      dsimp only
      split
      · exact .refl x
      · split
        · exact ⟨rfl, rfl⟩
        · split
          · exact (sameOs_touch x _).trans ⟨rfl, rfl⟩
          · exact (sameOs_touch x _).trans ⟨rfl, rfl⟩
  | addClient s f =>
      cases hstep
      refine SameOs.owned ?_ h
      unfold addClient
      split
      · exact .refl x
      · split
        · exact .refl x
        · exact sameOs_senderAdd x env _ _
  | bind argv wild o =>
      simp only [Server.step] at hstep
      split at hstep
      · rename_i ho
        cases hstep
        exact h.bind ho
      · cases hstep
  | port f o =>
      simp only [Server.step] at hstep
      split at hstep
      · rename_i ho
        cases hstep
        exact h.setPort ho
      · cases hstep
  | info =>
      cases hstep
      exact (sameOs_info hkeeps).owned h
  | elsewhere k =>
      cases hstep
      exact SameOs.owned (x := x) ⟨rfl, rfl⟩ h

theorem owned_created (h : Created x) : x.Owned := by
  rcases h with ⟨abi, env, k, f, o, ho, rfl⟩
  have hblank : (blank abi env (toInt32 (1000 + k))).Owned := Descriptors.holding_empty
  have hport : (setPort env (blank abi env (toInt32 (1000 + k))) f o).Owned := hblank.setPort ho
  exact SameOs.owned ⟨rfl, rfl⟩ hport

/-! ## Freeing the object -/

/-- Deleting an empty table closes nothing. -/
theorem freeSlots_of_no_clients (m i : Nat) (x : Server) (h : x.clients = []) :
    SameOs x (x.freeSlots m i) := by
  induction m generalizing x i with
  | zero => exact .refl x
  | succ m ih =>
      have hnone : x.slot i = none := by
        cases hslot : x.slot i with
        | none => rfl
        | some y =>
            have hmem : y ∈ x.clients := mem_clients_iff.2 ⟨i, hslot⟩
            rw [h] at hmem
            cases hmem
      have htouch : (x.touch i).clients = x.clients := by
        unfold touch
        split <;> rfl
      rw [freeSlots, slot_touch, hnone]
      exact (sameOs_touch x i).trans (ih (i + 1) _ (htouch.trans h))

/-- Without clients {lit}`udpserver_free` closes the socket and nothing else. -/
theorem Owned.free (h : x.Owned) (hclients : x.clients = []) : x.free.os.Holding none := by
  have hslots := freeSlots_of_no_clients x.maxconnections 0 x hclients
  have hdrop : SameOs x { x.freeSlots x.maxconnections 0 with sr := [] }.dropReceiver := by
    unfold dropReceiver
    split
    · exact hslots.trans ⟨rfl, rfl⟩
    · exact hslots.trans ⟨rfl, rfl⟩
  have howned := hdrop.owned h
  show { x.freeSlots x.maxconnections 0 with sr := [] }.dropReceiver.dropSocket.os.Holding none
  generalize { x.freeSlots x.maxconnections 0 with sr := [] }.dropReceiver = z at howned ⊢
  unfold Owned socket at howned
  unfold dropSocket
  split
  · rename_i hpos
    rw [if_pos hpos] at howned
    show (z.closesocket z.connectsocket).os.Holding none
    rw [(closesocket_os hpos).1]
    exact howned.close
  · rename_i hneg
    rw [if_neg hneg] at howned
    exact howned

/-- Dropping a client closes its number, which is none of the server's descriptors unless it
happens to be the socket. -/
theorem Owned.senderFree (h : x.Owned) (hpos : 0 ≤ y.uniq) (hne : y.uniq ≠ x.connectsocket) :
    (x.senderFree y).os.stray = [y.uniq] := by
  have hnotMem : y.uniq ∉ x.os.numbers := by
    rw [h.numbers, socket]
    split
    · simpa using hne
    · simp
  have hos : (x.senderFree y).os = x.os.close y.uniq := by
    unfold Server.senderFree closesocket
    rw [if_pos hpos]
  rw [hos, Descriptors.stray_close_of_notMem hnotMem, h.stray]
  rfl

end Server

/-- In a run during which no client is dropped the server closes only descriptors that it
has opened and not closed before, and so does {lit}`udpserver_free` if there are no
clients left. -/
theorem closes_own {x : Server} (h : udpserverMachine.Reach Server.KeepsClients x) :
    x.os.Holding x.socket ∧ (x.clients = [] → x.free.os.Holding none) := by
  have howned : x.Owned := by
    apply h.invariant (I := Server.Owned)
    · exact fun x hx => Server.owned_created hx
    · exact fun x a x' _ hx hkeeps hs => hx.step hkeeps hs
  exact ⟨howned, howned.free⟩

/-- A peer writes, and another port is bound. -/
def heardThenMoved : List (Env × Input) :=
  [(plainEnv 0 [], .received 3 (some (datagram 5000#16))),
    (plainEnv 0 [], .port ⟨3001, 0#32⟩ ⟨some 4, true⟩)]

theorem closes_own_run :
    ∃ x, udpserverMachine.run started heardThenMoved = some x ∧ x.connectsocket = 4 ∧
      x.os.closed = [0] ∧ x.os.Holding x.socket := by
  have hrun : udpserverMachine.run started heardThenMoved = some _ := rfl
  have hkeeps : udpserverMachine.RunMeets Server.KeepsClients started heardThenMoved :=
    ⟨trivial, fun _ _ => ⟨trivial, fun _ _ => trivial⟩⟩
  have hreach := Foundations.Machine.Reach.run (.start init_started) hkeeps hrun
  exact ⟨_, hrun, by decide +kernel, by decide +kernel, (closes_own hreach).1⟩

/-- A peer writes and is disconnected. -/
def heardThenGone : List (Env × Input) :=
  [(plainEnv 0 [], .received 3 (some (datagram 5000#16))),
    (plainEnv 0 [], .disconnectClient ⟨1, 0#32⟩)]

/-- Disconnecting the first client of the process shuts down and closes descriptor 1000,
which the server has never opened. -/
theorem closes_foreign :
    ∃ x, udpserverMachine.Reachable x ∧ x.os.stray = [1000] ∧ x.os.live = [(3, 0)] := by
  have hrun : udpserverMachine.run started heardThenGone = some _ := rfl
  exact ⟨_, Foundations.Machine.reach_of_run init_started hrun, by decide +kernel,
    by decide +kernel⟩

end Iemnet.UdpServer
