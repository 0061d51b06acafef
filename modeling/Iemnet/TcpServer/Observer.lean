import Iemnet.TcpServer.Effects
import Iemnet.TcpServer.Reports

/-!
# What the TCP server tells its patch

Every input is answered by a report: the handlers announce each change of the client table
and name the socket before its data, whatever else they have to say.

Main results:

- Theorem {lit}`step_tells`: what every input says on the outlets.
- Theorem {lit}`roster_current`: the sockets that a patch takes for connected are those of
  the client table.
- Theorem {lit}`data_attributed`: the data attributed to a socket is what was received
  on it.
-/

namespace Iemnet.TcpServer

open Pd Foundations

namespace Server

variable {n : Nat} {x x' : Server} {l : List SocketReceiver} {y : SocketReceiver} {env : Env}
  {a : Input}

/-! ## What the object says -/

/-- All messages so far. -/
def said (x : Server) : List Output :=
  x.log.map LogEntry.output

/-- The descriptors are exact as floats, and the float list is as it should be. -/
structure Ready (x : Server) : Prop where
  small : ∀ y ∈ x.clients, y.fd ≤ 2 ^ 24
  wellTyped : ∀ cl ∈ x.floatlist, cl.WellTyped

/-- From one state to another the object has reported the change of its clients and the
data {lit}`ps`. -/
structure Tells (n : Nat) (x : Server) (ps : List (SocketReceiver × Atom)) (x' : Server) :
    Prop where
  said : ∃ os, x'.said = x.said ++ os ∧ Reports n x.clients os ps x'.clients
  ready : x'.Ready

/-- What is put out is added to what was said. -/
theorem said_logged (x : Server) (os : List Output) : (x.logged os).said = x.said ++ os := by
  simp [said, logged, Function.comp_def]

/-- What is told one after the other adds up. -/
theorem Tells.trans {ps qs : List (SocketReceiver × Atom)} {x'' : Server}
    (h : Tells n x ps x') (h' : Tells n x' qs x'') : Tells n x (ps ++ qs) x'' := by
  rcases h.said with ⟨os, hsaid, hreports⟩
  rcases h'.said with ⟨os', hsaid', hreports'⟩
  refine ⟨⟨os ++ os', ?_, hreports.append hreports'⟩, h'.ready⟩
  rw [hsaid', hsaid, List.append_assoc]

/-- A change that has nothing to do with the clients, the messages and the float list. -/
theorem Tells.unheard (h : x.Ready) (hlog : x'.log = x.log)
    (hclients : x'.clients = x.clients) (hlist : x'.floatlist = x.floatlist) :
    Tells n x [] x' := by
  have hsaid : x'.said = x.said := congrArg (List.map LogEntry.output) hlog
  refine ⟨⟨[], by rw [hsaid, List.append_nil], hclients ▸ .nil _⟩, ?_, ?_⟩
  · exact hclients ▸ h.small
  · exact hlist ▸ h.wellTyped

/-- Where nothing happens nothing is told. -/
theorem Tells.refl (h : x.Ready) : Tells n x [] x :=
  .unheard h rfl rfl rfl

/-- Messages over an unchanged table. -/
theorem Tells.logged (h : x.Ready) {os : List Output} {ps : List (SocketReceiver × Atom)}
    (hos : Reports n x.clients os ps x.clients) : Tells n x ps (x.logged os) :=
  ⟨⟨os, said_logged x os, hos⟩, h.small, h.wellTyped⟩

/-- The descriptors of the clients fit a float. -/
theorem Ready.small_of_inv (hr : x.Ready) (h : x.Inv l) : ∀ y ∈ l, y.fd ≤ 2 ^ 24 :=
  h.clients_eq ▸ hr.small

/-- No two clients have the same descriptor as a float. -/
theorem Ready.distinct (hr : x.Ready) (h : x.Inv l) : (l.map SocketReceiver.sock).Nodup := by
  have hbound : ∀ y ∈ l, y.fd.natAbs ≤ 2 ^ 24 := by
    intro y hy
    have hlow := (h.range y hy).1
    have hhigh := hr.small_of_inv h y hy
    omega
  refine List.Nodup.map_on ?_ (h.fds_nodup.of_map _)
  intro y hy z hz heq
  exact List.inj_on_of_nodup_map h.fds_nodup hy hz
    ((setInt_inj (hbound y hy) (hbound z hz)).1 heq)

/-- {lit}`tcpserver_disconnect` reports that the client is gone. -/
theorem Tells.dropped (hr : x.Ready) (h : x.Inv l) {i : Nat} (hi : l[i]? = some y) :
    Tells n x [] (x.dropped l i y) := by
  have hclients : (x.dropped l i y).clients = l.eraseIdx i := (h.dropped hi).clients_eq
  have hsaid : (x.dropped l i y).said = x.said ++
      (connectionOutputs y .disconnect ++ numconnOutputs (l.eraseIdx i).length) := by
    rw [Server.dropped, said_logged, ← List.append_assoc]
    exact congrArg (· ++ _) (said_logged x _)
  refine ⟨⟨_, hsaid, ?_⟩, ?_, hr.wellTyped⟩
  · rw [hclients, h.clients_eq]
    exact .gone l i y hi (hr.distinct h)
  · rw [hclients]
    exact fun z hz => hr.small_of_inv h z (List.mem_of_mem_eraseIdx hz)

/-! ## Sending -/

/-- The size of a send buffer is a remark. -/
theorem remark_sendbuffersize (argv : List Atom) (about : Option Nat) :
    Remark ⟨.statusout, "sendbuffersize", argv, about⟩ :=
  ⟨rfl, by simp, by simp⟩

/-- An attempt to send is only remarked on. -/
theorem Tells.attempted (hr : x.Ready) (env : Env) (chunk : Option Chunk)
    (p : SocketReceiver × Nat) : Tells n x [] (x.attempted env chunk p) := by
  have hsends : Tells n x [] { x with
      sends := if p.1.hasSender then x.sends ++ [(p.1, chunk, env.result p.1)] else x.sends } :=
    .unheard hr rfl rfl rfl
  refine hsends.trans (.logged hsends.ready ?_)
  exact (Reports.event _ .send).after (.remark _ _ (remark_sendbuffersize _ _))

/-- Offering a chunk to one client. -/
theorem offer_tells (hr : x.Ready) (h : x.Inv l) (env : Env) (chunk : Option Chunk)
    (p : SocketReceiver × Nat) :
    ∃ l', (x.offer env chunk p).Inv l' ∧ Tells n x [] (x.offer env chunk p) := by
  by_cases hp : p.1.id ∈ x.freed
  · have haccess : Tells n x [] (x.access p.1) := by
      rw [access, if_pos hp]
      exact .unheard hr rfl rfl rfl
    rw [offer_freed h.tabled hp]
    exact ⟨l, (h.quiet (quiet_access x p.1)).quiet (quiet_attempted env chunk _ _),
      haccess.trans (.attempted haccess.ready env chunk _)⟩
  · have hattempted : Tells n x [] (x.attempted env chunk p) := .attempted hr env chunk p
    have hinv := h.quiet (quiet_attempted env chunk x p)
    rw [offer_of_notMem h.tabled hp]
    cases hdrop : x.dropFor env p.1 with
    | none => exact ⟨l, hinv, hattempted⟩
    | some i =>
        have hget := List.getElem?_eq_getElem (dropFor_lt h.tabled hdrop)
        simp only [disconnect_eq hinv.tabled hget]
        exact ⟨_, hinv.dropped hget, hattempted.trans (.dropped hattempted.ready hinv hget)⟩

/-- Sending tells at most who has gone. -/
theorem offers_tell (hr : x.Ready) (h : x.Inv l) (env : Env) (chunk : Option Chunk)
    (ps : List (SocketReceiver × Nat)) : Tells n x [] (ps.foldl (offer env chunk) x) := by
  induction ps generalizing x l with
  | nil => exact .refl hr
  | cons p ps ih =>
      rcases offer_tells hr h env chunk p with ⟨l', h', htells⟩
      exact htells.trans (ih htells.ready h')

/-- Information on a client is a remark. -/
theorem remark_client (argv : List Atom) (about : Option Nat) :
    Remark ⟨.statusout, "client", argv, about⟩ :=
  ⟨rfl, by simp, by simp⟩

/-- The sizes of its buffers are a remark. -/
theorem remark_bufsize (argv : List Atom) (about : Option Nat) :
    Remark ⟨.statusout, "bufsize", argv, about⟩ :=
  ⟨rfl, by simp, by simp⟩

/-- Information on a client reports no data and no change. -/
theorem reports_clientOutputs (l : List SocketReceiver) (env : Env) (i : Nat)
    (y : SocketReceiver) : Reports n l (clientOutputs env i y) [] l :=
  (Reports.event l .clientInfo).after
    ((Reports.remark l _ (remark_client _ _)).after (.remark l _ (remark_bufsize _ _)))

/-- Information on many clients tells nothing new. -/
theorem infoClients_tells (hr : x.Ready) (h : x.Inv l) (env : Env) (fuel i : Nat) :
    Tells n x [] (infoClients emit env x fuel i) := by
  induction fuel generalizing x i with
  | zero => exact .refl hr
  | succ fuel ih =>
      rw [infoClients, h.nconnections_eq]
      by_cases hi : i < l.length
      · have hget := List.getElem?_eq_getElem hi
        have hone : Tells n x [] (x.logged (clientOutputs env i l[i])) :=
          .logged hr (reports_clientOutputs _ env i l[i])
        rw [if_pos hi, infoClient_eq h env hget]
        exact hone.trans (ih hone.ready (h.logged _) (i + 1))
      · rw [if_neg hi]
        exact .refl hr

/-- Sending to a client by its number tells at most who has gone. -/
theorem sendClient_tells (hr : x.Ready) (h : x.Inv l) (argv : List Atom) :
    Tells n x [] (sendClient emit env x argv) := by
  cases argv with
  | nil => exact infoClients_tells hr h env _ 0
  | cons a rest =>
      cases rest with
      | nil =>
          rw [sendClient]
          cases hfix : x.fixindex (toInt32 (atomGetint a)) with
          | none => exact .refl hr
          | some i =>
              have hi : i < l.length := h.nconnections_eq ▸ (fixindex_eq_some.1 hfix).2
              simp only [if_true, infoClient_eq h env (List.getElem?_eq_getElem hi)]
              exact .logged hr (reports_clientOutputs _ env i _)
      | cons b rest =>
          rw [sendClient_eq h]
          exact offers_tell hr h env _ _

/-! ## Disconnecting -/

/-- Disconnecting tells who has gone. -/
theorem disconnect_tells (hr : x.Ready) (h : x.Inv l) {i : Nat} (hi : i < l.length) :
    Tells n x [] (disconnect emit x i) := by
  have hget := List.getElem?_eq_getElem hi
  rw [disconnect_eq h.tabled hget]
  exact .dropped hr h hget

/-- Disconnecting by the descriptor tells who has gone. -/
theorem disconnectSocket_tells (hr : x.Ready) (h : x.Inv l) (f : FloatArg) :
    Tells n x [] (disconnectSocket emit x f) := by
  rw [disconnectSocket_eq h.tabled]
  cases hdrop : x.dropIndex f with
  | none => exact .refl hr
  | some i => exact disconnect_tells hr h (dropIndex_lt h.tabled hdrop)

/-- Disconnecting everybody tells who has gone. -/
theorem disconnectAll_tells (hr : x.Ready) (h : x.Inv l) :
    Tells n x [] (disconnectAll emit x) := by
  rcases disconnectAllFrom_induct (P := fun x' _ => Tells n x [] x') (2 ^ 32) 0 h (.refl hr)
    (fun x₁ l₁ i y h₁ htells hi => htells.trans (.dropped htells.ready h₁ hi)) with
    ⟨l', -, htells⟩
  exact htells

/-! ## Connections -/

/-- A connection that is not admitted changes no more than the number of clients is
repeated. -/
theorem register_refused {o : Incoming} (hfd : 0 ≤ o.fd) (hout : ¬ x.Admits o) (id : Nat) :
    register emit x id o = x.closesocket o.fd ∨
      register emit x id o = (x.closesocket o.fd).logged (numconnOutputs x.nconnections) := by
  unfold register
  by_cases hacc : x.accepting = 0
  · right
    rw [if_pos hacc, numconnout_emit, closesocket, if_pos hfd]
  · left
    by_cases hfull : x.maxconnections ≤ x.nconnections
    · rw [if_neg hacc, if_pos hfull]
    · have hmem : o.mem ≠ true := fun hm => hout ⟨hfd, hacc, by omega, hm⟩
      rw [if_neg hacc, if_neg hfull, socketreceiverNew, if_neg hmem]

/-- A new client is reported. -/
theorem Tells.registered (hr : x.Ready) (h : x.Inv l) {o : Incoming} (hin : x.Admits o)
    (hfresh : FreshFd x o.fd) (hsmall : o.fd ≤ 2 ^ 24) (hn : n ≤ x.os.issued) :
    Tells n x [] (((x.logged (eventOutputs .connect)).registered l o).logged
      (connectionOutputs (x.newClient o) .illegal ++ numconnOutputs (l.length + 1))) := by
  have hinv := ((h.logged (eventOutputs .connect)).registered hin hfresh.2.1 hfresh.2.2).logged
    (connectionOutputs (x.newClient o) .illegal ++ numconnOutputs (l.length + 1))
  refine ⟨⟨eventOutputs .connect ++
    (connectionOutputs (x.newClient o) .illegal ++ numconnOutputs (l.length + 1)), ?_, ?_⟩,
    ?_, hr.wellTyped⟩
  · rw [said_logged]
    exact (congrArg (· ++ _) (said_logged x _)).trans (List.append_assoc _ _ _)
  · rw [hinv.clients_eq, h.clients_eq]
    exact .come l (x.newClient o) hn
  · rw [hinv.clients_eq]
    intro y hy
    cases List.mem_append.1 hy with
    | inl hold => exact hr.small_of_inv h y hold
    | inr hnew =>
        rw [List.mem_singleton.1 hnew]
        exact hsmall

/-- A new connection tells who has come. -/
theorem connectpoll_tells (hr : x.Ready) (h : x.Inv l) {fd : Int} {o : Incoming}
    (hfd : fd = x.connectsocket) (ho : o.Possible x) (hsmall : o.fd ≤ 2 ^ 24)
    (hn : n ≤ x.os.issued) : Tells n x [] (connectpoll emit x fd o) := by
  have hcount : ∀ x' : Server, x'.clients = l → x'.nconnections = l.length →
      Reports n x'.clients (numconnOutputs x'.nconnections) [] x'.clients := by
    intro x' hclients hn
    rw [hclients, hn]
    exact .count l
  rw [connectpoll, if_neg (not_not.2 hfd)]
  by_cases hfail : o.fd < 0
  · have hevent : Tells n x [] (x.logged (eventOutputs .connect)) := .logged hr (.event _ .connect)
    rw [if_pos hfail, infoEvent_emit, numconnout_emit]
    exact hevent.trans (.logged hevent.ready
      (hcount _ (h.logged _).clients_eq h.nconnections_eq))
  · have hfresh : FreshFd x o.fd := ho.resolve_left hfail
    have hpos : 0 ≤ o.fd := hfresh.1
    rw [if_neg hfail, infoEvent_emit]
    by_cases hin : x.Admits o
    · rw [register_admitted h hin]
      exact .registered hr h hin hfresh hsmall hn
    · have hopened : Tells n x [] (x.opened o.fd) := .unheard hr rfl rfl rfl
      have hevent : Tells n x [] ((x.opened o.fd).logged (eventOutputs .connect)) :=
        hopened.trans (.logged hopened.ready (.event _ .connect))
      have hclosed : Tells n x []
          (((x.opened o.fd).logged (eventOutputs .connect)).closesocket o.fd) := by
        rw [closesocket, if_pos hpos]
        exact hevent.trans (.unheard hevent.ready rfl rfl rfl)
      rcases register_refused (x := (x.opened o.fd).logged (eventOutputs .connect)) hpos hin
        x.os.issued with heq | heq
      · rw [heq]
        exact hclosed
      · rw [heq]
        refine hclosed.trans (.logged hclosed.ready ?_)
        rw [closesocket, if_pos hpos]
        exact hcount _ h.clients_eq h.nconnections_eq

/-! ## Receiving -/

/-- Putting out messages adds them to the log. -/
theorem foldl_emit_eq (x : Server) (messages : List Message) :
    messages.foldl (fun x m => emit x (.plain .msgout m.selector m.argv)) x =
      x.logged (messages.map fun m => .plain .msgout m.selector m.argv) := by
  induction messages generalizing x with
  | nil => exact logged_nil.symm
  | cons m messages ih =>
      rw [List.foldl_cons, emit_eq, ih, logged_logged]
      rfl

/-- Received data is reported under the socket of its client. -/
theorem receiveCallback_tells (hr : x.Ready) (h : x.Inv l) (hy : y ∈ l) (hold : y.id < n)
    {c : Chunk} (hlist : ListAvailable env.mem x.floatlist c.size) :
    Tells n x ((byteAtoms c.data).map fun a => (y, a))
      (receiveCallback emit env x y (some c)) := by
  have hfree := h.notFreed y hy
  rcases chunk2list_loads env.raw hr.wellTyped hlist with ⟨cl, hload, hwell, htake⟩
  have hfields : (x.logged (connectionOutputs y .receive)).floatlist = x.floatlist := rfl
  have heq : receiveCallback emit env x y (some c) = { x with floatlist := some cl }.logged
      (connectionOutputs y .receive ++ (byteMessages x.serialize c.data).map fun m : Message =>
        Output.plain .msgout m.selector m.argv) := by
    simp only [receiveCallback, access_of_notMem hfree, current_of_notMem hfree, h.owner y hy,
      not_true_eq_false, if_false, infoConnection_emit hfree, hfields, hload, foldl_emit_eq]
    rw [← logged_logged, ← streamout_eq htake]
    rfl
  have hready : { x with floatlist := some cl }.Ready := by
    refine ⟨hr.small, fun cl' hcl' => ?_⟩
    rw [← Option.some.inj hcl']
    exact hwell
  rw [heq]
  refine ⟨⟨_, said_logged _ _, ?_⟩, hready.small, hready.wellTyped⟩
  show Reports n x.clients _ _ x.clients
  rw [← byteMessages_argv x.serialize c.data, h.clients_eq]
  exact .data l y _ hy hold (hr.distinct h) h.ids_nodup

/-! ## Settings -/

/-- Choosing a default target tells nothing new. -/
theorem setDefaulttarget_tells (hr : x.Ready) (h : x.Inv l) (f : FloatArg) :
    Tells n x [] (setDefaulttarget x f) := by
  simp only [setDefaulttarget]
  split
  · exact .refl hr
  · rename_i hrange
    split
    · exact .unheard hr rfl rfl rfl
    · have hi : f.toInt.natAbs - 1 < l.length := by
        have := h.nconnections_eq
        omega
      have hfree := h.notFreed _ (List.getElem_mem hi)
      simp only [h.touch_eq hi, h.slot_eq, List.getElem?_eq_getElem hi, access_of_notMem hfree]
      exact .unheard hr rfl rfl rfl

/-- Another size of the table tells nothing new. -/
theorem setMaxconnections_tells (hr : x.Ready) (h : x.Inv l) (f : FloatArg) :
    Tells n x [] (setMaxconnections env x f) := by
  simp only [setMaxconnections]
  split
  · exact .refl hr
  · split
    · exact .refl hr
    · rename_i hroom
      split
      · exact .refl hr
      · split
        · have hle : l.length ≤ f.toUInt := h.nconnections_eq ▸ Nat.not_lt.1 hroom
          exact .unheard hr rfl ((h.resized hle f.toUInt_lt).clients_eq.trans h.clients_eq.symm)
            rfl
        · exact .refl hr

/-- A status message that is neither an event nor a count is a remark. -/
theorem remark_plain (selector : String) (argv : List Atom) (htype : selector ≠ "type")
    (hconn : selector ≠ "connections") : Remark (.plain .statusout selector argv) :=
  ⟨rfl, htype, hconn⟩

/-- An outlet call that is only a remark. -/
theorem Tells.remark (hr : x.Ready) {o : Output} (ho : Remark o) : Tells n x [] (emit x o) :=
  .logged hr (.remark _ o ho)

/-- Putting out an address tells nothing new. -/
theorem socket2addressout_tells (hr : x.Ready) (address : Option SockaddrIn) :
    Tells n x [] (socket2addressout emit x.abi x "local_address" address) := by
  cases address with
  | none => exact .refl hr
  | some address => exact .remark hr (remark_plain _ _ (by simp) (by simp))

/-- Information tells nothing new. -/
theorem info_tells (hr : x.Ready) : Tells n x [] (info emit env x) := by
  simp only [info]
  split
  · exact .refl hr
  · cases x.reportedPort env with
    | none => exact .refl hr
    | some port =>
        have hport : Tells n x [] { x with port := port } := .unheard hr rfl rfl rfl
        have hevent : Tells n x [] (infoEvent emit { x with port := port } .serverInfo) := by
          rw [infoEvent_emit]
          exact hport.trans (.logged hport.ready (.event _ .serverInfo))
        have haddress := hevent.trans (socket2addressout_tells hevent.ready env.address)
        have hport' := haddress.trans (.remark haddress.ready
          (remark_plain "port" [setInt port] (by simp) (by simp)))
        exact hport'.trans (.remark hport'.ready (remark_plain _ _ (by simp) (by simp)))

/-- Closing the port tells nothing new. -/
theorem closePort_tells (hr : x.Ready) (fd : Int) : Tells n x [] (x.closePort fd) := by
  unfold Server.closePort
  by_cases hfd : 0 ≤ fd
  · rw [if_pos hfd, closesocket, if_pos hfd]
    exact .unheard hr rfl rfl rfl
  · rw [if_neg hfd]
    exact .refl hr

/-- Setting the port tells nothing new. -/
theorem setPort_tells (hr : x.Ready) (f : FloatArg) (o : PortOutcome)
    (hfds : ∀ fd ∈ o.socket, 0 ≤ fd) : Tells n x [] (setPort emit env x f o) := by
  have hevent : Tells n x [] (infoEvent emit x .serverInfo) := by
    rw [infoEvent_emit]
    exact .logged hr (.event _ .serverInfo)
  have hport : Remark (.plain .statusout "port" [setInt (-1)]) :=
    remark_plain _ _ (by simp) (by simp)
  simp only [setPort]
  split
  · exact hevent
  · have hclosed := hevent.trans (closePort_tells hevent.ready x.connectsocket)
    cases hsocket : o.socket with
    | none => exact hclosed
    | some fd =>
        have hfd : 0 ≤ fd := hfds fd (by rw [hsocket]; rfl)
        generalize (infoEvent emit x .serverInfo).closePort x.connectsocket = x₁ at hclosed
        have hshut : Tells n x [] ({ x₁ with os := x₁.os.acquire fd }.closesocket fd) := by
          rw [closesocket_acquire x₁ hfd]
          exact hclosed.trans (.unheard hclosed.ready rfl rfl rfl)
        have hfailed := hshut.trans (.remark hshut.ready hport)
        by_cases hbind : o.bind = true
        · by_cases hlisten : o.listen = true
          · simp only [hbind, hlisten, not_true_eq_false, if_false]
            have hopened : Tells n x [] (x₁.listening fd (x₁.usedPort env f.toInt)) :=
              hclosed.trans (.unheard hclosed.ready rfl rfl rfl)
            have haddress := hopened.trans (socket2addressout_tells hopened.ready env.address)
            exact haddress.trans (.remark haddress.ready (remark_plain _ _ (by simp) (by simp)))
          · simp only [hbind, hlisten, not_true_eq_false, if_false]
            exact hfailed
        · simp only [hbind]
          exact hfailed

/-! ## All inputs -/

/-- What an input needs: a descriptor that is exact as a float, and room in the float list
for received data. -/
def Fitting (x : Server) (e : Env × Input) : Prop :=
  match e.2 with
  | .incoming _ o => o.fd ≤ 2 ^ 24
  | .received _ (some c) => ListAvailable e.1.mem x.floatlist c.size
  | _ => True

/-- The bytes that come in, with their descriptor. -/
def arrivals (e : Env × Input) : List (Int × Atom) :=
  match e.2 with
  | .received fd (some c) => (byteAtoms c.data).map fun a => (fd, a)
  | _ => []

/-- The same with the client instead of its descriptor. -/
def incomings (x : Server) : Input → List (SocketReceiver × Atom)
  | .received fd (some c) =>
      match x.pollfn fd with
      | some (some y) => (byteAtoms c.data).map fun a => (y, a)
      | _ => []
  | _ => []

/-- Every input is told to the patch: the change of the clients and the data. -/
theorem step_tells (hr : x.Ready) (h : x.Inv l) (hok : Fitting x (env, a))
    (hs : x.step emit env a = some x') : Tells x.os.issued x (x.incomings a) x' := by
  cases a with
  | incoming fd o =>
      simp only [step, Option.ite_none_right_eq_some, Option.some.injEq] at hs
      rcases hs with ⟨⟨hpoll, ho⟩, rfl⟩
      exact connectpoll_tells hr h (h.of_pollfn_none hpoll) ho hok le_rfl
  | received fd c =>
      simp only [step] at hs
      cases hpoll : x.pollfn fd with
      | none => simp [hpoll] at hs
      | some f =>
          cases f with
          | none => simp [hpoll] at hs
          | some y =>
              simp only [hpoll, Option.some.injEq] at hs
              subst hs
              rcases h.of_pollfn hpoll with ⟨hy, rfl, -⟩
              cases c with
              | none =>
                  simp only [receiveCallback, access_of_notMem (h.notFreed y hy),
                    current_of_notMem (h.notFreed y hy), h.owner y hy, not_true_eq_false,
                    if_false]
                  exact disconnectSocket_tells hr h _
              | some c =>
                  simp only [incomings, hpoll]
                  exact receiveCallback_tells hr h hy (h.id_lt hy) hok
  | disconnectClient f =>
      simp only [step, Option.some.injEq] at hs
      subst hs
      unfold disconnectClient
      cases hfix : x.fixindex f.toInt with
      | none => exact .refl hr
      | some i => exact disconnect_tells hr h (h.nconnections_eq ▸ (fixindex_eq_some.1 hfix).2)
  | disconnectSocket f =>
      simp only [step, Option.some.injEq] at hs
      exact hs ▸ disconnectSocket_tells hr h f
  | disconnectAll =>
      simp only [step, Option.some.injEq] at hs
      exact hs ▸ disconnectAll_tells hr h
  | sendSocket argv =>
      simp only [step, Option.some.injEq] at hs
      subst hs
      cases argv with
      | nil => exact .refl hr
      | cons a rest =>
          rw [sendSocket_eq h]
          exact offers_tell hr h env _ _
  | sendClient argv =>
      simp only [step, Option.some.injEq] at hs
      subst hs
      exact sendClient_tells hr h argv
  | broadcast argv =>
      simp only [step, Option.some.injEq] at hs
      subst hs
      rw [broadcast_eq h.tabled]
      exact offers_tell hr h env _ _
  | defaultsend argv =>
      simp only [step, Option.some.injEq] at hs
      subst hs
      rw [defaultsend_eq h]
      have hretarget : Tells x.os.issued x [] { x with defaulttarget := x.settledTarget } :=
        .unheard hr rfl rfl rfl
      exact hretarget.trans (offers_tell hretarget.ready (h.retarget _) env _ _)
  | defaulttarget f =>
      simp only [step, Option.some.injEq] at hs
      exact hs ▸ setDefaulttarget_tells hr h f
  | maxconnections f =>
      simp only [step, Option.some.injEq] at hs
      exact hs ▸ setMaxconnections_tells hr h f
  | port f o =>
      simp only [step, Option.ite_none_right_eq_some, Option.some.injEq] at hs
      rcases hs with ⟨ho, rfl⟩
      exact setPort_tells hr f o fun fd hfd => (ho fd hfd).1
  | info =>
      simp only [step, Option.some.injEq] at hs
      exact hs ▸ info_tells hr
  | targetsocket f | serialize f | accept f =>
      simp only [step, Option.some.injEq] at hs
      subst hs
      exact .unheard hr rfl rfl rfl

/-- A blank object is ready. -/
theorem ready_blank (abi : Abi) (env : Env) : (blank abi env).Ready := by
  constructor
  · rw [(inv_blank abi env).clients_eq]
    exact fun y hy => absurd hy List.not_mem_nil
  · exact fun cl hcl => wellTyped_of_floatlistCreate hcl

/-- A new object has told its patch nothing about clients. -/
theorem new_tells (abi : Abi) (f : FloatArg) {o : PortOutcome}
    (ho : o.Possible (blank abi env)) : Tells 0 (blank abi env) [] (new emit abi env f o) :=
  setPort_tells (ready_blank abi env) f o fun fd hfd => (ho fd hfd).1

/-! ## Whole runs -/

/-- A patch that has listened from the beginning knows the clients and what has come in from
each connection. -/
structure Followed (x : Server) (g : Nat → List Atom) : Prop where
  knows : (x.said.foldl Observer.hear Observer.start).Knows x.clients g
  fresh : ∀ id, x.os.issued ≤ id → g id = []

/-- An observer that follows goes on following what is told. -/
theorem Followed.tells {g : Nat → List Atom} {ps : List (SocketReceiver × Atom)}
    (h : x.Followed g) (ht : Tells x.os.issued x ps x')
    (hissued : x.os.issued ≤ x'.os.issued) : x'.Followed (collected g ps) := by
  rcases ht.said with ⟨os, hsaid, hreports⟩
  rcases hreports.knows h.knows h.fresh with ⟨hknows, hfresh⟩
  constructor
  · rw [hsaid, List.foldl_append]
    exact hknows
  · exact fun id hid => hfresh id (hissued.trans hid)

/-- Every input keeps the observer following. -/
theorem Followed.step {g : Nat → List Atom} (hf : x.Followed g) (hr : x.Ready) (h : x.Inv l)
    (hok : Fitting x (env, a)) (hs : x.step emit env a = some x') :
    x'.Followed (collected g (x.incomings a)) ∧ x'.Ready := by
  have htells := step_tells hr h hok hs
  exact ⟨hf.tells htells ((step_effect h hs).issued_le h), htells.ready⟩

/-- Nothing has come in to a new object. -/
theorem followed_new (hinit : tcpserverMachine.init x) :
    x.Followed (fun _ => []) ∧ x.Ready ∧ ∃ l, x.Inv l := by
  rcases hinit with ⟨abi, env, f, o, ho, rfl⟩
  have htells := new_tells abi f ho
  have heffect := new_effect abi f ho
  have hblank : (blank abi env).Followed fun _ => [] := by
    refine ⟨?_, fun _ _ => rfl⟩
    rw [(inv_blank abi env).clients_eq]
    exact ⟨rfl, rfl⟩
  have hnew := hblank.tells htells (heffect.issued_le (inv_blank abi env))
  rw [collected_nil] at hnew
  exact ⟨hnew, htells.ready, heffect.inv (inv_blank abi env)⟩

/-- In every fitting run the observer follows. -/
theorem reach_followed (h : tcpserverMachine.Reach Fitting x) :
    ∃ l, x.Inv l ∧ x.Ready ∧ ∃ g, x.Followed g := by
  apply h.invariant (I := fun x => ∃ l, x.Inv l ∧ x.Ready ∧ ∃ g, x.Followed g)
  · intro x hx
    rcases followed_new hx with ⟨hfollowed, hready, l, hl⟩
    exact ⟨l, hl, hready, _, hfollowed⟩
  · intro x e x' _ hx hok hs
    rcases hx with ⟨l, hl, hready, g, hfollowed⟩
    rcases (step_effect hl hs).inv hl with ⟨l', hl'⟩
    rcases hfollowed.step hready hl hok hs with ⟨hfollowed', hready'⟩
    exact ⟨l', hl', hready', _, hfollowed'⟩

/-- Data comes in on the descriptor of a client, which is exact as a float. -/
theorem step_arrivals (hr : x.Ready) (h : x.Inv l) (hs : x.step emit env a = some x') :
    heard (x.incomings a) = (arrivals (env, a)).map (fun p => (setInt p.1, p.2)) ∧
      ∀ p ∈ arrivals (env, a), p.1.natAbs ≤ 2 ^ 24 := by
  cases a with
  | received fd c =>
      cases c with
      | none => exact ⟨rfl, fun p hp => absurd hp List.not_mem_nil⟩
      | some c =>
          simp only [step] at hs
          split at hs
          · rename_i y hpoll
            rcases h.of_pollfn hpoll with ⟨hy, rfl, -⟩
            constructor
            · simp only [incomings, hpoll, heard, arrivals, List.map_map]
              rfl
            · intro p hp
              rcases List.mem_map.1 hp with ⟨b, -, rfl⟩
              have hlow := (h.range y hy).1
              have hhigh := hr.small_of_inv h y hy
              show y.fd.natAbs ≤ 2 ^ 24
              omega
          · contradiction
  | _ => exact ⟨rfl, fun p hp => absurd hp List.not_mem_nil⟩

/-- What is said along a run carries the data that comes in. -/
theorem run_carries (hr : x.Ready) (h : x.Inv l) {es : List (Env × Input)}
    (hmeets : tcpserverMachine.RunMeets Fitting x es)
    (hrun : tcpserverMachine.run x es = some x') :
    (∃ os, x'.said = x.said ++ os ∧ Carries (os.flatMap signals)
      ((es.flatMap arrivals).map fun p => (setInt p.1, p.2))) ∧
      ∀ p ∈ es.flatMap arrivals, p.1.natAbs ≤ 2 ^ 24 := by
  induction es generalizing x l with
  | nil =>
      rw [Machine.run_nil, Option.some.injEq] at hrun
      subst hrun
      exact ⟨⟨[], (List.append_nil _).symm, carries_nil⟩, fun p hp => absurd hp List.not_mem_nil⟩
  | cons e es ih =>
      rw [Machine.run_cons, Option.bind_eq_some_iff] at hrun
      rcases hrun with ⟨x₁, hs, hrest⟩
      have htells := step_tells hr h hmeets.1 hs
      rcases htells.said with ⟨os, hsaid, hreports⟩
      rcases step_arrivals hr h hs with ⟨hheard, hsmall⟩
      rcases (step_effect h hs).inv h with ⟨l₁, h₁⟩
      rcases ih htells.ready h₁ (hmeets.2 _ hs) hrest with ⟨⟨os', hsaid', hcarries⟩, hsmall'⟩
      rw [List.flatMap_cons]
      refine ⟨⟨os ++ os', ?_, ?_⟩, List.forall_mem_append.2 ⟨hsmall, hsmall'⟩⟩
      · rw [hsaid', hsaid, List.append_assoc]
      · rw [List.flatMap_append, List.map_append, ← hheard]
        exact hreports.carries.append hcarries

/-- The data of one descriptor among all that has come in. -/
theorem filter_arrivals {ps : List (Int × Atom)} (hps : ∀ p ∈ ps, p.1.natAbs ≤ 2 ^ 24)
    {fd : Int} (hfd : fd.natAbs ≤ 2 ^ 24) :
    ((ps.map fun p => (setInt p.1, p.2)).filter fun p => p.1 = setInt fd).map Prod.snd =
      (ps.filter fun p => p.1 = fd).map Prod.snd := by
  rw [List.filter_map, List.map_map]
  congr 1
  apply List.filter_congr
  intro p hp
  exact decide_eq_decide.2 (setInt_inj (hps p hp) hfd)

/-- An input that is fitting in any state: there is memory, and the descriptor is small. -/
def Ample (e : Env × Input) : Prop :=
  e.1.mem = true ∧ ∀ fd o, e.2 = .incoming fd o → o.fd ≤ 2 ^ 24

/-- An ample input is fitting in every state. -/
theorem Ample.fitting (x : Server) {e : Env × Input} (h : Ample e) : Fitting x e := by
  unfold Fitting
  split
  · rename_i heq
    exact h.2 _ _ heq
  · exact Or.inl h.1
  · trivial

/-- A run of ample inputs is fitting. -/
theorem runMeets_fitting (x : Server) {es : List (Env × Input)} (h : ∀ e ∈ es, Ample e) :
    tcpserverMachine.RunMeets Fitting x es :=
  (Machine.runMeets_of_forall x h).mono fun x _ he => he.fitting x

end Server

/-- A patch that only listens knows at any time which sockets are connected, in the order of
the client numbers, and how many. -/
theorem roster_current {x : Server} (h : tcpserverMachine.Reach Server.Fitting x) :
    let patch := x.said.foldl Observer.hear Observer.start
    patch.inbox.map Prod.fst = x.clients.map SocketReceiver.sock ∧
      patch.connections = some (setInt x.nconnections) ∧
      (x.clients.map SocketReceiver.sock).Nodup := by
  rcases Server.reach_followed h with ⟨l, hl, hready, g, hfollowed⟩
  refine ⟨?_, ?_, ?_⟩
  · rw [hfollowed.knows.inbox, List.map_map]
    rfl
  · rw [hfollowed.knows.connections, hl.clients_eq, hl.nconnections_eq]
  · rw [hl.clients_eq]
    exact hready.distinct hl

/-- Two clients send in turn; then the first one leaves. -/
def talkBetween : List (Env × Input) :=
  [(Server.plainEnv [], .incoming 3 (Server.caller 5)),
    (Server.plainEnv [], .incoming 3 (Server.caller 6)),
    (Server.plainEnv [], .received 5 (some ⟨[1#8, 2#8], 0, 0#16, afInet⟩)),
    (Server.plainEnv [], .received 6 (some ⟨[9#8], 0, 0#16, afInet⟩)),
    (Server.plainEnv [], .received 5 (some ⟨[3#8], 0, 0#16, afInet⟩)),
    (Server.plainEnv [], .received 5 none)]

/-- Every input of the run is fitting. -/
theorem fitting_talkBetween :
    tcpserverMachine.RunMeets Server.Fitting Server.started talkBetween := by
  apply Server.runMeets_fitting
  intro e he
  simp only [talkBetween, List.mem_cons, List.not_mem_nil, or_false] at he
  rcases he with rfl | rfl | rfl | rfl | rfl | rfl
  all_goals exact ⟨rfl, fun _ _ heq => by cases heq <;> decide⟩

/-- Of two clients that talk one leaves, and the observer has the other one in its roster. -/
theorem roster_current_run :
    ∃ x, tcpserverMachine.run Server.started talkBetween = some x ∧
      (x.said.foldl Observer.hear Observer.start).inbox.map Prod.fst = [setInt 6] := by
  have hend : (tcpserverMachine.run Server.started talkBetween).map
      (fun x => x.clients.map SocketReceiver.sock) = some [setInt 6] := by decide +kernel
  rcases Option.map_eq_some_iff.1 hend with ⟨x, hrun, hclients⟩
  have hreach := Machine.Reach.run (.start Server.init_started) fitting_talkBetween hrun
  exact ⟨x, hrun, (roster_current hreach).1.trans hclients⟩

/-- Data attributed to the number that was output last on the socket outlet is what was
received on that descriptor, byte for byte, whatever was said before and in between. -/
theorem data_attributed {x x' : Server} (h : tcpserverMachine.Reach Server.Fitting x)
    {es : List (Env × Input)} (hmeets : tcpserverMachine.RunMeets Server.Fitting x es)
    (hrun : tcpserverMachine.run x es = some x') :
    ∃ os, x'.said = x.said ++ os ∧
      (∀ t, attributed t (os.flatMap signals) =
        (es.flatMap Server.arrivals).map fun p => (some (setInt p.1), p.2)) ∧
      ∀ t fd, fd.natAbs ≤ 2 ^ 24 →
        channel (setInt fd) (attributed t (os.flatMap signals)) =
          ((es.flatMap Server.arrivals).filter fun p => p.1 = fd).map Prod.snd := by
  rcases Server.reach_followed h with ⟨l, hl, hready, -, -⟩
  rcases Server.run_carries hready hl hmeets hrun with ⟨⟨os, hsaid, hcarries⟩, hsmall⟩
  refine ⟨os, hsaid, fun t => ?_, fun t fd hfd => ?_⟩
  · rw [hcarries t, List.map_map]
    rfl
  · rw [hcarries.channel_eq, Server.filter_arrivals hsmall hfd]

/-- What the first client has sent is found in the output behind its descriptor. -/
theorem data_attributed_run :
    ∃ x os, tcpserverMachine.run Server.started talkBetween = some x ∧
      x.said = Server.started.said ++ os ∧
      channel (setInt 5) (attributed none (os.flatMap signals)) = [1, 2, 3].map setFloat := by
  have hend : (tcpserverMachine.run Server.started talkBetween).isSome = true := by
    decide +kernel
  rcases Option.isSome_iff_exists.1 hend with ⟨x, hrun⟩
  rcases data_attributed (.start Server.init_started) fitting_talkBetween hrun with
    ⟨os, hsaid, -, hchannel⟩
  refine ⟨x, os, hrun, hsaid, (hchannel none 5 (by decide)).trans ?_⟩
  decide +kernel

end Iemnet.TcpServer
