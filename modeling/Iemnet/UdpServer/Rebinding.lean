import Iemnet.UdpServer.Clients

/-!
# The socket of the UDP server under re-binding

{lit}`udpserver_do_bind` closes the old socket and stores a new receiver over the old
one, but neither removes the old poll function nor tells the clients.  What belongs to
the socket agrees with it as long as no bind replaces an open socket and no client is
entered while there is none.

Main results:

- Theorem {lit}`Settled.step`: one input that fits.
- Theorem {lit}`Settled.not_agrees`: an input that does not.
- Theorem {lit}`rebinding_agrees`: whole runs, and {lit}`udpserver_free` after them.
-/

namespace Iemnet.UdpServer

open Pd Foundations

namespace Server

variable {x : Server} {l : List UdpSender} {env : Env} {r : Receiver}

/-! ## What has to agree -/

/-- The registered receiver, the created receivers and the senders of the clients all
belong to the open socket, and there are none without one. -/
structure Agrees (x : Server) : Prop where
  opened : 0 ≤ x.connectsocket → x.connectsocket ∈ x.os.numbers
  polled : x.polls.map Prod.fst = if 0 ≤ x.connectsocket then [x.connectsocket] else []
  receivers : ∀ r ∈ x.receivers, x.receiver = some r
  senders : ∀ y ∈ x.clients, ∀ sockfd ∈ y.sender,
    0 ≤ x.connectsocket ∧ sockfd = x.connectsocket

/-- What an input asks {lit}`udpserver_do_bind` for. -/
def bindRequest (x : Server) : Input → Option (Option String × BitVec 16)
  | .port f _ => if f.value < 0 ∨ 0xFFFF ≤ f.toInt then none else some (none, f.toUShort)
  | .bind [a] _ _ => some (bindAddress a, x.port)
  | .bind [a, p] wild _ =>
      let fportno : FloatArg := ⟨atomGetfloat p, wild⟩
      if fportno.value < 0 ∨ 0xFFFF < fportno.toInt then none
      else some (bindAddress a, fportno.toUShort)
  | _ => none

/-- {lit}`udpserver_sender_add` enters the address with a sender. -/
def Enters (x : Server) (env : Env) (host : Nat) (port : BitVec 16) : Prop :=
  x.accept ≠ 0 ∧ (x.findSender host port).2 = none ∧ x.Room ∧ env.sender = true

/-- A bind asks for what is bound already or finds no open socket, and no client is
entered while no socket is open. -/
def Fitting (x : Server) (a : Env × Input) : Prop :=
  (∀ q ∈ x.bindRequest a.2, (x.port = q.2 ∧ x.ifaddr = q.1) ∨ x.connectsocket < 0) ∧
    (x.connectsocket < 0 → ∀ q ∈ x.addRequest a.1 a.2, ¬ x.Enters a.1 q.1 q.2)

/-! ## The invariant -/

/-- No socket has been bound yet. -/
structure Closed (x : Server) : Prop where
  connectsocket : x.connectsocket < 0
  receiver : x.receiver = none
  polls : x.polls = []
  receivers : x.receivers = []

/-- The socket is open and {lit}`r` listens to it. -/
structure Open (x : Server) (r : Receiver) : Prop where
  connectsocket : 0 ≤ x.connectsocket
  number : x.connectsocket ∈ x.os.numbers
  receiver : x.receiver = some r
  sockfd : r.sockfd = x.connectsocket
  polls : x.polls = [(x.connectsocket, r)]
  receivers : x.receivers = [r]
  id_lt : r.id < x.receiversMade

/-- The table is in order; without a socket no client has a sender, with one all senders
write to it. -/
structure Settled (x : Server) (l : List UdpSender) : Prop where
  registers : x.Registers l
  state : x.Closed ∨ ∃ r, x.Open r
  senders : ∀ y ∈ l, ∀ sockfd ∈ y.sender, 0 ≤ x.connectsocket ∧ sockfd = x.connectsocket

/-- In a settled state the object and its receiver agree. -/
theorem Settled.agrees (h : x.Settled l) : x.Agrees := by
  have hsenders : ∀ y ∈ x.clients, ∀ sockfd ∈ y.sender,
      0 ≤ x.connectsocket ∧ sockfd = x.connectsocket := by
    rw [h.registers.holds.clients_eq]
    exact h.senders
  rcases h.state with hclosed | ⟨r, hopen⟩
  · refine ⟨fun hpos => ?_, ?_, ?_, hsenders⟩
    · exact absurd hpos (not_le.2 hclosed.connectsocket)
    · rw [hclosed.polls, if_neg (not_le.2 hclosed.connectsocket)]
      rfl
    · rw [hclosed.receivers]
      rintro _ ⟨⟩
  · refine ⟨fun _ => hopen.number, ?_, ?_, hsenders⟩
    · rw [hopen.polls, if_pos hopen.connectsocket]
      rfl
    · intro r' hr'
      rw [hopen.receivers, List.mem_singleton] at hr'
      rw [hr']
      exact hopen.receiver

/-! ## Binding -/

/-- The message {lit}`port` is a call of {lit}`udpserver_do_bind` with what it asks for. -/
theorem setPort_eq (x : Server) (f : FloatArg) (o : BindOutcome) :
    x.setPort env f o =
      match x.bindRequest (.port f o) with
      | none => x
      | some q => x.doBind env q.1 q.2 o := by
  simp only [setPort, bindRequest]
  split <;> rfl

/-- The message {lit}`bind` is a call of {lit}`udpserver_do_bind` with what it asks for. -/
theorem bind_eq (x : Server) (argv : List Atom) (wild : BitVec 32) (o : BindOutcome) :
    x.bind env argv wild o =
      match x.bindRequest (.bind argv wild o) with
      | none => x
      | some q => x.doBind env q.1 q.2 o := by
  match argv with
  | [] => rfl
  | [a] => rfl
  | [a, p] =>
      simp only [bind, bindRequest]
      split <;> rfl
  | a :: p :: b :: rest => rfl

theorem closed_closesocket (h : x.Closed) (sockfd : Int) : (x.closesocket sockfd).Closed := by
  unfold closesocket
  split
  · exact ⟨h.connectsocket, h.receiver, h.polls, h.receivers⟩
  · exact h

theorem closed_logged (h : x.Closed) (outputs : List Output) : (x.logged outputs).Closed :=
  ⟨h.connectsocket, h.receiver, h.polls, h.receivers⟩

theorem open_logged (h : x.Open r) (outputs : List Output) : (x.logged outputs).Open r :=
  ⟨h.connectsocket, h.number, h.receiver, h.sockfd, h.polls, h.receivers, h.id_lt⟩

/-- A server without a socket that binds one. -/
theorem open_listenOn (h : x.Closed) (hreceiver : env.receiver = true) {sockfd : Int}
    (hpos : 0 ≤ sockfd) (hmem : sockfd ∈ x.os.numbers) (ifaddr : Option String)
    (portno : BitVec 16) :
    ∃ r, (x.listenOn env ifaddr portno sockfd).Open r := by
  refine ⟨⟨x.receiversMade, sockfd⟩, ?_⟩
  unfold listenOn
  simp only [receiverCreate, hreceiver, if_true, socket2addressout_eq, emit_eq, logged_logged]
  apply open_logged
  constructor
  · exact hpos
  · exact hmem
  · rfl
  · rfl
  · show x.polls ++ _ = _
    rw [h.polls]
    rfl
  · show x.receivers ++ _ = _
    rw [h.receivers]
    rfl
  · exact Nat.lt_succ_self x.receiversMade

/-- A bind that finds no open socket leaves the server closed or opens it. -/
theorem doBind_of_closed (h : x.Closed) (hreceiver : env.receiver = true)
    (ifaddr : Option String) (portno : BitVec 16) {o : BindOutcome} (ho : o.Possible x) :
    (x.doBind env ifaddr portno o).Closed ∨ ∃ r, (x.doBind env ifaddr portno o).Open r := by
  have hsame : x.closePort = x := by
    rw [closePort, if_neg (not_le.2 h.connectsocket)]
  unfold doBind
  split
  · exact Or.inl h
  · dsimp only
    rw [hsame]
    cases hsocket : o.socket with
    | none => exact Or.inl h
    | some sockfd =>
        have hpos : 0 ≤ sockfd := (ho sockfd hsocket).1
        have hacquired : ({ x with os := x.os.acquire sockfd } : Server).Closed :=
          ⟨h.connectsocket, h.receiver, h.polls, h.receivers⟩
        have hmem : sockfd ∈ (x.os.acquire sockfd).numbers := by
          simp [Descriptors.acquire, Descriptors.numbers]
        dsimp only
        split
        · exact Or.inl (closed_closesocket hacquired sockfd)
        · split
          · exact Or.inl (closed_logged (closed_closesocket hacquired sockfd) _)
          · exact Or.inr (open_listenOn hacquired hreceiver hpos hmem ifaddr portno)

/-- A bind that fits keeps the invariant. -/
theorem Settled.doBind (h : x.Settled l) (hreceiver : env.receiver = true)
    {ifaddr : Option String} {portno : BitVec 16} {o : BindOutcome} (ho : o.Possible x)
    (hfit : (x.port = portno ∧ x.ifaddr = ifaddr) ∨ x.connectsocket < 0) :
    (x.doBind env ifaddr portno o).Settled l := by
  by_cases hsame : x.port = portno ∧ x.ifaddr = ifaddr
  · rw [Server.doBind, if_pos hsame]
    exact h
  · have hneg : x.connectsocket < 0 := hfit.resolve_left hsame
    have hclosed : x.Closed := by
      rcases h.state with hclosed | ⟨r, hopen⟩
      · exact hclosed
      · exact absurd hopen.connectsocket (not_le.2 hneg)
    refine ⟨(SameTable.of_unbound (unbound_doBind x env _ _ o)).registers h.registers,
      doBind_of_closed hclosed hreceiver ifaddr portno ho, ?_⟩
    intro y hy sockfd hsockfd
    exact absurd (h.senders y hy sockfd hsockfd).1 (not_le.2 hneg)

/-- What is left of the old receiver when a bind replaces an open socket. -/
theorem doBind_of_open (env : Env) (h : x.Open r) {ifaddr : Option String} {portno : BitVec 16}
    (hne : ¬ (x.port = portno ∧ x.ifaddr = ifaddr)) (o : BindOutcome) :
    let x' := x.doBind env ifaddr portno o
    (x'.connectsocket = -1 ∧ x'.polls = x.polls) ∨
      (r ∈ x'.receivers ∧ x'.receiver ≠ some r) := by
  have hclose : x.closePort =
      { x with
        os := x.os.close x.connectsocket
        connectsocket := -1
        port := BitVec.ofInt 16 (-1)
        ifaddr := none } := by
    rw [closePort, if_pos h.connectsocket, closesocket, if_pos h.connectsocket]
  intro x'
  simp only [x', Server.doBind, if_neg hne, hclose]
  cases o.socket with
  | none => exact Or.inl ⟨rfl, rfl⟩
  | some sockfd =>
      dsimp only
      split
      · left
        unfold closesocket
        split <;> exact ⟨rfl, rfl⟩
      · split
        · left
          unfold closesocket
          split <;> exact ⟨rfl, rfl⟩
        · right
          simp only [listenOn, socket2addressout_eq, emit_eq, logged_logged]
          have hmem : r ∈ x.receivers := by
            rw [h.receivers]
            exact List.mem_singleton_self r
          unfold receiverCreate
          split
          · refine ⟨List.mem_append_left _ hmem, fun heq => ?_⟩
            have hid : x.receiversMade = r.id := congrArg Receiver.id (Option.some.inj heq)
            exact absurd h.id_lt (by omega)
          · exact ⟨hmem, by rintro ⟨⟩⟩

/-- An open server that is bound anew loses the agreement. -/
theorem not_agrees_doBind (h : x.Open r) {ifaddr : Option String} {portno : BitVec 16}
    (hne : ¬ (x.port = portno ∧ x.ifaddr = ifaddr)) (o : BindOutcome) :
    ¬ (x.doBind env ifaddr portno o).Agrees := by
  intro hagrees
  rcases doBind_of_open env h hne o with ⟨hnone, hpolls⟩ | ⟨hmem, hother⟩
  · have hpolled := hagrees.polled
    rw [hnone, hpolls, h.polls] at hpolled
    exact absurd hpolled (by simp)
  · exact hother (hagrees.receivers r hmem)

/-! ## Entering clients -/

/-- What {lit}`udpserver_sender_add` leaves alone. -/
structure SameSocket (x x' : Server) : Prop where
  connectsocket : x'.connectsocket = x.connectsocket
  receiver : x'.receiver = x.receiver
  polls : x'.polls = x.polls
  receivers : x'.receivers = x.receivers
  receiversMade : x'.receiversMade = x.receiversMade
  os : x'.os = x.os

/-- A step that leaves the socket alone leaves it open or closed. -/
theorem SameSocket.state {x' : Server} (hsame : SameSocket x x')
    (h : x.Closed ∨ ∃ r, x.Open r) : x'.Closed ∨ ∃ r, x'.Open r := by
  rcases h with hclosed | ⟨r, hopen⟩
  · left
    exact ⟨by rw [hsame.connectsocket]; exact hclosed.connectsocket,
      hsame.receiver.trans hclosed.receiver, hsame.polls.trans hclosed.polls,
      hsame.receivers.trans hclosed.receivers⟩
  · right
    refine ⟨r, ?_, ?_, hsame.receiver.trans hopen.receiver, ?_, ?_,
      hsame.receivers.trans hopen.receivers, ?_⟩
    · rw [hsame.connectsocket]
      exact hopen.connectsocket
    · rw [hsame.connectsocket, hsame.os]
      exact hopen.number
    · rw [hsame.connectsocket]
      exact hopen.sockfd
    · rw [hsame.connectsocket, hsame.polls]
      exact hopen.polls
    · rw [hsame.receiversMade]
      exact hopen.id_lt

theorem Settled.sameSocket (h : x.Settled l) {x' : Server} (htable : SameTable x x')
    (hsame : SameSocket x x') : x'.Settled l := by
  refine ⟨htable.registers h.registers, hsame.state h.state, ?_⟩
  rw [hsame.connectsocket]
  exact h.senders

/-- The cases of {lit}`udpserver_sender_add` on a table in order: the clients keep their
senders, or one client is entered. -/
theorem senderAdd_cases (h : x.Registers l) (hclient : env.client = true) (host : Nat)
    (port : BitVec 16) :
    SameSocket x (x.senderAdd env host port).1 ∧
      ((∃ l', (x.senderAdd env host port).1.Holds l' ∧
          l'.map UdpSender.sender = l.map UdpSender.sender ∧
          ¬ x.Enters env host port) ∨
        ((x.senderAdd env host port).1.Holds (l ++ [newSender env x host port]) ∧
          (x.Enters env host port ↔ env.sender = true))) := by
  by_cases haccept : x.accept = 0
  · rw [senderAdd, if_pos haccept]
    exact ⟨⟨rfl, rfl, rfl, rfl, rfl, rfl⟩, Or.inl ⟨l, h.holds, rfl, fun hent => hent.1 haccept⟩⟩
  · rcases findSender_cases h.holds host port with ⟨hfind, -⟩ | ⟨id, y, hid, -, hfind⟩
    · by_cases hroom : x.Room
      · rw [senderAdd_new h.holds haccept hclient hfind hroom]
        refine ⟨⟨rfl, rfl, rfl, rfl, rfl, rfl⟩,
          Or.inr ⟨h.holds.entered env host port hroom, ?_⟩⟩
        constructor
        · exact fun hent => hent.2.2.2
        · exact fun hsender => ⟨haccept, by rw [hfind], hroom, hsender⟩
      · rw [senderAdd_full h.holds haccept hfind hroom]
        exact ⟨⟨rfl, rfl, rfl, rfl, rfl, rfl⟩,
          Or.inl ⟨l, h.holds, rfl, fun hent => hroom hent.2.2.1⟩⟩
    · rw [senderAdd_known h.holds haccept hid hfind]
      refine ⟨⟨rfl, rfl, rfl, rfl, rfl, rfl⟩, Or.inl ⟨_, h.holds.heard env hid, ?_, ?_⟩⟩
      · exact map_set_seenNow UdpSender.sender hid rfl
      · intro hent
        have hnone := hent.2.1
        rw [hfind] at hnone
        cases hnone

/-- Senders are in order after an address has been handed over, unless a client has been
entered without a socket. -/
theorem Settled.senderAdd (h : x.Settled l) (hclient : env.client = true) {host : Nat}
    (hhost : host < 2 ^ x.abi.longBits) (port : BitVec 16)
    (hfit : x.connectsocket < 0 → ¬ x.Enters env host port) :
    ∃ l', (x.senderAdd env host port).1.Settled l' := by
  rcases h.registers.senderAdd hclient hhost port with ⟨k, hk⟩
  rcases senderAdd_cases h.registers hclient host port with ⟨hsame, hcases⟩
  refine ⟨k, hk, hsame.state h.state, ?_⟩
  rw [hsame.connectsocket]
  rcases hcases with ⟨l', hl', hsenders, -⟩ | ⟨hl', hent⟩
  · have heq : k = l' := by rw [← hk.holds.clients_eq, hl'.clients_eq]
    subst heq
    intro y hy sockfd hsockfd
    have hmem : y.sender ∈ l.map UdpSender.sender := by
      rw [← hsenders]
      exact List.mem_map_of_mem hy
    rcases List.mem_map.1 hmem with ⟨y₀, hy₀, heq⟩
    exact h.senders y₀ hy₀ sockfd (heq ▸ hsockfd)
  · have heq : k = l ++ [newSender env x host port] := by
      rw [← hk.holds.clients_eq, hl'.clients_eq]
    subst heq
    intro y hy sockfd hsockfd
    rcases List.mem_append.1 hy with hold | hnew
    · exact h.senders y hold sockfd hsockfd
    · rw [List.mem_singleton.1 hnew] at hsockfd
      have hsome : (if env.sender then some x.connectsocket else none) = some sockfd := hsockfd
      split at hsome
      · rename_i hsender
        refine ⟨?_, (Option.some.inj hsome).symm⟩
        by_contra hneg
        exact hfit (not_le.1 hneg) (hent.2 hsender)
      · cases hsome

/-- Without a socket a new client breaks the agreement. -/
theorem not_agrees_senderAdd (h : x.Settled l) (hclient : env.client = true) {host : Nat}
    {port : BitVec 16} (hneg : x.connectsocket < 0) (henters : x.Enters env host port) :
    ¬ (x.senderAdd env host port).1.Agrees := by
  intro hagrees
  rcases senderAdd_cases h.registers hclient host port with ⟨hsame, hcases⟩
  rcases hcases with ⟨_, _, _, hnot⟩ | ⟨hl', -⟩
  · exact hnot henters
  · have hmem : newSender env x host port ∈ (x.senderAdd env host port).1.clients := by
      rw [hl'.clients_eq]
      exact List.mem_append_right _ (List.mem_singleton_self _)
    have hsender : x.connectsocket ∈ (newSender env x host port).sender := by
      simp [newSender, henters.2.2.2]
    have hpos := (hagrees.senders _ hmem _ hsender).1
    rw [hsame.connectsocket] at hpos
    exact absurd hpos (not_le.2 hneg)

theorem sameSocket_receiveCallback (x : Server) (c : Chunk) :
    SameSocket (x.senderAdd env (x.abi.toULong c.addr) c.port).1
      (x.receiveCallback env (some c)) := by
  unfold receiveCallback
  dsimp only
  rcases x.senderAdd env (x.abi.toULong c.addr) c.port with ⟨x₁, _ | sdr⟩
  · exact ⟨rfl, rfl, rfl, rfl, rfl, rfl⟩
  · simp only [infoConnection_eq, numconnout_eq]
    split <;> split <;> exact ⟨rfl, rfl, rfl, rfl, rfl, rfl⟩

end Server

/-! ## Runs -/

/-- The inputs that bind the socket or enter clients, while allocations succeed. -/
def rebinding (a : Env × Input) : Bool :=
  a.1.client && a.1.receiver &&
    match a.2 with
    | .received _ _ | .addClient _ _ | .bind _ _ _ | .port _ _ => true
    | _ => false

/-- The server as it is created, bound again and written to. -/
def rebindingMachine : Machine Server (Env × Input) where
  init x := ∃ abi env k f o, env.receiver = true ∧
    BindOutcome.Possible (Server.blank abi env (toInt32 (1000 + (k : Nat)))) o ∧
    x = Server.new abi env (toInt32 (1000 + k)) f o
  step x a := if rebinding a then x.step a.1 a.2 else none

namespace Server

variable {x x' : Server} {l : List UdpSender} {a : Env × Input}

/-- In the runs of this machine the records and receivers are allocated. -/
theorem rebinding_step (hstep : rebindingMachine.step x a = some x') :
    a.1.client = true ∧ a.1.receiver = true ∧ x.step a.1 a.2 = some x' := by
  simp only [rebindingMachine] at hstep
  split at hstep
  · rename_i hdomain
    simp only [rebinding, Bool.and_eq_true] at hdomain
    exact ⟨hdomain.1.1, hdomain.1.2, hstep⟩
  · cases hstep

/-- A step with a request to bind is a call of {lit}`udpserver_do_bind`. -/
theorem step_bindRequest {q : Option String × BitVec 16} {env : Env} {a : Input}
    (hq : x.bindRequest a = some q) (hstep : x.step env a = some x') :
    ∃ o, BindOutcome.Possible x o ∧ x' = x.doBind env q.1 q.2 o := by
  cases a with
  | port f o =>
      simp only [step] at hstep
      split at hstep
      · rename_i ho
        rw [setPort_eq, hq, Option.some.injEq] at hstep
        exact ⟨o, ho, hstep.symm⟩
      · cases hstep
  | bind argv wild o =>
      simp only [step] at hstep
      split at hstep
      · rename_i ho
        rw [bind_eq, hq, Option.some.injEq] at hstep
        exact ⟨o, ho, hstep.symm⟩
      · cases hstep
  | _ => simp [bindRequest] at hq

/-- A step with a request to add is a call of {lit}`udpserver_sender_add`. -/
theorem step_addRequest {q : Nat × BitVec 16} {env : Env} {a : Input}
    (hq : x.addRequest env a = some q) (hstep : x.step env a = some x') :
    x' = (x.senderAdd env q.1 q.2).1 := by
  cases a with
  | addClient s f =>
      simp only [step] at hstep
      rw [addClient_eq, hq, Option.some.injEq] at hstep
      exact hstep.symm
  | _ => cases hq

/-- An input that fits keeps the invariant. -/
theorem Settled.step (h : x.Settled l) (hfit : x.Fitting a)
    (hstep : rebindingMachine.step x a = some x') : ∃ l', x'.Settled l' := by
  rcases rebinding_step hstep with ⟨hclient, hreceiver, hs⟩
  have hdomain : rebinding a = true := by
    by_contra hout
    simp [rebindingMachine, hout] at hstep
  rcases a with ⟨env, a⟩
  cases hbind : x.bindRequest a with
  | some q =>
      rcases step_bindRequest hbind hs with ⟨o, ho, rfl⟩
      exact ⟨l, h.doBind hreceiver ho (hfit.1 q hbind)⟩
  | none =>
      cases hadd : x.addRequest env a with
      | some q =>
          rw [step_addRequest hadd hs]
          exact h.senderAdd hclient (addRequest_lt hadd) q.2 fun hneg => hfit.2 hneg q hadd
      | none =>
          cases a with
          | received fd c =>
              simp only [Server.step] at hs
              split at hs
              · rename_i hpolled
                rw [Option.some.injEq] at hs
                subst hs
                cases c with
                | none => exact ⟨l, h⟩
                | some c =>
                    have hopen : ¬ x.connectsocket < 0 := by
                      rcases h.state with hclosed | ⟨r, hopen⟩
                      · rw [hclosed.polls] at hpolled
                        cases hpolled
                      · exact not_lt.2 hopen.connectsocket
                    rcases h.senderAdd hclient (x.abi.toULong_lt c.addr) c.port
                      (fun hneg => absurd hneg hopen) with ⟨l', hl'⟩
                    exact ⟨l', hl'.sameSocket (sameTable_receiveCallback x c)
                      (sameSocket_receiveCallback x c)⟩
              · cases hs
          | addClient s f =>
              simp only [Server.step] at hs
              rw [addClient_eq, hadd, Option.some.injEq] at hs
              exact ⟨l, hs ▸ h⟩
          | bind argv wild o =>
              simp only [Server.step] at hs
              split at hs
              · rw [bind_eq, hbind, Option.some.injEq] at hs
                exact ⟨l, hs ▸ h⟩
              · cases hs
          | port f o =>
              simp only [Server.step] at hs
              split at hs
              · rw [setPort_eq, hbind, Option.some.injEq] at hs
                exact ⟨l, hs ▸ h⟩
              · cases hs
          | _ => simp [rebinding] at hdomain

/-- After an input that does not fit something disagrees. -/
theorem Settled.not_agrees (h : x.Settled l) (hfit : ¬ x.Fitting a)
    (hstep : rebindingMachine.step x a = some x') : ¬ x'.Agrees := by
  rcases rebinding_step hstep with ⟨hclient, -, hs⟩
  unfold Fitting at hfit
  rw [not_and_or] at hfit
  rcases hfit with hbind | hadd
  · push Not at hbind
    rcases hbind with ⟨q, hq, hne, hpos⟩
    rcases step_bindRequest hq hs with ⟨o, -, rfl⟩
    rcases h.state with hclosed | ⟨r, hopen⟩
    · exact absurd hclosed.connectsocket (not_lt.2 hpos)
    · exact not_agrees_doBind hopen (fun hboth => hne hboth.1 hboth.2) o
  · push Not at hadd
    rcases hadd with ⟨hneg, q, hq, henters⟩
    rw [step_addRequest hq hs]
    exact not_agrees_senderAdd h hclient hneg henters

/-- A new object is closed or has its socket. -/
theorem settled_new (hx : rebindingMachine.init x) : x.Settled [] := by
  rcases hx with ⟨abi, env, k, f, o, hreceiver, ho, rfl⟩
  have hblank : (blank abi env (toInt32 (1000 + k))).Settled [] :=
    ⟨⟨⟨rfl, rfl, by simp [blank], by simp⟩, List.nodup_nil⟩,
      Or.inl ⟨by simp [blank], rfl, rfl, rfl⟩, by rintro _ ⟨⟩⟩
  have hport : (setPort env (blank abi env (toInt32 (1000 + k))) f o).Settled [] := by
    rw [setPort_eq]
    split
    · exact hblank
    · exact hblank.doBind hreceiver ho (Or.inr (by simp [blank]))
  exact hport.sameSocket ⟨rfl, rfl, rfl⟩ ⟨rfl, rfl, rfl, rfl, rfl, rfl⟩

/-! ## Freeing the object -/

theorem freeSlots_socket (m i : Nat) (x : Server) :
    (x.freeSlots m i).receiver = x.receiver ∧ (x.freeSlots m i).polls = x.polls := by
  induction m generalizing x i with
  | zero => exact ⟨rfl, rfl⟩
  | succ m ih =>
      have htouch : (x.touch i).receiver = x.receiver ∧ (x.touch i).polls = x.polls := by
        unfold touch
        split <;> exact ⟨rfl, rfl⟩
      rw [freeSlots]
      split
      · rw [(ih (i + 1) _).1, (ih (i + 1) _).2]
        exact htouch
      · rename_i y _
        have hset : (((x.touch i).senderFree y).setSlot i none).receiver = x.receiver ∧
            (((x.touch i).senderFree y).setSlot i none).polls = x.polls := by
          rw [senderFree_eq]
          unfold setSlot touch
          split <;> split <;> exact ⟨rfl, rfl⟩
        rw [(ih (i + 1) _).1, (ih (i + 1) _).2]
        exact hset

theorem dropSocket_polls (x : Server) : x.dropSocket.polls = x.polls := by
  unfold dropSocket
  split
  · show (x.closesocket x.connectsocket).polls = x.polls
    unfold closesocket
    split <;> rfl
  · rfl

/-- {lit}`udpserver_free` removes the poll function of the receiver it knows. -/
theorem free_polls (x : Server) :
    x.free.polls =
      match x.receiver with
      | none => x.polls
      | some r => x.polls.eraseP fun p => p.1 = r.sockfd := by
  have hslots := freeSlots_socket x.maxconnections 0 x
  have hdrop : x.free.polls = { x.freeSlots x.maxconnections 0 with sr := [] }.dropReceiver.polls :=
    dropSocket_polls _
  rw [hdrop]
  simp only [dropReceiver, hslots.1]
  cases x.receiver with
  | none => exact hslots.2
  | some r => exact congrArg (List.eraseP fun p => p.1 = r.sockfd) hslots.2

/-- A settled server leaves nothing behind in the poll list when it is deleted. -/
theorem Settled.free_polls (h : x.Settled l) : x.free.polls = [] := by
  rw [Server.free_polls]
  rcases h.state with hclosed | ⟨r, hopen⟩
  · rw [hclosed.receiver]
    exact hclosed.polls
  · rw [hopen.receiver]
    simp [hopen.polls, hopen.sockfd]

end Server

/-- In a run whose inputs all fit, the registered receiver, the created receivers and the
senders of the clients belong to the open socket, and no descriptor is registered after
{lit}`udpserver_free`; after a further input that holds exactly if it fits, too. -/
theorem rebinding_agrees {x : Server} (h : rebindingMachine.Reach Server.Fitting x) :
    x.Agrees ∧ x.free.polls = [] ∧
      ∀ a x', rebindingMachine.step x a = some x' → (x'.Agrees ↔ x.Fitting a) := by
  have hsettled : ∃ l, x.Settled l := by
    apply h.invariant (I := fun x => ∃ l, x.Settled l)
    · exact fun x hx => ⟨[], Server.settled_new hx⟩
    · rintro x a x' _ ⟨l, hl⟩ hfit hs
      exact hl.step hfit hs
  rcases hsettled with ⟨l, hl⟩
  refine ⟨hl.agrees, hl.free_polls, fun a x' hs => ⟨fun hagrees => ?_, fun hfit => ?_⟩⟩
  · by_contra hfit
    exact hl.not_agrees hfit hs hagrees
  · rcases hl.step hfit hs with ⟨l', hl'⟩
    exact hl'.agrees

theorem rebinding_started : rebindingMachine.init started := by
  refine ⟨_, _, 0, _, _, rfl, ?_, rfl⟩
  intro fd hfd
  have hthree : fd = 3 := (Option.some.inj hfd).symm
  subst hthree
  decide

/-- One client is added and another one writes; then port {lit}`f` is bound. -/
def heardAndBound (f : ℚ) : List (Env × Input) :=
  [(plainEnv 0 [], .addClient "localhost" ⟨5000, 0#32⟩),
    (plainEnv 0 [], .received 3 (some (datagram 5001#16))),
    (plainEnv 0 [], .port ⟨f, 0#32⟩ ⟨some 4, true⟩)]

theorem fitting_heardAndBound :
    rebindingMachine.RunMeets Server.Fitting started (heardAndBound 3000) := by
  have hadd : started.Fitting (plainEnv 0 [], .addClient "localhost" ⟨5000, 0#32⟩) :=
    ⟨by rintro _ ⟨⟩, fun hneg => absurd hneg (by decide +kernel)⟩
  refine ⟨hadd, fun x₁ h₁ => ?_⟩
  refine ⟨⟨by rintro _ ⟨⟩, fun _ => by rintro _ ⟨⟩⟩, fun x₂ h₂ => ?_⟩
  refine ⟨⟨fun q hq => Or.inl ?_, fun _ => by rintro _ ⟨⟩⟩, fun _ _ => trivial⟩
  cases h₁
  cases h₂
  have hrequest : q = (none, 3000#16) := by
    apply Option.some.inj
    rw [← hq]
    decide +kernel
  subst hrequest
  decide +kernel

theorem rebinding_agrees_run :
    ∃ x, rebindingMachine.run started (heardAndBound 3000) = some x ∧ x.nconnections = 2 ∧
      x.Agrees ∧ x.free.polls = [] := by
  have hrun : rebindingMachine.run started (heardAndBound 3000) = some _ := rfl
  have hreach := Foundations.Machine.Reach.run (.start rebinding_started)
    fitting_heardAndBound hrun
  have hagrees := rebinding_agrees hreach
  exact ⟨_, hrun, by decide +kernel, hagrees.1, hagrees.2.1⟩

/-- After another port has been bound the old descriptor is still registered, the old
receiver is lost, and the clients still write to the old socket; the old descriptor stays
registered after {lit}`udpserver_free`. -/
theorem rebinding_leaves_receiver :
    ∃ x, rebindingMachine.Reachable x ∧ x.connectsocket = 4 ∧
      x.polls.map Prod.fst = [3, 4] ∧ x.receivers.length = 2 ∧
      x.clients.map UdpSender.sender = [some 3, some 3] ∧ x.free.polls.map Prod.fst = [3] := by
  have hrun : rebindingMachine.run started (heardAndBound 3001) = some _ := rfl
  exact ⟨_, Foundations.Machine.reach_of_run rebinding_started hrun, by decide +kernel,
    by decide +kernel, by decide +kernel, by decide +kernel, by decide +kernel⟩

end Iemnet.UdpServer
