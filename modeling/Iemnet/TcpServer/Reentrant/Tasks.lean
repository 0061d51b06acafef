import Iemnet.TcpServer.Broadcast

/-!
# What the TCP server still has to do

Every outlet call runs the patch before it returns, and the patch may send messages back
to the object.  What a handler has still to do at such a moment is kept as a list of
tasks: {lit}`Server.expand` works a task off up to the next outlet call, with the local
variables that the rest of the function uses kept in the tasks it leaves.

Main results:

- Theorem {lit}`perform_expand`: a task and the tasks it is expanded to have the same
  effect, whatever the outlet calls do.
- Theorem {lit}`perform_expandInput`: the tasks of an input do what its handler does.
-/

namespace Iemnet.TcpServer

open Pd Foundations

/-- The four outputs of {lit}`tcpserver_info_connection` behind the event; the
socketreceiver is read before each of them. -/
inductive Part
  | client
  | socket
  | address
  | sock
deriving DecidableEq, Repr

/-- What is left to do of a call, or of a loop. -/
inductive Task
  /-- An outlet call. -/
  | output (o : Output)
  /-- The patch behind an outlet is running. -/
  | patch
  | infoConnection (part : Part) (y : SocketReceiver)
  | numconnout
  | disconnect (client : Nat)
  /-- {lit}`tcpserver_disconnect` when {lit}`y` has been announced, which was at the
  index at the time of the call. -/
  | remove (client : Nat) (y : SocketReceiver)
  | disconnectClient (fclient : FloatArg)
  | disconnectSocket (fsocket : FloatArg)
  | disconnectAll (fuel id : Nat)
  /-- {lit}`tcpserver_send_bytes_clients`; the serial tells the broadcasts apart. -/
  | sendBytesClients (serial : Nat) (env : Env) (srs : List (Option SocketReceiver)) (i : Nat)
      (chunk : Option Chunk)
  /-- {lit}`tcpserver_info_client` behind the event. -/
  | infoClient (client : Nat) (y : SocketReceiver) (insize outsize : Int)
  | infoClients (env : Env) (fuel client : Nat)
  /-- {lit}`tcpserver_receive_callback` behind the information on the connection. -/
  | receive (env : Env) (c : Chunk)
  | register (id : Nat) (o : Incoming)
  /-- {lit}`tcpserver_port` behind the event. -/
  | openPort (env : Env) (fportno : FloatArg) (o : PortOutcome) (sockfd : Int)
  /-- {lit}`iemnet__socket2addressout`. -/
  | infoAddress (address : Option SockaddrIn)
  /-- The last output of {lit}`tcpserver_port`. -/
  | infoPort
  /-- The last output of {lit}`tcpserver_info`. -/
  | infoMaxconnections

namespace Server

/-! ## Outputs as tasks -/

/-- Outlet calls as tasks. -/
def outputs (os : List Output) : List Task :=
  os.map .output

/-- {lit}`tcpserver_info_connection`. -/
def connectionTasks (y : SocketReceiver) (event : InfoEvent) : List Task :=
  outputs (eventOutputs event) ++
    [.infoConnection .client y, .infoConnection .socket y, .infoConnection .address y,
      .infoConnection .sock y]

/-- What {lit}`tcpserver_info_connection` makes of a socketreceiver. -/
def partOutputs (a : SocketReceiver) : Part → List Output
  | .client =>
      [⟨.statusout, "client",
        [clientNumber a.client, setInt a.fd, setSymbol a.hostname, setInt a.port.toNat],
        some a.id⟩]
  | .socket => [.plain .statusout "socket" [setInt a.fd]]
  | .address =>
      let addr := (addressBytes (BitVec.ofInt 32 a.host) ++ [a.port.toNat]).map
        fun n => setFloat (n : ℚ)
      [.plain .statusout "address" addr, .plain .addrout "list" addr]
  | .sock => [.plain .sockout "float" [setInt a.fd]]

/-- The output of {lit}`iemnet__socket2addressout`. -/
def addressOutputs (abi : Abi) (s : String) (address : Option SockaddrIn) : List Output :=
  address.toList.map fun a =>
    .plain .statusout s (setSymbol "IPv4" ::
      (addressBytes (abi.ntohl a.addr) ++ [(abi.ntohs a.port).toNat]).map
        fun n => setFloat (n : ℚ))

/-! ## The functions up to their first outlet call -/

/-- {lit}`tcpserver_disconnect` from the removal to the end of the loop. -/
def remove (x : Server) (client : Nat) : Server :=
  let x := x.touch client
  ((x.socketreceiverFree (x.slot client)).setSlot client none).rearrange client

/-- {lit}`tcpserver_send_bytes_client`. -/
def sendBytesClientTasks (env : Env) (x : Server) (sr : Option SocketReceiver) (client : Nat)
    (chunk : Option Chunk) : Server × List Task :=
  match sr with
  | none => (x, [])
  | some y =>
      let x := x.access y
      let y := x.current y
      let size : Int := if y.hasSender then env.sent y.id else -1
      let x := if y.hasSender then { x with sends := x.sends ++ [(y, chunk, size)] } else x
      (x, outputs (sendOutputs client size y) ++
        if size < 0 then [.disconnectSocket (FloatArg.ofInt y.fd)] else [])

/-- {lit}`tcpserver_send_bytes`. -/
def sendBytesTasks (env : Env) (x : Server) (client : Nat) (chunk : Option Chunk) :
    Server × List Task :=
  if client < x.maxconnections then
    let x := x.touch client
    sendBytesClientTasks env x (x.slot client) client chunk
  else (x, [])

/-- {lit}`tcpserver_info_client`. -/
def infoClientTasks (env : Env) (x : Server) (client : Nat) : Server × List Task :=
  if client < x.maxconnections then
    let x := x.touch client
    match x.slot client with
    | none => (x, [])
    | some y =>
        let x := x.access y
        let y := x.current y
        let insize : Int := if y.hasReceiver then 0 else -1
        let outsize : Int := if y.hasSender then env.queued y.id else -1
        (x, outputs (eventOutputs .clientInfo) ++ [.infoClient client y insize outsize])
  else (x, [])

/-- {lit}`tcpserver_broadcast`. -/
def broadcastTasks (serial : Nat) (env : Env) (x : Server) (argv : List Atom) :
    Server × List Task :=
  if x.nconnections = 0 then (x, [])
  else
    let chunk := chunkCreateList env.mem argv
    let (x, sr) := x.snapshot
    (x, [.sendBytesClients serial env sr 0 chunk])

/-- {lit}`tcpserver_send_butclient`. -/
def sendButclientTasks (serial : Nat) (env : Env) (x : Server) (but : Nat)
    (argv : List Atom) : Server × List Task :=
  if x.nconnections = 0 then (x, [])
  else
    let chunk := chunkCreateList env.mem argv
    let (x, sr) := x.snapshot
    (x, [.sendBytesClients serial env (sr.set but none) 0 chunk])

/-- {lit}`tcpserver_send_client`. -/
def sendClientTasks (env : Env) (x : Server) (argv : List Atom) : Server × List Task :=
  match argv with
  | [] => (x, [.infoClients env (2 ^ 32) 0])
  | a :: rest =>
      match x.fixindex (toInt32 (atomGetint a)) with
      | none => (x, [])
      | some client =>
          if rest = [] then infoClientTasks env x client
          else sendBytesTasks env x client (chunkCreateList env.mem rest)

/-- {lit}`tcpserver_defaultsend`. -/
def defaultsendTasks (serial : Nat) (env : Env) (x : Server) (argv : List Atom) :
    Server × List Task :=
  let sockfd := x.defaulttarget
  if 0 < sockfd then
    match x.socket2index sockfd with
    | (x, some client) => sendBytesTasks env x client (chunkCreateList env.mem argv)
    | (x, none) => broadcastTasks serial env { x with defaulttarget := 0 } argv
  else if sockfd < 0 then
    match x.socket2index (-sockfd) with
    | (x, some client) => sendButclientTasks serial env x client argv
    | (x, none) => broadcastTasks serial env { x with defaulttarget := 0 } argv
  else broadcastTasks serial env x argv

/-- {lit}`tcpserver_send_socket`. -/
def sendSocketTasks (env : Env) (x : Server) (argv : List Atom) : Server × List Task :=
  match argv with
  | [] => (x, [])
  | a :: rest =>
      match x.socket2index (toInt32 (atomGetint a)) with
      | (x, none) => (x, [])
      | (x, some _) =>
          if a.type = .float then
            match x.socket2index (toInt32 (atomGetint a)) with
            | (x, none) => (x, [])
            | (x, some client) => sendBytesTasks env x client (chunkCreateList env.mem rest)
          else (x, [])

/-- {lit}`tcpserver_info`. -/
def infoTasks (env : Env) (x : Server) : Server × List Task :=
  if x.connectsocket < 0 then (x, [])
  else
    match x.reportedPort env with
    | none => (x, [])
    | some port =>
        ({ x with port := port },
          outputs (eventOutputs .serverInfo) ++
            [.infoAddress env.address, .output (.plain .statusout "port" [setInt port]),
              .infoMaxconnections])

/-! ## Expansion -/

/-- Work a task off up to its next outlet call. -/
def expand (x : Server) : Task → Server × List Task
  | .output o => (emit x o, [.patch])
  | .patch => (x, [])
  | .infoConnection part y =>
      let x := x.access y
      (x, outputs (partOutputs (x.current y) part))
  | .numconnout => (x, outputs (numconnOutputs x.nconnections))
  | .disconnect client =>
      let x := x.touch client
      match x.slot client with
      | none => (x.fault (.nullSlot client), [])
      | some y => (x, connectionTasks y .disconnect ++ [.remove client y, .numconnout])
  | .remove client _ => (x.remove client, [])
  | .disconnectClient fclient =>
      match x.fixindex fclient.toInt with
      | none => (x, [])
      | some client => (x, [.disconnect client])
  | .disconnectSocket fsocket =>
      match x.socket2index fsocket.toInt with
      | (x, none) => (x, [])
      | (x, some id) => (x, [.disconnectClient (FloatArg.ofInt (id + 1))])
  | .disconnectAll 0 _ => (x, [])
  | .disconnectAll (fuel + 1) id =>
      if id < x.nconnections then (x, [.disconnect id, .disconnectAll fuel (id + 1)])
      else (x, [])
  | .sendBytesClients _ _ [] _ _ => (x, [])
  | .sendBytesClients serial env (sr :: srs) i chunk =>
      let (x, tasks) := sendBytesClientTasks env x sr i chunk
      (x, tasks ++ [.sendBytesClients serial env srs (i + 1) chunk])
  | .infoClient client y insize outsize =>
      let x := x.touch client
      match x.slot client with
      | none => (x.fault (.nullSlot client), [])
      | some z =>
          (x.access z, outputs
            [⟨.statusout, "client",
                [clientNumber client, setInt y.fd, setSymbol z.hostname, setInt y.port.toNat],
                some z.id⟩,
              ⟨.statusout, "bufsize",
                [clientNumber client, setInt insize, setInt outsize], some z.id⟩])
  | .infoClients _ 0 _ => (x, [])
  | .infoClients env (fuel + 1) client =>
      if client < x.nconnections then
        let (x, tasks) := infoClientTasks env x client
        (x, tasks ++ [.infoClients env fuel (client + 1)])
      else (x, [])
  | .receive env c =>
      let floatlist := chunk2list env.mem env.raw (some c) x.floatlist
      let x := { x with floatlist := floatlist }
      match floatlist with
      | none => (x.fault .nullList, [])
      | some cl =>
          (x, outputs ((streamout cl.argc cl.argv x.serialize).map
            fun m => .plain .msgout m.selector m.argv))
  | .register id o =>
      if x.accepting = 0 then (x.closesocket o.fd, [.numconnout])
      else if x.maxconnections ≤ x.nconnections then (x.closesocket o.fd, [])
      else
        match x.socketreceiverNew id o x.nconnections with
        | (x, none) => (x.closesocket o.fd, [])
        | (x, some y) => (x.append y, connectionTasks y .illegal ++ [.numconnout])
  | .openPort env fportno o sockfd =>
      let portno := fportno.toInt
      if x.port = portno then (x, [])
      else
        let x := x.closePort sockfd
        match o.socket with
        | none => (x, [])
        | some sockfd =>
            let x := { x with os := x.os.acquire sockfd }
            if ¬ o.bind ∨ ¬ o.listen then
              (x.closesocket sockfd, [.output (.plain .statusout "port" [setInt (-1)])])
            else
              ({ x with
                polls := x.polls ++ [(sockfd, none)]
                connectsocket := sockfd
                port := x.usedPort env portno },
                [.infoAddress env.address, .infoPort])
  | .infoAddress address => (x, outputs (addressOutputs x.abi "local_address" address))
  | .infoPort => (x, [.output (.plain .statusout "port" [setInt x.port])])
  | .infoMaxconnections =>
      (x, [.output (.plain .statusout "maxconnections" [setInt x.maxconnections])])

/-- The handler of an input up to its first outlet call; {lit}`serial` is for the
broadcast that it may begin. -/
def expandInput (serial : Nat) (env : Env) (x : Server) : Input → Option (Server × List Task)
  | .incoming fd o =>
      if x.pollfn fd = some none ∧ o.Possible x then
        if fd ≠ x.connectsocket then some (x, [])
        else if o.fd < 0 then some (x, outputs (eventOutputs .connect) ++ [.numconnout])
        else some (x.opened o.fd, outputs (eventOutputs .connect) ++ [.register x.os.issued o])
      else none
  | .received fd c =>
      match x.pollfn fd with
      | some (some y) =>
          let x := x.access y
          if ¬ (x.current y).hasOwner then some (x, [])
          else
            match c with
            | some c => some (x, connectionTasks y .receive ++ [.receive env c])
            | none => some (x, [.disconnectSocket (FloatArg.ofInt (x.current y).fd)])
      | _ => none
  | .disconnectClient f => some (x, [.disconnectClient f])
  | .disconnectSocket f => some (x, [.disconnectSocket f])
  | .disconnectAll => some (x, [.disconnectAll (2 ^ 32) 0])
  | .sendSocket argv => some (sendSocketTasks env x argv)
  | .sendClient argv => some (sendClientTasks env x argv)
  | .broadcast argv => some (broadcastTasks serial env x argv)
  | .defaulttarget f => some (x.setDefaulttarget f, [])
  | .targetsocket f => some (x.targetsocket f, [])
  | .defaultsend argv => some (defaultsendTasks serial env x argv)
  | .serialize f => some (x.setSerialize f, [])
  | .accept f => some (x.setAccepting f, [])
  | .maxconnections f => some (x.setMaxconnections env f, [])
  | .port f o =>
      some (x, outputs (eventOutputs .serverInfo) ++ [.openPort env f o x.connectsocket])
  | .info => some (infoTasks env x)

/-! ## What tasks do -/

section Perform

variable (out : Server → Output → Server)

/-- {lit}`tcpserver_info_client` behind the event. -/
def infoClientRest (x : Server) (client : Nat) (y : SocketReceiver) (insize outsize : Int) :
    Server :=
  let x := x.touch client
  match x.slot client with
  | none => x.fault (.nullSlot client)
  | some z =>
      let x := x.access z
      let x := out x ⟨.statusout, "client",
        [clientNumber client, setInt y.fd, setSymbol z.hostname,
          setInt y.port.toNat], some z.id⟩
      out x ⟨.statusout, "bufsize",
        [clientNumber client, setInt insize, setInt outsize], some z.id⟩

/-- {lit}`tcpserver_receive_callback` behind the information on the connection. -/
def receiveRest (env : Env) (x : Server) (c : Chunk) : Server :=
  let floatlist := chunk2list env.mem env.raw (some c) x.floatlist
  let x := { x with floatlist := floatlist }
  match floatlist with
  | none => x.fault .nullList
  | some cl =>
      (streamout cl.argc cl.argv x.serialize).foldl
        (fun x m => out x (.plain .msgout m.selector m.argv)) x

/-- {lit}`tcpserver_port` behind the event. -/
def setPortRest (env : Env) (x : Server) (fportno : FloatArg) (o : PortOutcome)
    (sockfd : Int) : Server :=
  let portno := fportno.toInt
  if x.port = portno then x
  else
    let x := x.closePort sockfd
    match o.socket with
    | none => x
    | some sockfd =>
        let x := { x with os := x.os.acquire sockfd }
        if ¬ o.bind then
          out (x.closesocket sockfd) (.plain .statusout "port" [setInt (-1)])
        else if ¬ o.listen then
          out (x.closesocket sockfd) (.plain .statusout "port" [setInt (-1)])
        else
          let x := { x with
            polls := x.polls ++ [(sockfd, none)]
            connectsocket := sockfd
            port := x.usedPort env portno }
          let x := socket2addressout out x.abi x "local_address" env.address
          out x (.plain .statusout "port" [setInt x.port])

/-- The effect of a task when {lit}`out` is the effect of an outlet call. -/
def perform (x : Server) : Task → Server
  | .output o => out x o
  | .patch => x
  | .infoConnection part y => (partOutputs (x.current y) part).foldl out (x.access y)
  | .numconnout => Iemnet.numconnout out x x.nconnections
  | .disconnect client => disconnect out x client
  | .remove client _ => x.remove client
  | .disconnectClient fclient => disconnectClient out x fclient
  | .disconnectSocket fsocket => disconnectSocket out x fsocket
  | .disconnectAll fuel id => disconnectAllFrom out x fuel id
  | .sendBytesClients _ env srs i chunk => sendBytesClients out env x srs i chunk
  | .infoClient client y insize outsize => infoClientRest out x client y insize outsize
  | .infoClients env fuel client => infoClients out env x fuel client
  | .receive env c => receiveRest out env x c
  | .register id o => register out x id o
  | .openPort env fportno o sockfd => setPortRest out env x fportno o sockfd
  | .infoAddress address => socket2addressout out x.abi x "local_address" address
  | .infoPort => out x (.plain .statusout "port" [setInt x.port])
  | .infoMaxconnections => out x (.plain .statusout "maxconnections" [setInt x.maxconnections])

/-- The effect of tasks one after the other. -/
def performAll (x : Server) (tasks : List Task) : Server :=
  tasks.foldl (perform out) x

/-! ## A task and what it is expanded to -/

/-- Tasks one after the other are done one after the other. -/
theorem performAll_append (x : Server) (ts ts' : List Task) :
    performAll out x (ts ++ ts') = performAll out (performAll out x ts) ts' :=
  List.foldl_append

/-- Outlet calls are made one after the other. -/
theorem performAll_outputs (x : Server) (os : List Output) :
    performAll out x (outputs os) = os.foldl out x := by
  rw [performAll, outputs, List.foldl_map]
  rfl

/-- An event is a number of outlet calls. -/
theorem infoEvent_eq_foldl (x : Server) (event : InfoEvent) :
    infoEvent out x event = (eventOutputs event).foldl out x := by
  cases event <;> rfl

/-- An address is a number of outlet calls. -/
theorem socket2addressout_eq_foldl (abi : Abi) (x : Server) (s : String)
    (address : Option SockaddrIn) :
    socket2addressout out abi x s address = (addressOutputs abi s address).foldl out x := by
  cases address <;> rfl

/-- A task that may be there is done if it is. -/
theorem performAll_ite (x : Server) (c : Prop) [Decidable c] (t : Task) :
    performAll out x (if c then [t] else []) = if c then perform out x t else x := by
  split <;> rfl

/-- A handler that begins with an event. -/
theorem performAll_event (x : Server) (event : InfoEvent) (ts : List Task) :
    performAll out x (outputs (eventOutputs event) ++ ts) =
      performAll out (infoEvent out x event) ts := by
  rw [performAll_append, performAll_outputs, infoEvent_eq_foldl]

/-- The tasks of a connection do what the information on it does. -/
theorem performAll_connection (x : Server) (y : SocketReceiver) (event : InfoEvent)
    (ts : List Task) :
    performAll out x (connectionTasks y event ++ ts) =
      performAll out (infoConnection out x y event) ts := by
  have hcurrent : ∀ x : Server, (x.access y).current y = x.current y := fun x => by
    unfold access
    split <;> rfl
  rw [connectionTasks, List.append_assoc, performAll_event]
  simp only [infoConnection, hcurrent]
  rfl

/-- The tasks do what sending to a client of a snapshot does. -/
theorem performAll_sendBytesClient (env : Env) (x : Server) (sr : Option SocketReceiver)
    (client : Nat) (chunk : Option Chunk) :
    performAll out (sendBytesClientTasks env x sr client chunk).1
        (sendBytesClientTasks env x sr client chunk).2 =
      sendBytesClient out env x sr client chunk := by
  cases sr with
  | none => rfl
  | some y =>
      simp only [sendBytesClientTasks, sendBytesClient, sendOutputs]
      rw [performAll_append, performAll_outputs, List.foldl_append, ← infoEvent_eq_foldl,
        performAll_ite]
      rfl

/-- The tasks do what sending to a client by its index does. -/
theorem performAll_sendBytes (env : Env) (x : Server) (client : Nat) (chunk : Option Chunk) :
    performAll out (sendBytesTasks env x client chunk).1 (sendBytesTasks env x client chunk).2 =
      sendBytes out env x client chunk := by
  unfold sendBytesTasks sendBytes
  split
  · exact performAll_sendBytesClient out env _ _ client chunk
  · rfl

/-- The tasks do what information on a client does. -/
theorem performAll_infoClient (env : Env) (x : Server) (client : Nat) :
    performAll out (infoClientTasks env x client).1 (infoClientTasks env x client).2 =
      infoClient out env x client := by
  unfold infoClientTasks infoClient
  split
  · cases hslot : (x.touch client).slot client with
    | none => simp only [hslot]; rfl
    | some y =>
        simp only [hslot]
        rw [performAll_event]
        rfl
  · rfl

/-- A task and the tasks it is expanded to have the same effect. -/
theorem perform_expand (x : Server) {t : Task} (ht : ∀ o, t ≠ .output o) :
    performAll out (x.expand t).1 (x.expand t).2 = perform out x t := by
  cases t with
  | output o => exact absurd rfl (ht o)
  | patch | infoPort | infoMaxconnections | remove client y => rfl
  | infoConnection part y =>
      have hcurrent : (x.access y).current y = x.current y := by
        unfold access
        split <;> rfl
      simp only [expand, performAll_outputs, perform, hcurrent]
  | numconnout => rfl
  | disconnect client =>
      simp only [expand, perform, disconnect]
      cases hslot : (x.touch client).slot client with
      | none => rfl
      | some y =>
          simp only
          rw [performAll_connection]
          rfl
  | disconnectClient fclient =>
      simp only [expand, perform, disconnectClient]
      cases x.fixindex fclient.toInt <;> rfl
  | disconnectSocket fsocket =>
      simp only [expand, perform, disconnectSocket]
      rcases x.socket2index fsocket.toInt with ⟨x', _ | id⟩ <;> rfl
  | disconnectAll fuel id =>
      cases fuel with
      | zero => rfl
      | succ fuel =>
          simp only [expand, perform, disconnectAllFrom]
          split <;> rfl
  | sendBytesClients serial env srs i chunk =>
      cases srs with
      | nil => rfl
      | cons sr srs =>
          simp only [expand, performAll_append, performAll_sendBytesClient]
          rfl
  | infoClient client y insize outsize =>
      simp only [expand, perform, infoClientRest]
      cases (x.touch client).slot client with
      | none => rfl
      | some z => exact performAll_outputs out _ _
  | infoClients env fuel client =>
      cases fuel with
      | zero => rfl
      | succ fuel =>
          simp only [expand, perform, infoClients]
          split
          · simp only [performAll_append, performAll_infoClient]
            rfl
          · rfl
  | receive env c =>
      simp only [expand, perform, receiveRest]
      cases chunk2list env.mem env.raw (some c) x.floatlist with
      | none => rfl
      | some cl =>
          simp only [performAll_outputs, List.foldl_map]
  | register id o =>
      simp only [expand, perform, register]
      split
      · rfl
      · split
        · rfl
        · rcases x.socketreceiverNew id o x.nconnections with ⟨x', _ | y⟩
          · rfl
          · simp only
            rw [performAll_connection]
            rfl
  | openPort env fportno o sockfd =>
      simp only [expand, perform, setPortRest]
      split
      · rfl
      · cases o.socket with
        | none => rfl
        | some fd =>
            simp only
            by_cases hbind : o.bind = true
            · by_cases hlisten : o.listen = true
              · simp only [hbind, hlisten, not_true_eq_false, or_self, if_false]
                rfl
              · simp only [hbind, hlisten, not_true_eq_false, false_or, if_false]
                rfl
            · simp only [hbind]
              rfl
  | infoAddress address =>
      simp only [expand, performAll_outputs, perform, socket2addressout_eq_foldl]

/-! ## An input and what it is expanded to -/

/-- The tasks do what a broadcast does. -/
theorem performAll_broadcast (serial : Nat) (env : Env) (x : Server) (argv : List Atom) :
    performAll out (broadcastTasks serial env x argv).1 (broadcastTasks serial env x argv).2 =
      broadcast out env x argv := by
  unfold broadcastTasks broadcast
  split <;> rfl

/-- The tasks do what sending to all but one does. -/
theorem performAll_sendButclient (serial : Nat) (env : Env) (x : Server) (but : Nat)
    (argv : List Atom) :
    performAll out (sendButclientTasks serial env x but argv).1
        (sendButclientTasks serial env x but argv).2 =
      sendButclient out env x but argv := by
  unfold sendButclientTasks sendButclient
  split <;> rfl

/-- The tasks do what sending to a client by its number does. -/
theorem performAll_sendClient (env : Env) (x : Server) (argv : List Atom) :
    performAll out (sendClientTasks env x argv).1 (sendClientTasks env x argv).2 =
      sendClient out env x argv := by
  cases argv with
  | nil => rfl
  | cons a rest =>
      simp only [sendClientTasks, sendClient]
      cases x.fixindex (toInt32 (atomGetint a)) with
      | none => rfl
      | some client =>
          simp only
          split
          · exact performAll_infoClient out env x client
          · exact performAll_sendBytes out env x client _

/-- The tasks do what a plain list does. -/
theorem performAll_defaultsend (serial : Nat) (env : Env) (x : Server) (argv : List Atom) :
    performAll out (defaultsendTasks serial env x argv).1
        (defaultsendTasks serial env x argv).2 =
      defaultsend out env x argv := by
  unfold defaultsendTasks defaultsend
  simp only
  split
  · rcases x.socket2index x.defaulttarget with ⟨x', _ | client⟩
    · exact performAll_broadcast out serial env _ argv
    · exact performAll_sendBytes out env x' client _
  · split
    · rcases x.socket2index (-x.defaulttarget) with ⟨x', _ | client⟩
      · exact performAll_broadcast out serial env _ argv
      · exact performAll_sendButclient out serial env x' client argv
    · exact performAll_broadcast out serial env x argv

/-- The tasks do what sending to a client by its descriptor does. -/
theorem performAll_sendSocket (env : Env) (x : Server) (argv : List Atom) :
    performAll out (sendSocketTasks env x argv).1 (sendSocketTasks env x argv).2 =
      sendSocket out env x argv := by
  cases argv with
  | nil => rfl
  | cons a rest =>
      simp only [sendSocketTasks, sendSocket]
      rcases x.socket2index (toInt32 (atomGetint a)) with ⟨x', _ | client⟩
      · rfl
      · simp only
        split
        · rcases x'.socket2index (toInt32 (atomGetint a)) with ⟨x'', _ | client'⟩
          · rfl
          · exact performAll_sendBytes out env x'' client' _
        · rfl

/-- The tasks do what information does. -/
theorem performAll_info (env : Env) (x : Server) :
    performAll out (infoTasks env x).1 (infoTasks env x).2 = info out env x := by
  unfold infoTasks info
  split
  · rfl
  · cases x.reportedPort env with
    | none => rfl
    | some port =>
        simp only
        rw [performAll_event]
        rfl

/-- The tasks of an input do what its handler does. -/
theorem perform_expandInput (serial : Nat) (env : Env) {x x' : Server} {a : Input}
    (h : x.step out env a = some x') :
    (x.expandInput serial env a).map (fun p => performAll out p.1 p.2) = some x' := by
  cases a with
  | incoming fd o =>
      simp only [step] at h
      simp only [expandInput]
      split at h
      case isTrue hin =>
        rw [if_pos hin, ← h]
        simp only [connectpoll]
        split
        · rfl
        · split
          · simp only [Option.map_some, performAll_event]
            rfl
          · simp only [Option.map_some, performAll_event]
            rfl
      case isFalse => contradiction
  | received fd c =>
      simp only [step] at h
      simp only [expandInput]
      rcases hpoll : x.pollfn fd with _ | _ | y
      · rw [hpoll] at h
        contradiction
      · rw [hpoll] at h
        contradiction
      · simp only [hpoll] at h
        rw [← h]
        simp only [receiveCallback]
        split
        · rfl
        · cases c with
          | none => rfl
          | some c =>
              simp only [Option.map_some, performAll_connection]
              rfl
  | disconnectClient f | disconnectSocket f | disconnectAll | defaulttarget f | targetsocket f
  | serialize f | accept f | maxconnections f => exact h
  | sendSocket argv => exact h ▸ congrArg some (performAll_sendSocket out env x argv)
  | sendClient argv => exact h ▸ congrArg some (performAll_sendClient out env x argv)
  | broadcast argv => exact h ▸ congrArg some (performAll_broadcast out serial env x argv)
  | defaultsend argv => exact h ▸ congrArg some (performAll_defaultsend out serial env x argv)
  | port f o =>
      simp only [step] at h
      split at h
      · rw [← h]
        simp only [expandInput, Option.map_some, performAll_event]
        rfl
      · contradiction
  | info => exact h ▸ congrArg some (performAll_info out env x)

end Perform

end Server
end Iemnet.TcpServer
