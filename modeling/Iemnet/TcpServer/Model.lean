import Iemnet.Data.Integrity
import Iemnet.Foundations.Descriptors
import Iemnet.Foundations.SlotTable
import Iemnet.Foundations.TransitionSystem
import Iemnet.Pd.Outlets

/-!
# The TCP server object

tcpserver.c.  An outlet call runs the connected patch, which may send messages back
to the object, so every handler takes the effect {lit}`out` of an outlet call as
its first argument; {lit}`emit` is the effect of a patch that only listens.

An index of {lit}`x_sr` beyond the allocated slots, a {lit}`NULL` slot that is
dereferenced and a socketreceiver that is read after it has been freed are recorded
in {lit}`faults`; reading beyond the slots gives {lit}`NULL` there and writing is
dropped.  The functions that return {lit}`-1` for "not found" return an option.
-/

namespace Iemnet
namespace TcpServer

open Pd Foundations

/-- {lit}`t_tcpserver_event`. -/
inductive InfoEvent
  | illegal
  | serverInfo
  | clientInfo
  | disconnect
  | connect
  | receive
  | send
deriving DecidableEq, Repr

/-- {lit}`t_tcpserver_socketreceiver`.  {lit}`id` is the serial of the accepted
descriptor and stands for the address of the allocation. -/
structure SocketReceiver where
  id : Nat
  hasOwner : Bool
  host : Int
  port : BitVec 16
  fd : Int
  client : Nat
  hasSender : Bool
  hasReceiver : Bool
  hostname : String
deriving DecidableEq, Repr

/-- What the C program must not do. -/
inductive Fault
  | outOfBounds (i : Nat)
  | nullSlot (i : Nat)
  | useAfterFree (id : Nat)
  | nullList
deriving DecidableEq, Repr

/-- An outlet call with the client table it was made over. -/
structure LogEntry where
  output : Output
  sr : List (Option SocketReceiver)
  nconnections : Nat
deriving DecidableEq, Repr

/-- {lit}`t_tcpserver`, what Pd and the kernel keep for it, and its history. -/
structure Server where
  abi : Abi
  serialize : Int
  accepting : Int
  sr : List (Option SocketReceiver)
  nconnections : Nat
  maxconnections : Nat
  connectsocket : Int
  port : Int
  defaulttarget : Int
  floatlist : Option Floatlist
  /-- The functions registered with {lit}`sys_addpollfn`: the listener's, or the
  one of a client's receiver. -/
  polls : List (Int × Option SocketReceiver)
  os : Descriptors
  /-- The descriptors returned by {lit}`accept`, with their serials. -/
  accepted : List (Int × Nat)
  freed : List Nat
  /-- The calls of {lit}`iemnet__sender_send`. -/
  sends : List (SocketReceiver × Option Chunk × Int)
  faults : List Fault
  log : List LogEntry

/-- What the environment decides during a message: the results of
{lit}`iemnet__sender_send` and {lit}`iemnet__sender_getsize` for each client, the
allocator, and the two answers of {lit}`getsockname`. -/
structure Env where
  sent : Nat → Int
  queued : Nat → Int
  mem : Bool
  raw : Nat → Atom
  sockname : Option SockaddrIn
  address : Option SockaddrIn

/-- The outcome of {lit}`accept` and of the three allocations of
{lit}`tcpserver_socketreceiver_new`. -/
structure Incoming where
  fd : Int
  addr : SockaddrIn
  mem : Bool
  sender : Bool
  receiver : Bool
deriving DecidableEq, Repr

/-- The outcomes of {lit}`socket`, {lit}`bind` and {lit}`listen`. -/
structure PortOutcome where
  socket : Option Int
  bind : Bool
  listen : Bool
deriving DecidableEq, Repr

/-- An outlet call to a patch that does not answer. -/
def emit (x : Server) (o : Output) : Server :=
  { x with log := x.log ++ [⟨o, x.sr, x.nconnections⟩] }

namespace Server

/-! ## Memory accesses -/

/-- Something the program must not do has been done. -/
def fault (x : Server) (f : Fault) : Server :=
  { x with faults := x.faults ++ [f] }

/-- Index {lit}`x_sr`. -/
def touch (x : Server) (i : Nat) : Server :=
  if i < x.sr.length then x else x.fault (.outOfBounds i)

/-- Dereference a pointer to a socketreceiver. -/
def access (x : Server) (y : SocketReceiver) : Server :=
  if y.id ∈ x.freed then x.fault (.useAfterFree y.id) else x

/-- What the memory of a socketreceiver holds: {lit}`tcpserver_socketreceiver_free`
clears it before it gives it back. -/
def current (x : Server) (y : SocketReceiver) : SocketReceiver :=
  if y.id ∈ x.freed then
    { y with hasOwner := false, fd := -1, hasSender := false, hasReceiver := false }
  else y

/-- Read a slot of {lit}`x_sr`. -/
def slot (x : Server) (i : Nat) : Option SocketReceiver :=
  SlotTable.get x.sr i

/-- Write a slot of {lit}`x_sr`. -/
def setSlot (x : Server) (i : Nat) (y : Option SocketReceiver) : Server :=
  { x.touch i with sr := x.sr.set i y }

/-- {lit}`sys_rmpollfn`. -/
def rmpollfn (x : Server) (fd : Int) : Server :=
  { x with polls := x.polls.eraseP fun p => p.1 = fd }

/-- {lit}`iemnet__closesocket`. -/
def closesocket (x : Server) (sockfd : Int) : Server :=
  if 0 ≤ sockfd then { x with os := x.os.close sockfd } else x

/-! ## Socketreceivers -/

/-- The fields that {lit}`tcpserver_socketreceiver_new` sets, for the connection with
serial {lit}`id`. -/
def newSocketreceiver (abi : Abi) (id : Nat) (o : Incoming) (client : Nat) :
    SocketReceiver :=
  let host := abi.toLong (abi.ntohl o.addr.addr)
  { id := id, hasOwner := true, host := host, port := abi.ntohs o.addr.port, fd := o.fd,
    client := client, hasSender := o.sender, hasReceiver := o.receiver,
    hostname := Iemnet.hostname (BitVec.ofInt 32 host) }

/-- {lit}`tcpserver_socketreceiver_new`. -/
def socketreceiverNew (x : Server) (id : Nat) (o : Incoming) (client : Nat) :
    Server × Option SocketReceiver :=
  if o.mem then
    let y := newSocketreceiver x.abi id o client
    ({ x with polls := if o.receiver then x.polls ++ [(o.fd, some y)] else x.polls }, some y)
  else (x, none)

/-- {lit}`tcpserver_socketreceiver_free`. -/
def socketreceiverFree (x : Server) (y : Option SocketReceiver) : Server :=
  match y with
  | none => x
  | some y =>
      let x := x.access y
      let y := x.current y
      let x := if y.hasReceiver then x.rmpollfn y.fd else x
      let x := x.closesocket y.fd
      { x with freed := x.freed ++ [y.id] }

/-- The loop of {lit}`tcpserver_socket2index`, {lit}`m` slots from slot {lit}`i`
on. -/
def socket2indexFrom (x : Server) (sockfd : Int) : Nat → Nat → Server × Option Nat
  | 0, _ => (x, none)
  | m + 1, i =>
      let x := x.touch i
      match x.slot i with
      | none => (x.fault (.nullSlot i), none)
      | some y =>
          let x := x.access y
          if (x.current y).fd = sockfd then (x, some i) else x.socket2indexFrom sockfd m (i + 1)

/-- {lit}`tcpserver_socket2index`. -/
def socket2index (x : Server) (sockfd : Int) : Server × Option Nat :=
  x.socket2indexFrom sockfd x.nconnections 0

/-- {lit}`tcpserver_fixindex`. -/
def fixindex (x : Server) (client : Int) : Option Nat :=
  if x.nconnections = 0 then none
  else if ¬ (0 < client ∧ client ≤ x.nconnections) then none
  else some (client - 1).toNat

section Handlers

variable (out : Server → Output → Server)

/-! ## Information -/

/-- The symbol of an event; there is none for an illegal one. -/
def infoEventName : InfoEvent → Option String
  | .serverInfo => some "server"
  | .clientInfo => some "client"
  | .connect => some "connect"
  | .disconnect => some "disconnect"
  | .send => some "send"
  | .receive => some "receive"
  | .illegal => none

/-- {lit}`tcpserver_info_event`. -/
def infoEvent (x : Server) (event : InfoEvent) : Server :=
  match infoEventName event with
  | some name => out x (.plain .statusout "type" [setSymbol name])
  | none => x

/-- The number of a client, counted from one in an {lit}`unsigned int`. -/
def clientNumber (client : Nat) : Atom :=
  setInt ((client + 1) % 2 ^ 32 : Nat)

/-- {lit}`tcpserver_info_client`. -/
def infoClient (env : Env) (x : Server) (client : Nat) : Server :=
  if client < x.maxconnections then
    let x := x.touch client
    match x.slot client with
    | none => x
    | some y =>
        let x := x.access y
        let y := x.current y
        let insize : Int := if y.hasReceiver then 0 else -1
        let outsize : Int := if y.hasSender then env.queued y.id else -1
        let x := (infoEvent out x .clientInfo).touch client
        match x.slot client with
        | none => x.fault (.nullSlot client)
        | some z =>
            let x := x.access z
            let x := out x ⟨.statusout, "client",
              [clientNumber client, setInt y.fd, setSymbol z.hostname,
                setInt y.port.toNat], some z.id⟩
            out x ⟨.statusout, "bufsize",
              [clientNumber client, setInt insize, setInt outsize], some z.id⟩
  else x

/-- The port that {lit}`tcpserver_info` reports; there is none if {lit}`getsockname`
fails. -/
def reportedPort (x : Server) (env : Env) : Option Int :=
  if x.port ≤ 0 then env.sockname.map fun server => ((x.abi.ntohs server.port).toNat : Int)
  else some x.port

/-- {lit}`tcpserver_info`. -/
def info (env : Env) (x : Server) : Server :=
  if x.connectsocket < 0 then x
  else
    match x.reportedPort env with
    | none => x
    | some port =>
        let x := infoEvent out { x with port := port } .serverInfo
        let x := socket2addressout out x.abi x "local_address" env.address
        let x := out x (.plain .statusout "port" [setInt port])
        out x (.plain .statusout "maxconnections" [setInt x.maxconnections])

/-- {lit}`tcpserver_info_connection`: the socketreceiver is read before each of its
outputs. -/
def infoConnection (x : Server) (y : SocketReceiver) (event : InfoEvent) : Server :=
  let x := (infoEvent out x event).access y
  let a := x.current y
  let x := out x ⟨.statusout, "client",
    [clientNumber a.client, setInt a.fd, setSymbol a.hostname, setInt a.port.toNat],
    some a.id⟩
  let x := x.access y
  let x := out x (.plain .statusout "socket" [setInt (x.current y).fd])
  let x := x.access y
  let a := x.current y
  let x := addrout out x (BitVec.ofInt 32 a.host) a.port
  let x := x.access y
  out x (.plain .sockout "float" [setInt (x.current y).fd])

/-! ## Disconnecting -/

/-- The loop of {lit}`tcpserver_disconnect` that closes the gap, {lit}`m` slots from
slot {lit}`k` on. -/
def closeGap (x : Server) : Nat → Nat → Server
  | _, 0 => x
  | k, m + 1 =>
      let x := x.touch (k + 1)
      let x := x.setSlot k (x.slot (k + 1))
      x.closeGap (k + 1) m

/-- {lit}`tcpserver_disconnect` rearranges the list.  The counter of the loop has
stopped at the number of clients when the slot behind it is cleared. -/
def rearrange (x : Server) (client : Nat) : Server :=
  let x := x.closeGap client (x.nconnections - client)
  let x := x.setSlot ((max client x.nconnections + 1) % 2 ^ 32) none
  { x with nconnections := (x.nconnections + (2 ^ 32 - 1)) % 2 ^ 32 }

/-- {lit}`tcpserver_disconnect`. -/
def disconnect (x : Server) (client : Nat) : Server :=
  let x := x.touch client
  match x.slot client with
  | none => x.fault (.nullSlot client)
  | some y =>
      let x := (infoConnection out x y .disconnect).touch client
      let x := ((x.socketreceiverFree (x.slot client)).setSlot client none).rearrange client
      numconnout out x x.nconnections

/-- {lit}`tcpserver_disconnect_client`. -/
def disconnectClient (x : Server) (fclient : FloatArg) : Server :=
  match x.fixindex fclient.toInt with
  | none => x
  | some client => disconnect out x client

/-- {lit}`tcpserver_disconnect_socket`: the client number goes through a
{lit}`t_floatarg`. -/
def disconnectSocket (x : Server) (fsocket : FloatArg) : Server :=
  match x.socket2index fsocket.toInt with
  | (x, none) => x
  | (x, some id) => disconnectClient out x (FloatArg.ofInt (id + 1))

/-- The loop of {lit}`tcpserver_disconnect_all`; the counter is an
{lit}`unsigned int`. -/
def disconnectAllFrom (x : Server) : Nat → Nat → Server
  | 0, _ => x
  | fuel + 1, id =>
      if id < x.nconnections then (disconnect out x id).disconnectAllFrom fuel (id + 1) else x

/-- {lit}`tcpserver_disconnect_all`. -/
def disconnectAll (x : Server) : Server :=
  disconnectAllFrom out x (2 ^ 32) 0

/-! ## Sending -/

/-- {lit}`tcpserver_send_bytes_client`. -/
def sendBytesClient (env : Env) (x : Server) (sr : Option SocketReceiver) (client : Nat)
    (chunk : Option Chunk) : Server :=
  match sr with
  | none => x
  | some y =>
      let x := x.access y
      let y := x.current y
      let size : Int := if y.hasSender then env.sent y.id else -1
      let x := if y.hasSender then { x with sends := x.sends ++ [(y, chunk, size)] } else x
      let x := infoEvent out x .send
      let x := out x ⟨.statusout, "sendbuffersize",
        [clientNumber client, setInt size, setInt y.fd], some y.id⟩
      if size < 0 then disconnectSocket out x (FloatArg.ofInt y.fd) else x

/-- {lit}`tcpserver_send_bytes`. -/
def sendBytes (env : Env) (x : Server) (client : Nat) (chunk : Option Chunk) : Server :=
  if client < x.maxconnections then
    let x := x.touch client
    sendBytesClient out env x (x.slot client) client chunk
  else x

/-- {lit}`tcpserver_send_bytes_clients`, from the client with index {lit}`i` on. -/
def sendBytesClients (env : Env) (x : Server) :
    List (Option SocketReceiver) → Nat → Option Chunk → Server
  | [], _, _ => x
  | sr :: srs, i, chunk =>
      (sendBytesClient out env x sr i chunk).sendBytesClients env srs (i + 1) chunk

/-- Copy the first {lit}`x_nconnections` slots. -/
def snapshot (x : Server) : Server × List (Option SocketReceiver) :=
  let indices := List.range x.nconnections
  (indices.foldl touch x, indices.map x.slot)

/-- {lit}`tcpserver_send_butclient`. -/
def sendButclient (env : Env) (x : Server) (but : Nat) (argv : List Atom) : Server :=
  if x.nconnections = 0 then x
  else
    let chunk := chunkCreateList env.mem argv
    let (x, sr) := x.snapshot
    sendBytesClients out env x (sr.set but none) 0 chunk

/-- {lit}`tcpserver_send_toclient`. -/
def sendToclient (env : Env) (x : Server) (client : Nat) (argv : List Atom) : Server :=
  sendBytes out env x client (chunkCreateList env.mem argv)

/-- The loop of {lit}`tcpserver_send_client` over all clients; the counter is an
{lit}`unsigned int`. -/
def infoClients (env : Env) (x : Server) : Nat → Nat → Server
  | 0, _ => x
  | fuel + 1, client =>
      if client < x.nconnections then
        (infoClient out env x client).infoClients env fuel (client + 1)
      else x

/-- {lit}`tcpserver_send_client`. -/
def sendClient (env : Env) (x : Server) (argv : List Atom) : Server :=
  match argv with
  | [] => infoClients out env x (2 ^ 32) 0
  | a :: rest =>
      match x.fixindex (toInt32 (atomGetint a)) with
      | none => x
      | some client =>
          if rest = [] then infoClient out env x client
          else sendToclient out env x client rest

/-- {lit}`tcpserver_broadcast`. -/
def broadcast (env : Env) (x : Server) (argv : List Atom) : Server :=
  if x.nconnections = 0 then x
  else
    let chunk := chunkCreateList env.mem argv
    let (x, sr) := x.snapshot
    sendBytesClients out env x sr 0 chunk

/-- {lit}`tcpserver_defaultsend`. -/
def defaultsend (env : Env) (x : Server) (argv : List Atom) : Server :=
  let sockfd := x.defaulttarget
  if 0 < sockfd then
    match x.socket2index sockfd with
    | (x, some client) => sendToclient out env x client argv
    | (x, none) => broadcast out env { x with defaulttarget := 0 } argv
  else if sockfd < 0 then
    match x.socket2index (-sockfd) with
    | (x, some client) => sendButclient out env x client argv
    | (x, none) => broadcast out env { x with defaulttarget := 0 } argv
  else broadcast out env x argv

/-- {lit}`tcpserver_defaulttarget`. -/
def setDefaulttarget (x : Server) (f : FloatArg) : Server :=
  let rawclient := f.toInt
  let client := rawclient.natAbs
  if x.nconnections < client then x
  else if client = 0 then { x with defaulttarget := 0 }
  else
    let x := x.touch (client - 1)
    match x.slot (client - 1) with
    | none => x.fault (.nullSlot (client - 1))
    | some y =>
        let x := x.access y
        let sockfd := (x.current y).fd
        { x with defaulttarget := if rawclient < 0 then -sockfd else sockfd }

/-- {lit}`tcpserver_targetsocket`. -/
def targetsocket (x : Server) (f : FloatArg) : Server :=
  { x with defaulttarget := f.toInt }

/-- {lit}`tcpserver_send_socket`. -/
def sendSocket (env : Env) (x : Server) (argv : List Atom) : Server :=
  match argv with
  | [] => x
  | a :: rest =>
      match x.socket2index (toInt32 (atomGetint a)) with
      | (x, none) => x
      | (x, some _) =>
          if a.type = .float then
            match x.socket2index (toInt32 (atomGetint a)) with
            | (x, none) => x
            | (x, some client) => sendBytes out env x client (chunkCreateList env.mem rest)
          else x

/-! ## Receiving -/

/-- {lit}`tcpserver_receive_callback`. -/
def receiveCallback (env : Env) (x : Server) (y : SocketReceiver) (c : Option Chunk) :
    Server :=
  let x := x.access y
  if ¬ (x.current y).hasOwner then x
  else
    match c with
    | some c =>
        let x := infoConnection out x y .receive
        let floatlist := chunk2list env.mem env.raw (some c) x.floatlist
        let x := { x with floatlist := floatlist }
        match floatlist with
        | none => x.fault .nullList
        | some cl =>
            (streamout cl.argc cl.argv x.serialize).foldl
              (fun x m => out x (.plain .msgout m.selector m.argv)) x
    | none => disconnectSocket out x (FloatArg.ofInt (x.current y).fd)

/-- {lit}`tcpserver_connectpoll` enters a socketreceiver behind the last one. -/
def append (x : Server) (y : SocketReceiver) : Server :=
  let x := x.setSlot x.nconnections (some y)
  { x with nconnections := (x.nconnections + 1) % 2 ^ 32 }

/-- {lit}`tcpserver_connectpoll` for the open descriptor with serial {lit}`id`. -/
def register (x : Server) (id : Nat) (o : Incoming) : Server :=
  if x.accepting = 0 then
    let x := x.closesocket o.fd
    numconnout out x x.nconnections
  else if x.maxconnections ≤ x.nconnections then x.closesocket o.fd
  else
    match x.socketreceiverNew id o x.nconnections with
    | (x, none) => x.closesocket o.fd
    | (x, some y) =>
        let x := infoConnection out (x.append y) y .illegal
        numconnout out x x.nconnections

/-- The server when {lit}`accept` has returned a descriptor. -/
def opened (x : Server) (fd : Int) : Server :=
  { x with os := x.os.acquire fd, accepted := x.accepted ++ [(fd, x.os.issued)] }

/-- {lit}`tcpserver_connectpoll`. -/
def connectpoll (x : Server) (fd : Int) (o : Incoming) : Server :=
  if fd ≠ x.connectsocket then x
  else if o.fd < 0 then
    let x := infoEvent out x .connect
    numconnout out x x.nconnections
  else register out (infoEvent out (x.opened o.fd) .connect) x.os.issued o

/-! ## Settings -/

/-- {lit}`tcpserver_port` cleans up an open port. -/
def closePort (x : Server) (sockfd : Int) : Server :=
  if 0 ≤ sockfd then
    { (x.rmpollfn sockfd).closesocket sockfd with
      connectsocket := -1
      port := -1 }
  else x

/-- The port that is actually used, as far as {lit}`getsockname` tells. -/
def usedPort (x : Server) (env : Env) (portno : Int) : Int :=
  match env.sockname with
  | some server => (x.abi.ntohs server.port).toNat
  | none => portno

/-- {lit}`tcpserver_port`. -/
def setPort (env : Env) (x : Server) (fportno : FloatArg) (o : PortOutcome) : Server :=
  let portno := fportno.toInt
  let sockfd := x.connectsocket
  let x := infoEvent out x .serverInfo
  if x.port = portno then x
  else
    let x := x.closePort sockfd
    match o.socket with
    | none => x
    | some sockfd =>
        let x := { x with os := x.os.acquire sockfd }
        if ¬ o.bind then
          out (x.closesocket sockfd) (.plain .statusout "port" [setInt (-1)])
        else if ¬ o.listen then
          out (x.closesocket sockfd) (.plain .statusout "port" [setInt (-1)])
        else
          let x := { x with
            polls := x.polls ++ [(sockfd, none)]
            connectsocket := sockfd
            port := x.usedPort env portno }
          let x := socket2addressout out x.abi x "local_address" env.address
          out x (.plain .statusout "port" [setInt x.port])

/-- {lit}`tcpserver_serialize`. -/
def setSerialize (x : Server) (doit : FloatArg) : Server :=
  { x with serialize := doit.toInt }

/-- {lit}`tcpserver_accept`. -/
def setAccepting (x : Server) (doit : FloatArg) : Server :=
  { x with accepting := doit.toInt }

/-- {lit}`tcpserver_maxconnections`; {lit}`resizebytes` keeps the old content and
clears what is new. -/
def setMaxconnections (env : Env) (x : Server) (maxconnf : FloatArg) : Server :=
  let maxconn := maxconnf.toUInt
  if maxconnf.value < 1 then x
  else if maxconn < x.nconnections then x
  else if maxconn = x.maxconnections then x
  else if env.mem then
    { x with sr := SlotTable.resize x.sr maxconn, maxconnections := maxconn }
  else x

/-! ## Life time -/

/-- {lit}`MAX_CONNECT`. -/
def maxConnect : Nat :=
  32

/-- The object before {lit}`tcpserver_new` opens its port. -/
def blank (abi : Abi) (env : Env) : Server where
  abi := abi
  serialize := 1
  accepting := 1
  sr := List.replicate maxConnect none
  nconnections := 0
  maxconnections := maxConnect
  connectsocket := -1
  port := -1
  defaulttarget := 0
  floatlist := floatlistCreate env.mem env.raw 1024
  polls := []
  os := .empty
  accepted := []
  freed := []
  sends := []
  faults := []
  log := []

/-- {lit}`tcpserver_new`. -/
def new (abi : Abi) (env : Env) (fportno : FloatArg) (o : PortOutcome) : Server :=
  setPort out env (blank abi env) fportno o

/-- The loop of {lit}`tcpserver_free`, {lit}`m` slots from slot {lit}`i` on. -/
def freeSlots (x : Server) : Nat → Nat → Server
  | 0, _ => x
  | m + 1, i =>
      let x := x.touch i
      let x := match x.slot i with
        | none => x
        | some y => (x.socketreceiverFree (some y)).setSlot i none
      x.freeSlots m (i + 1)

/-- {lit}`tcpserver_free`. -/
def free (x : Server) : Server :=
  let x := x.freeSlots x.maxconnections 0
  let x := if 0 ≤ x.connectsocket then
    (x.rmpollfn x.connectsocket).closesocket x.connectsocket else x
  { x with floatlist := none }

end Handlers

end Server

/-! ## The system -/

/-- What the object receives: a message from the patch, or a call of one of its poll
functions. -/
inductive Input
  /-- The descriptor {lit}`fd` of the listener is readable. -/
  | incoming (fd : Int) (o : Incoming)
  /-- The receiver on descriptor {lit}`fd` has made a chunk, {lit}`NULL` at the end
  of the file. -/
  | received (fd : Int) (c : Option Chunk)
  | disconnectClient (fclient : FloatArg)
  | disconnectSocket (fsocket : FloatArg)
  | disconnectAll
  | sendSocket (argv : List Atom)
  | sendClient (argv : List Atom)
  | broadcast (argv : List Atom)
  | defaulttarget (f : FloatArg)
  | targetsocket (f : FloatArg)
  | defaultsend (argv : List Atom)
  | serialize (f : FloatArg)
  | accept (f : FloatArg)
  | maxconnections (f : FloatArg)
  | port (f : FloatArg) (o : PortOutcome)
  | info

/-- The kernel hands out a number that is not in use. -/
def FreshFd (x : Server) (fd : Int) : Prop :=
  0 ≤ fd ∧ fd < 2 ^ 31 ∧ fd ∉ x.os.numbers

instance (x : Server) (fd : Int) : Decidable (FreshFd x fd) :=
  inferInstanceAs (Decidable (_ ∧ _ ∧ _))

/-- What {lit}`accept` can deliver. -/
def Incoming.Possible (x : Server) (o : Incoming) : Prop :=
  o.fd < 0 ∨ FreshFd x o.fd

instance (x : Server) (o : Incoming) : Decidable (o.Possible x) :=
  inferInstanceAs (Decidable (_ ∨ _))

/-- What {lit}`socket` can deliver once the old port is closed. -/
def PortOutcome.Possible (x : Server) (o : PortOutcome) : Prop :=
  ∀ fd ∈ o.socket, FreshFd (x.closePort x.connectsocket) fd

instance (x : Server) (o : PortOutcome) : Decidable (o.Possible x) :=
  inferInstanceAs (Decidable (∀ fd ∈ o.socket, _))

/-- The function registered for a readable descriptor. -/
def Server.pollfn (x : Server) (fd : Int) : Option (Option SocketReceiver) :=
  (x.polls.find? fun p => p.1 = fd).map Prod.snd

/-- One input. -/
def Server.step (out : Server → Output → Server) (x : Server) (env : Env) :
    Input → Option Server
  | .incoming fd o =>
      if x.pollfn fd = some none ∧ o.Possible x then some (x.connectpoll out fd o) else none
  | .received fd c =>
      match x.pollfn fd with
      | some (some y) => some (x.receiveCallback out env y c)
      | _ => none
  | .disconnectClient f => some (x.disconnectClient out f)
  | .disconnectSocket f => some (x.disconnectSocket out f)
  | .disconnectAll => some (x.disconnectAll out)
  | .sendSocket argv => some (x.sendSocket out env argv)
  | .sendClient argv => some (x.sendClient out env argv)
  | .broadcast argv => some (x.broadcast out env argv)
  | .defaulttarget f => some (x.setDefaulttarget f)
  | .targetsocket f => some (x.targetsocket f)
  | .defaultsend argv => some (x.defaultsend out env argv)
  | .serialize f => some (x.setSerialize f)
  | .accept f => some (x.setAccepting f)
  | .maxconnections f => some (x.setMaxconnections env f)
  | .port f o => if o.Possible x then some (x.setPort out env f o) else none
  | .info => some (x.info out env)

end TcpServer

open TcpServer Foundations in
/-- The server as a transition system, with a patch that does not answer. -/
def tcpserverMachine : Machine Server (Env × Input) where
  init x := ∃ abi env f o, PortOutcome.Possible (Server.blank abi env) o ∧
    x = Server.new emit abi env f o
  step x a := x.step emit a.1 a.2

end Iemnet
