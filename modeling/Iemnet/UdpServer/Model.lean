import Iemnet.Data.Integrity
import Iemnet.Foundations.Descriptors
import Iemnet.Foundations.SlotTable
import Iemnet.Foundations.TransitionSystem
import Iemnet.Pd.Outlets

/-!
# The UDP server object

udpserver.c, for a patch that listens to the outlets and does not answer.  The clients
of a UDP server have no descriptors: each is numbered by a static counter instead, and
all of them share the socket of the server.

An index of {lit}`x_sr` beyond the allocated slots, a {lit}`NULL` slot or a
{lit}`NULL` chunk that is dereferenced are recorded in {lit}`faults`; reading beyond
the slots gives {lit}`NULL` there and writing is dropped.  The functions that return
{lit}`-1` for "not found" return an option.
-/

namespace Iemnet
namespace UdpServer

open Pd Foundations

/-! ## The logical clock of Pd -/

/-- {lit}`TIMEUNITPERMSEC`. -/
def timeunitpermsec : ℚ :=
  14112

/-- {lit}`clock_gettimesince` at the logical time {lit}`now`: milliseconds. -/
def clockGettimesince (now prevsystime : ℚ) : ℚ :=
  (now - prevsystime) / timeunitpermsec

/-! ## Data -/

/-- {lit}`t_udpserver_sender`.  {lit}`id` is the serial of the record and stands for
its address; {lit}`sender` is the socket its {lit}`sr_sender` writes to. -/
structure UdpSender where
  id : Nat
  host : Int
  port : BitVec 16
  hostname : String
  uniq : Int
  sender : Option Int
  lastseen : ℚ
deriving DecidableEq, Repr

/-- {lit}`t_iemnet_receiver`, with a serial that stands for its address. -/
structure Receiver where
  id : Nat
  sockfd : Int
deriving DecidableEq, Repr

/-- What the C program must not do. -/
inductive Fault
  | outOfBounds (i : Nat)
  | nullSlot (i : Nat)
  | nullChunk
  | nullList
deriving DecidableEq, Repr

/-- {lit}`t_udpserver`, what Pd and the kernel keep for it, and its history. -/
structure Server where
  abi : Abi
  sr : List (Option UdpSender)
  nconnections : Nat
  maxconnections : Nat
  connectsocket : Int
  port : BitVec 16
  ifaddr : Option String
  accept : BitVec 8
  timeout : ℚ
  lastchecked : ℚ
  defaulttarget : Int
  receiver : Option Receiver
  floatlist : Option Floatlist
  /-- The static counter of {lit}`udpserver_sender_new`, which all objects share. -/
  uniq : Int
  /-- The receivers registered with {lit}`sys_addpollfn`. -/
  polls : List (Int × Receiver)
  /-- The receivers created and not destroyed. -/
  receivers : List Receiver
  receiversMade : Nat
  os : Descriptors
  sendersMade : Nat
  freed : List Nat
  /-- The calls of {lit}`iemnet__sender_send`. -/
  sends : List (UdpSender × Chunk × Int)
  faults : List Fault
  log : List Output

/-- What the environment decides during a message: the logical time, the results of
{lit}`iemnet__sender_send` and {lit}`iemnet__sender_getsize` for each client, the
allocator (for the client record, its sender, the receiver, the copy in
{lit}`udpserver_disconnect`, and anything else), {lit}`gethostbyname`, and the two
answers of {lit}`getsockname`. -/
structure Env where
  now : ℚ
  sent : Nat → Int
  queued : Nat → Int
  mem : Bool
  client : Bool
  sender : Bool
  receiver : Bool
  copy : Bool
  raw : Nat → Atom
  host : String → Option (BitVec 32)
  sockname : Option SockaddrIn
  address : Option SockaddrIn

/-- The outcomes of {lit}`socket` and {lit}`bind`. -/
structure BindOutcome where
  socket : Option Int
  bind : Bool
deriving DecidableEq, Repr

/-- An outlet call. -/
def emit (x : Server) (o : Output) : Server :=
  { x with log := x.log ++ [o] }

namespace Server

/-! ## Memory accesses -/

/-- Something the program must not do has been done. -/
def fault (x : Server) (f : Fault) : Server :=
  { x with faults := x.faults ++ [f] }

/-- Index {lit}`x_sr`. -/
def touch (x : Server) (i : Nat) : Server :=
  if i < x.sr.length then x else x.fault (.outOfBounds i)

/-- Read a slot of {lit}`x_sr`. -/
def slot (x : Server) (i : Nat) : Option UdpSender :=
  SlotTable.get x.sr i

/-- Write a slot of {lit}`x_sr`. -/
def setSlot (x : Server) (i : Nat) (y : Option UdpSender) : Server :=
  { x.touch i with sr := x.sr.set i y }

/-- {lit}`sys_rmpollfn`. -/
def rmpollfn (x : Server) (fd : Int) : Server :=
  { x with polls := x.polls.eraseP fun p => p.1 = fd }

/-- {lit}`iemnet__closesocket`. -/
def closesocket (x : Server) (sockfd : Int) : Server :=
  if 0 ≤ sockfd then { x with os := x.os.close sockfd } else x

/-- {lit}`iemnet__receiver_create`. -/
def receiverCreate (env : Env) (x : Server) (sock : Int) : Server × Option Receiver :=
  if env.receiver then
    let rec' : Receiver := ⟨x.receiversMade, sock⟩
    ({ x with
        polls := x.polls ++ [(sock, rec')]
        receivers := x.receivers ++ [rec']
        receiversMade := x.receiversMade + 1 }, some rec')
  else (x, none)

/-- {lit}`iemnet__receiver_destroy`. -/
def receiverDestroy (x : Server) (r : Receiver) : Server :=
  { x.rmpollfn r.sockfd with receivers := x.receivers.erase r }

/-! ## Clients -/

/-- The record that {lit}`udpserver_sender_new` fills in. -/
def newSender (env : Env) (x : Server) (host : Nat) (port : BitVec 16) : UdpSender where
  id := x.sendersMade
  host := x.abi.ofULong host
  port := port
  hostname := Iemnet.hostname (BitVec.ofNat 32 host)
  uniq := x.uniq
  sender := if env.sender then some x.connectsocket else none
  lastseen := env.now

/-- {lit}`udpserver_sender_new`. -/
def senderNew (env : Env) (x : Server) (host : Nat) (port : BitVec 16) :
    Server × Option UdpSender :=
  if env.client then
    ({ x with uniq := toInt32 (x.uniq + 1), sendersMade := x.sendersMade + 1 },
      some (newSender env x host port))
  else (x, none)

/-- {lit}`udpserver_sender_free`: the number of the client is closed like a
descriptor. -/
def senderFree (x : Server) (y : UdpSender) : Server :=
  { x with freed := x.freed ++ [y.id] }.closesocket y.uniq

/-- An index counted in an {lit}`unsigned int` and returned as an {lit}`int`: from
{lit}`2 ^ 31` on it is negative, which says that nothing was found. -/
def intIndex (id : Option Nat) : Option Nat :=
  id.filter (· < 2 ^ 31)

/-- The loop of {lit}`udpserver_socket2index`, {lit}`m` slots from slot {lit}`i`
on. -/
def socket2indexFrom (x : Server) (sockfd : Int) : Nat → Nat → Server × Option Nat
  | 0, _ => (x, none)
  | m + 1, i =>
      let x := x.touch i
      match x.slot i with
      | none => (x.fault (.nullSlot i), none)
      | some y => if y.uniq = sockfd then (x, some i) else x.socket2indexFrom sockfd m (i + 1)

/-- {lit}`udpserver_socket2index`. -/
def socket2index (x : Server) (sockfd : Int) : Server × Option Nat :=
  let (x, id) := x.socket2indexFrom sockfd x.nconnections 0
  (x, intIndex id)

/-- {lit}`udpserver_fixindex`. -/
def fixindex (x : Server) (client : Int) : Option Nat :=
  if client < 1 then none
  else if x.nconnections = 0 then none
  else if (x.nconnections : Int) < client then none
  else some (client - 1).toNat

/-- {lit}`equal_addr`. -/
def equalAddr (host₁ : Nat) (port₁ : BitVec 16) (host₂ : Nat) (port₂ : BitVec 16) : Bool :=
  port₁ = port₂ ∧ host₁ = host₂

/-- The loop of {lit}`udpserver__find_sender`, {lit}`m` slots from slot {lit}`i`
on. -/
def findSenderFrom (x : Server) (host : Nat) (port : BitVec 16) :
    Nat → Nat → Server × Option Nat
  | 0, _ => (x, none)
  | m + 1, i =>
      let x := x.touch i
      match x.slot i with
      | none => (x, none)
      | some y =>
          if equalAddr host port (x.abi.toULong y.host) y.port then (x, some i)
          else x.findSenderFrom host port m (i + 1)

/-- {lit}`udpserver__find_sender`. -/
def findSender (x : Server) (host : Nat) (port : BitVec 16) : Server × Option Nat :=
  let (x, id) := x.findSenderFrom host port x.nconnections 0
  (x, intIndex id)

/-- {lit}`udpserver_sender_add` hears again from the client in slot {lit}`id`. -/
def refresh (env : Env) (x : Server) (id : Nat) : Server :=
  match x.slot id with
  | none => x.fault (.nullSlot id)
  | some y => x.setSlot id (some { y with lastseen := env.now })

/-- {lit}`udpserver_sender_add` enters an unknown address; the index is kept in an
{lit}`int`. -/
def enter (env : Env) (x : Server) (host : Nat) (port : BitVec 16) :
    Server × Option UdpSender :=
  let id := toInt32 x.nconnections
  if id < toInt32 x.maxconnections then
    let (x, y) := x.senderNew env host port
    let x := if id < 0 then x.fault (.outOfBounds x.nconnections) else x.setSlot id.toNat y
    let x := { x with nconnections := (x.nconnections + 1) % 2 ^ 32 }
    (x, if id < 0 then none else x.slot id.toNat)
  else (x, none)

/-- {lit}`udpserver_sender_add`. -/
def senderAdd (env : Env) (x : Server) (host : Nat) (port : BitVec 16) :
    Server × Option UdpSender :=
  if x.accept = 0 then (x, none)
  else
    match x.findSender host port with
    | (x, some id) => (x.refresh env id, (x.refresh env id).slot id)
    | (x, none) => x.enter env host port

/-- The loop of {lit}`udpserver_sender_remove`: its counter does not occur in the
body. -/
def shift (x : Server) (id : Nat) : Nat → Server
  | 0 => x
  | m + 1 => (((x.touch (id + 1)).setSlot id (x.slot (id + 1))).shift id m)

/-- {lit}`udpserver_sender_remove`. -/
def senderRemove (x : Server) (id : Nat) : Server :=
  if id < x.nconnections then
    let x := x.touch id
    match x.slot id with
    | none => x
    | some sdr =>
        let x := (x.senderFree sdr).shift id (x.nconnections - id)
        { x.setSlot id none with nconnections := x.nconnections - 1 }
  else x

/-- The first loop of {lit}`udpserver_sender_autoremove`, {lit}`m` slots from slot
{lit}`id` on; {lit}`w` is the place {lit}`sr` points to. -/
def expireFrom (now : ℚ) (x : Server) : Nat → Nat → Nat → Server × Nat
  | 0, _, w => (x, w)
  | m + 1, id, w =>
      let x := x.touch id
      match x.slot id with
      | none => x.expireFrom now m (id + 1) w
      | some y =>
          if x.timeout < clockGettimesince now y.lastseen then
            ((x.senderFree y).setSlot id none).expireFrom now m (id + 1) w
          else (x.setSlot w (some y)).expireFrom now m (id + 1) (w + 1)

/-- The second loop: {lit}`m` slots from slot {lit}`w` on are cleared. -/
def clearFrom (x : Server) : Nat → Nat → Server
  | 0, _ => x
  | m + 1, w => (x.setSlot w none).clearFrom m (w + 1)

/-- The third loop: count the slots up to the first {lit}`NULL`, {lit}`m` of them at
most. -/
def recountFrom (x : Server) : Nat → Nat → Server × Nat
  | 0, id => (x, id)
  | m + 1, id =>
      let x := x.touch id
      match x.slot id with
      | none => (x, id)
      | some _ => x.recountFrom m (id + 1)

/-- {lit}`udpserver_sender_autoremove`. -/
def autoremove (now : ℚ) (x : Server) : Server :=
  if x.timeout ≤ 0 then x
  else if clockGettimesince now x.lastchecked ≤ 0 then x
  else
    let x := { x with lastchecked := now }
    let (x, w) := x.expireFrom now x.nconnections 0 0
    let x := x.clearFrom (x.maxconnections - w) w
    let (x, n) := x.recountFrom x.maxconnections 0
    { x with nconnections := n }

/-! ## Information -/

/-- The number of a client, counted from one in an {lit}`unsigned int`. -/
def clientNumber (client : Nat) : Atom :=
  setInt ((client + 1) % 2 ^ 32 : Nat)

/-- {lit}`udpserver_info_client`. -/
def infoClient (env : Env) (x : Server) (client : Nat) : Server :=
  if client < x.maxconnections then
    let x := x.touch client
    match x.slot client with
    | none => x
    | some y =>
        let insize : Int := if x.receiver = none then -1 else 0
        let outsize : Int := if y.sender = none then -1 else env.queued y.id
        let x := emit x ⟨.statusout, "client",
          [clientNumber client, setSymbol "address", setSymbol y.hostname,
            setInt y.port.toNat, setDouble (clockGettimesince env.now y.lastseen)], some y.id⟩
        emit x ⟨.statusout, "bufsize",
          [clientNumber client, setInt insize, setInt outsize], some y.id⟩
  else x

/-- What {lit}`getsockname` says about a descriptor that may be {lit}`-1`. -/
def getsockname (sockfd : Int) (answer : Option SockaddrIn) : Option SockaddrIn :=
  if sockfd < 0 then none else answer

/-- {lit}`udpserver_info` asks for the port it does not know. -/
def learnPort (env : Env) (x : Server) : Server :=
  if x.port = 0 then
    match getsockname x.connectsocket env.sockname with
    | some server => { x with port := x.abi.ntohs server.port }
    | none => x
  else x

/-- {lit}`udpserver_info`. -/
def info (env : Env) (x : Server) : Server :=
  let x := (x.autoremove env.now).learnPort env
  let x := socket2addressout emit x.abi x "local_address"
    (getsockname x.connectsocket env.address)
  let x := emit x (.plain .statusout "port" [setInt x.port.toNat])
  emit x (.plain .statusout "connections" [setInt x.nconnections])

/-- {lit}`udpserver_info_connection`. -/
def infoConnection (x : Server) (y : UdpSender) : Server :=
  addrout emit x (BitVec.ofInt 32 y.host) y.port

/-! ## Disconnecting -/

/-- {lit}`udpserver_disconnect`; without memory for the copy of the client nothing is
said about its address. -/
def disconnect (env : Env) (x : Server) (client : Nat) : Server :=
  if x.nconnections ≤ client then x
  else
    let x := x.touch client
    let sdr := if env.copy then x.slot client else none
    if env.copy ∧ sdr = none then x.fault (.nullSlot client)
    else
      let x := (x.senderRemove client).autoremove env.now
      let x := match sdr with
        | none => x
        | some y => x.infoConnection y
      numconnout emit x x.nconnections

/-- {lit}`udpserver_disconnect_client`. -/
def disconnectClient (env : Env) (x : Server) (fclient : FloatArg) : Server :=
  match x.fixindex fclient.toInt with
  | none => x
  | some client => x.disconnect env client

/-- The loop of {lit}`udpserver_disconnect_all`; the counter is an
{lit}`unsigned int`. -/
def disconnectAllFrom (env : Env) (x : Server) : Nat → Nat → Server
  | 0, _ => x
  | fuel + 1, id =>
      if id < x.nconnections then (x.disconnect env id).disconnectAllFrom env fuel (id + 1)
      else x

/-- {lit}`udpserver_disconnect_all`. -/
def disconnectAll (env : Env) (x : Server) : Server :=
  x.disconnectAllFrom env (2 ^ 32) 0

/-! ## Sending -/

/-- The result of {lit}`iemnet__sender_send`, {lit}`0` for a client without a
sender. -/
def sendSize (env : Env) (y : UdpSender) : Int :=
  if y.sender = none then 0 else env.sent y.id

/-- {lit}`udpserver_send_bytes`. -/
def sendBytes (env : Env) (x : Server) (client : Nat) (chunk : Option Chunk) : Server :=
  if client < x.maxconnections then
    let x := x.touch client
    match x.slot client with
    | none => x
    | some y =>
        match chunk with
        | none => x.fault .nullChunk
        | some chunk =>
            let chunk := { chunk with addr := y.host, port := y.port }
            let size := sendSize env y
            let x := if y.sender = none then x
              else { x with sends := x.sends ++ [(y, chunk, size)] }
            let x := emit x ⟨.statusout, "sendbuffersize",
              [clientNumber client, setInt size, setInt y.uniq], some y.id⟩
            if size < 0 then x.disconnect env client else x
  else x

/-- The loop over the clients in {lit}`udpserver_broadcast` and
{lit}`udpserver_send_butclient`; the counter is an {lit}`unsigned int`. -/
def sendFrom (env : Env) (x : Server) (but : Option Nat) (chunk : Option Chunk) :
    Nat → Nat → Server
  | 0, _ => x
  | fuel + 1, client =>
      if client < x.nconnections then
        let x := if but = some client then x else x.sendBytes env client chunk
        x.sendFrom env but chunk fuel (client + 1)
      else x

/-- {lit}`udpserver_send_butclient`. -/
def sendButclient (env : Env) (x : Server) (but : Nat) (argv : List Atom) : Server :=
  x.sendFrom env (some but) (chunkCreateList env.mem argv) (2 ^ 32) 0

/-- {lit}`udpserver_send_toclient`. -/
def sendToclient (env : Env) (x : Server) (client : Nat) (argv : List Atom) : Server :=
  x.sendBytes env client (chunkCreateList env.mem argv)

/-- The loop of {lit}`udpserver_send_client` over all clients. -/
def infoClients (env : Env) (x : Server) : Nat → Nat → Server
  | 0, _ => x
  | fuel + 1, client =>
      if client < x.nconnections then
        (x.infoClient env client).infoClients env fuel (client + 1)
      else x

/-- {lit}`udpserver_send_client`. -/
def sendClient (env : Env) (x : Server) (argv : List Atom) : Server :=
  match argv with
  | [] => x.infoClients env (2 ^ 32) 0
  | a :: rest =>
      match x.fixindex (toInt32 (atomGetint a)) with
      | none => x
      | some client =>
          if rest = [] then x.infoClient env client else x.sendToclient env client rest

/-- {lit}`udpserver_broadcast`. -/
def broadcast (env : Env) (x : Server) (argv : List Atom) : Server :=
  let oldconnections := x.nconnections
  let x := (x.autoremove env.now).sendFrom env none (chunkCreateList env.mem argv) (2 ^ 32) 0
  if oldconnections ≠ x.nconnections then
    emit x (.plain .statusout "connections" [setInt x.nconnections])
  else x

/-- {lit}`udpserver_defaultsend`. -/
def defaultsend (env : Env) (x : Server) (argv : List Atom) : Server :=
  let sockfd := x.defaulttarget
  if 0 < sockfd then
    match x.socket2index sockfd with
    | (x, some client) => x.sendToclient env client argv
    | (x, none) => { x with defaulttarget := 0 }.broadcast env argv
  else if sockfd < 0 then
    match x.socket2index (-sockfd) with
    | (x, some client) => x.sendButclient env client argv
    | (x, none) => { x with defaulttarget := 0 }.broadcast env argv
  else x.broadcast env argv

/-- {lit}`udpserver_defaulttarget`. -/
def setDefaulttarget (x : Server) (f : FloatArg) : Server :=
  let rawclient := f.toInt
  let client := rawclient.natAbs
  if x.nconnections < client then x
  else if client = 0 then { x with defaulttarget := 0 }
  else
    let x := x.touch (client - 1)
    match x.slot (client - 1) with
    | none => x.fault (.nullSlot (client - 1))
    | some y => { x with defaulttarget := if rawclient < 0 then -y.uniq else y.uniq }

/-- {lit}`udpserver_add_client`. -/
def addClient (env : Env) (x : Server) (s : String) (f : FloatArg) : Server :=
  if f.toInt < 1 ∨ 0xFFFF ≤ f.toInt then x
  else
    match env.host s with
    | none => x
    | some addr =>
        (x.senderAdd env (x.abi.toULong (x.abi.ntohl addr).toNat) (BitVec.ofNat 16 f.toUInt)).1

/-! ## Receiving -/

/-- {lit}`udpserver_receive_callback`. -/
def receiveCallback (env : Env) (x : Server) (c : Option Chunk) : Server :=
  match c with
  | none => x
  | some c =>
      let conns := x.nconnections
      match x.senderAdd env (x.abi.toULong c.addr) c.port with
      | (x, none) => x
      | (x, some sdr) =>
          let x := x.infoConnection sdr
          let floatlist := chunk2list env.mem env.raw (some c) x.floatlist
          let x := { x with floatlist := floatlist }
          let x := if conns ≠ x.nconnections then numconnout emit x x.nconnections else x
          match floatlist with
          | none => x.fault .nullList
          | some cl => emit x (.plain .msgout "list" (cl.argv.take cl.argc))

/-! ## Settings -/

/-- {lit}`udpserver_do_bind` cleans up an open port. -/
def closePort (x : Server) : Server :=
  if 0 ≤ x.connectsocket then
    { x.closesocket x.connectsocket with
      connectsocket := -1
      port := BitVec.ofInt 16 (-1)
      ifaddr := none }
  else x

/-- The port that is actually used, as far as {lit}`getsockname` tells. -/
def usedPort (x : Server) (env : Env) (portno : BitVec 16) : BitVec 16 :=
  match env.sockname with
  | some server => x.abi.ntohs server.port
  | none => portno

/-- {lit}`udpserver_do_bind` resolves the interface; {lit}`INADDR_ANY` needs no
name. -/
def resolved (env : Env) (ifaddr : Option String) : Bool :=
  match ifaddr with
  | none => true
  | some s => (env.host s).isSome

/-- {lit}`udpserver_do_bind` once the socket is bound. -/
def listenOn (env : Env) (x : Server) (ifaddr : Option String) (portno : BitVec 16)
    (sockfd : Int) : Server :=
  let (x, receiver) := x.receiverCreate env sockfd
  let x := { x with
    receiver := receiver
    connectsocket := sockfd
    port := x.usedPort env portno
    ifaddr := ifaddr }
  let x := socket2addressout emit x.abi x "local_address" env.address
  emit x (.plain .statusout "port" [setInt x.port.toNat])

/-- {lit}`udpserver_do_bind`. -/
def doBind (env : Env) (x : Server) (ifaddr : Option String) (portno : BitVec 16)
    (o : BindOutcome) : Server :=
  if x.port = portno ∧ x.ifaddr = ifaddr then x
  else
    let x := x.closePort
    match o.socket with
    | none => x
    | some sockfd =>
        let x := { x with os := x.os.acquire sockfd }
        if ¬ resolved env ifaddr then x.closesocket sockfd
        else if ¬ o.bind then
          emit (x.closesocket sockfd) (.plain .statusout "port" [setInt (-1)])
        else x.listenOn env ifaddr portno sockfd

/-- {lit}`udpserver_port`. -/
def setPort (env : Env) (x : Server) (fportno : FloatArg) (o : BindOutcome) : Server :=
  if fportno.value < 0 ∨ 0xFFFF ≤ fportno.toInt then x
  else x.doBind env none fportno.toUShort o

/-- The interface in a {lit}`bind` message; a number stands for any. -/
def bindAddress (a : Atom) : Option String :=
  if a.type = .float then none else some (atomGetsymbol a)

/-- {lit}`udpserver_bind`; {lit}`wild` is what a cast of the port delivers that does
not fit. -/
def bind (env : Env) (x : Server) (argv : List Atom) (wild : BitVec 32) (o : BindOutcome) :
    Server :=
  match argv with
  | [a] => x.doBind env (bindAddress a) x.port o
  | [a, p] =>
      let fportno : FloatArg := ⟨atomGetfloat p, wild⟩
      if fportno.value < 0 ∨ 0xFFFF < fportno.toInt then x
      else x.doBind env (bindAddress a) fportno.toUShort o
  | _ => x

/-- {lit}`udpserver_accept`. -/
def setAccept (x : Server) (f : FloatArg) : Server :=
  { x with accept := f.toUChar }

/-- {lit}`udpserver_timeout`. -/
def setTimeout (x : Server) (f : FloatArg) : Server :=
  { x with timeout := f.value }

/-- {lit}`udpserver_maxconnections`; {lit}`resizebytes` keeps the old content and
clears what is new. -/
def setMaxconnections (env : Env) (x : Server) (maxconnf : FloatArg) : Server :=
  let maxconn := maxconnf.toUInt
  if maxconnf.value < 1 then x
  else if maxconn < x.nconnections then x
  else if maxconn = x.maxconnections then x
  else if env.mem then
    { x with sr := SlotTable.resize x.sr maxconn, maxconnections := maxconn }
  else x

/-! ## Life time -/

/-- {lit}`MAX_CONNECT`. -/
def maxConnect : Nat :=
  32

/-- The object before {lit}`udpserver_new` opens its port; {lit}`uniq` is what the
static counter has come to.  Pd clears a new object. -/
def blank (abi : Abi) (env : Env) (uniq : Int) : Server where
  abi := abi
  sr := List.replicate maxConnect none
  nconnections := 0
  maxconnections := maxConnect
  connectsocket := -1
  port := BitVec.ofInt 16 (-1)
  ifaddr := none
  accept := 0
  timeout := 0
  lastchecked := 0
  defaulttarget := 0
  receiver := none
  floatlist := floatlistCreate env.mem env.raw 1024
  uniq := uniq
  polls := []
  receivers := []
  receiversMade := 0
  os := .empty
  sendersMade := 0
  freed := []
  sends := []
  faults := []
  log := []

/-- {lit}`udpserver_new`. -/
def new (abi : Abi) (env : Env) (uniq : Int) (fportno : FloatArg) (o : BindOutcome) : Server :=
  { setPort env (blank abi env uniq) fportno o with accept := 1 }

/-- The loop of {lit}`udpserver_free`, {lit}`m` slots from slot {lit}`i` on. -/
def freeSlots (x : Server) : Nat → Nat → Server
  | 0, _ => x
  | m + 1, i =>
      let x := x.touch i
      let x := match x.slot i with
        | none => x
        | some y => (x.senderFree y).setSlot i none
      x.freeSlots m (i + 1)

/-- {lit}`udpserver_free` destroys the receiver. -/
def dropReceiver (x : Server) : Server :=
  match x.receiver with
  | none => x
  | some r => { x.receiverDestroy r with receiver := none }

/-- {lit}`udpserver_free` closes the socket. -/
def dropSocket (x : Server) : Server :=
  if 0 ≤ x.connectsocket then { x.closesocket x.connectsocket with connectsocket := -1 } else x

/-- {lit}`udpserver_free`. -/
def free (x : Server) : Server :=
  let x := x.freeSlots x.maxconnections 0
  let x := { x with sr := [] }
  { x.dropReceiver.dropSocket with floatlist := none }

end Server

/-! ## The system -/

/-- What the object receives: a message from the patch, or a call of one of its
receivers. -/
inductive Input
  /-- The receiver on descriptor {lit}`fd` has made a chunk, {lit}`NULL` for an empty
  datagram. -/
  | received (fd : Int) (c : Option Chunk)
  | disconnectClient (fclient : FloatArg)
  | disconnectAll
  | accept (f : FloatArg)
  | maxconnections (f : FloatArg)
  | timeout (f : FloatArg)
  | sendClient (argv : List Atom)
  | broadcast (argv : List Atom)
  | defaultsend (argv : List Atom)
  | defaulttarget (f : FloatArg)
  | addClient (s : String) (f : FloatArg)
  | bind (argv : List Atom) (wild : BitVec 32) (o : BindOutcome)
  | port (f : FloatArg) (o : BindOutcome)
  | info
  /-- Other objects of the class have made {lit}`k` clients. -/
  | elsewhere (k : Nat)

/-- What {lit}`socket` can deliver once the old port is closed: a number that is not
in use. -/
def BindOutcome.Possible (x : Server) (o : BindOutcome) : Prop :=
  ∀ fd ∈ o.socket, 0 ≤ fd ∧ fd < 2 ^ 31 ∧ fd ∉ x.closePort.os.numbers

instance (x : Server) (o : BindOutcome) : Decidable (o.Possible x) :=
  inferInstanceAs (Decidable (∀ fd ∈ o.socket, _))

/-- One input. -/
def Server.step (x : Server) (env : Env) : Input → Option Server
  | .received fd c =>
      if fd ∈ x.polls.map Prod.fst then some (x.receiveCallback env c) else none
  | .disconnectClient f => some (x.disconnectClient env f)
  | .disconnectAll => some (x.disconnectAll env)
  | .accept f => some (x.setAccept f)
  | .maxconnections f => some (x.setMaxconnections env f)
  | .timeout f => some (x.setTimeout f)
  | .sendClient argv => some (x.sendClient env argv)
  | .broadcast argv => some (x.broadcast env argv)
  | .defaultsend argv => some (x.defaultsend env argv)
  | .defaulttarget f => some (x.setDefaulttarget f)
  | .addClient s f => some (x.addClient env s f)
  | .bind argv wild o => if o.Possible x then some (x.bind env argv wild o) else none
  | .port f o => if o.Possible x then some (x.setPort env f o) else none
  | .info => some (x.info env)
  | .elsewhere k => some { x with uniq := toInt32 (x.uniq + k) }

/-- The object as {lit}`udpserver_new` can leave it; the static counter starts at
1000. -/
def Created (x : Server) : Prop :=
  ∃ abi env k f o, BindOutcome.Possible (Server.blank abi env (toInt32 (1000 + k))) o ∧
    x = Server.new abi env (toInt32 (1000 + k)) f o

end UdpServer

open UdpServer Foundations in
/-- The server as a transition system. -/
def udpserverMachine : Machine Server (Env × Input) where
  init := Created
  step x a := x.step a.1 a.2

end Iemnet
