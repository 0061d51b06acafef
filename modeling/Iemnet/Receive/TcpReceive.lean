import Iemnet.Client.Receiver
import Iemnet.Foundations.Pool
import Iemnet.TcpServer.Model

/-!
# The TCP receiver object

tcpreceive.c, for a patch that listens to the outlets and does not answer.  A slot of
{lit}`x_connection` is free when its socket is {lit}`-1`, when it is looked for; it is in
use when its port is positive, when it is closed.
-/

namespace Iemnet

open Pd Foundations

/-- What a receiver of {lit}`tcpreceive` is made for: a descriptor, and a pointer into
{lit}`x_connection`. -/
structure Watch where
  sockfd : Int
  slot : Nat
deriving DecidableEq, Repr

/-- {lit}`t_tcpconnection`. -/
structure TcpConnection where
  addr : Int
  port : BitVec 16
  socket : Int
  hasOwner : Bool
  receiver : Option (Item Watch)
deriving DecidableEq, Repr

/-- What is left of a slot when its connection is closed. -/
def TcpConnection.vacated (c : TcpConnection) : TcpConnection :=
  { c with addr := 0, port := 0, socket := -1, receiver := none }

/-- {lit}`t_tcpreceive`, what Pd and the kernel keep for it, and its history. -/
structure TcpReceive where
  abi : Abi
  connectsocket : Int
  port : Int
  serialize : Int
  nconnections : Nat
  connection : List TcpConnection
  floatlist : Option Floatlist
  /-- The functions registered with {lit}`sys_addpollfn`: the listener's, or the one of a
  receiver. -/
  polls : List (Int × Option (Item Watch))
  os : Descriptors
  /-- The serials of the descriptors that {lit}`accept` has returned. -/
  accepted : List Nat
  receivers : Foundations.Pool Watch
  /-- How often a float list that does not exist was dereferenced. -/
  nullLists : Nat
  log : List Output

namespace TcpReceive

/-- What the environment decides during a message: whether a receiver can be created, the
allocator, and what {lit}`getsockname` says. -/
structure Env where
  receiver : Bool
  mem : Bool
  raw : Nat → Atom
  sockname : Option SockaddrIn

/-- The outcome of {lit}`accept`. -/
structure Incoming where
  fd : Int
  source : SockaddrIn
deriving DecidableEq, Repr

/-- The outcomes of {lit}`socket`, {lit}`bind` and {lit}`listen`. -/
abbrev PortOutcome :=
  TcpServer.PortOutcome

/-- {lit}`MAX_CONNECTIONS`. -/
def maxConnections : Nat :=
  128

/-- An outlet call. -/
def emit (x : TcpReceive) (o : Output) : TcpReceive :=
  { x with log := x.log ++ [o] }

/-- {lit}`sys_rmpollfn`. -/
def rmpollfn (x : TcpReceive) (fd : Int) : TcpReceive :=
  { x with polls := x.polls.eraseP fun p => p.1 = fd }

/-- {lit}`iemnet__closesocket`. -/
def closesocket (x : TcpReceive) (sockfd : Int) : TcpReceive :=
  if 0 ≤ sockfd then { x with os := x.os.close sockfd } else x

/-- {lit}`iemnet__receiver_create`. -/
def receiverCreate (env : Env) (x : TcpReceive) (w : Watch) :
    TcpReceive × Option (Item Watch) :=
  if env.receiver then
    ({ x with
        receivers := x.receivers.make w
        polls := x.polls ++ [(w.sockfd, some (x.receivers.next w))] }, some (x.receivers.next w))
  else (x, none)

/-- {lit}`iemnet__receiver_destroy`. -/
def receiverDestroy (x : TcpReceive) (r : Option (Item Watch)) : TcpReceive :=
  match r with
  | none => x
  | some r => { x.rmpollfn r.base.sockfd with receivers := x.receivers.drop r }

/-! ## Connections -/

/-- {lit}`tcpreceive_find_socket`. -/
def findSocket (x : TcpReceive) (fd : Int) : Option Nat :=
  x.connection.findIdx? fun c => c.socket = fd

/-- {lit}`tcpreceive_disconnect`. -/
def disconnect (x : TcpReceive) (id : Nat) : TcpReceive :=
  match x.connection[id]? with
  | none => x
  | some c =>
      if c.port = 0 then x
      else
        let x := (x.receiverDestroy c.receiver).closesocket c.socket
        let x := { x with
          connection := x.connection.set id c.vacated, nconnections := x.nconnections - 1 }
        numconnout emit x x.nconnections

/-- The loop of {lit}`tcpreceive_disconnect_all`, {lit}`m` slots from slot {lit}`i` on. -/
def disconnectFrom (x : TcpReceive) : Nat → Nat → TcpReceive
  | 0, _ => x
  | m + 1, i => (x.disconnect i).disconnectFrom m (i + 1)

/-- {lit}`tcpreceive_disconnect_all`. -/
def disconnectAll (x : TcpReceive) : TcpReceive :=
  x.disconnectFrom maxConnections 0

/-- {lit}`tcpreceive_read_callback` with a chunk. -/
def deliver (env : Env) (x : TcpReceive) (c : Chunk) : TcpReceive :=
  let floatlist := chunk2list env.mem env.raw (some c) x.floatlist
  let x := { x with floatlist := floatlist }
  match floatlist with
  | none => { x with nullLists := x.nullLists + 1 }
  | some cl =>
      (streamout cl.argc cl.argv x.serialize).foldl
        (fun x m => emit x (.plain .msgout m.selector m.argv)) x

/-- {lit}`tcpreceive_read_callback`; {lit}`slot` is what the user data points to. -/
def readCallback (env : Env) (x : TcpReceive) (slot : Nat) (c : Option Chunk) : TcpReceive :=
  match x.connection[slot]? with
  | none => x
  | some y =>
      if ¬ y.hasOwner then x
      else
        match x.findSocket y.socket with
        | none => x
        | some index =>
            match c with
            | some c => x.deliver env c
            | none => x.disconnect index

/-- {lit}`tcpreceive_addconnection`. -/
def addconnection (env : Env) (x : TcpReceive) (fd addr : Int) (port : BitVec 16) :
    TcpReceive × Bool :=
  match x.findSocket (-1) with
  | none => (x, false)
  | some i =>
      let (x, receiver) := x.receiverCreate env ⟨fd, i⟩
      ({ x with connection := x.connection.set i ⟨addr, port, fd, true, receiver⟩ }, true)

/-- The object when {lit}`accept` has returned a descriptor. -/
def opened (x : TcpReceive) (fd : Int) : TcpReceive :=
  { x with os := x.os.acquire fd, accepted := x.accepted ++ [x.os.issued] }

/-- {lit}`tcpreceive_connectpoll`. -/
def connectpoll (env : Env) (x : TcpReceive) (fd : Int) (o : Incoming) : TcpReceive :=
  if fd ≠ x.connectsocket then x
  else if o.fd < 0 then x
  else
    let addr := x.abi.toLong (x.abi.ntohl o.source.addr)
    let port := x.abi.ntohs o.source.port
    match (x.opened o.fd).addconnection env o.fd addr port with
    | (x, true) =>
        let x := { x with nconnections := x.nconnections + 1 }
        let x := numconnout emit x x.nconnections
        addrout emit x (BitVec.ofInt 32 addr) port
    | (x, false) => x.closesocket o.fd

/-! ## The port -/

/-- {lit}`tcpreceive_port` cleans up an open port. -/
def closePort (x : TcpReceive) : TcpReceive :=
  if 0 ≤ x.connectsocket then
    { (x.rmpollfn x.connectsocket).closesocket x.connectsocket with
      connectsocket := -1
      port := -1 }
  else x

/-- The port that is actually used, as far as {lit}`getsockname` tells. -/
def usedPort (x : TcpReceive) (env : Env) (portno : Int) : Int :=
  match env.sockname with
  | some server => (x.abi.ntohs server.port).toNat
  | none => portno

/-- {lit}`tcpreceive_port`. -/
def setPort (env : Env) (x : TcpReceive) (fportno : FloatArg) (o : PortOutcome) : TcpReceive :=
  if x.port = fportno.toInt then x
  else
    let x := x.closePort
    match o.socket with
    | none => x
    | some sockfd =>
        let x := { x with os := x.os.acquire sockfd }
        if ¬ o.bind then
          emit (x.closesocket sockfd) (.plain .statusout "port" [setInt (-1)])
        else if ¬ o.listen then
          emit (x.closesocket sockfd) (.plain .statusout "port" [setInt (-1)])
        else
          let x := { x with
            polls := x.polls ++ [(sockfd, none)]
            connectsocket := sockfd
            port := x.usedPort env fportno.toInt }
          emit x (.plain .statusout "port" [setInt x.port])

/-- {lit}`tcpreceive_serialize`. -/
def setSerialize (x : TcpReceive) (doit : FloatArg) : TcpReceive :=
  { x with serialize := doit.toInt }

/-! ## Life time -/

/-- The object before {lit}`tcpreceive_new` opens its port; Pd clears a new object. -/
def blank (abi : Abi) (env : Env) : TcpReceive where
  abi := abi
  connectsocket := -1
  port := -1
  serialize := 1
  nconnections := 0
  connection := List.replicate maxConnections ⟨0, 0, -1, false, none⟩
  floatlist := floatlistCreate env.mem env.raw 1024
  polls := []
  os := .empty
  accepted := []
  receivers := .empty
  nullLists := 0
  log := []

/-- {lit}`tcpreceive_new`: the port number goes through an {lit}`int`. -/
def new (abi : Abi) (env : Env) (fportno : FloatArg) (o : PortOutcome) : TcpReceive :=
  setPort env (blank abi env) (FloatArg.ofInt fportno.toInt) o

/-- {lit}`tcpreceive_free`. -/
def free (x : TcpReceive) : TcpReceive :=
  let x := if 0 ≤ x.connectsocket then
    (x.rmpollfn x.connectsocket).closesocket x.connectsocket else x
  { x.disconnectAll with floatlist := none }

/-! ## The system -/

/-- What the object receives: a message from the patch, or a call of one of its poll
functions. -/
inductive Input
  /-- The descriptor {lit}`fd` of the listener is readable. -/
  | incoming (fd : Int) (o : Incoming)
  /-- The receiver on descriptor {lit}`fd` is called, and {lit}`recvfrom` ends in
  {lit}`r`. -/
  | readable (fd : Int) (r : Recvfrom)
  | port (fportno : FloatArg) (o : PortOutcome)
  | serialize (doit : FloatArg)

/-- The kernel hands out a number that is not in use. -/
def FreshFd (x : TcpReceive) (fd : Int) : Prop :=
  0 ≤ fd ∧ fd < 2 ^ 31 ∧ fd ∉ x.os.numbers

instance (x : TcpReceive) (fd : Int) : Decidable (x.FreshFd fd) :=
  inferInstanceAs (Decidable (_ ∧ _ ∧ _))

/-- What {lit}`socket` can deliver once the old port is closed. -/
def Possible (x : TcpReceive) (o : PortOutcome) : Prop :=
  ∀ fd ∈ o.socket, x.closePort.FreshFd fd

instance (x : TcpReceive) (o : PortOutcome) : Decidable (x.Possible o) :=
  inferInstanceAs (Decidable (∀ fd ∈ o.socket, _))

/-- The function registered for a readable descriptor. -/
def pollfn (x : TcpReceive) (fd : Int) : Option (Option (Item Watch)) :=
  (x.polls.find? fun p => p.1 = fd).map Prod.snd

/-- One input. -/
def step (x : TcpReceive) (env : Env) : Input → Option TcpReceive
  | .incoming fd o =>
      if x.pollfn fd = some none ∧ (o.fd < 0 ∨ x.FreshFd o.fd) then
        some (x.connectpoll env fd o)
      else none
  | .readable fd r =>
      match x.pollfn fd with
      | some (some w) =>
          if r.Possible .stream then
            some (x.readCallback env w.base.slot (pollfun x.abi env.mem r))
          else none
      | _ => none
  | .port fportno o => if x.Possible o then some (x.setPort env fportno o) else none
  | .serialize doit => some (x.setSerialize doit)

end TcpReceive

/-- The object as a transition system. -/
def tcpreceiveMachine : Machine TcpReceive (TcpReceive.Env × TcpReceive.Input) where
  init x := ∃ abi env f o, (TcpReceive.blank abi env).Possible o ∧
    x = TcpReceive.new abi env f o
  step x a := x.step a.1 a.2

end Iemnet
