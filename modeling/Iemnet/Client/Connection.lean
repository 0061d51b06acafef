import Iemnet.Client.Receiver
import Iemnet.Client.Resources
import Iemnet.Pd.Outlets

/-!
# What the client objects have in common

{lit}`t_tcpclient` and {lit}`t_udpclient` share most of their fields and the code that
reports the state, hands out received data and sends.  The functions here are the common
parts; each object keeps its own functions, with its own port and its own way to
disconnect.

Main results:

- Theorems {lit}`Connection.info_frame`, {lit}`Connection.send_frame` and
  {lit}`Connection.deliver_frame`: none of them touches a descriptor, a sender or a
  receiver.
- Theorem {lit}`Connection.deliver_messages`: a chunk is output once, byte by byte.
-/

namespace Iemnet

open Pd Foundations

/-- What {lit}`gethostbyname` delivers: an address in network byte order, and the four
bytes that follow it in memory. -/
structure HostAddr where
  addr : BitVec 32
  behind : BitVec 32
deriving DecidableEq, Repr

/-- {lit}`ntohl(*(long *)hp->h_addr)`: a big-endian machine with a long of 64 bits keeps
the wrong half. -/
def hostLong (abi : Abi) (hp : HostAddr) : Int :=
  if abi.littleEndian ∨ abi.longBits = 32 then abi.toLong (abi.ntohl hp.addr)
  else abi.toLong hp.behind

/-- The address a client connects to. -/
def serverAddress (abi : Abi) (hp : HostAddr) (port : BitVec 16) : SockaddrIn :=
  ⟨afInet, hp.addr, abi.ntohs port⟩

/-- The outcomes of {lit}`socket` and of connecting to an address. -/
structure ConnectOutcome where
  socket : Option Int
  connect : SockaddrIn → Bool

/-- What the environment decides during a message: {lit}`gethostbyname`, whether a sender
and a receiver can be created, the results of {lit}`iemnet__sender_send`,
{lit}`iemnet__sender_getsize` and {lit}`getsockname`, and the allocator. -/
structure ClientEnv where
  host : String → Option HostAddr
  sender : Bool
  receiver : Bool
  sent : Int
  queued : Int
  address : Option SockaddrIn
  mem : Bool
  raw : Nat → Atom

/-- An environment in which every name resolves and memory suffices. -/
def plainClientEnv (sender : Bool) (sent : Int) : ClientEnv where
  host := fun _ => some ⟨0x0100007f#32, 0#32⟩
  sender := sender
  receiver := true
  sent := sent
  queued := 0
  address := none
  mem := true
  raw := fun _ => setFloat 0

/-- What the C program must not do. -/
inductive ClientFault
  /-- {lit}`gensym` of a {lit}`NULL` name. -/
  | nullName
  /-- The name of a descriptor that the object does not have open is asked for. -/
  | foreignSocket (fd : Int)
  | nullList
deriving DecidableEq, Repr

/-- The common fields, what is kept for the object elsewhere, and its history. -/
structure Connection where
  abi : Abi
  sender : Option Worker
  receiver : Option Worker
  fd : Int
  hostname : Option String
  connectstate : Nat
  addr : Int
  floatlist : Option Floatlist
  res : Resources
  /-- The calls of {lit}`iemnet__sender_send`. -/
  sends : List (Worker × Chunk × Int)
  faults : List ClientFault
  log : List Output

namespace Connection

/-- An outlet call. -/
def emit (x : Connection) (o : Output) : Connection :=
  { x with log := x.log ++ [o] }

/-- Something the program must not do has been done. -/
def fault (x : Connection) (f : ClientFault) : Connection :=
  { x with faults := x.faults ++ [f] }

/-- A new object; Pd clears what the constructor does not set. -/
def blank (abi : Abi) (env : ClientEnv) : Connection where
  abi := abi
  sender := none
  receiver := none
  fd := -1
  hostname := none
  connectstate := 0
  addr := 0
  floatlist := floatlistCreate env.mem env.raw 1024
  res := .empty
  sends := []
  faults := []
  log := []

/-- Ask for the name of a socket. -/
def getsockname (x : Connection) (sockfd : Int) : Connection :=
  if sockfd ∈ x.res.os.numbers then x else x.fault (.foreignSocket sockfd)

/-- {lit}`tcpclient_info` and {lit}`udpclient_info` report where they are connected
to. -/
def serverInfo (env : ClientEnv) (x : Connection) (port : BitVec 16) : Connection :=
  let insize : Int := if x.receiver = none then -1 else 0
  let outsize : Int := if x.sender = none then -1 else env.queued
  match x.hostname with
  | none => x.fault .nullName
  | some hostname =>
      let x := emit x (.plain .statusout "server"
        [setInt x.fd, setSymbol hostname, setInt port.toNat])
      emit x (.plain .statusout "bufsize" [setInt insize, setInt outsize])

/-- {lit}`tcpclient_info` and {lit}`udpclient_info` report where they are connected
from. -/
def localAddress (env : ClientEnv) (x : Connection) : Connection :=
  if 0 ≤ x.fd then
    socket2addressout emit x.abi (x.getsockname x.fd) "local_address" env.address
  else x

/-- {lit}`tcpclient_info` and {lit}`udpclient_info`. -/
def info (env : ClientEnv) (x : Connection) (port : BitVec 16) : Connection :=
  let connected := x.connectstate
  let x := numconnout emit (x.localAddress env) connected
  if connected ≠ 0 then x.serverInfo env port else x

/-- {lit}`tcpclient_send` and {lit}`udpclient_send` up to the output, with the size they
have found. -/
def send (env : ClientEnv) (x : Connection) (argv : List Atom) : Connection × Int :=
  let (x, size) : Connection × Int := match x.sender, chunkCreateList env.mem argv with
    | some s, some chunk => ({ x with sends := x.sends ++ [(s, chunk, env.sent)] }, env.sent)
    | _, _ => (x, 0)
  (emit x (.plain .statusout "sendbuffersize" [setInt size]), size)

/-- The receive callbacks with a chunk; {lit}`out` is what the object makes of its float
list. -/
def deliver (env : ClientEnv) (x : Connection) (c : Chunk) (port : BitVec 16)
    (out : Floatlist → List Message) : Connection :=
  let x := addrout emit x (BitVec.ofInt 32 x.addr) port
  let floatlist := chunk2list env.mem env.raw (some c) x.floatlist
  let x := { x with floatlist := floatlist }
  match floatlist with
  | none => x.fault .nullList
  | some cl => (out cl).foldl (fun x m => emit x (.plain .msgout m.selector m.argv)) x

/-! ## What the functions leave alone -/

/-- Nothing that has to do with the connection itself changes. -/
structure Same (x x' : Connection) : Prop where
  sender : x'.sender = x.sender
  receiver : x'.receiver = x.receiver
  fd : x'.fd = x.fd
  hostname : x'.hostname = x.hostname
  connectstate : x'.connectstate = x.connectstate
  res : x'.res = x.res

variable {x x' : Connection} {env : ClientEnv}

/-- Nothing has changed. -/
theorem Same.refl (x : Connection) : Same x x :=
  ⟨rfl, rfl, rfl, rfl, rfl, rfl⟩

/-- What stays the same twice stays the same. -/
theorem Same.trans {x₁ x₂ x₃ : Connection} (h₁ : Same x₁ x₂) (h₂ : Same x₂ x₃) :
    Same x₁ x₃ :=
  ⟨h₂.sender.trans h₁.sender, h₂.receiver.trans h₁.receiver, h₂.fd.trans h₁.fd,
    h₂.hostname.trans h₁.hostname, h₂.connectstate.trans h₁.connectstate, h₂.res.trans h₁.res⟩

/-- An outlet call changes no field of the connection. -/
theorem same_emit (x : Connection) (o : Output) : Same x (emit x o) :=
  ⟨rfl, rfl, rfl, rfl, rfl, rfl⟩

/-- A fault changes no field of the connection. -/
theorem same_fault (x : Connection) (f : ClientFault) : Same x (x.fault f) :=
  ⟨rfl, rfl, rfl, rfl, rfl, rfl⟩

/-- Putting out the number of connections changes no field of the connection. -/
theorem same_numconnout (x : Connection) (n : Nat) : Same x (numconnout emit x n) :=
  (same_emit _ _).trans (same_emit _ _)

/-- Asking for the own address changes no field of the connection. -/
theorem same_getsockname (x : Connection) (fd : Int) : Same x (x.getsockname fd) := by
  unfold getsockname
  split
  · exact .refl x
  · exact same_fault x _

/-- Putting out an address changes no field of the connection. -/
theorem same_socket2addressout (abi : Abi) (x : Connection) (s : String)
    (address : Option SockaddrIn) : Same x (socket2addressout emit abi x s address) := by
  cases address with
  | none => exact .refl x
  | some a => exact same_emit x _

/-- Putting out the own address changes no field of the connection. -/
theorem same_localAddress (env : ClientEnv) (x : Connection) : Same x (x.localAddress env) := by
  unfold localAddress
  split
  · exact (same_getsockname x x.fd).trans (same_socket2addressout _ _ _ _)
  · exact .refl x

/-- Putting out the peer changes no field of the connection. -/
theorem same_serverInfo (x : Connection) (port : BitVec 16) :
    Same x (x.serverInfo env port) := by
  unfold serverInfo
  dsimp only
  split
  · exact same_fault x _
  · exact (same_emit _ _).trans (same_emit _ _)

/-- Information changes no field of the connection. -/
theorem info_frame (env : ClientEnv) (x : Connection) (port : BitVec 16) :
    Same x (x.info env port) := by
  have hout := (same_localAddress env x).trans (same_numconnout _ x.connectstate)
  unfold info
  dsimp only
  split
  · exact hout.trans (same_serverInfo _ port)
  · exact hout

/-- Sending changes no field of the connection. -/
theorem send_frame (env : ClientEnv) (x : Connection) (argv : List Atom) :
    Same x (x.send env argv).1 := by
  unfold send
  dsimp only
  split
  · exact ⟨rfl, rfl, rfl, rfl, rfl, rfl⟩
  · exact same_emit x _

/-- The size of a send is the result of the sender, or {lit}`0` if there is nothing to
send or nobody to send it. -/
theorem send_size (env : ClientEnv) (x : Connection) (argv : List Atom) :
    (x.send env argv).2 =
      if x.sender ≠ none ∧ chunkCreateList env.mem argv ≠ none then env.sent else 0 := by
  unfold send
  cases x.sender with
  | none => rfl
  | some s =>
      cases chunkCreateList env.mem argv with
      | none => rfl
      | some chunk => rfl

/-- Putting out messages changes no field of the connection. -/
theorem same_messages (x : Connection) (ms : List Message) :
    Same x (ms.foldl (fun x m => emit x (.plain .msgout m.selector m.argv)) x) := by
  induction ms generalizing x with
  | nil => exact .refl x
  | cons m ms ih => exact (same_emit x _).trans (ih _)

/-- Putting out what was received changes no field of the connection but its list. -/
theorem deliver_frame (env : ClientEnv) (x : Connection) (c : Chunk) (port : BitVec 16)
    (out : Floatlist → List Message) : Same x (x.deliver env c port out) := by
  have hload : ∀ floatlist, Same x
      { addrout emit x (BitVec.ofInt 32 x.addr) port with floatlist := floatlist } :=
    fun _ => ⟨rfl, rfl, rfl, rfl, rfl, rfl⟩
  unfold deliver
  dsimp only
  split
  · exact (hload _).trans (same_fault _ _)
  · exact (hload _).trans (same_messages _ _)

/-! ## Faults -/

/-- With an open descriptor the own address can be asked for. -/
theorem faults_localAddress (env : ClientEnv) (h : 0 ≤ x.fd → x.fd ∈ x.res.os.numbers) :
    (x.localAddress env).faults = x.faults := by
  unfold localAddress
  split
  · rename_i hpos
    have hname : x.getsockname x.fd = x := if_pos (h hpos)
    rw [hname]
    cases env.address with
    | none => rfl
    | some a => rfl
  · rfl

/-- With a host name the peer can be put out. -/
theorem faults_serverInfo {port : BitVec 16} (h : x.hostname ≠ none) :
    (x.serverInfo env port).faults = x.faults := by
  unfold serverInfo
  cases hname : x.hostname with
  | none => exact absurd hname h
  | some hostname => rfl

/-- A report on an object whose descriptor is its own, and which has a name for its peer
when it says that it is connected. -/
theorem info_faults (env : ClientEnv) {port : BitVec 16} (hfd : 0 ≤ x.fd → x.fd ∈ x.res.os.numbers)
    (hname : x.connectstate ≠ 0 → x.hostname ≠ none) :
    (x.info env port).faults = x.faults := by
  have haddress := faults_localAddress env hfd
  have hout : (numconnout emit (x.localAddress env) x.connectstate).faults = x.faults :=
    haddress
  have hsame := (same_localAddress env x).trans (same_numconnout _ x.connectstate)
  unfold info
  dsimp only
  split
  · rename_i hconnected
    rw [faults_serverInfo (hsame.hostname ▸ hname hconnected)]
    exact hout
  · exact hout

/-- Sending goes wrong in no way. -/
theorem send_faults (argv : List Atom) : (x.send env argv).1.faults = x.faults := by
  unfold send
  dsimp only
  split <;> rfl

/-- Putting out messages goes wrong in no way. -/
theorem faults_messages (x : Connection) (ms : List Message) :
    (ms.foldl (fun x m => emit x (.plain .msgout m.selector m.argv)) x).faults = x.faults := by
  induction ms generalizing x with
  | nil => rfl
  | cons m ms ih => exact ih _

/-- With memory there is a float list to output. -/
theorem deliver_faults (hmem : env.mem = true) (c : Chunk) (port : BitVec 16)
    (out : Floatlist → List Message) : (x.deliver env c port out).faults = x.faults := by
  have hlist : chunk2list env.mem env.raw (some c) x.floatlist ≠ none := by
    rw [hmem]
    unfold chunk2list floatlistResize floatlistCreate
    cases x.floatlist with
    | none => simp
    | some cl =>
        by_cases hsize : c.size ≤ cl.size
        · simp [hsize]
        · simp [hsize]
  cases hcl : chunk2list env.mem env.raw (some c) x.floatlist with
  | none => exact absurd hcl hlist
  | some cl =>
      have hload : chunk2list env.mem env.raw (some c)
          (addrout emit x (BitVec.ofInt 32 x.addr) port).floatlist = some cl := hcl
      unfold deliver
      dsimp only
      rw [hload]
      exact faults_messages _ _

/-! ## Output -/

/-- What has been output as received data. -/
def messages (x : Connection) : List Message :=
  (x.log.filter fun o => o.outlet = .msgout).map fun o => ⟨o.selector, o.argv⟩

/-- The float list can be loaded. -/
def Sound (x : Connection) : Prop :=
  ∀ cl ∈ x.floatlist, cl.WellTyped

/-- The list stays sound as long as it stays the same. -/
theorem Sound.of_eq (h : x.Sound) (heq : x'.floatlist = x.floatlist) : x'.Sound := by
  unfold Sound
  rw [heq]
  exact h

/-- The list of a new connection is sound. -/
theorem sound_blank (abi : Abi) (env : ClientEnv) : (blank abi env).Sound := by
  intro cl hcl
  change cl ∈ floatlistCreate env.mem env.raw 1024 at hcl
  cases hmem : env.mem with
  | false =>
      rw [hmem] at hcl
      cases hcl
  | true =>
      rcases floatlistCreate_wellTyped env.raw 1024 with ⟨cl', hcl', hwell⟩
      rw [hmem, hcl'] at hcl
      exact Option.some.inj hcl ▸ hwell

/-- Messages that are put out are added to those before. -/
theorem messages_foldl (x : Connection) (ms : List Message) :
    (ms.foldl (fun x m => emit x (.plain .msgout m.selector m.argv)) x).messages =
      x.messages ++ ms := by
  induction ms generalizing x with
  | nil => simp
  | cons m ms ih =>
      rw [List.foldl_cons, ih]
      simp [messages, emit, Output.plain]

/-- Putting out messages leaves the list alone. -/
theorem foldl_floatlist (x : Connection) (ms : List Message) :
    (ms.foldl (fun x m => emit x (.plain .msgout m.selector m.argv)) x).floatlist =
      x.floatlist := by
  induction ms generalizing x with
  | nil => rfl
  | cons m ms ih => exact ih _

/-- With memory the bytes of a chunk are output. -/
theorem deliver_output (hmem : env.mem = true) (hsound : x.Sound) {c : Chunk}
    (hc : c.data ≠ []) (port : BitVec 16) {out : Floatlist → List Message}
    {ms : List Message} (hout : ∀ cl, cl.argv.take cl.argc = byteAtoms c.data → out cl = ms) :
    (x.deliver env c port out).messages = x.messages ++ ms ∧
      (x.deliver env c port out).Sound := by
  rcases chunk2list_sound env.raw hsound hc with ⟨cl, hlist, hwell, htake⟩
  have haddr : ∀ y : Connection, (addrout emit y (BitVec.ofInt 32 x.addr) port).messages =
      y.messages := by
    intro y
    simp [messages, addrout, emit, Output.plain]
  have hload : (addrout emit x (BitVec.ofInt 32 x.addr) port).floatlist = x.floatlist := rfl
  unfold deliver
  dsimp only
  rw [hmem, hload, hlist]
  dsimp only
  rw [hout cl htake]
  refine ⟨?_, ?_⟩
  · rw [messages_foldl]
    exact congrArg (· ++ ms) (haddr x)
  · intro cl' hcl'
    rw [foldl_floatlist] at hcl'
    exact Option.some.inj hcl' ▸ hwell

/-- Putting out the peer leaves the list alone. -/
theorem serverInfo_floatlist (x : Connection) (port : BitVec 16) :
    (x.serverInfo env port).floatlist = x.floatlist := by
  unfold serverInfo
  dsimp only
  split <;> rfl

/-- Putting out the own address leaves the list alone. -/
theorem localAddress_floatlist (env : ClientEnv) (x : Connection) :
    (x.localAddress env).floatlist = x.floatlist := by
  have hname : (x.getsockname x.fd).floatlist = x.floatlist := by
    unfold getsockname
    split <;> rfl
  unfold localAddress socket2addressout
  split
  · split <;> exact hname
  · rfl

/-- Information leaves the list alone. -/
theorem info_floatlist (env : ClientEnv) (x : Connection) (port : BitVec 16) :
    (x.info env port).floatlist = x.floatlist := by
  have haddress := localAddress_floatlist env x
  have hout : (numconnout emit (x.localAddress env) x.connectstate).floatlist =
    x.floatlist := haddress
  unfold info
  dsimp only
  split
  · rw [serverInfo_floatlist]
    exact hout
  · exact hout

/-- Sending leaves the list of received numbers alone. -/
theorem send_floatlist (env : ClientEnv) (x : Connection) (argv : List Atom) :
    (x.send env argv).1.floatlist = x.floatlist := by
  unfold send
  dsimp only
  split <;> rfl

end Connection

end Iemnet
