import Iemnet.Client.Receiver
import Iemnet.Client.Resources
import Iemnet.UdpServer.Model

/-!
# The UDP receiver object

udpreceive.c, for a patch that listens to the outlets and does not answer.  The results of
{lit}`setsockopt` are without consequences and left out.

Main results:

- Theorems {lit}`UdpReceive.Kept.setport` and {lit}`UdpReceive.Kept.step`: what the object
  has open and polled is what its fields say.
- Theorem {lit}`udpreceive_kept`: the same for every reachable state.
-/

namespace Iemnet

open Pd Foundations

/-- {lit}`t_udpreceive`, what is kept for it elsewhere, and its history. -/
structure UdpReceive where
  abi : Abi
  fd : Int
  port : Int
  receiver : Option Worker
  floatlist : Option Floatlist
  reuseport : Int
  reuseaddr : Int
  res : Resources
  /-- How often no receiver could be created for a socket. -/
  unheard : Nat
  /-- How often a float list that does not exist was dereferenced. -/
  nullLists : Nat
  log : List Output

namespace UdpReceive

/-- What the environment decides during a message: whether a receiver can be created, the
allocator, and what {lit}`getsockname` says. -/
structure Env where
  receiver : Bool
  mem : Bool
  raw : Nat → Atom
  sockname : Option SockaddrIn

/-- The outcomes of {lit}`socket` and {lit}`bind`. -/
abbrev BindOutcome :=
  UdpServer.BindOutcome

/-- The two options of a socket. -/
inductive Reuse
  | reuseport
  | reuseaddr
deriving DecidableEq, Repr

/-- The name of an option. -/
def Reuse.name : Reuse → String
  | .reuseport => "reuseport"
  | .reuseaddr => "reuseaddr"

/-- An outlet call. -/
def emit (x : UdpReceive) (o : Output) : UdpReceive :=
  { x with log := x.log ++ [o] }

/-- {lit}`udpreceive_read_callback`. -/
def readCallback (env : Env) (x : UdpReceive) (c : Option Chunk) : UdpReceive :=
  match c with
  | none => x
  | some c =>
      let x := addrout emit x (BitVec.ofInt 32 c.addr) c.port
      let floatlist := chunk2list env.mem env.raw (some c) x.floatlist
      let x := { x with floatlist := floatlist }
      match floatlist with
      | none => { x with nullLists := x.nullLists + 1 }
      | some cl => emit x (.plain .msgout "list" (cl.argv.take cl.argc))

/-! ## The port -/

/-- {lit}`udpreceive_setport` cleans up an open port. -/
def closePort (x : UdpReceive) : UdpReceive :=
  let x := { x with res := x.res.receiverDestroy x.receiver, receiver := none }
  if 0 ≤ x.fd then { x with res := x.res.closesocket x.fd, fd := -1, port := -1 } else x

/-- The port that is actually used, as far as {lit}`getsockname` tells. -/
def usedPort (x : UdpReceive) (env : Env) (portno : BitVec 16) : Int :=
  match env.sockname with
  | some server => (x.abi.ntohs server.port).toNat
  | none => portno.toNat

/-- {lit}`udpreceive_setport` once the socket is bound. -/
def listenOn (env : Env) (x : UdpReceive) (portno : BitVec 16) (sockfd : Int) : UdpReceive :=
  let (r, receiver) := x.res.receiverCreate env.receiver sockfd
  { x with
    fd := sockfd
    port := x.usedPort env portno
    res := r
    receiver := receiver
    unheard := if env.receiver then x.unheard else x.unheard + 1 }

/-- {lit}`udpreceive_setport`. -/
def setport (env : Env) (x : UdpReceive) (portno : BitVec 16) (o : BindOutcome) :
    UdpReceive × Bool :=
  if x.port = portno.toNat then (x, true)
  else
    let x := x.closePort
    match o.socket with
    | none => (x, false)
    | some sockfd =>
        let x := { x with res := x.res.socket sockfd }
        if ¬ o.bind then ({ x with res := x.res.closesocket sockfd }, false)
        else (x.listenOn env portno sockfd, true)

/-- Tell which port is open. -/
def portout (x : UdpReceive) : UdpReceive :=
  emit x (.plain .statusout "port" [setInt x.port])

/-- {lit}`udpreceive_port`. -/
def portMessage (env : Env) (x : UdpReceive) (argv : List Atom) (o : BindOutcome) : UdpReceive :=
  match argv with
  | [] => x.portout
  | [a] =>
      if a.type ≠ .float then x
      else
        match x.setport env (BitVec.ofInt 16 (atomGetint a)) o with
        | (x, true) => x.portout
        | (x, false) => (emit x (.plain .statusout "port" [setInt (-1)])).portout
  | _ => x

/-- What {lit}`udpreceive_optionI` keeps for an option. -/
def reuse (x : UdpReceive) : Reuse → Int
  | .reuseport => x.reuseport
  | .reuseaddr => x.reuseaddr

/-- Set an option. -/
def setReuse (x : UdpReceive) (s : Reuse) (val : Int) : UdpReceive :=
  match s with
  | .reuseport => { x with reuseport := val }
  | .reuseaddr => { x with reuseaddr := val }

/-- {lit}`udpreceive_optionI`. -/
def optionI (x : UdpReceive) (s : Reuse) (argv : List Atom) : UdpReceive :=
  match argv with
  | [] => emit x (.plain .statusout s.name [setInt (x.reuse s)])
  | [a] => if a.type = .float then x.setReuse s (toInt32 (atomGetint a)) else x
  | _ => x

/-! ## Life time -/

/-- The object before {lit}`udpreceive_new` opens its port. -/
def blank (abi : Abi) (env : Env) : UdpReceive where
  abi := abi
  fd := -1
  port := -1
  receiver := none
  floatlist := floatlistCreate env.mem env.raw 1024
  reuseport := 0
  reuseaddr := 1
  res := .empty
  unheard := 0
  nullLists := 0
  log := []

/-- {lit}`udpreceive_new`. -/
def new (abi : Abi) (env : Env) (fportno : FloatArg) (o : BindOutcome) : UdpReceive :=
  ((blank abi env).setport env fportno.toUShort o).1

/-- {lit}`udpreceive_free`. -/
def free (x : UdpReceive) : UdpReceive :=
  let r := x.res.receiverDestroy x.receiver
  let r := if 0 ≤ x.fd then r.closesocket x.fd else r
  { x with res := r, receiver := none, fd := -1, floatlist := none }

/-! ## The system -/

/-- What the object receives: a message from the patch, or a readable descriptor. -/
inductive Input
  | port (argv : List Atom) (o : BindOutcome)
  | option (s : Reuse) (argv : List Atom)
  /-- The receiver on descriptor {lit}`fd` is called, and {lit}`recvfrom` ends in
  {lit}`r`. -/
  | readable (fd : Int) (r : Recvfrom)

/-- The kernel hands out a number that is not in use. -/
def FreshFd (x : UdpReceive) (fd : Int) : Prop :=
  0 ≤ fd ∧ fd < 2 ^ 31 ∧ fd ∉ x.res.os.numbers

instance (x : UdpReceive) (fd : Int) : Decidable (x.FreshFd fd) :=
  inferInstanceAs (Decidable (_ ∧ _ ∧ _))

/-- What {lit}`socket` can deliver once the old port is closed. -/
def Possible (x : UdpReceive) (o : BindOutcome) : Prop :=
  ∀ fd ∈ o.socket, x.closePort.FreshFd fd

instance (x : UdpReceive) (o : BindOutcome) : Decidable (x.Possible o) :=
  inferInstanceAs (Decidable (∀ fd ∈ o.socket, _))

/-- One input. -/
def step (x : UdpReceive) (env : Env) : Input → Option UdpReceive
  | .port argv o => if x.Possible o then some (x.portMessage env argv o) else none
  | .option s argv => some (x.optionI s argv)
  | .readable fd r =>
      if fd ∈ x.res.polls.map Prod.fst ∧ r.Possible .dgram then
        some (x.readCallback env (pollfun x.abi env.mem r))
      else none

end UdpReceive

/-- The object as a transition system. -/
def udpreceiveMachine : Machine UdpReceive (UdpReceive.Env × UdpReceive.Input) where
  init x := ∃ abi env f o, (UdpReceive.blank abi env).Possible o ∧
    x = UdpReceive.new abi env f o
  step x a := x.step a.1 a.2

namespace UdpReceive

/-! ## What is open -/

variable {x x' : UdpReceive} {env : Env} {o : BindOutcome} {fd : Int}

/-- The fields say what is open and polled, and an object without a socket has no port. -/
structure Kept (x : UdpReceive) : Prop where
  holding : x.res.Holding (stored x.fd) none x.receiver
  closed : x.fd < 0 → x.fd = -1 ∧ x.port = -1
  heard : x.unheard = 0 → 0 ≤ x.fd → x.receiver ≠ none

/-- The port and what is open are the same. -/
structure SamePort (x x' : UdpReceive) : Prop where
  fd : x'.fd = x.fd
  port : x'.port = x.port
  receiver : x'.receiver = x.receiver
  res : x'.res = x.res
  unheard : x'.unheard = x.unheard

/-- A port that stays the same twice stays the same. -/
theorem SamePort.trans {x₁ x₂ x₃ : UdpReceive} (h₁ : SamePort x₁ x₂) (h₂ : SamePort x₂ x₃) :
    SamePort x₁ x₃ :=
  ⟨h₂.fd.trans h₁.fd, h₂.port.trans h₁.port, h₂.receiver.trans h₁.receiver,
    h₂.res.trans h₁.res, h₂.unheard.trans h₁.unheard⟩

/-- An outlet call leaves the port alone. -/
theorem samePort_emit (x : UdpReceive) (o : Output) : SamePort x (emit x o) :=
  ⟨rfl, rfl, rfl, rfl, rfl⟩

/-- Receiving leaves the port alone. -/
theorem samePort_readCallback (env : Env) (x : UdpReceive) (c : Option Chunk) :
    SamePort x (x.readCallback env c) := by
  unfold readCallback
  split
  · exact ⟨rfl, rfl, rfl, rfl, rfl⟩
  · dsimp only
    split
    · exact ⟨rfl, rfl, rfl, rfl, rfl⟩
    · exact ⟨rfl, rfl, rfl, rfl, rfl⟩

/-- Asking for an option leaves the port alone. -/
theorem samePort_optionI (x : UdpReceive) (s : Reuse) (argv : List Atom) :
    SamePort x (x.optionI s argv) := by
  unfold optionI
  split
  · exact samePort_emit _ _
  · split
    · cases s with
      | reuseport => exact ⟨rfl, rfl, rfl, rfl, rfl⟩
      | reuseaddr => exact ⟨rfl, rfl, rfl, rfl, rfl⟩
    · exact ⟨rfl, rfl, rfl, rfl, rfl⟩
  · exact ⟨rfl, rfl, rfl, rfl, rfl⟩

/-- The account of the port holds as long as the port stays the same. -/
theorem Kept.same (h : x.Kept) (hsame : SamePort x x') : x'.Kept := by
  constructor
  · rw [hsame.res, hsame.fd, hsame.receiver]
    exact h.holding
  · rw [hsame.fd, hsame.port]
    exact h.closed
  · rw [hsame.unheard, hsame.fd, hsame.receiver]
    exact h.heard

/-- Without a descriptor there is nothing. -/
theorem Kept.nothing (h : x.Kept) (hfd : x.fd < 0) :
    x.res.Holding none none none ∧ x.receiver = none := by
  have hholding := h.holding
  rw [stored_of_neg hfd] at hholding
  have hnone := hholding.nothing.2
  rw [hnone] at hholding
  exact ⟨hholding, hnone⟩

/-- Without a port nothing is held. -/
theorem kept_closed (h : x.res.Holding none none none) (hfd : x.fd = -1) (hport : x.port = -1)
    (hreceiver : x.receiver = none) : x.Kept := by
  constructor
  · rw [hfd, hreceiver]
    exact h
  · exact fun _ => ⟨hfd, hport⟩
  · rw [hfd]
    exact fun _ hneg => absurd hneg (by decide)

/-- Cleaning up an open port. -/
theorem Kept.closePort (h : x.Kept) :
    x.closePort.res.Holding none none none ∧ x.closePort.fd = -1 ∧ x.closePort.port = -1 ∧
      x.closePort.receiver = none := by
  have hdestroyed := h.holding.receiverDestroy
  unfold UdpReceive.closePort
  dsimp only
  split
  case isTrue hopen => exact ⟨hdestroyed.closeStored, rfl, rfl, rfl⟩
  case isFalse hopen =>
    rw [stored_of_neg (Int.not_le.1 hopen)] at hdestroyed
    rcases h.closed (Int.not_le.1 hopen) with ⟨hfd, hport⟩
    exact ⟨hdestroyed, hfd, hport, rfl⟩

/-- The socket is bound. -/
theorem kept_listenOn (h : x.res.Holding (some fd) none none) (hfd : 0 ≤ fd)
    (portno : BitVec 16) : (x.listenOn env portno fd).Kept := by
  have hcreated := h.receiverCreate env.receiver
  constructor
  · show Resources.Holding _ (stored fd) none _
    rw [stored_of_nonneg hfd]
    exact hcreated
  · intro hneg
    exact absurd hneg (Int.not_lt.2 hfd)
  · intro hheard _ hnone
    cases hreceiver : env.receiver with
    | true => simp [listenOn, Resources.receiverCreate, hreceiver] at hnone
    | false => simp [listenOn, hreceiver] at hheard

/-- {lit}`udpreceive_setport` keeps the invariant, whatever becomes of it. -/
theorem Kept.setport (h : x.Kept) (ho : x.Possible o) (portno : BitVec 16) :
    (x.setport env portno o).1.Kept := by
  have hclose := h.closePort
  unfold UdpReceive.setport
  split
  · exact h
  · dsimp only
    unfold Possible at ho
    generalize x.closePort = y at hclose ho ⊢
    rcases hclose with ⟨hholding, hfd, hport, hreceiver⟩
    cases hsocket : o.socket with
    | none => exact kept_closed hholding hfd hport hreceiver
    | some sockfd =>
        have hnonneg := (ho sockfd hsocket).1
        have hopen := hholding.socket sockfd
        dsimp only
        split
        · exact kept_closed (hopen.closesocket hnonneg) hfd hport hreceiver
        · exact kept_listenOn hopen hnonneg portno

/-- A port message keeps the account of the port. -/
theorem Kept.portMessage (h : x.Kept) (ho : x.Possible o) (argv : List Atom) :
    (x.portMessage env argv o).Kept := by
  unfold UdpReceive.portMessage
  split
  · exact h.same (samePort_emit _ _)
  · rename_i a
    split
    · exact h
    · have hset : (x.setport env (BitVec.ofInt 16 (atomGetint a)) o).1.Kept := h.setport ho _
      split
      · rename_i heq
        rw [heq] at hset
        exact hset.same (samePort_emit _ _)
      · rename_i heq
        rw [heq] at hset
        exact hset.same ((samePort_emit _ _).trans (samePort_emit _ _))
  · exact h

/-- Every input keeps the invariant. -/
theorem Kept.step {a : Input} (h : x.Kept) (hs : x.step env a = some x') : x'.Kept := by
  cases a with
  | port argv o =>
      simp only [UdpReceive.step] at hs
      split at hs
      · cases hs
        exact h.portMessage ‹_› argv
      · cases hs
  | option s argv =>
      cases hs
      exact h.same (samePort_optionI x s argv)
  | readable fd r =>
      simp only [UdpReceive.step] at hs
      split at hs
      · cases hs
        exact h.same (samePort_readCallback _ _ _)
      · cases hs

end UdpReceive

/-- What a reachable object has open and polled is what its fields say. -/
theorem udpreceive_kept {x : UdpReceive} (h : udpreceiveMachine.Reachable x) : x.Kept := by
  apply h.invariant (I := UdpReceive.Kept)
  · rintro x ⟨abi, env, f, o, ho, rfl⟩
    have hblank : (UdpReceive.blank abi env).Kept :=
      UdpReceive.kept_closed Resources.holding_empty rfl rfl rfl
    exact hblank.setport ho f.toUShort
  · intro x a x' _ hkept _ hs
    exact hkept.step hs

end Iemnet
