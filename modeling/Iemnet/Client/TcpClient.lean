import Iemnet.Client.Connection
import Iemnet.Foundations.TransitionSystem

/-!
# The TCP client object

tcpclient.c, for a patch that listens to the outlets and does not answer.  The time
{lit}`iemnet__connect` waits is left to its outcome.

Main results:

- Theorems {lit}`TcpClient.Kept.connect`, {lit}`TcpClient.Kept.disconnect` and
  {lit}`TcpClient.Kept.step`: what the object has open is what its fields say.
- Theorem {lit}`tcpclient_kept`: the same for every reachable state.
-/

namespace Iemnet

open Pd Foundations

/-- {lit}`t_tcpclient`. -/
structure TcpClient extends Connection where
  serialize : Int
  port : Int

namespace TcpClient

/-- Do something to the common part. -/
def common (f : Connection → Connection) (x : TcpClient) : TcpClient :=
  { x with toConnection := f x.toConnection }

/-- {lit}`tcpclient_info`. -/
def info (env : ClientEnv) (x : TcpClient) : TcpClient :=
  x.common fun c => c.info env (BitVec.ofInt 16 x.port)

/-- {lit}`tcpclient_do_disconnect`. -/
def doDisconnect (r : Resources) (fd : Int) (sender receiver : Option Worker) :
    Resources × Bool :=
  let r := (r.senderDestroy sender).receiverDestroy receiver
  if 0 ≤ fd then (r.closesocket fd, true) else (r, false)

/-- {lit}`tcpclient_do_connect`: the descriptor, or {lit}`-1`. -/
def doConnect (env : ClientEnv) (host : String) (port : BitVec 16) (x : TcpClient)
    (o : ConnectOutcome) : TcpClient × Int :=
  match env.host host with
  | none => (x, -1)
  | some hp =>
      match o.socket with
      | none => (x, -1)
      | some sockfd =>
          let r := x.res.socket sockfd
          if o.connect (serverAddress x.abi hp port) then
            let (r, sender) := r.senderCreate env.sender sockfd
            let (r, receiver) := r.receiverCreate env.receiver sockfd
            ({ x with
                res := r, addr := hostLong x.abi hp, sender := sender, receiver := receiver },
              sockfd)
          else ({ x with res := r.closesocket sockfd }, -1)

/-- {lit}`tcpclient_connect` disconnects any active connection first. -/
def hangUp (x : TcpClient) : TcpClient :=
  if x.hostname ≠ none ∨ x.port ≠ 0 then
    let (r, state) := doDisconnect x.res x.fd x.sender x.receiver
    let x := { x with res := r, connectstate := 0, sender := none, receiver := none }
    if state then x.common fun c => numconnout Connection.emit c 0 else x
  else x

/-- {lit}`tcpclient_connect` takes the new host name and port. -/
def prepare (x : TcpClient) (hostname : String) (fportno : FloatArg) : TcpClient :=
  { x.hangUp with hostname := some hostname, port := fportno.toInt }

/-- {lit}`tcpclient_connect` up to its report. -/
def establish (env : ClientEnv) (x : TcpClient) (hostname : String) (fportno : FloatArg)
    (o : ConnectOutcome) : TcpClient :=
  let (x, state) := doConnect env hostname (BitVec.ofInt 16 fportno.toInt)
    (x.prepare hostname fportno) o
  { x with connectstate := if 0 < state then 1 else 0, fd := state }

/-- {lit}`tcpclient_connect`. -/
def connect (env : ClientEnv) (x : TcpClient) (hostname : String) (fportno : FloatArg)
    (o : ConnectOutcome) : TcpClient :=
  (x.establish env hostname fportno o).info env

/-- {lit}`tcpclient_disconnect`. -/
def disconnect (x : TcpClient) : TcpClient :=
  let r := if x.hostname ≠ none ∨ x.port ≠ 0 then
    (doDisconnect x.res x.fd x.sender x.receiver).1 else x.res
  let x := { x with res := r, port := 0, hostname := none, sender := none, receiver := none }
  x.common fun c => numconnout Connection.emit c 0

/-- {lit}`tcpclient_send`. -/
def send (env : ClientEnv) (x : TcpClient) (argv : List Atom) : TcpClient :=
  let (c, size) := x.toConnection.send env argv
  let x := { x with toConnection := c }
  if size < 0 then x.disconnect else x

/-- {lit}`tcpclient_receive_callback`. -/
def receiveCallback (env : ClientEnv) (x : TcpClient) (c : Option Chunk) : TcpClient :=
  match c with
  | some c =>
      x.common fun y => y.deliver env c (BitVec.ofInt 16 x.port) fun cl =>
        streamout cl.argc cl.argv x.serialize
  | none => x.disconnect

/-- {lit}`tcpclient_serialize`. -/
def setSerialize (x : TcpClient) (doit : FloatArg) : TcpClient :=
  { x with serialize := doit.toInt }

/-- {lit}`tcpclient_new`. -/
def new (abi : Abi) (env : ClientEnv) : TcpClient where
  toConnection := .blank abi env
  serialize := 1
  port := 0

/-- {lit}`tcpclient_free`. -/
def free (x : TcpClient) : TcpClient :=
  { x.disconnect with floatlist := none }

/-! ## The system -/

/-- What the object receives: a message from the patch, or a readable descriptor. -/
inductive Input
  | connect (hostname : String) (fportno : FloatArg) (o : ConnectOutcome)
  | disconnect
  | send (argv : List Atom)
  /-- The receiver on descriptor {lit}`fd` is called, and {lit}`recvfrom` ends in
  {lit}`r`. -/
  | readable (fd : Int) (r : Recvfrom)
  | info
  | serialize (doit : FloatArg)

/-- What {lit}`socket` can deliver once the old connection is gone: a number that is not
in use. -/
def Possible (x : TcpClient) (o : ConnectOutcome) : Prop :=
  ∀ fd ∈ o.socket, 0 ≤ fd ∧ fd < 2 ^ 31 ∧ fd ∉ x.hangUp.res.os.numbers

instance (x : TcpClient) (o : ConnectOutcome) : Decidable (x.Possible o) :=
  inferInstanceAs (Decidable (∀ fd ∈ o.socket, _))

/-- One input. -/
def step (x : TcpClient) (env : ClientEnv) : Input → Option TcpClient
  | .connect hostname fportno o =>
      if x.Possible o then some (x.connect env hostname fportno o) else none
  | .disconnect => some x.disconnect
  | .send argv => some (x.send env argv)
  | .readable fd r =>
      if fd ∈ x.res.polls.map Prod.fst ∧ r.Possible .stream then
        some (x.receiveCallback env (pollfun x.abi env.mem r))
      else none
  | .info => some (x.info env)
  | .serialize doit => some (x.setSerialize doit)

end TcpClient

/-- The object as a transition system. -/
def tcpclientMachine : Machine TcpClient (ClientEnv × TcpClient.Input) where
  init x := ∃ abi env, x = TcpClient.new abi env
  step x a := x.step a.1 a.2

namespace TcpClient

/-! ## What is open -/

variable {x x' : TcpClient} {env : ClientEnv}

/-- The descriptor that the object is responsible for: {lit}`x_fd` counts only while there
is a host name or a port. -/
def socket (x : TcpClient) : Option Int :=
  if x.hostname ≠ none ∨ x.port ≠ 0 then stored x.fd else none

/-- The fields say what is open. -/
def Kept (x : TcpClient) : Prop :=
  x.res.Holding x.socket x.sender x.receiver

/-- A step that leaves the connection and the port alone. -/
theorem Kept.same (h : x.Kept) (hsame : x.toConnection.Same x'.toConnection)
    (hport : x'.port = x.port) : x'.Kept := by
  unfold Kept socket at h ⊢
  rw [hsame.res, hsame.sender, hsame.receiver, hsame.hostname, hsame.fd, hport]
  exact h

/-- Tearing down what the fields hold leaves nothing behind. -/
theorem doDisconnect_holding {r : Resources} {fd : Int} {s rec' : Option Worker}
    (h : r.Holding (stored fd) s rec') :
    (doDisconnect r fd s rec').1.Holding none none none := by
  have hworkers := h.senderDestroy.receiverDestroy
  unfold doDisconnect
  dsimp only
  by_cases hfd : 0 ≤ fd
  · rw [if_pos hfd]
    exact hworkers.closeStored
  · rw [stored_of_neg (not_le.1 hfd)] at hworkers
    rw [if_neg hfd]
    exact hworkers

/-- After {lit}`tcpclient_connect` has disconnected the old connection nothing is left. -/
theorem Kept.hangUp (h : x.Kept) :
    x.hangUp.res.Holding none none none ∧ x.hangUp.sender = none ∧
      x.hangUp.receiver = none := by
  unfold Kept socket at h
  unfold TcpClient.hangUp
  by_cases hactive : x.hostname ≠ none ∨ x.port ≠ 0
  · rw [if_pos hactive] at h ⊢
    have hdone := doDisconnect_holding h
    dsimp only
    split <;> exact ⟨hdone, rfl, rfl⟩
  · rw [if_neg hactive] at h ⊢
    rcases h.nothing with ⟨hs, hrec⟩
    rw [hs, hrec] at h
    exact ⟨h, hs, hrec⟩

/-- {lit}`tcpclient_do_connect` from nothing: the descriptor it returns is open with the
new sender and receiver, or it returns {lit}`-1` and nothing is open. -/
theorem doConnect_holding (env : ClientEnv) (host : String) (port : BitVec 16)
    {o : ConnectOutcome} (h : x.res.Holding none x.sender x.receiver)
    (ho : ∀ fd ∈ o.socket, 0 ≤ fd) :
    (doConnect env host port x o).1.res.Holding (stored (doConnect env host port x o).2)
      (doConnect env host port x o).1.sender (doConnect env host port x o).1.receiver := by
  rcases h.nothing with ⟨hs, hrec⟩
  unfold doConnect
  cases env.host host with
  | none => exact h
  | some hp =>
      cases hsocket : o.socket with
      | none => exact h
      | some sockfd =>
          have hpos := ho sockfd hsocket
          have hopen : (x.res.socket sockfd).Holding (some sockfd) none none := by
            rw [hs, hrec] at h
            exact h.socket sockfd
          dsimp only
          split
          · rw [stored_of_nonneg hpos]
            exact (hopen.senderCreate env.sender).receiverCreate env.receiver
          · have hclosed : ((x.res.socket sockfd).closesocket sockfd).Holding none
                x.sender x.receiver := by
              rw [hs, hrec]
              exact hopen.closesocket hpos
            exact hclosed

/-- Connecting leaves the host and the port that were asked for. -/
theorem doConnect_fields (env : ClientEnv) (host : String) (port : BitVec 16)
    (x : TcpClient) (o : ConnectOutcome) :
    (doConnect env host port x o).1.hostname = x.hostname ∧
      (doConnect env host port x o).1.port = x.port := by
  unfold doConnect
  split
  · exact ⟨rfl, rfl⟩
  · split
    · exact ⟨rfl, rfl⟩
    · dsimp only
      split <;> exact ⟨rfl, rfl⟩

/-- Information keeps the account of what is open. -/
theorem Kept.info (h : x.Kept) (env : ClientEnv) : (x.info env).Kept :=
  h.same (Connection.info_frame env _ _) rfl

/-- A new connection keeps the account of what is open. -/
theorem Kept.establish (h : x.Kept) {hostname : String} {f : FloatArg} {o : ConnectOutcome}
    (ho : x.Possible o) : (x.establish env hostname f o).Kept := by
  have hdown : (x.prepare hostname f).res.Holding none (x.prepare hostname f).sender
      (x.prepare hostname f).receiver := by
    rcases h.hangUp with ⟨hres, hs, hrec⟩
    show x.hangUp.res.Holding none x.hangUp.sender x.hangUp.receiver
    rw [hs, hrec]
    exact hres
  have hup := doConnect_holding env hostname (BitVec.ofInt 16 f.toInt) hdown
    fun fd hfd => (ho fd hfd).1
  have hname := (doConnect_fields env hostname (BitVec.ofInt 16 f.toInt)
    (x.prepare hostname f) o).1
  unfold TcpClient.establish
  dsimp only
  generalize doConnect env hostname (BitVec.ofInt 16 f.toInt) (x.prepare hostname f) o = c
    at hup hname ⊢
  have hactive : c.1.hostname ≠ none ∨ c.1.port ≠ 0 := by
    left
    rw [hname]
    exact Option.some_ne_none hostname
  unfold Kept socket
  rw [if_pos hactive]
  exact hup

/-- Connecting keeps the account of what is open. -/
theorem Kept.connect (h : x.Kept) {hostname : String} {f : FloatArg} {o : ConnectOutcome}
    (ho : x.Possible o) : (x.connect env hostname f o).Kept :=
  (h.establish ho).info env

/-- A tcpclient that is disconnected holds nothing. -/
theorem Kept.disconnect_holding (h : x.Kept) : x.disconnect.res.Holding none none none := by
  unfold Kept socket at h
  show (if x.hostname ≠ none ∨ x.port ≠ 0 then
    (doDisconnect x.res x.fd x.sender x.receiver).1 else x.res).Holding none none none
  by_cases hactive : x.hostname ≠ none ∨ x.port ≠ 0
  · rw [if_pos hactive] at h ⊢
    exact doDisconnect_holding h
  · rw [if_neg hactive] at h ⊢
    rcases h.nothing with ⟨hs, hrec⟩
    rw [hs, hrec] at h
    exact h

/-- After {lit}`tcpclient_disconnect` the number in {lit}`x_fd` does not count any more. -/
theorem Kept.disconnect (h : x.Kept) : x.disconnect.Kept := by
  have hidle : ¬ (x.disconnect.hostname ≠ none ∨ x.disconnect.port ≠ 0) := by
    intro hactive
    rcases hactive with hname | hport
    · exact hname rfl
    · exact hport rfl
  unfold Kept socket
  rw [if_neg hidle]
  exact h.disconnect_holding

/-- Sending keeps the account of what is open. -/
theorem Kept.send (h : x.Kept) (argv : List Atom) : (x.send env argv).Kept := by
  have hsame := Connection.send_frame env x.toConnection argv
  have hkept : Kept { x with toConnection := (x.toConnection.send env argv).1 } :=
    h.same hsame rfl
  unfold TcpClient.send
  dsimp only
  split
  · exact hkept.disconnect
  · exact hkept

/-- Receiving keeps the account of what is open. -/
theorem Kept.receiveCallback (h : x.Kept) (c : Option Chunk) :
    (x.receiveCallback env c).Kept := by
  cases c with
  | none => exact h.disconnect
  | some c => exact h.same (Connection.deliver_frame env _ c _ _) rfl

/-- One input. -/
theorem Kept.step (h : x.Kept) {a : ClientEnv × Input}
    (hstep : tcpclientMachine.step x a = some x') : x'.Kept := by
  rcases a with ⟨env, a⟩
  replace hstep : x.step env a = some x' := hstep
  cases a with
  | connect hostname fportno o =>
      simp only [TcpClient.step] at hstep
      split at hstep
      · rename_i ho
        cases hstep
        exact h.connect ho
      · cases hstep
  | disconnect =>
      cases hstep
      exact h.disconnect
  | send argv =>
      cases hstep
      exact h.send argv
  | readable fd r =>
      simp only [TcpClient.step] at hstep
      split at hstep
      · cases hstep
        exact h.receiveCallback _
      · cases hstep
  | info =>
      cases hstep
      exact h.info env
  | serialize doit =>
      cases hstep
      exact h.same (.refl _) rfl

/-- A new tcpclient holds nothing. -/
theorem kept_new (abi : Abi) (env : ClientEnv) : (new abi env).Kept :=
  Resources.holding_empty

end TcpClient

/-- In every reachable state the fields of a {lit}`tcpclient` say what it has open. -/
theorem tcpclient_kept {x : TcpClient} (h : tcpclientMachine.Reachable x) : x.Kept := by
  apply h.invariant
  · rintro x ⟨abi, env, rfl⟩
    exact TcpClient.kept_new abi env
  · exact fun x a x' _ hx _ hstep => hx.step hstep

end Iemnet
