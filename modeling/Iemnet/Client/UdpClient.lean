import Iemnet.Client.Connection
import Iemnet.Foundations.TransitionSystem

/-!
# The UDP client object

udpclient.c, for a patch that listens to the outlets and does not answer.  Binding to a
sending port may fail without consequences and is left out.

Main results:

- Theorems {lit}`UdpClient.Kept.connect`, {lit}`UdpClient.Kept.doDisconnect` and
  {lit}`UdpClient.Kept.step`: what the object has open is what its fields say.
- Theorem {lit}`udpclient_kept`: the same for every reachable state.
-/

namespace Iemnet

open Pd Foundations

/-- {lit}`t_udpclient`. -/
structure UdpClient extends Connection where
  port : BitVec 16

namespace UdpClient

/-- Do something to the common part. -/
def common (f : Connection → Connection) (x : UdpClient) : UdpClient :=
  { x with toConnection := f x.toConnection }

/-- {lit}`udpclient_info`. -/
def info (env : ClientEnv) (x : UdpClient) : UdpClient :=
  x.common fun c => c.info env x.port

/-- {lit}`udpclient_doconnect`. -/
def doconnect (env : ClientEnv) (x : UdpClient) (o : ConnectOutcome) : UdpClient :=
  if x.sender ≠ none then x
  else
    match x.hostname with
    | none => x.common fun c => c.fault .nullName
    | some hostname =>
        match env.host hostname with
        | none => x
        | some hp =>
            match o.socket with
            | none => x
            | some sockfd =>
                let r := x.res.socket sockfd
                if o.connect (serverAddress x.abi hp x.port) then
                  let (r, sender) := r.senderCreate env.sender sockfd
                  let (r, receiver) := r.receiverCreate env.receiver sockfd
                  let x := { x with
                    res := r
                    fd := sockfd
                    addr := hostLong x.abi hp
                    sender := sender
                    receiver := receiver
                    connectstate := 1 }
                  x.info env
                else { x with res := r.closesocket sockfd }

/-- {lit}`udpclient_do_disconnect`. -/
def doDisconnect (x : UdpClient) : UdpClient × Bool :=
  let r := (x.res.receiverDestroy x.receiver).senderDestroy x.sender
  let x := { x with res := r, receiver := none, sender := none, connectstate := 0 }
  if x.fd < 0 then (x, false)
  else ({ x with res := x.res.closesocket x.fd, fd := -1 }, true)

/-- {lit}`udpclient_disconnect`. -/
def disconnect (x : UdpClient) : UdpClient :=
  let (x, state) := x.doDisconnect
  if state then x.common fun c => numconnout Connection.emit c c.connectstate else x

/-- {lit}`udpclient_connect` disconnects an open socket first. -/
def hangUp (x : UdpClient) : UdpClient :=
  if 0 ≤ x.fd then x.disconnect else x

/-- {lit}`udpclient_connect`. -/
def connect (env : ClientEnv) (x : UdpClient) (hostname : String) (fportno : FloatArg)
    (o : ConnectOutcome) : UdpClient :=
  let x := { x.hangUp with
    hostname := some hostname, port := fportno.toUShort, connectstate := 0 }
  x.doconnect env o

/-- {lit}`udpclient_send`. -/
def send (env : ClientEnv) (x : UdpClient) (argv : List Atom) : UdpClient :=
  x.common fun c => (c.send env argv).1

/-- {lit}`udpclient_receive_callback`. -/
def receiveCallback (env : ClientEnv) (x : UdpClient) (c : Option Chunk) : UdpClient :=
  match c with
  | some c => x.common fun y => y.deliver env c x.port fun cl => [⟨"list", cl.argv.take cl.argc⟩]
  | none => if 0 ≤ x.fd then x.disconnect else x

/-- {lit}`udpclient_new`. -/
def new (abi : Abi) (env : ClientEnv) : UdpClient where
  toConnection := .blank abi env
  port := 0

/-- {lit}`udpclient_free`. -/
def free (x : UdpClient) : UdpClient :=
  { x.doDisconnect.1 with floatlist := none }

/-! ## The system -/

/-- What the object receives: a message from the patch, or a readable descriptor. -/
inductive Input
  | connect (hostname : String) (fportno : FloatArg) (o : ConnectOutcome)
  | disconnect
  | send (argv : List Atom)
  /-- The receiver on descriptor {lit}`fd` is called, and {lit}`recvfrom` ends in
  {lit}`r`. -/
  | readable (fd : Int) (r : Recvfrom)
  | info

/-- What {lit}`socket` can deliver once the old connection is gone: a number that is not
in use. -/
def Possible (x : UdpClient) (o : ConnectOutcome) : Prop :=
  ∀ fd ∈ o.socket, 0 ≤ fd ∧ fd < 2 ^ 31 ∧ fd ∉ x.hangUp.res.os.numbers

instance (x : UdpClient) (o : ConnectOutcome) : Decidable (x.Possible o) :=
  inferInstanceAs (Decidable (∀ fd ∈ o.socket, _))

/-- One input. -/
def step (x : UdpClient) (env : ClientEnv) : Input → Option UdpClient
  | .connect hostname fportno o =>
      if x.Possible o then some (x.connect env hostname fportno o) else none
  | .disconnect => some x.disconnect
  | .send argv => some (x.send env argv)
  | .readable fd r =>
      if fd ∈ x.res.polls.map Prod.fst ∧ r.Possible .dgram then
        some (x.receiveCallback env (pollfun x.abi env.mem r))
      else none
  | .info => some (x.info env)

end UdpClient

/-- The object as a transition system. -/
def udpclientMachine : Machine UdpClient (ClientEnv × UdpClient.Input) where
  init x := ∃ abi env, x = UdpClient.new abi env
  step x a := x.step a.1 a.2

namespace UdpClient

/-! ## What is open -/

variable {x x' : UdpClient} {env : ClientEnv}

/-- The fields say what is open. -/
def Kept (x : UdpClient) : Prop :=
  x.res.Holding (stored x.fd) x.sender x.receiver

/-- A step that leaves the connection alone. -/
theorem Kept.same (h : x.Kept) (hsame : x.toConnection.Same x'.toConnection) : x'.Kept := by
  unfold Kept at h ⊢
  rw [hsame.res, hsame.sender, hsame.receiver, hsame.fd]
  exact h

/-- Information keeps the account of what is open. -/
theorem Kept.info (h : x.Kept) (env : ClientEnv) : (x.info env).Kept :=
  h.same (Connection.info_frame env _ _)

/-- Without a descriptor there is nothing. -/
theorem Kept.nothing (h : x.Kept) (hfd : x.fd < 0) :
    x.res.Holding none none none ∧ x.sender = none ∧ x.receiver = none := by
  unfold Kept at h
  rw [stored_of_neg hfd] at h
  rcases h.nothing with ⟨hs, hrec⟩
  rw [hs, hrec] at h
  exact ⟨h, hs, hrec⟩

/-- {lit}`udpclient_do_disconnect` leaves nothing behind, and the fields say so. -/
theorem Kept.doDisconnect (h : x.Kept) : x.doDisconnect.1.Kept ∧ x.doDisconnect.1.fd < 0 := by
  have hworkers := h.receiverDestroy.senderDestroy
  unfold UdpClient.doDisconnect
  dsimp only
  split
  · rename_i hneg
    exact ⟨hworkers, hneg⟩
  · exact ⟨hworkers.closeStored, Int.negSucc_lt_zero 0⟩

/-- A udpclient that is disconnected has no descriptor. -/
theorem Kept.disconnect (h : x.Kept) : x.disconnect.Kept ∧ x.disconnect.fd < 0 := by
  have hdown := h.doDisconnect
  unfold UdpClient.disconnect
  dsimp only
  split
  · exact ⟨hdown.1.same (Connection.same_numconnout _ _), hdown.2⟩
  · exact hdown

/-- Once {lit}`udpclient_connect` has disconnected an open socket nothing is left. -/
theorem Kept.hangUp (h : x.Kept) : x.hangUp.Kept ∧ x.hangUp.fd < 0 := by
  unfold UdpClient.hangUp
  split
  · exact h.disconnect
  · rename_i hneg
    exact ⟨h, not_le.1 hneg⟩

/-- Connecting from nothing opens one descriptor with its sender and receiver, or nothing. -/
theorem Kept.doconnect (h : x.Kept) (hfd : x.fd < 0) {o : ConnectOutcome}
    (ho : ∀ fd ∈ o.socket, 0 ≤ fd) : (x.doconnect env o).Kept := by
  rcases h.nothing hfd with ⟨hnone, hs, hrec⟩
  unfold UdpClient.doconnect
  split
  · exact h
  · split
    · exact h.same (Connection.same_fault _ _)
    · split
      · exact h
      · cases hsocket : o.socket with
        | none => exact h
        | some sockfd =>
            have hpos := ho sockfd hsocket
            have hopen := hnone.socket sockfd
            dsimp only
            split
            · apply Kept.info
              unfold Kept
              rw [stored_of_nonneg hpos]
              exact (hopen.senderCreate env.sender).receiverCreate env.receiver
            · unfold Kept
              rw [stored_of_neg hfd, hs, hrec]
              exact hopen.closesocket hpos

/-- Connecting keeps the account of what is open. -/
theorem Kept.connect (h : x.Kept) {hostname : String} {f : FloatArg} {o : ConnectOutcome}
    (ho : x.Possible o) : (x.connect env hostname f o).Kept := by
  rcases h.hangUp with ⟨hkept, hfd⟩
  have hset : Kept { x.hangUp with
      hostname := some hostname, port := f.toUShort, connectstate := 0 } := hkept
  exact hset.doconnect hfd fun fd hmem => (ho fd hmem).1

/-- Sending keeps the account of what is open. -/
theorem Kept.send (h : x.Kept) (argv : List Atom) : (x.send env argv).Kept :=
  h.same (Connection.send_frame env _ argv)

/-- Receiving keeps the account of what is open. -/
theorem Kept.receiveCallback (h : x.Kept) (c : Option Chunk) :
    (x.receiveCallback env c).Kept := by
  cases c with
  | none =>
      unfold UdpClient.receiveCallback
      dsimp only
      split
      · exact h.disconnect.1
      · exact h
  | some c => exact h.same (Connection.deliver_frame env _ c _ _)

/-- One input. -/
theorem Kept.step (h : x.Kept) {a : ClientEnv × Input}
    (hstep : udpclientMachine.step x a = some x') : x'.Kept := by
  rcases a with ⟨env, a⟩
  replace hstep : x.step env a = some x' := hstep
  cases a with
  | connect hostname fportno o =>
      simp only [UdpClient.step] at hstep
      split at hstep
      · rename_i ho
        cases hstep
        exact h.connect ho
      · cases hstep
  | disconnect =>
      cases hstep
      exact h.disconnect.1
  | send argv =>
      cases hstep
      exact h.send argv
  | readable fd r =>
      simp only [UdpClient.step] at hstep
      split at hstep
      · cases hstep
        exact h.receiveCallback _
      · cases hstep
  | info =>
      cases hstep
      exact h.info env

/-- A new udpclient holds nothing. -/
theorem kept_new (abi : Abi) (env : ClientEnv) : (new abi env).Kept :=
  Resources.holding_empty

end UdpClient

/-- In every reachable state the fields of a {lit}`udpclient` say what it has open. -/
theorem udpclient_kept {x : UdpClient} (h : udpclientMachine.Reachable x) : x.Kept := by
  apply h.invariant
  · rintro x ⟨abi, env, rfl⟩
    exact UdpClient.kept_new abi env
  · exact fun x a x' _ hx _ hstep => hx.step hstep

end Iemnet
