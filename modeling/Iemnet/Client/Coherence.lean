import Iemnet.Client.TcpClient

/-!
# The connection state of the TCP client

{lit}`x_connectstate` is set by {lit}`tcpclient_connect` and read by
{lit}`tcpclient_info`.  {lit}`tcpclient_disconnect` resets every other field of the
connection but not this one, nor {lit}`x_fd`: a report after the loss of a connection
takes both for valid.

Main results:

- Theorem {lit}`InStep.step`: one input that meets the condition.
- Theorem {lit}`connectstate_coherent`: whole runs, and which single input breaks the
  agreement.
-/

namespace Iemnet

open Pd Foundations

namespace TcpClient

variable {x x' : TcpClient} {env : ClientEnv}

/-- {lit}`x_connectstate` says whether there is a connection. -/
def Coherent (x : TcpClient) : Prop :=
  x.connectstate = 1 ↔
    x.sender ≠ none ∧ x.receiver ≠ none ∧ x.hostname ≠ none ∧ x.fd ∈ x.res.os.numbers

/-- A connect that succeeds yields a positive descriptor, a sender and a receiver. -/
def Yields (x : TcpClient) (a : ClientEnv × Input) : Prop :=
  match a.2 with
  | .connect hostname fportno o =>
      ∀ hp ∈ a.1.host hostname, ∀ fd ∈ o.socket,
        o.connect (serverAddress x.abi hp (BitVec.ofInt 16 fportno.toInt)) = true →
          0 < fd ∧ a.1.sender = true ∧ a.1.receiver = true
  | _ => True

/-- The object is not told to disconnect, by the patch, a failed send or the receiver,
while {lit}`x_connectstate` is 1. -/
def StaysUp (x : TcpClient) (a : ClientEnv × Input) : Prop :=
  x.connectstate = 1 →
    match a.2 with
    | .disconnect => False
    | .send argv =>
        ¬ (x.sender ≠ none ∧ chunkCreateList a.1.mem argv ≠ none ∧ a.1.sent < 0)
    | .readable _ r => pollfun x.abi a.1.mem r ≠ none
    | _ => True

/-! ## The invariant -/

/-- The object is connected, and the fields and the state say so. -/
structure Up (x : TcpClient) : Prop where
  connectstate : x.connectstate = 1
  sender : x.sender ≠ none
  receiver : x.receiver ≠ none
  hostname : x.hostname ≠ none
  fd : 0 < x.fd

/-- The object is not connected, and has forgotten its descriptor. -/
structure Down (x : TcpClient) : Prop where
  connectstate : x.connectstate = 0
  fd : x.fd < 0

/-- The fields say what is open, {lit}`x_connectstate` says whether something is, and
nothing has gone wrong so far. -/
structure InStep (x : TcpClient) : Prop where
  kept : x.Kept
  state : x.Up ∨ x.Down
  faults : x.faults = []

/-- The only open descriptor is that of the connection. -/
theorem Kept.mem_numbers (h : x.Kept) {fd : Int} : fd ∈ x.res.os.numbers ↔ x.socket = some fd := by
  rw [h.os.numbers, Option.mem_toList]

/-- While the object is up its descriptor is open. -/
theorem Up.mem_numbers (h : x.Up) (hkept : x.Kept) : x.fd ∈ x.res.os.numbers := by
  rw [hkept.mem_numbers, socket, if_pos (Or.inl h.hostname)]
  exact stored_of_nonneg h.fd.le

/-- While it is down there is nothing. -/
theorem Down.nothing (h : x.Down) (hkept : x.Kept) :
    x.res.os.numbers = [] ∧ x.sender = none ∧ x.res.polls = [] := by
  have hsocket : x.socket = none := by
    unfold socket
    rw [stored_of_neg h.fd]
    split <;> rfl
  unfold Kept at hkept
  rw [hsocket] at hkept
  rcases hkept.nothing with ⟨hs, hrec⟩
  refine ⟨hkept.os.numbers, hs, ?_⟩
  rw [hkept.polls, hrec]
  rfl

/-- A client in step is coherent. -/
theorem InStep.coherent (h : x.InStep) : x.Coherent := by
  rcases h.state with hup | hdown
  · have hopen := hup.mem_numbers h.kept
    exact ⟨fun _ => ⟨hup.sender, hup.receiver, hup.hostname, hopen⟩, fun _ => hup.connectstate⟩
  · have hnone := hdown.nothing h.kept
    constructor
    · intro hone
      rw [hdown.connectstate] at hone
      cases hone
    · rintro ⟨hs, -⟩
      exact absurd hnone.2.1 hs

/-- A connection stays up as long as its fields stay. -/
theorem Up.same (h : x.Up) (hsame : x.toConnection.Same x'.toConnection) : x'.Up :=
  ⟨hsame.connectstate.trans h.connectstate, hsame.sender ▸ h.sender,
    hsame.receiver ▸ h.receiver, hsame.hostname ▸ h.hostname, hsame.fd ▸ h.fd⟩

/-- A connection stays down as long as its fields stay. -/
theorem Down.same (h : x.Down) (hsame : x.toConnection.Same x'.toConnection) : x'.Down :=
  ⟨hsame.connectstate.trans h.connectstate, hsame.fd ▸ h.fd⟩

/-- A function of the common part that leaves the connection alone and does nothing
wrong. -/
theorem InStep.same (h : x.InStep) (hsame : x.toConnection.Same x'.toConnection)
    (hport : x'.port = x.port) (hfaults : x'.faults = x.faults) : x'.InStep := by
  refine ⟨h.kept.same hsame hport, ?_, hfaults.trans h.faults⟩
  rcases h.state with hup | hdown
  · exact Or.inl (hup.same hsame)
  · exact Or.inr (hdown.same hsame)

/-- A report neither asks for the name of a foreign socket nor for a symbol of no name. -/
theorem InStep.info (h : x.InStep) (env : ClientEnv) : (x.info env).InStep := by
  refine h.same (Connection.info_frame env _ _) rfl (Connection.info_faults env ?_ ?_)
  · intro hfd
    rcases h.state with hup | hdown
    · exact hup.mem_numbers h.kept
    · exact absurd hdown.fd (not_lt.2 hfd)
  · intro hconnected
    rcases h.state with hup | hdown
    · exact hup.hostname
    · exact absurd hdown.connectstate hconnected

/-! ## Connecting and disconnecting -/

/-- What {lit}`tcpclient_do_connect` comes to: everything, or nothing. -/
theorem doConnect_cases {host : String} {port : BitVec 16} {o : ConnectOutcome}
    (hyields : ∀ hp ∈ env.host host, ∀ fd ∈ o.socket,
      o.connect (serverAddress x.abi hp port) = true →
        0 < fd ∧ env.sender = true ∧ env.receiver = true) :
    (0 < (doConnect env host port x o).2 ∧ (doConnect env host port x o).1.sender ≠ none ∧
        (doConnect env host port x o).1.receiver ≠ none) ∨
      (doConnect env host port x o).2 = -1 := by
  unfold doConnect
  cases hhost : env.host host with
  | none => exact Or.inr rfl
  | some hp =>
      cases hsocket : o.socket with
      | none => exact Or.inr rfl
      | some fd =>
          dsimp only
          by_cases hconnect : o.connect (serverAddress x.abi hp port) = true
          · rcases hyields hp hhost fd hsocket hconnect with ⟨hpos, hs, hrec⟩
            left
            rw [if_pos hconnect, hs, hrec]
            exact ⟨hpos, Option.some_ne_none _, Option.some_ne_none _⟩
          · right
            rw [if_neg hconnect]

/-- Connecting goes wrong in no way that the client could see. -/
theorem doConnect_faults (env : ClientEnv) (host : String) (port : BitVec 16)
    (x : TcpClient) (o : ConnectOutcome) :
    (doConnect env host port x o).1.faults = x.faults := by
  unfold doConnect
  split
  · rfl
  · split
    · rfl
    · dsimp only
      split <;> rfl

/-- Preparing a connection leaves the faults and the platform alone. -/
theorem prepare_frame (x : TcpClient) (hostname : String) (f : FloatArg) :
    (x.prepare hostname f).faults = x.faults ∧ (x.prepare hostname f).abi = x.abi := by
  show x.hangUp.faults = x.faults ∧ x.hangUp.abi = x.abi
  unfold hangUp
  split
  · dsimp only
    split <;> exact ⟨rfl, rfl⟩
  · exact ⟨rfl, rfl⟩

/-- Connecting keeps the client in step, if the old connection yields. -/
theorem InStep.connect (h : x.InStep) {hostname : String} {f : FloatArg}
    {o : ConnectOutcome} (ho : x.Possible o)
    (hyields : x.Yields (env, .connect hostname f o)) :
    (x.connect env hostname f o).InStep := by
  have hframe := x.prepare_frame hostname f
  unfold Yields at hyields
  rw [← hframe.2] at hyields
  have hcases := doConnect_cases hyields
  have hname := (doConnect_fields env hostname (BitVec.ofInt 16 f.toInt)
    (x.prepare hostname f) o).1
  have hfaults := doConnect_faults env hostname (BitVec.ofInt 16 f.toInt)
    (x.prepare hostname f) o
  refine InStep.info ⟨h.kept.establish ho, ?_, ?_⟩ env
  · unfold establish
    dsimp only
    generalize doConnect env hostname (BitVec.ofInt 16 f.toInt) (x.prepare hostname f) o = c
      at hcases hname ⊢
    rcases hcases with ⟨hpos, hs, hrec⟩ | hfailed
    · left
      exact ⟨if_pos hpos, hs, hrec, hname ▸ Option.some_ne_none hostname, hpos⟩
    · right
      have hneg : c.2 < 0 := by omega
      exact ⟨if_neg (by omega), hneg⟩
  · exact (hfaults.trans hframe.1).trans h.faults

/-- Disconnecting what is not connected changes no state. -/
theorem InStep.disconnect (h : x.InStep) (hdown : x.connectstate ≠ 1) :
    x.disconnect.InStep := by
  rcases h.state with hup | hdown
  · exact absurd hup.connectstate ‹_›
  · exact ⟨h.kept.disconnect, Or.inr ⟨hdown.connectstate, hdown.fd⟩, h.faults⟩

/-- A disconnect does not reset {lit}`x_connectstate`. -/
theorem not_coherent_disconnect (h : x.connectstate = 1) : ¬ x.disconnect.Coherent := by
  intro hcoherent
  have hone : x.disconnect.connectstate = 1 := h
  exact (hcoherent.1 hone).2.2.1 rfl

/-! ## One input -/

/-- The object disconnects. -/
def Disconnects (x : TcpClient) (a : ClientEnv × Input) : Prop :=
  match a.2 with
  | .disconnect => True
  | .send argv => x.sender ≠ none ∧ chunkCreateList a.1.mem argv ≠ none ∧ a.1.sent < 0
  | .readable _ r => pollfun x.abi a.1.mem r = none
  | _ => False

/-- The condition forbids to disconnect what is connected. -/
theorem staysUp_iff {a : ClientEnv × Input} :
    x.StaysUp a ↔ (x.connectstate = 1 → ¬ x.Disconnects a) := by
  rcases a with ⟨env, a⟩
  cases a <;> simp [StaysUp, Disconnects]

/-- An input that makes the object disconnect leaves what a disconnect of an object like
this one leaves. -/
theorem disconnects_step {a : ClientEnv × Input} (h : x.Disconnects a)
    (hstep : tcpclientMachine.step x a = some x') :
    ∃ z : TcpClient, x.toConnection.Same z.toConnection ∧ z.port = x.port ∧
      z.faults = x.faults ∧ x' = z.disconnect := by
  rcases a with ⟨env, a⟩
  replace hstep : x.step env a = some x' := hstep
  cases a with
  | connect hostname fportno o => exact h.elim
  | disconnect =>
      cases hstep
      exact ⟨x, .refl _, rfl, rfl, rfl⟩
  | send argv =>
      cases hstep
      have hsize : (x.toConnection.send env argv).2 < 0 := by
        rw [Connection.send_size, if_pos ⟨h.1, h.2.1⟩]
        exact h.2.2
      refine ⟨{ x with toConnection := (x.toConnection.send env argv).1 },
        Connection.send_frame env _ argv, rfl, Connection.send_faults argv, ?_⟩
      unfold send
      dsimp only
      rw [if_pos hsize]
  | readable fd r =>
      simp only [TcpClient.step] at hstep
      split at hstep
      · cases hstep
        refine ⟨x, .refl _, rfl, rfl, ?_⟩
        have hnull : pollfun x.abi env.mem r = none := h
        rw [hnull]
        rfl
      · cases hstep
  | info => exact h.elim
  | serialize doit => exact h.elim

/-- Any other input leaves the object in step. -/
theorem InStep.step_other (h : x.InStep) {a : ClientEnv × Input} (hyields : x.Yields a)
    (hother : ¬ x.Disconnects a) (hstep : tcpclientMachine.step x a = some x') :
    x'.InStep := by
  rcases a with ⟨env, a⟩
  replace hstep : x.step env a = some x' := hstep
  cases a with
  | connect hostname fportno o =>
      simp only [TcpClient.step] at hstep
      split at hstep
      · rename_i ho
        cases hstep
        exact h.connect ho hyields
      · cases hstep
  | disconnect => exact absurd trivial hother
  | send argv =>
      cases hstep
      have hsize : ¬ (x.toConnection.send env argv).2 < 0 := by
        rw [Connection.send_size]
        intro hneg
        split at hneg
        · rename_i hsent
          exact hother ⟨hsent.1, hsent.2, hneg⟩
        · exact absurd hneg (lt_irrefl 0)
      have hsend : x.send env argv =
          { x with toConnection := (x.toConnection.send env argv).1 } := by
        unfold send
        dsimp only
        rw [if_neg hsize]
      rw [hsend]
      exact h.same (Connection.send_frame env _ argv) rfl (Connection.send_faults argv)
  | readable fd r =>
      simp only [TcpClient.step] at hstep
      split at hstep
      · rename_i hpolled
        cases hstep
        cases hchunk : pollfun x.abi env.mem r with
        | none => exact absurd hchunk hother
        | some c =>
            rcases pollfun_some hpolled.2 hchunk with ⟨bytes, source, -, -, hmem, -⟩
            exact h.same (Connection.deliver_frame env _ c _ _) rfl
              (Connection.deliver_faults hmem c _ _)
      · cases hstep
  | info =>
      cases hstep
      exact h.info env
  | serialize doit =>
      cases hstep
      exact h.same (.refl _) rfl rfl

/-- One input that does not disconnect an object that takes itself for connected. -/
theorem InStep.step (h : x.InStep) {a : ClientEnv × Input} (hyields : x.Yields a)
    (hup : x.StaysUp a) (hstep : tcpclientMachine.step x a = some x') : x'.InStep := by
  by_cases hdisconnects : x.Disconnects a
  · rcases disconnects_step hdisconnects hstep with ⟨z, hsame, hport, hfaults, rfl⟩
    apply (h.same hsame hport hfaults).disconnect
    rw [hsame.connectstate]
    exact fun hone => staysUp_iff.1 hup hone hdisconnects
  · exact h.step_other hyields hdisconnects hstep

/-- A new client is in step. -/
theorem inStep_new (abi : Abi) (env : ClientEnv) : (new abi env).InStep :=
  ⟨kept_new abi env, Or.inr ⟨rfl, Int.negSucc_lt_zero 0⟩, rfl⟩

/-- The inputs after which the connection state still agrees with the rest. -/
theorem InStep.coherent_iff (h : x.InStep) {a : ClientEnv × Input} (hyields : x.Yields a)
    (hstep : tcpclientMachine.step x a = some x') : x'.Coherent ↔ x.StaysUp a := by
  constructor
  · intro hcoherent
    rw [staysUp_iff]
    intro hone hdisconnects
    rcases disconnects_step hdisconnects hstep with ⟨z, hsame, -, -, rfl⟩
    exact not_coherent_disconnect (hsame.connectstate.trans hone) hcoherent
  · exact fun hup => (h.step hyields hup hstep).coherent

end TcpClient

/-- In a run in which the object is never told to disconnect while {lit}`x_connectstate`
is 1, that state is 1 exactly while there is a connection, and no report uses what is not
there; the first input that breaks the condition breaks the agreement. -/
theorem connectstate_coherent {x : TcpClient}
    (h : tcpclientMachine.Reach (fun x a => x.Yields a ∧ x.StaysUp a) x) :
    x.Coherent ∧ x.faults = [] ∧
      ∀ a x', x.Yields a → tcpclientMachine.step x a = some x' →
        (x'.Coherent ↔ x.StaysUp a) := by
  have hinv : x.InStep := by
    apply h.invariant (I := TcpClient.InStep)
    · rintro x ⟨abi, env, rfl⟩
      exact TcpClient.inStep_new abi env
    · exact fun x a x' _ hx hok hstep => hx.step hok.1 hok.2 hstep
  exact ⟨hinv.coherent, hinv.faults, fun a x' hyields hstep => hinv.coherent_iff hyields hstep⟩

/-- Connect with descriptor 3. -/
def dial : ClientEnv × TcpClient.Input :=
  (plainClientEnv true 1, .connect "localhost" ⟨80, 0#32⟩ ⟨some 3, fun _ => true⟩)

/-- Connecting with a client that is not connected meets the condition. -/
theorem dial_yields (x : TcpClient) : x.Yields dial := by
  intro hp _ fd hfd _
  cases hfd
  exact ⟨by omega, rfl, rfl⟩

/-- Connect again without a disconnect, send, and ask for a report. -/
def redial : List (ClientEnv × TcpClient.Input) :=
  [dial, dial, (plainClientEnv true 1, .send [setFloat 1]), (plainClientEnv true 1, .info)]

/-- A client that connects a second time is connected and coherent. -/
theorem connectstate_coherent_run :
    ∃ x, tcpclientMachine.run (.new ⟨true, 64⟩ (plainClientEnv true 1)) redial = some x ∧
      x.connectstate = 1 ∧ x.Coherent ∧ x.faults = [] := by
  have hrun : tcpclientMachine.run (.new ⟨true, 64⟩ (plainClientEnv true 1)) redial = some _ := rfl
  have hmeets : tcpclientMachine.RunMeets (fun x a => x.Yields a ∧ x.StaysUp a)
      (.new ⟨true, 64⟩ (plainClientEnv true 1)) redial := by
    refine ⟨⟨dial_yields _, fun _ => trivial⟩, fun x₁ _ => ⟨⟨dial_yields _, fun _ => trivial⟩,
      fun x₂ _ => ⟨⟨trivial, fun _ hfails => ?_⟩, fun x₃ _ => ⟨⟨trivial, fun _ => trivial⟩,
        fun x₄ _ => trivial⟩⟩⟩⟩
    exact absurd hfails.2.2 (by decide)
  have hinit : tcpclientMachine.init (.new ⟨true, 64⟩ (plainClientEnv true 1)) := ⟨_, _, rfl⟩
  have hreach := Machine.Reach.run (.start hinit) hmeets hrun
  have hresult := connectstate_coherent hreach
  exact ⟨_, hrun, rfl, hresult.1, hresult.2.1⟩

/-- The peer closes the connection, and a report is asked for. -/
def lost : List (ClientEnv × TcpClient.Input) :=
  [dial, (plainClientEnv true 1, .readable 3 (.endOfStream ⟨2, 0#32, 0#16⟩)),
    (plainClientEnv true 1, .info)]

/-- After the loss of the connection {lit}`x_connectstate` is still 1, the report asks for
the name of the closed descriptor, and makes a symbol of no name. -/
theorem lost_connection_reported :
    ∃ x, tcpclientMachine.Reach TcpClient.Yields x ∧ x.connectstate = 1 ∧ ¬ x.Coherent ∧
      x.res.os.numbers = [] ∧ x.faults = [.foreignSocket 3, .nullName] := by
  have hrun : tcpclientMachine.run (.new ⟨true, 64⟩ (plainClientEnv true 1)) lost = some _ := rfl
  have hinit : tcpclientMachine.init (.new ⟨true, 64⟩ (plainClientEnv true 1)) := ⟨_, _, rfl⟩
  have hmeets : tcpclientMachine.RunMeets TcpClient.Yields
      (.new ⟨true, 64⟩ (plainClientEnv true 1)) lost :=
    ⟨dial_yields _, fun _ _ => ⟨trivial, fun _ _ => ⟨trivial, fun _ _ => trivial⟩⟩⟩
  refine ⟨_, Machine.Reach.run (.start hinit) hmeets hrun, rfl, ?_, rfl, rfl⟩
  exact fun hcoherent => (hcoherent.1 rfl).1 rfl

end Iemnet
