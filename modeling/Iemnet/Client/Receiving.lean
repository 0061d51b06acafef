import Iemnet.Client.TcpClient
import Iemnet.Client.UdpClient

/-!
# What the clients make of a receiver's results

{lit}`pollfun` calls back with {lit}`NULL` when there are no bytes, and the clients take
{lit}`NULL` for the end of the connection.  An empty datagram and a descriptor that was
not ready after all therefore end a connection that nobody has closed.

Main results:

- Theorems {lit}`UdpClient.receive_run` and {lit}`TcpClient.receive_run`: a sequence of
  outcomes none of which ends a connection.
- Theorem {lit}`receiver_closes`: for which outcomes, and for which sequences of them, the
  receiver and the clients do what they should.
-/

namespace Iemnet

open Pd Foundations

variable {env : ClientEnv}

/-- One call of a receiver: what the environment decides, and how {lit}`recvfrom` ends. -/
abbrev Arrival :=
  ClientEnv × Recvfrom

/-- The non-empty payloads, one after the other. -/
def outputs (serialize : Int) (os : List Arrival) : List Message :=
  ((os.map fun o => o.2.bytes).filter (· ≠ [])).flatMap (byteMessages serialize)

/-- The connection is the same, and exactly {lit}`ms` has been output. -/
structure Undisturbed (x x' : Connection) (ms : List Message) : Prop where
  fd : x'.fd = x.fd
  sender : x'.sender = x.sender
  receiver : x'.receiver = x.receiver
  messages : x'.messages = x.messages ++ ms

/-- What holds after outcomes that were not mistaken for the end: nothing about the
connection has changed. -/
structure Received (x : Connection) (serialize : Int) (y : Connection) (os : List Arrival) :
    Prop where
  same : x.Same y
  sound : y.Sound
  messages : y.messages = x.messages ++ outputs serialize os

/-- Another chunk with bytes adds the messages for its bytes. -/
theorem outputs_append (serialize : Int) (os : List Arrival) {bytes : List (BitVec 8)}
    (h : bytes ≠ []) (source : SockaddrIn) :
    outputs serialize (os ++ [(env, .data bytes source)]) =
      outputs serialize os ++ byteMessages serialize bytes := by
  simp [outputs, Recvfrom.bytes, h]

/-- An outcome that is neither mistaken nor the end of the connection is data. -/
theorem clear_data {mem : Bool} {r : Recvfrom} (hclear : r.Clear mem) (halive : ¬ r.Closed) :
    ∃ bytes source, r = .data bytes source ∧ mem = true := by
  cases r with
  | data bytes source => exact ⟨bytes, source, rfl, hclear⟩
  | emptyDatagram source => exact hclear.elim
  | endOfStream source => exact absurd trivial halive
  | error e source => exact absurd hclear halive

/-- Any other outcome reaches the object as {lit}`NULL`. -/
theorem pollfun_of_not_clear (abi : Abi) {mem : Bool} {t : SocketType} {r : Recvfrom}
    (hr : r.Possible t) (h : ¬ r.Clear mem) : pollfun abi mem r = none := by
  by_contra hchunk
  exact h ((pollfun_null_iff hr).1 fun hnull => absurd hnull hchunk)

/-- One chunk. -/
theorem Received.deliver {x y : Connection} {serialize : Int} {os : List Arrival}
    (h : Received x serialize y os) (hmem : env.mem = true) {bytes : List (BitVec 8)}
    (hbytes : bytes ≠ []) {source : SockaddrIn} {c : Chunk} (hc : c.data = bytes)
    (port : BitVec 16) {out : Floatlist → List Message}
    (hout : ∀ cl, cl.argv.take cl.argc = byteAtoms bytes → out cl = byteMessages serialize bytes) :
    Received x serialize (y.deliver env c port out) (os ++ [(env, .data bytes source)]) := by
  have hdata : c.data ≠ [] := hc.symm ▸ hbytes
  rcases Connection.deliver_output hmem h.sound hdata port (hc.symm ▸ hout) with
    ⟨hmessages, hsound⟩
  refine ⟨h.same.trans (Connection.deliver_frame env y c port out), hsound, ?_⟩
  rw [hmessages, h.messages, outputs_append serialize os hbytes, hc, List.append_assoc]

/-- Whoever is polled has a receiver. -/
theorem receiver_of_polled {x : Connection} {o : Option Int} {fd : Int}
    (h : x.res.Holding o x.sender x.receiver) (hfd : fd ∈ x.res.polls.map Prod.fst) :
    x.receiver ≠ none := by
  intro hnone
  rw [h.polls, hnone] at hfd
  cases hfd

/-- The receiver is gone, and there was one. -/
structure CutOff (x y : Connection) : Prop where
  receiver : y.receiver = none
  polls : y.res.polls = []
  before : x.receiver ≠ none

/-- What a run of arrivals comes to, told from the two ways it can go. -/
theorem undisturbed_iff {x x' : Connection} {serialize : Int} {os : List Arrival}
    (h : ((∀ o ∈ os, o.2.Clear o.1.mem) ∧ Received x serialize x' os) ∨
      ((¬ ∀ o ∈ os, o.2.Clear o.1.mem) ∧ CutOff x x')) :
    Undisturbed x x' (outputs serialize os) ↔ ∀ o ∈ os, o.2.Clear o.1.mem := by
  rcases h with ⟨hclear, hreceived⟩ | ⟨hmistaken, hcut⟩
  · refine ⟨fun _ => hclear, fun _ => ?_⟩
    exact ⟨hreceived.same.fd, hreceived.same.sender, hreceived.same.receiver,
      hreceived.messages⟩
  · refine ⟨fun hsame => ?_, fun hall => absurd hall hmistaken⟩
    exact absurd (hsame.receiver.symm.trans hcut.receiver) hcut.before

/-- At first nothing has been received. -/
theorem received_nil {x : Connection} (h : x.Sound) (serialize : Int) :
    Received x serialize x [] :=
  ⟨.refl x, h, (List.append_nil _).symm⟩

/-! ## The UDP client -/

namespace UdpClient

variable {x x' y : UdpClient}

/-- The receiver on {lit}`fd` is called. -/
def arrival (fd : Int) (o : Arrival) : ClientEnv × Input :=
  (o.1, .readable fd o.2)

/-- Hanging up leaves the list alone. -/
theorem hangUp_floatlist (x : UdpClient) : x.hangUp.floatlist = x.floatlist := by
  unfold hangUp disconnect doDisconnect
  split
  · dsimp only
    split
    · split <;> rfl
    · split <;> rfl
  · rfl

/-- Connecting leaves the list alone. -/
theorem doconnect_floatlist (env : ClientEnv) (x : UdpClient) (o : ConnectOutcome) :
    (x.doconnect env o).floatlist = x.floatlist := by
  unfold doconnect
  split
  · rfl
  · split
    · rfl
    · split
      · rfl
      · split
        · rfl
        · dsimp only
          split
          · exact Connection.info_floatlist env _ _
          · rfl

/-- Disconnecting leaves the list alone. -/
theorem disconnect_floatlist (x : UdpClient) : x.disconnect.floatlist = x.floatlist := by
  unfold disconnect doDisconnect
  dsimp only
  split
  · split <;> rfl
  · split <;> rfl

/-- The float list stays loadable. -/
theorem sound_step (h : x.Sound) {a : ClientEnv × Input}
    (hstep : udpclientMachine.step x a = some x') : x'.Sound := by
  rcases a with ⟨env, a⟩
  replace hstep : x.step env a = some x' := hstep
  cases a with
  | connect hostname fportno o =>
      simp only [UdpClient.step] at hstep
      split at hstep
      · cases hstep
        exact h.of_eq ((doconnect_floatlist env _ o).trans (hangUp_floatlist x))
      · cases hstep
  | disconnect =>
      cases hstep
      exact h.of_eq (disconnect_floatlist x)
  | send argv =>
      cases hstep
      exact h.of_eq (Connection.send_floatlist env _ argv)
  | readable fd r =>
      simp only [UdpClient.step] at hstep
      split at hstep
      · rename_i hpolled
        cases hstep
        cases hchunk : pollfun x.abi env.mem r with
        | none =>
            unfold receiveCallback
            dsimp only
            split
            · exact h.of_eq (disconnect_floatlist x)
            · exact h
        | some c =>
            rcases pollfun_some hpolled.2 hchunk with ⟨bytes, source, -, hbytes, hmem, hdata⟩
            exact (Connection.deliver_output hmem h (hdata.symm ▸ hbytes) _ fun cl htake => by
              rw [htake]).2
      · cases hstep
  | info =>
      cases hstep
      exact h.of_eq (Connection.info_floatlist env _ _)

/-- A chunk is output. -/
theorem received_step {fd : Int} {os : List Arrival} {o : Arrival}
    (h : Received x.toConnection 0 y.toConnection os) (halive : ¬ o.2.Closed)
    (hclear : o.2.Clear o.1.mem) (hstep : udpclientMachine.step y (arrival fd o) = some x') :
    Received x.toConnection 0 x'.toConnection (os ++ [o]) := by
  rcases o with ⟨env, r⟩
  rcases clear_data hclear halive with ⟨bytes, source, rfl, hmem⟩
  replace hstep : y.step env (.readable fd (.data bytes source)) = some x' := hstep
  simp only [UdpClient.step] at hstep
  split at hstep
  · rename_i hpolled
    cases hstep
    rcases pollfun_data y.abi hpolled.2.1 source with ⟨c, hchunk, hdata⟩
    rw [hmem, hchunk]
    exact h.deliver hmem hpolled.2.1 hdata y.port fun cl htake => by rw [htake]; rfl
  · cases hstep

/-- Anything else disconnects the object. -/
theorem cutOff_step (hkept : x.Kept) {fd : Int} {o : Arrival}
    (h : x.toConnection.Same y.toConnection) (hmistaken : ¬ o.2.Clear o.1.mem)
    (hstep : udpclientMachine.step y (arrival fd o) = some x') :
    CutOff x.toConnection x'.toConnection := by
  have hkept' : y.Kept := hkept.same h
  rcases o with ⟨env, r⟩
  replace hstep : y.step env (.readable fd r) = some x' := hstep
  simp only [UdpClient.step] at hstep
  split at hstep
  · rename_i hpolled
    cases hstep
    have hreceiver := receiver_of_polled hkept' hpolled.1
    have hpos : 0 ≤ y.fd := by
      by_contra hneg
      exact hreceiver (hkept'.nothing (not_le.1 hneg)).2.2
    rw [pollfun_of_not_clear y.abi hpolled.2 hmistaken]
    unfold receiveCallback
    dsimp only
    rw [if_pos hpos]
    rcases hkept'.disconnect with ⟨hdown, hfd⟩
    rcases hdown.nothing hfd with ⟨hnone, -, hrec⟩
    exact ⟨hrec, hnone.polls, h.receiver ▸ hreceiver⟩
  · cases hstep

/-- A sequence of outcomes none of which ends the connection leaves it as it is, with the
payloads output in order, if and only if none is mistaken for the end. -/
theorem receive_run (hkept : x.Kept) (hsound : x.Sound) {fd : Int} {os : List Arrival}
    (hos : ∀ o ∈ os, ¬ o.2.Closed)
    (hrun : udpclientMachine.run x (os.map (arrival fd)) = some x') :
    Undisturbed x.toConnection x'.toConnection (outputs 0 os) ↔
      ∀ o ∈ os, o.2.Clear o.1.mem := by
  apply undisturbed_iff
  exact Machine.run_good_or_stuck (p := fun o : Arrival => ¬ o.2.Closed)
    (I := fun y done => Received x.toConnection 0 y.toConnection done)
    (B := fun y => CutOff x.toConnection y.toConnection)
    (fun y done o y' h halive hclear hstep => received_step h halive hclear hstep)
    (fun y done o y' h hmistaken hstep => cutOff_step hkept h.same hmistaken hstep)
    (fun y o hcut => by simp [udpclientMachine, arrival, step, hcut.polls])
    (received_nil hsound 0) hos hrun

end UdpClient

/-! ## The TCP client -/

namespace TcpClient

variable {x x' y : TcpClient}

/-- The receiver on {lit}`fd` is called. -/
def arrival (fd : Int) (o : Arrival) : ClientEnv × Input :=
  (o.1, .readable fd o.2)

/-- Connecting leaves the list alone. -/
theorem establish_floatlist (env : ClientEnv) (x : TcpClient) (hostname : String)
    (f : FloatArg) (o : ConnectOutcome) :
    (x.establish env hostname f o).floatlist = x.floatlist := by
  have hprepare : (x.prepare hostname f).floatlist = x.floatlist := by
    show x.hangUp.floatlist = x.floatlist
    unfold hangUp
    split
    · dsimp only
      split <;> rfl
    · rfl
  have hconnect : (doConnect env hostname (BitVec.ofInt 16 f.toInt)
      (x.prepare hostname f) o).1.floatlist = (x.prepare hostname f).floatlist := by
    unfold doConnect
    split
    · rfl
    · split
      · rfl
      · dsimp only
        split <;> rfl
  exact hconnect.trans hprepare

/-- The float list stays loadable. -/
theorem sound_step (h : x.Sound) {a : ClientEnv × Input}
    (hstep : tcpclientMachine.step x a = some x') : x'.Sound := by
  rcases a with ⟨env, a⟩
  replace hstep : x.step env a = some x' := hstep
  cases a with
  | connect hostname fportno o =>
      simp only [TcpClient.step] at hstep
      split at hstep
      · cases hstep
        exact h.of_eq ((Connection.info_floatlist env _ _).trans
          (establish_floatlist env x hostname fportno o))
      · cases hstep
  | disconnect =>
      cases hstep
      exact h
  | send argv =>
      cases hstep
      have hsend := Connection.send_floatlist env x.toConnection argv
      unfold send
      dsimp only
      split
      · exact h.of_eq hsend
      · exact h.of_eq hsend
  | readable fd r =>
      simp only [TcpClient.step] at hstep
      split at hstep
      · rename_i hpolled
        cases hstep
        cases hchunk : pollfun x.abi env.mem r with
        | none => exact h
        | some c =>
            rcases pollfun_some hpolled.2 hchunk with ⟨bytes, source, -, hbytes, hmem, hdata⟩
            exact (Connection.deliver_output hmem h (hdata.symm ▸ hbytes) _ fun cl htake =>
              streamout_eq htake x.serialize).2
      · cases hstep
  | info =>
      cases hstep
      exact h.of_eq (Connection.info_floatlist env _ _)
  | serialize doit =>
      cases hstep
      exact h

/-- What has been received so far, and the settings it is output with. -/
structure Hears (x y : TcpClient) (os : List Arrival) : Prop where
  received : Received x.toConnection x.serialize y.toConnection os
  serialize : y.serialize = x.serialize
  port : y.port = x.port

/-- A chunk is output. -/
theorem hears_step {fd : Int} {os : List Arrival} {o : Arrival} (h : Hears x y os)
    (halive : ¬ o.2.Closed) (hclear : o.2.Clear o.1.mem)
    (hstep : tcpclientMachine.step y (arrival fd o) = some x') : Hears x x' (os ++ [o]) := by
  rcases o with ⟨env, r⟩
  rcases clear_data hclear halive with ⟨bytes, source, rfl, hmem⟩
  replace hstep : y.step env (.readable fd (.data bytes source)) = some x' := hstep
  simp only [TcpClient.step] at hstep
  split at hstep
  · rename_i hpolled
    cases hstep
    rcases pollfun_data y.abi hpolled.2.1 source with ⟨c, hchunk, hdata⟩
    rw [hmem, hchunk]
    refine ⟨?_, h.serialize, h.port⟩
    exact h.received.deliver hmem hpolled.2.1 hdata _ fun cl htake => by
      rw [h.serialize]
      exact streamout_eq htake x.serialize
  · cases hstep

/-- Anything else disconnects the object. -/
theorem cutOff_step (hkept : x.Kept) {fd : Int} {os : List Arrival} {o : Arrival}
    (h : Hears x y os) (hmistaken : ¬ o.2.Clear o.1.mem)
    (hstep : tcpclientMachine.step y (arrival fd o) = some x') :
    CutOff x.toConnection x'.toConnection := by
  have hkept' : y.Kept := hkept.same h.received.same h.port
  rcases o with ⟨env, r⟩
  replace hstep : y.step env (.readable fd r) = some x' := hstep
  simp only [TcpClient.step] at hstep
  split at hstep
  · rename_i hpolled
    cases hstep
    have hreceiver := receiver_of_polled hkept' hpolled.1
    rw [pollfun_of_not_clear y.abi hpolled.2 hmistaken]
    exact ⟨rfl, hkept'.disconnect_holding.polls, h.received.same.receiver ▸ hreceiver⟩
  · cases hstep

/-- The same as {lit}`UdpClient.receive_run` for a stream. -/
theorem receive_run (hkept : x.Kept) (hsound : x.Sound) {fd : Int} {os : List Arrival}
    (hos : ∀ o ∈ os, ¬ o.2.Closed)
    (hrun : tcpclientMachine.run x (os.map (arrival fd)) = some x') :
    Undisturbed x.toConnection x'.toConnection (outputs x.serialize os) ↔
      ∀ o ∈ os, o.2.Clear o.1.mem := by
  apply undisturbed_iff
  have hresult := Machine.run_good_or_stuck (p := fun o : Arrival => ¬ o.2.Closed)
    (I := Hears x) (B := fun y => CutOff x.toConnection y.toConnection)
    (fun y done o y' h halive hclear hstep => hears_step h halive hclear hstep)
    (fun y done o y' h hmistaken hstep => cutOff_step hkept h hmistaken hstep)
    (fun y o hcut => by simp [tcpclientMachine, arrival, step, hcut.polls])
    ⟨received_nil hsound x.serialize, rfl, rfl⟩ hos hrun
  rcases hresult with ⟨hclear, hhears⟩ | hcut
  · exact Or.inl ⟨hclear, hhears.received⟩
  · exact Or.inr hcut

end TcpClient

/-- In every reachable state of a client the float list can be loaded. -/
theorem client_sound :
    (∀ x : UdpClient, udpclientMachine.Reachable x → x.Sound) ∧
      ∀ x : TcpClient, tcpclientMachine.Reachable x → x.Sound := by
  constructor
  · intro x h
    apply h.invariant (I := fun x => x.Sound)
    · rintro x ⟨abi, env, rfl⟩
      exact Connection.sound_blank abi env
    · exact fun x a x' _ hx _ hstep => UdpClient.sound_step hx hstep
  · intro x h
    apply h.invariant (I := fun x => x.Sound)
    · rintro x ⟨abi, env, rfl⟩
      exact Connection.sound_blank abi env
    · exact fun x a x' _ hx _ hstep => TcpClient.sound_step hx hstep

/-- A receiver reports a closed connection only when there is one for exactly the outcomes
of {lit}`recvfrom` that are no empty datagram, no transient failure, and no data without
memory; and a client stays connected under outcomes that do not end the connection, with
every non-empty payload output once and in order, if and only if they are of that kind. -/
theorem receiver_closes (abi : Abi) (mem : Bool) {t : SocketType} {r : Recvfrom}
    (hr : r.Possible t) {x : UdpClient} (hx : udpclientMachine.Reachable x) {z : TcpClient}
    (hz : tcpclientMachine.Reachable z) (fd : Int) {os : List Arrival}
    (hos : ∀ o ∈ os, ¬ o.2.Closed) :
    ((pollfun abi mem r = none → r.Closed) ↔ r.Clear mem) ∧
      (∀ x', udpclientMachine.run x (os.map (UdpClient.arrival fd)) = some x' →
        (Undisturbed x.toConnection x'.toConnection (outputs 0 os) ↔
          ∀ o ∈ os, o.2.Clear o.1.mem)) ∧
      ∀ z', tcpclientMachine.run z (os.map (TcpClient.arrival fd)) = some z' →
        (Undisturbed z.toConnection z'.toConnection (outputs z.serialize os) ↔
          ∀ o ∈ os, o.2.Clear o.1.mem) := by
  refine ⟨pollfun_null_iff hr, fun x' hrun => ?_, fun z' hrun => ?_⟩
  · exact UdpClient.receive_run (udpclient_kept hx) (client_sound.1 x hx) hos hrun
  · exact TcpClient.receive_run (tcpclient_kept hz) (client_sound.2 z hz) hos hrun

/-- Data from nowhere in particular. -/
def bytesArrive (bytes : List (BitVec 8)) : Arrival :=
  (plainClientEnv true 0, .data bytes ⟨afInet, 0#32, 0#16⟩)

/-- Connect to a host and get descriptor 3. -/
def toHost : ConnectOutcome :=
  ⟨some 3, fun _ => true⟩

/-- A {lit}`udpclient` that has connected. -/
def connectedUdp : UdpClient :=
  (UdpClient.new ⟨true, 64⟩ (plainClientEnv true 0)).connect (plainClientEnv true 0) "localhost"
    ⟨9, 0#32⟩ toHost

/-- A {lit}`tcpclient` that has connected. -/
def connectedTcp : TcpClient :=
  (TcpClient.new ⟨true, 64⟩ (plainClientEnv true 0)).connect (plainClientEnv true 0) "localhost"
    ⟨9, 0#32⟩ toHost

/-- The two connected clients can be reached. -/
theorem connected_reachable :
    udpclientMachine.Reachable connectedUdp ∧ tcpclientMachine.Reachable connectedTcp := by
  have hudp : udpclientMachine.run (.new ⟨true, 64⟩ (plainClientEnv true 0))
      [(plainClientEnv true 0, .connect "localhost" ⟨9, 0#32⟩ toHost)] = some connectedUdp := rfl
  have htcp : tcpclientMachine.run (.new ⟨true, 64⟩ (plainClientEnv true 0))
      [(plainClientEnv true 0, .connect "localhost" ⟨9, 0#32⟩ toHost)] = some connectedTcp := rfl
  exact ⟨Machine.reach_of_run ⟨_, _, rfl⟩ hudp, Machine.reach_of_run ⟨_, _, rfl⟩ htcp⟩

/-- Two chunks of data, of one byte and of two. -/
def twoChunks : List Arrival :=
  [bytesArrive [1#8], bytesArrive [2#8, 3#8]]

/-- One chunk of two bytes. -/
def oneChunk : List Arrival :=
  [bytesArrive [1#8, 2#8]]

/-- A connected {lit}`udpclient` puts two datagrams out as two lists, a connected
{lit}`tcpclient` puts out two bytes one at a time. -/
theorem receiver_closes_run :
    (∃ x, udpclientMachine.run connectedUdp (twoChunks.map (UdpClient.arrival 3)) = some x ∧
      x.fd = 3 ∧ x.messages = [⟨"list", [setFloat (1 : Nat)]⟩,
        ⟨"list", [setFloat (2 : Nat), setFloat (3 : Nat)]⟩]) ∧
    ∃ z, tcpclientMachine.run connectedTcp (oneChunk.map (TcpClient.arrival 3)) = some z ∧
      z.fd = 3 ∧ z.messages =
        [⟨"list", [setFloat (1 : Nat)]⟩, ⟨"list", [setFloat (2 : Nat)]⟩] := by
  have hudp : udpclientMachine.run connectedUdp (twoChunks.map (UdpClient.arrival 3)) =
    some _ := rfl
  have htcp : tcpclientMachine.run connectedTcp (oneChunk.map (TcpClient.arrival 3)) =
    some _ := rfl
  have hend : Recvfrom.Possible .stream (.endOfStream ⟨afInet, 0#32, 0#16⟩) := rfl
  have htwoAlive : ∀ o ∈ twoChunks, ¬ o.2.Closed := by
    simp [twoChunks, bytesArrive, Recvfrom.Closed]
  have honeAlive : ∀ o ∈ oneChunk, ¬ o.2.Closed := by
    simp [oneChunk, bytesArrive, Recvfrom.Closed]
  have htwo := receiver_closes ⟨true, 64⟩ true hend connected_reachable.1
    connected_reachable.2 3 htwoAlive
  have hone := receiver_closes ⟨true, 64⟩ true hend connected_reachable.1
    connected_reachable.2 3 honeAlive
  have hlists := (htwo.2.1 _ hudp).2
    (by simp [twoChunks, bytesArrive, Recvfrom.Clear, plainClientEnv])
  have hbytes := (hone.2.2 _ htcp).2
    (by simp [oneChunk, bytesArrive, Recvfrom.Clear, plainClientEnv])
  exact ⟨⟨_, hudp, hlists.fd, hlists.messages⟩, ⟨_, htcp, hbytes.fd, hbytes.messages⟩⟩

/-- An empty datagram disconnects a {lit}`udpclient`, and a descriptor that was not ready
after all disconnects a {lit}`tcpclient`. -/
theorem empty_datagram_disconnects :
    (udpclientMachine.Reachable connectedUdp ∧ tcpclientMachine.Reachable connectedTcp) ∧
    (∃ x, udpclientMachine.step connectedUdp (UdpClient.arrival 3
        (plainClientEnv true 0, .emptyDatagram ⟨afInet, 0#32, 0#16⟩)) = some x ∧
      connectedUdp.fd = 3 ∧ x.fd = -1 ∧ x.receiver = none ∧ x.sender = none) ∧
    ∃ x, tcpclientMachine.step connectedTcp (TcpClient.arrival 3
        (plainClientEnv true 0, .error .eagain ⟨afInet, 0#32, 0#16⟩)) = some x ∧
      connectedTcp.receiver ≠ none ∧ x.receiver = none ∧ x.sender = none := by
  refine ⟨connected_reachable, ⟨_, rfl, rfl, rfl, rfl, rfl⟩, ⟨_, rfl, ?_, rfl, rfl⟩⟩
  exact Option.some_ne_none _

end Iemnet
