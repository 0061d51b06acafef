import Iemnet.Client.Connection

/-!
# The UDP sender object

udpsend.c: a client that only sends, and gives up its connection when a send brings no
size.

Main results:

- Theorem {lit}`UdpSend.send_stays_iff`: which results of {lit}`iemnet__sender_send` leave
  the object connected.
-/

namespace Iemnet

open Pd Foundations

/-- {lit}`t_udpsend`, what is kept for it elsewhere, and its history. -/
structure UdpSend where
  abi : Abi
  sender : Option Worker
  fd : Int
  res : Resources
  /-- The calls of {lit}`iemnet__sender_send`. -/
  sends : List (Worker × Option Chunk × Int)
  /-- The numbers put out at the outlet. -/
  log : List Nat

namespace UdpSend

/-- {lit}`udpsend_connect`. -/
def connect (env : ClientEnv) (x : UdpSend) (hostname : String) (fportno : FloatArg)
    (o : ConnectOutcome) : UdpSend :=
  if x.sender ≠ none then x
  else
    match env.host hostname with
    | none => x
    | some hp =>
        match o.socket with
        | none => x
        | some sockfd =>
            let r := x.res.socket sockfd
            if o.connect (serverAddress x.abi hp (BitVec.ofInt 16 fportno.toInt)) then
              let (r, sender) := r.senderCreate env.sender sockfd
              { x with res := r, sender := sender, fd := sockfd, log := x.log ++ [1] }
            else { x with res := r.closesocket sockfd }

/-- {lit}`udpsend_disconnect`. -/
def disconnect (x : UdpSend) : UdpSend :=
  let x := { x with res := x.res.senderDestroy x.sender, sender := none }
  if 0 ≤ x.fd then
    { x with res := x.res.closesocket x.fd, fd := -1, log := x.log ++ [0] }
  else x

/-- {lit}`udpsend_send`. -/
def send (env : ClientEnv) (x : UdpSend) (argv : List Atom) : UdpSend :=
  match x.sender with
  | none => x
  | some s =>
      let chunk := chunkCreateList env.mem argv
      let size := env.sent
      let x := { x with sends := x.sends ++ [(s, chunk, size)] }
      if size < 1 then x.disconnect else x

/-- {lit}`udpsend_new`. -/
def new (abi : Abi) : UdpSend where
  abi := abi
  sender := none
  fd := -1
  res := .empty
  sends := []
  log := []

/-- {lit}`udpsend_free`. -/
def free (x : UdpSend) : UdpSend :=
  x.disconnect

/-- What {lit}`socket` can deliver: a number that is not in use. -/
def Possible (x : UdpSend) (o : ConnectOutcome) : Prop :=
  ∀ fd ∈ o.socket, 0 ≤ fd ∧ fd < 2 ^ 31 ∧ fd ∉ x.res.os.numbers

instance (x : UdpSend) (o : ConnectOutcome) : Decidable (x.Possible o) :=
  inferInstanceAs (Decidable (∀ fd ∈ o.socket, _))

/-! ## Which messages disconnect -/

variable {x : UdpSend} {env : ClientEnv}

/-- Who is disconnected has no sender. -/
theorem disconnect_sender (x : UdpSend) : x.disconnect.sender = none := by
  unfold disconnect
  dsimp only
  split <;> rfl

/-- Who is disconnected has no descriptor. -/
theorem disconnect_fd (x : UdpSend) : x.disconnect.fd < 0 := by
  unfold disconnect
  dsimp only
  split
  · show (-1 : Int) < 0
    decide
  · rename_i hneg
    exact not_le.1 hneg

/-- The object has a sender. -/
def Connected (x : UdpSend) : Prop :=
  x.sender ≠ none

instance (x : UdpSend) : Decidable x.Connected :=
  inferInstanceAs (Decidable (_ ≠ _))

/-- The object has kept its sender and its descriptor. -/
def Stays (x x' : UdpSend) : Prop :=
  x'.sender = x.sender ∧ x'.fd = x.fd

instance (x x' : UdpSend) : Decidable (x.Stays x') :=
  inferInstanceAs (Decidable (_ ∧ _))

/-- A connected object stays connected exactly if it is told a size. -/
theorem send_stays_iff (h : x.Connected) (argv : List Atom) :
    x.Stays (x.send env argv) ↔ 1 ≤ env.sent := by
  obtain ⟨s, hs⟩ := Option.ne_none_iff_exists'.1 h
  unfold send
  rw [hs]
  dsimp only
  by_cases hsize : env.sent < 1
  · rw [if_pos hsize]
    refine ⟨fun hstays => ?_, fun hpos => absurd hsize (not_lt.2 hpos)⟩
    have hnone := hstays.1
    rw [disconnect_sender] at hnone
    exact absurd hnone.symm h
  · rw [if_neg hsize]
    exact ⟨fun _ => not_lt.1 hsize, fun _ => ⟨hs.symm, rfl⟩⟩

/-- A connected object that is not told a size is disconnected. -/
theorem send_disconnects (h : x.Connected) (argv : List Atom) (hsize : env.sent < 1) :
    (x.send env argv).sender = none ∧ (x.send env argv).fd < 0 := by
  obtain ⟨s, hs⟩ := Option.ne_none_iff_exists'.1 h
  unfold send
  rw [hs]
  dsimp only
  rw [if_pos hsize]
  exact ⟨disconnect_sender _, disconnect_fd _⟩

end UdpSend

end Iemnet
