import Iemnet.Client.Connection
import Iemnet.Foundations.TransitionSystem

/-!
# The TCP sender object

tcpsend.c: a client that only sends.

Main results:

- Theorem {lit}`TcpSend.Kept.step`: what the object has open is what its fields say.
- Theorem {lit}`tcpsend_kept`: the same for every reachable state.
-/

namespace Iemnet

open Pd Foundations

/-- {lit}`t_tcpsend`, what is kept for it elsewhere, and its history. -/
structure TcpSend where
  abi : Abi
  fd : Int
  sender : Option Worker
  res : Resources
  /-- The calls of {lit}`iemnet__sender_send`. -/
  sends : List (Worker × Chunk × Int)
  /-- The numbers put out at the outlet. -/
  log : List Nat

namespace TcpSend

/-- {lit}`tcpsend_disconnect`. -/
def disconnect (x : TcpSend) : TcpSend :=
  let x := { x with res := x.res.senderDestroy x.sender, sender := none }
  if 0 ≤ x.fd then
    { x with res := x.res.closesocket x.fd, fd := -1, log := x.log ++ [0] }
  else x

/-- {lit}`tcpsend_connect`. -/
def connect (env : ClientEnv) (x : TcpSend) (hostname : String) (fportno : FloatArg)
    (o : ConnectOutcome) : TcpSend :=
  if 0 ≤ x.fd then x
  else
    match env.host hostname with
    | none => x
    | some hp =>
        match o.socket with
        | none => x
        | some sockfd =>
            let r := x.res.socket sockfd
            if o.connect (serverAddress x.abi hp (BitVec.ofInt 16 fportno.toInt)) then
              let (r, sender) := r.senderCreate env.sender sockfd
              { x with res := r, fd := sockfd, sender := sender, log := x.log ++ [1] }
            else { x with res := r.closesocket sockfd }

/-- {lit}`tcpsend_send`. -/
def send (env : ClientEnv) (x : TcpSend) (argv : List Atom) : TcpSend :=
  match x.sender, chunkCreateList env.mem argv with
  | some s, some chunk => { x with sends := x.sends ++ [(s, chunk, env.sent)] }
  | _, _ => x

/-- {lit}`tcpsend_new`. -/
def new (abi : Abi) : TcpSend where
  abi := abi
  fd := -1
  sender := none
  res := .empty
  sends := []
  log := []

/-- {lit}`tcpsend_free`. -/
def free (x : TcpSend) : TcpSend :=
  x.disconnect

/-! ## The system -/

/-- What the object receives. -/
inductive Input
  | connect (hostname : String) (fportno : FloatArg) (o : ConnectOutcome)
  | disconnect
  | send (argv : List Atom)

/-- What {lit}`socket` can deliver: a number that is not in use. -/
def Possible (x : TcpSend) (o : ConnectOutcome) : Prop :=
  ∀ fd ∈ o.socket, 0 ≤ fd ∧ fd < 2 ^ 31 ∧ fd ∉ x.res.os.numbers

instance (x : TcpSend) (o : ConnectOutcome) : Decidable (x.Possible o) :=
  inferInstanceAs (Decidable (∀ fd ∈ o.socket, _))

/-- One input. -/
def step (x : TcpSend) (env : ClientEnv) : Input → Option TcpSend
  | .connect hostname fportno o =>
      if x.Possible o then some (x.connect env hostname fportno o) else none
  | .disconnect => some x.disconnect
  | .send argv => some (x.send env argv)

end TcpSend

/-- The object as a transition system. -/
def tcpsendMachine : Machine TcpSend (ClientEnv × TcpSend.Input) where
  init x := ∃ abi, x = TcpSend.new abi
  step x a := x.step a.1 a.2

namespace TcpSend

/-! ## What is open -/

variable {x x' : TcpSend} {env : ClientEnv}

/-- The fields say what is open. -/
def Kept (x : TcpSend) : Prop :=
  x.res.Holding (stored x.fd) x.sender none

/-- A tcpsend that is disconnected holds nothing. -/
theorem Kept.disconnect (h : x.Kept) :
    x.disconnect.Kept ∧ x.disconnect.res.Holding none none none := by
  have hworkers := h.senderDestroy
  unfold TcpSend.disconnect
  dsimp only
  split
  · exact ⟨hworkers.closeStored, hworkers.closeStored⟩
  · rename_i hneg
    refine ⟨hworkers, ?_⟩
    rw [stored_of_neg (not_le.1 hneg)] at hworkers
    exact hworkers

/-- Connecting keeps the account of what is open. -/
theorem Kept.connect (h : x.Kept) {hostname : String} {f : FloatArg} {o : ConnectOutcome}
    (ho : x.Possible o) : (x.connect env hostname f o).Kept := by
  unfold TcpSend.connect
  split
  · exact h
  · rename_i hneg
    split
    · exact h
    · cases hsocket : o.socket with
      | none => exact h
      | some sockfd =>
          have hpos := (ho sockfd hsocket).1
          have hfd := stored_of_neg (not_le.1 hneg)
          unfold Kept at h
          rw [hfd] at h
          have hs := h.nothing.1
          rw [hs] at h
          have hopen := h.socket sockfd
          dsimp only
          split
          · unfold Kept
            rw [stored_of_nonneg hpos]
            exact hopen.senderCreate env.sender
          · unfold Kept
            rw [hfd, hs]
            exact hopen.closesocket hpos

/-- Sending keeps the account of what is open. -/
theorem Kept.send (h : x.Kept) (argv : List Atom) : (x.send env argv).Kept := by
  unfold TcpSend.send
  split
  · exact h
  · exact h

/-- One input. -/
theorem Kept.step (h : x.Kept) {a : ClientEnv × Input}
    (hstep : tcpsendMachine.step x a = some x') : x'.Kept := by
  rcases a with ⟨env, a⟩
  replace hstep : x.step env a = some x' := hstep
  cases a with
  | connect hostname fportno o =>
      simp only [TcpSend.step] at hstep
      split at hstep
      · rename_i ho
        cases hstep
        exact h.connect ho
      · cases hstep
  | disconnect =>
      cases hstep
      exact h.disconnect.1
  | send argv =>
      cases hstep
      exact h.send argv

/-- A new tcpsend holds nothing. -/
theorem kept_new (abi : Abi) : (new abi).Kept :=
  Resources.holding_empty

end TcpSend

/-- In every reachable state the fields of a {lit}`tcpsend` say what it has open. -/
theorem tcpsend_kept {x : TcpSend} (h : tcpsendMachine.Reachable x) : x.Kept := by
  apply h.invariant
  · rintro x ⟨abi, rfl⟩
    exact TcpSend.kept_new abi
  · exact fun x a x' _ hx _ hstep => hx.step hstep

end Iemnet
