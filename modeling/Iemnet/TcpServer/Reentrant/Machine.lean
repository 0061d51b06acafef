import Iemnet.TcpServer.Reentrant.Tasks

/-!
# The TCP server under messages sent from its outlets

The tasks of the functions that are active lie on a stack.  The main thread works the
topmost task off; while a patch is running, and when nothing is left to do, a message can
come in, whose tasks are put on top.  The calls thus nest to any depth, and the patch
decides after every message whether it sends another one.

Beside the server and the stack, the state records for which clients
{lit}`tcpserver_disconnect` has been carried out, which clients have been entered in the
table, and what the two broadcasting functions have done.

Main results:

- Theorem {lit}`outcome_run`: if the patch does not answer, the tasks on the stack do
  what the handlers do.
-/

namespace Iemnet.TcpServer

open Pd Foundations

/-- A patch can send it.  The poll functions are called between messages only. -/
def Input.isMessage : Input → Bool
  | .incoming .. => false
  | .received .. => false
  | _ => true

namespace Task

/-- A call of {lit}`tcpserver_disconnect` that has not removed anything yet: its index,
and the client that was there. -/
def removal : Task → Option (Nat × SocketReceiver)
  | remove client y => some (client, y)
  | _ => none

/-- A descriptor that has been accepted and is neither a client's nor closed, with its
serial. -/
def accepted : Task → Option (Int × Nat)
  | register id o => some (o.fd, id)
  | _ => none

/-- The descriptor that {lit}`tcpserver_port` is going to close. -/
def listener : Task → Option Int
  | openPort _ _ _ sockfd => some sockfd
  | _ => none

/-- A loop over a snapshot: the serial, and the clients to come. -/
def loop : Task → Option (Nat × List Nat)
  | sendBytesClients serial _ srs _ _ =>
      some (serial, srs.filterMap fun sr => sr.map SocketReceiver.id)
  | _ => none

/-- The socketreceivers that the task holds a pointer to. -/
def pointers : Task → List Nat
  | infoConnection _ y => [y.id]
  | sendBytesClients _ _ srs _ _ => srs.filterMap fun sr => sr.map SocketReceiver.id
  | _ => []

/-- The task is none of those that the definitions above are about, and the patch is not
running. -/
def Plain : Task → Prop
  | patch => False
  | remove .. => False
  | sendBytesClients .. => False
  | register .. => False
  | openPort .. => False
  | _ => True

/-- Moreover the task holds no pointer. -/
def Inert (t : Task) : Prop :=
  t.Plain ∧ t.pointers = []

/-- The client that the task enters in the table. -/
def entering (x : Server) : Task → List SocketReceiver
  | register id o =>
      if x.accepting ≠ 0 ∧ x.nconnections < x.maxconnections then
        (x.socketreceiverNew id o x.nconnections).2.toList
      else []
  | _ => []

/-- The kernel hands out a number that is not in use. -/
def Possible (x : Server) : Task → Prop
  | openPort _ _ o sockfd => ∀ fd ∈ o.socket, FreshFd (x.closePort sockfd) fd
  | _ => True

instance (x : Server) (t : Task) : Decidable (t.Possible x) := by
  cases t <;> unfold Possible <;> infer_instance

end Task

namespace Reentrant

/-- The serial of the broadcast whose step the topmost task is. -/
def broadcasting : List Task → Option Nat
  | [] => none
  | .patch :: _ => none
  | .sendBytesClients serial _ _ _ _ :: _ => some serial
  | _ :: rest => broadcasting rest

/-- The calls of {lit}`tcpserver_disconnect` that have not removed anything yet. -/
def removals (stack : List Task) : List (Nat × SocketReceiver) :=
  stack.filterMap Task.removal

/-- The accepted descriptors that are neither a client's nor closed. -/
def pending (stack : List Task) : List (Int × Nat) :=
  stack.filterMap Task.accepted

/-- The descriptors that are going to be closed as the listener's. -/
def ports (stack : List Task) : List Int :=
  stack.filterMap Task.listener

/-- The loops over snapshots. -/
def loops (stack : List Task) : List (Nat × List Nat) :=
  stack.filterMap Task.loop

/-- The socketreceivers that the broadcasts on the stack hold pointers to. -/
def held : List Task → List Nat
  | [] => []
  | t :: rest => (if (broadcasting (t :: rest)).isSome then t.pointers else []) ++ held rest

/-- The object can receive the input. -/
def receptive : List Task → Input → Bool
  | [], _ => true
  | .patch :: _, a => a.isMessage
  | _ :: _, _ => false

/-- The freed socketreceivers that have been read on the way from {lit}`x` to
{lit}`x'`. -/
def misuses (x x' : Server) : List Nat :=
  (x'.faults.drop x.faults.length).filterMap fun f =>
    match f with
    | .useAfterFree id => some id
    | _ => none

/-- The clients that have been offered a chunk on the way from {lit}`x` to
{lit}`x'`. -/
def offered (x x' : Server) : List Nat :=
  (x'.sends.drop x.sends.length).map fun p => p.1.id

/-- The server, what is left to do, and the history of the two. -/
structure State where
  server : Server
  stack : List Task
  /-- For whom {lit}`tcpserver_disconnect` has been carried out. -/
  ended : List Nat
  /-- The clients that have been entered in the table. -/
  entered : List SocketReceiver
  /-- The number of inputs, which makes the serial of a broadcast. -/
  serial : Nat
  /-- To whom a broadcast has offered its chunk. -/
  offers : List (Nat × Nat)
  /-- The freed socketreceivers that a broadcast has read. -/
  misused : List Nat

/-- A message comes in, or the topmost task is worked off. -/
inductive Label
  | message (env : Env) (a : Input)
  | proceed

namespace State

/-- The state after a step to {lit}`x`; {lit}`b` is the broadcast that made it. -/
def advance (s : State) (b : Option Nat) (x : Server) (stack : List Task) : State :=
  { s with
    server := x
    stack := stack
    offers := s.offers ++ b.toList.flatMap fun b => (offered s.server x).map fun id => (b, id)
    misused := s.misused ++ b.toList.flatMap fun _ => misuses s.server x }

/-- The state after the topmost task {lit}`t` has been worked off. -/
def worked (s : State) (t : Task) (rest : List Task) : State :=
  let x := s.server.expand t
  { s.advance (broadcasting (t :: rest)) x.1 (x.2 ++ rest) with
    ended := s.ended ++ t.removal.toList.map fun p => p.2.id
    entered := s.entered ++ t.entering s.server }

/-- The state after an input that is expanded to {lit}`tasks`. -/
def received (s : State) (x : Server) (tasks : List Task) : State :=
  { s.advance (broadcasting (tasks ++ s.stack)) x (tasks ++ s.stack) with
    serial := s.serial + 1 }

/-- One step. -/
def step (s : State) : Label → Option State
  | .message env a =>
      if receptive s.stack a then
        (s.server.expandInput s.serial env a).map fun p => s.received p.1 p.2
      else none
  | .proceed =>
      match s.stack with
      | [] => none
      | t :: rest => if t.Possible s.server then some (s.worked t rest) else none

/-- Nothing has happened yet. -/
def start (x : Server) : State :=
  ⟨x, [], [], [], 0, [], []⟩

end State
end Reentrant
end Iemnet.TcpServer

namespace Iemnet

open TcpServer TcpServer.Reentrant Foundations

/-- The server with a patch that answers as it likes. -/
def reentrantMachine : Machine State Label where
  init s := ∃ x, tcpserverMachine.init x ∧ s = .start x
  step := State.step

namespace TcpServer.Reentrant

variable {s s' : State} {t : Task} {rest : List Task}

/-! ## Steps -/

/-- Proceeding works the topmost task off. -/
theorem step_proceed (h : s.step .proceed = some s') :
    ∃ t rest, s.stack = t :: rest ∧ t.Possible s.server ∧ s' = s.worked t rest := by
  simp only [State.step] at h
  rcases hstack : s.stack with _ | ⟨t, rest⟩
  · rw [hstack] at h
    contradiction
  · simp only [hstack] at h
    split at h
    case isTrue hposs => exact ⟨t, rest, rfl, hposs, (Option.some.inj h).symm⟩
    case isFalse => contradiction

/-- A message is taken where the object is receptive. -/
theorem step_message {env : Env} {a : Input} (h : s.step (.message env a) = some s') :
    ∃ x tasks, receptive s.stack a = true ∧
      s.server.expandInput s.serial env a = some (x, tasks) ∧ s' = s.received x tasks := by
  simp only [State.step] at h
  split at h
  case isTrue hrec =>
    rcases Option.map_eq_some_iff.1 h with ⟨⟨x, tasks⟩, hp, rfl⟩
    exact ⟨x, tasks, hrec, hp, rfl⟩
  case isFalse => contradiction

/-! ## A patch that does not answer -/

/-- What the server will be like when everything on the stack has been done and the patch
has not answered. -/
def State.outcome (s : State) : Server :=
  Server.performAll emit s.server s.stack

/-- Working a task off does not change what comes out in the end. -/
theorem outcome_proceed (h : s.step .proceed = some s') : s'.outcome = s.outcome := by
  rcases step_proceed h with ⟨t, rest, hstack, -, rfl⟩
  have hexpand : Server.performAll emit (s.server.expand t).1 (s.server.expand t).2 =
      Server.perform emit s.server t := by
    cases t with
    | output o => rfl
    | _ => exact Server.perform_expand emit s.server fun o => Task.noConfusion
  have hworked : (s.worked t rest).outcome =
      Server.performAll emit (s.server.expand t).1 ((s.server.expand t).2 ++ rest) := rfl
  rw [hworked, Server.performAll_append, hexpand, State.outcome, hstack]
  rfl

/-- If the patch does not answer, the tasks on the stack do what the handlers do. -/
theorem outcome_run {x : Server} {env : Env} {a : Input} {n : Nat}
    (hidle : s.stack = []) (hin : s.server.step emit env a = some x)
    (hrun : reentrantMachine.run s (.message env a :: List.replicate n .proceed) = some s')
    (hdone : s'.stack = []) : s'.server = x := by
  rw [Machine.run_cons, Option.bind_eq_some_iff] at hrun
  rcases hrun with ⟨s₁, h₁, hrun⟩
  rcases step_message h₁ with ⟨x₁, tasks, -, hexpand, rfl⟩
  have hinput := Server.perform_expandInput emit s.serial env hin
  rw [hexpand] at hinput
  have hconst := Machine.run_const (M := reentrantMachine) (f := State.outcome)
    (p := fun a => a = .proceed) (fun s a s' ha h => outcome_proceed (ha ▸ h))
    (fun a ha => List.eq_of_mem_replicate ha) hrun
  have hstart : (s.received x₁ tasks).outcome = Server.performAll emit x₁ tasks := by
    have hstack : (s.received x₁ tasks).stack = tasks ++ s.stack := rfl
    rw [State.outcome, hstack, hidle, List.append_nil]
    rfl
  have hend : s'.outcome = s'.server := by
    rw [State.outcome, hdone]
    rfl
  rw [← hend, hconst, hstart]
  exact Option.some.inj hinput

end TcpServer.Reentrant
end Iemnet
