import Iemnet.UdpServer.Rebinding

/-!
# What the UDP server is bound to

{lit}`udpserver_do_bind` keeps the port it is bound to in {lit}`x_port`, and {lit}`-1` when
there is none.  The field is an {lit}`unsigned short`, so {lit}`-1` is port 65535: a server
without a socket takes a request for this port as served, and a {lit}`bind` message without
a port asks for it.

{lit}`Bound` is the server beside what the kernel knows about its sockets.

Main results:

- Theorem {lit}`Bound.doBind_server`: {lit}`udpserver_do_bind` with the kernel beside it.
- Theorem {lit}`Bound.Placed.doBind`: one call of {lit}`udpserver_do_bind`.
- Theorem {lit}`bind_effective_iff`: every message in every reachable state.
-/

namespace Iemnet.UdpServer

open Pd Foundations

/-! ## The kernel -/

/-- What the kernel has a socket bound to: the interface that {lit}`bind` was asked for, and
a port. -/
structure Binding where
  ifaddr : Option String
  port : BitVec 16
deriving DecidableEq, Repr

/-- What {lit}`udpserver_do_bind` reports before it gives up. -/
inductive BindError
  /-- unable to create socket -/
  | socket
  /-- bad host -/
  | host
  /-- unable to bind socket -/
  | bind
deriving DecidableEq, Repr

/-- The server beside what its sockets are bound to. -/
structure Bound where
  server : Server
  names : Int → Option Binding

/-- The port of a socket: for port 0 the kernel chooses one. -/
def actualPort (portno used : BitVec 16) : BitVec 16 :=
  if portno = 0 then used else portno

/-- {lit}`getsockname` fails or tells the port that the socket is bound to. -/
def Env.Honest (env : Env) (abi : Abi) (portno used : BitVec 16) : Prop :=
  ∀ s ∈ env.sockname, abi.ntohs s.port = actualPort portno used

instance (env : Env) (abi : Abi) (portno used : BitVec 16) :
    Decidable (env.Honest abi portno used) :=
  inferInstanceAs (Decidable (∀ s ∈ env.sockname, _))

namespace Bound

/-- {lit}`iemnet__closesocket`. -/
def closesocket (b : Bound) (sockfd : Int) : Bound :=
  ⟨b.server.closesocket sockfd, Function.update b.names sockfd none⟩

/-- {lit}`udpserver_do_bind` cleans up an open port. -/
def closePort (b : Bound) : Bound :=
  ⟨b.server.closePort,
    if 0 ≤ b.server.connectsocket then Function.update b.names b.server.connectsocket none
    else b.names⟩

/-- {lit}`udpserver_do_bind` with what it reports. -/
def doBind (env : Env) (b : Bound) (ifaddr : Option String) (portno used : BitVec 16)
    (o : BindOutcome) : Bound × Option BindError :=
  if b.server.port = portno ∧ b.server.ifaddr = ifaddr then (b, none)
  else
    let b := b.closePort
    match o.socket with
    | none => (b, some .socket)
    | some sockfd =>
        let b := { b with server := { b.server with os := b.server.os.acquire sockfd } }
        if ¬ Server.resolved env ifaddr then (b.closesocket sockfd, some .host)
        else if ¬ o.bind then
          let b := b.closesocket sockfd
          ({ b with server := emit b.server (.plain .statusout "port" [setInt (-1)]) },
            some .bind)
        else
          (⟨b.server.listenOn env ifaddr portno sockfd,
            Function.update b.names sockfd (some ⟨ifaddr, actualPort portno used⟩)⟩, none)

variable {b : Bound} {env : Env} {ifaddr : Option String} {portno used : BitVec 16}
variable {o : BindOutcome}

/-- The names the kernel keeps do not change what the server does. -/
theorem doBind_server (b : Bound) (env : Env) (ifaddr : Option String) (portno used : BitVec 16)
    (o : BindOutcome) :
    (b.doBind env ifaddr portno used o).1.server = b.server.doBind env ifaddr portno o := by
  unfold doBind Server.doBind
  split
  · rfl
  · cases hsocket : o.socket with
    | none => rfl
    | some sockfd =>
        dsimp only
        split
        · rfl
        · split <;> rfl

end Bound

/-! ## The system -/

/-- The outcome that a message carries for {lit}`udpserver_do_bind`. -/
def Input.outcome : Input → Option BindOutcome
  | .port _ o => some o
  | .bind _ _ o => some o
  | _ => none

/-- A {lit}`bind` message that names only an interface. -/
def Input.InterfaceOnly : Input → Prop
  | .bind [_] _ _ => True
  | _ => False

namespace Bound

/-- A {lit}`port` or {lit}`bind` message, with what {lit}`udpserver_do_bind` reports. -/
def message (b : Bound) (env : Env) (a : Input) (used : BitVec 16) :
    Option (Bound × Option BindError) :=
  match a.outcome with
  | none => none
  | some o =>
      if o.Possible b.server then
        match b.server.bindRequest a with
        | none => some (b, none)
        | some q =>
            if env.Honest b.server.abi q.2 used then some (b.doBind env q.1 q.2 used o)
            else none
      else none

/-- {lit}`udpserver_new`. -/
def new (abi : Abi) (env : Env) (uniq : Int) (fportno : FloatArg) (used : BitVec 16)
    (o : BindOutcome) : Option Bound :=
  let b : Bound := ⟨Server.blank abi env uniq, fun _ => none⟩
  (b.message env (.port fportno o) used).map fun r =>
    { r.1 with server := { r.1.server with accept := 1 } }

end Bound

/-- The server as it is created and bound. -/
def bindingMachine : Machine Bound (Env × Input × BitVec 16) where
  init b := ∃ abi env k f used o, Bound.new abi env (toInt32 (1000 + (k : Nat))) f used o = some b
  step b a := (b.message a.1 a.2.1 a.2.2).map Prod.fst

namespace Bound

variable {b b' : Bound} {env : Env} {a : Input} {used : BitVec 16}
variable {r : Bound × Option BindError}

/-- The cases of a message. -/
theorem message_cases (h : b.message env a used = some r) :
    ∃ o, a.outcome = some o ∧ o.Possible b.server ∧
      ((b.server.bindRequest a = none ∧ r = (b, none)) ∨
        ∃ q, b.server.bindRequest a = some q ∧ env.Honest b.server.abi q.2 used ∧
          r = b.doBind env q.1 q.2 used o) := by
  unfold message at h
  cases ha : a.outcome with
  | none =>
      rw [ha] at h
      cases h
  | some o =>
      rw [ha] at h
      dsimp only at h
      split at h
      · rename_i ho
        refine ⟨o, rfl, ho, ?_⟩
        cases hq : b.server.bindRequest a with
        | none =>
            rw [hq, Option.some.injEq] at h
            exact Or.inl ⟨rfl, h.symm⟩
        | some q =>
            rw [hq] at h
            dsimp only at h
            split at h
            · rename_i hhonest
              rw [Option.some.injEq] at h
              exact Or.inr ⟨q, rfl, hhonest, h.symm⟩
            · cases h
      · cases h

/-- The server does what it does without the kernel beside it. -/
theorem message_server (h : b.message env a used = some r) :
    b.server.step env a = some r.1.server := by
  rcases message_cases h with ⟨o, ha, ho, hcases⟩
  have hserver : r.1.server =
      match b.server.bindRequest a with
      | none => b.server
      | some q => b.server.doBind env q.1 q.2 o := by
    rcases hcases with ⟨hnone, rfl⟩ | ⟨q, hq, -, rfl⟩
    · rw [hnone]
    · rw [hq, doBind_server]
  rw [hserver]
  cases a with
  | port f o' =>
      have hsame : o' = o := Option.some.inj ha
      subst hsame
      rw [Server.step, if_pos ho]
      exact congrArg some (b.server.setPort_eq f o')
  | bind argv wild o' =>
      have hsame : o' = o := Option.some.inj ha
      subst hsame
      rw [Server.step, if_pos ho]
      exact congrArg some (b.server.bind_eq argv wild o')
  | _ => cases ha

/-- Every state of the server that is reached here is one of the whole system. -/
theorem reach_server (h : bindingMachine.Reachable b) :
    udpserverMachine.Reachable b.server := by
  induction h with
  | start hinit =>
      rcases hinit with ⟨abi, env, k, f, used, o, hnew⟩
      rcases Option.map_eq_some_iff.1 hnew with ⟨r, hr, rfl⟩
      have hpossible : o.Possible (Server.blank abi env (toInt32 (1000 + (k : Nat)))) := by
        rcases message_cases hr with ⟨o', ho', hpossible, -⟩
        exact Option.some.inj ho' ▸ hpossible
      have hport := message_server hr
      refine .start ⟨abi, env, k, f, o, hpossible, ?_⟩
      have hset : r.1.server =
          Server.setPort env (Server.blank abi env (toInt32 (1000 + (k : Nat)))) f o := by
        rw [Server.step, if_pos hpossible, Option.some.injEq] at hport
        exact hport.symm
      rw [hset]
      rfl
  | @next _ _ a _ _ hstep ih =>
      rcases Option.map_eq_some_iff.1 hstep with ⟨r, hr, rfl⟩
      have hserver : udpserverMachine.step _ (a.1, a.2.1) = some _ := message_server hr
      exact .next ih trivial hserver

/-! ## What is bound -/

/-- There is no socket, and the fields are marked. -/
structure Unbound (x : Server) : Prop where
  connectsocket : x.connectsocket < 0
  port : x.port = BitVec.ofInt 16 (-1)
  ifaddr : x.ifaddr = none

/-- The socket is open, and the fields say what it is bound to as far as the kernel has
told. -/
structure Listens (b : Bound) (n : Binding) : Prop where
  connectsocket : 0 ≤ b.server.connectsocket
  name : b.names b.server.connectsocket = some n
  ifaddr : b.server.ifaddr = n.ifaddr
  port : b.server.port = n.port ∨ b.server.port = 0

/-- The invariant. -/
def Placed (b : Bound) : Prop :=
  Unbound b.server ∨ ∃ n, b.Listens n

/-- After the port is closed the server has no receiver. -/
theorem Placed.unbound_closePort (h : b.Placed) : Unbound b.closePort.server := by
  show Unbound b.server.closePort
  unfold Server.closePort
  split
  · have hneg : (-1 : Int) < 0 := by decide
    exact ⟨hneg, rfl, rfl⟩
  · rename_i hneg
    rcases h with hunbound | ⟨n, hlistens⟩
    · exact hunbound
    · exact absurd hlistens.connectsocket hneg

theorem unbound_closesocket {x : Server} (h : Unbound x) (sockfd : Int) :
    Unbound (x.closesocket sockfd) := by
  unfold Server.closesocket
  split
  · exact ⟨h.connectsocket, h.port, h.ifaddr⟩
  · exact h

/-- The fields once the socket is bound. -/
theorem listenOn_fields (x : Server) (env : Env) (ifaddr : Option String) (portno : BitVec 16)
    (sockfd : Int) :
    (x.listenOn env ifaddr portno sockfd).connectsocket = sockfd ∧
      (x.listenOn env ifaddr portno sockfd).port = x.usedPort env portno ∧
      (x.listenOn env ifaddr portno sockfd).ifaddr = ifaddr := by
  have habi : (x.receiverCreate env sockfd).1.abi = x.abi := by
    unfold Server.receiverCreate
    split <;> rfl
  simp only [Server.listenOn, Server.socket2addressout_eq, Server.emit_eq, Server.logged_logged]
  refine ⟨rfl, ?_, rfl⟩
  simp only [Server.logged, Server.usedPort, habi]

theorem abi_closePort (x : Server) : x.closePort.abi = x.abi := by
  unfold Server.closePort Server.closesocket
  split
  · rfl
  · rfl

/-- The port field after {lit}`getsockname` has told the port, or has failed. -/
theorem usedPort_cases {x : Server} {portno : BitVec 16}
    (hhonest : env.Honest x.abi portno used) :
    x.usedPort env portno = actualPort portno used ∨ x.usedPort env portno = 0 := by
  unfold Server.usedPort
  cases hname : env.sockname with
  | some s => exact Or.inl (hhonest s hname)
  | none =>
      by_cases hzero : portno = 0
      · exact Or.inr hzero
      · exact Or.inl (if_neg hzero).symm

variable {ifaddr : Option String} {portno : BitVec 16} {o : BindOutcome}

/-- A call that does not find its request served already reports why it gives up, or
listens. -/
theorem Placed.doBind_of_ne (h : b.Placed) (ho : o.Possible b.server)
    (hhonest : env.Honest b.server.abi portno used)
    (hne : ¬ (b.server.port = portno ∧ b.server.ifaddr = ifaddr)) :
    ((b.doBind env ifaddr portno used o).2 ≠ none ∧
        Unbound (b.doBind env ifaddr portno used o).1.server) ∨
      ((b.doBind env ifaddr portno used o).2 = none ∧
        (b.doBind env ifaddr portno used o).1.Listens ⟨ifaddr, actualPort portno used⟩) := by
  have hclosed := h.unbound_closePort
  rw [doBind, if_neg hne]
  cases hsocket : o.socket with
  | none => exact Or.inl ⟨by simp, hclosed⟩
  | some sockfd =>
      have hacquired : Unbound { b.closePort.server with
          os := b.closePort.server.os.acquire sockfd } :=
        ⟨hclosed.connectsocket, hclosed.port, hclosed.ifaddr⟩
      have hgone := unbound_closesocket hacquired sockfd
      dsimp only
      split
      · exact Or.inl ⟨by simp, hgone⟩
      · split
        · exact Or.inl ⟨by simp, hgone.connectsocket, hgone.port, hgone.ifaddr⟩
        · refine Or.inr ⟨rfl, ?_⟩
          rcases listenOn_fields { b.closePort.server with
            os := b.closePort.server.os.acquire sockfd } env ifaddr portno sockfd with
            ⟨hfd, hport, hifaddr⟩
          constructor
          case connectsocket =>
            rw [hfd]
            exact (ho sockfd hsocket).1
          case name =>
            rw [hfd]
            exact Function.update_self ..
          case ifaddr => exact hifaddr
          case port =>
            rw [hport]
            apply usedPort_cases
            show env.Honest b.server.closePort.abi portno used
            rw [abi_closePort]
            exact hhonest

/-- One call of {lit}`udpserver_do_bind` keeps the invariant. -/
theorem Placed.doBind (h : b.Placed) (ho : o.Possible b.server)
    (hhonest : env.Honest b.server.abi portno used) :
    (b.doBind env ifaddr portno used o).1.Placed := by
  by_cases hsame : b.server.port = portno ∧ b.server.ifaddr = ifaddr
  · rw [Bound.doBind, if_pos hsame]
    exact h
  · rcases h.doBind_of_ne ho hhonest hsame with ⟨-, hunbound⟩ | ⟨-, hlistens⟩
    · exact Or.inl hunbound
    · exact Or.inr ⟨_, hlistens⟩

/-- Every message keeps the socket in its place. -/
theorem Placed.message (h : b.Placed) (hr : b.message env a used = some r) : r.1.Placed := by
  rcases message_cases hr with ⟨o, -, ho, ⟨-, rfl⟩ | ⟨q, -, hhonest, rfl⟩⟩
  · exact h
  · exact h.doBind ho hhonest

theorem placed_blank (abi : Abi) (env : Env) (uniq : Int) (names : Int → Option Binding) :
    Placed ⟨Server.blank abi env uniq, names⟩ := by
  have hneg : (-1 : Int) < 0 := by decide
  exact Or.inl ⟨hneg, rfl, rfl⟩

/-- The socket is in its place in every reachable state. -/
theorem reach_placed (h : bindingMachine.Reachable b) : b.Placed := by
  apply h.invariant (I := Placed)
  · rintro b ⟨abi, env, k, f, used, o, hnew⟩
    rcases Option.map_eq_some_iff.1 hnew with ⟨r, hr, rfl⟩
    rcases (placed_blank abi env _ _).message hr with hunbound | ⟨n, hlistens⟩
    · exact Or.inl ⟨hunbound.connectsocket, hunbound.port, hunbound.ifaddr⟩
    · exact Or.inr ⟨n, hlistens.connectsocket, hlistens.name, hlistens.ifaddr, hlistens.port⟩
  · rintro b a b' - hplaced - hstep
    rcases Option.map_eq_some_iff.1 hstep with ⟨r, hr, rfl⟩
    exact hplaced.message hr

/-! ## What a message asks for -/

/-- The object has an open socket, bound to the interface and the port that were asked for;
port 0 leaves the choice to the kernel. -/
def TakesEffect (b : Bound) (q : Option String × BitVec 16) : Prop :=
  0 ≤ b.server.connectsocket ∧
    ∃ n, b.names b.server.connectsocket = some n ∧ n.ifaddr = q.1 ∧ (q.2 ≠ 0 → n.port = q.2)

/-- The port that a message without one uses again is the one that the open socket of the
object is bound to, or 0. -/
def KnowsPort (b : Bound) : Prop :=
  b.server.port = 0 ∨
    0 ≤ b.server.connectsocket ∧
      ∃ n, b.names b.server.connectsocket = some n ∧ n.port = b.server.port

/-- What is claimed of a message that gets to {lit}`udpserver_do_bind`. -/
def Effective (b : Bound) (a : Input) (r : Bound × Option BindError) : Prop :=
  ∀ q ∈ b.server.bindRequest a,
    (r.2 = none → r.1.TakesEffect q) ∧ (a.InterfaceOnly → b.KnowsPort)

/-- The object has a socket, or the message names a port and does not ask for port 65535 of
every interface. -/
def Distinct (b : Bound) (a : Input) : Prop :=
  ∀ q ∈ b.server.bindRequest a,
    0 ≤ b.server.connectsocket ∨ (q ≠ (none, 65535#16) ∧ ¬ a.InterfaceOnly)

/-- A server that listens on a name knows its port. -/
theorem Listens.knowsPort {n : Binding} (h : b.Listens n) : b.KnowsPort := by
  rcases h.port with hport | hzero
  · exact Or.inr ⟨h.connectsocket, n, h.name, hport.symm⟩
  · exact Or.inl hzero

/-- A request takes effect if the socket listens on the name it asks for. -/
theorem Listens.takesEffect {q : Option String × BitVec 16} {n : Binding} (h : b.Listens n)
    (hifaddr : n.ifaddr = q.1) (hport : q.2 ≠ 0 → n.port = q.2) : b.TakesEffect q :=
  ⟨h.connectsocket, n, h.name, hifaddr, hport⟩

/-- A request takes effect unless it reports an error or is mistaken for served. -/
theorem Placed.takesEffect (h : b.Placed) {q : Option String × BitVec 16}
    (ho : o.Possible b.server) (hhonest : env.Honest b.server.abi q.2 used)
    (hsocket : 0 ≤ b.server.connectsocket ∨ q ≠ (none, 65535#16))
    (hnone : (b.doBind env q.1 q.2 used o).2 = none) :
    (b.doBind env q.1 q.2 used o).1.TakesEffect q := by
  by_cases hsame : b.server.port = q.2 ∧ b.server.ifaddr = q.1
  · rw [Bound.doBind, if_pos hsame]
    rcases h with hunbound | ⟨n, hlistens⟩
    · -- the marked fields are those of a request for port 65535
      have hmarked : q = (none, 65535#16) := by
        rw [← Prod.mk.eta (p := q), ← hsame.1, ← hsame.2, hunbound.port, hunbound.ifaddr]
        rfl
      rcases hsocket with hpos | hother
      · exact absurd hpos (not_le.2 hunbound.connectsocket)
      · exact absurd hmarked hother
    · apply hlistens.takesEffect
      · rw [← hlistens.ifaddr, hsame.2]
      · intro hne
        rcases hlistens.port with hport | hzero
        · rw [← hport, hsame.1]
        · exact absurd (hsame.1.symm.trans hzero) hne
  · rcases h.doBind_of_ne ho hhonest hsame with ⟨hsome, -⟩ | ⟨-, hlistens⟩
    · exact absurd hnone hsome
    · exact hlistens.takesEffect rfl fun hne => if_neg hne

/-- On an object without a socket the other requests are mistaken for served. -/
theorem Unbound.not_takesEffect (h : Unbound b.server) {q : Option String × BitVec 16}
    (hmarked : q = (none, 65535#16)) :
    (b.doBind env q.1 q.2 used o).2 = none ∧
      ¬ (b.doBind env q.1 q.2 used o).1.TakesEffect q := by
  have hsame : b.server.port = q.2 ∧ b.server.ifaddr = q.1 := by
    rw [hmarked, h.port, h.ifaddr]
    exact ⟨rfl, rfl⟩
  rw [Bound.doBind, if_pos hsame]
  exact ⟨rfl, fun htakes => absurd htakes.1 (not_le.2 h.connectsocket)⟩

/-- An object without a socket knows no port. -/
theorem Unbound.not_knowsPort (h : Unbound b.server) : ¬ b.KnowsPort := by
  rintro (hzero | ⟨hpos, -⟩)
  · rw [h.port] at hzero
    exact absurd hzero (by decide)
  · exact absurd hpos (not_le.2 h.connectsocket)

end Bound

/-- In every state that a constructor argument and {lit}`port` and {lit}`bind` messages lead
to, whatever becomes of them, the next message that gets to {lit}`udpserver_do_bind` and
reports no error takes effect, and uses a port again only if the object is bound to it (or
0), if and only if the object has a socket or the message names a port and does not ask for
port 65535 of every interface. -/
theorem bind_effective_iff {b : Bound} (h : bindingMachine.Reachable b) {env : Env}
    {a : Input} {used : BitVec 16} {r : Bound × Option BindError}
    (hmessage : b.message env a used = some r) : b.Effective a r ↔ b.Distinct a := by
  have hplaced := Bound.reach_placed h
  rcases Bound.message_cases hmessage with ⟨o, -, ho, ⟨hnone, -⟩ | ⟨q, hq, hhonest, rfl⟩⟩
  · constructor <;> intro _ q hq <;> rw [hnone] at hq <;> cases hq
  · constructor
    · intro heffective q' hq'
      have hsame : q = q' := Option.some.inj (hq.symm.trans hq')
      subst hsame
      by_contra hnot
      rw [not_or, not_le] at hnot
      have hunbound : Bound.Unbound b.server := by
        rcases hplaced with hunbound | ⟨n, hlistens⟩
        · exact hunbound
        · exact absurd hnot.1 (not_lt.2 hlistens.connectsocket)
      by_cases hmarked : q = (none, 65535#16)
      · rcases hunbound.not_takesEffect hmarked with ⟨hreport, htakes⟩
        exact htakes ((heffective q hq).1 hreport)
      · have honly : a.InterfaceOnly := by
          by_contra hother
          exact hnot.2 ⟨hmarked, hother⟩
        exact hunbound.not_knowsPort ((heffective q hq).2 honly)
    · intro hdistinct q' hq'
      have hsame : q = q' := Option.some.inj (hq.symm.trans hq')
      subst hsame
      have hsocket := hdistinct q hq
      refine ⟨hplaced.takesEffect ho hhonest (hsocket.imp_right And.left), fun honly => ?_⟩
      have hpos := hsocket.resolve_right fun hother => hother.2 honly
      rcases hplaced with hunbound | ⟨n, hlistens⟩
      · exact absurd hpos (not_le.2 hunbound.connectsocket)
      · exact hlistens.knowsPort

/-- The object that {lit}`udpserver_new` makes with the argument {lit}`f`; its socket would be
descriptor 3. -/
def createdWith (f : ℚ) : Option Bound :=
  Bound.new ⟨true, 64⟩ (plainEnv 0 []) (toInt32 (1000 + (0 : Nat))) ⟨f, 0#32⟩ 0#16 ⟨some 3, true⟩

theorem reach_createdWith {f : ℚ} {b : Bound} (h : createdWith f = some b) :
    bindingMachine.Reachable b :=
  .start ⟨_, _, 0, _, _, _, h⟩

/-- A request for an interface and a port, or for an interface alone. -/
def asks (argv : List Atom) : Input :=
  .bind argv 0#32 ⟨some 4, true⟩

/-- A server on port 3000 changes the interface. -/
theorem bind_effective_run :
    ∃ b r, createdWith 3000 = some b ∧
      b.message (plainEnv 0 []) (asks [setSymbol "localhost"]) 0#16 = some r ∧
      r.1.server.connectsocket = 4 ∧ r.1.names 4 = some ⟨some "localhost", 3000#16⟩ ∧
      b.Effective (asks [setSymbol "localhost"]) r := by
  have hnew : createdWith 3000 = some ((createdWith 3000).get rfl) := rfl
  have hmessage : ((createdWith 3000).get rfl).message (plainEnv 0 [])
      (asks [setSymbol "localhost"]) 0#16 = some _ := rfl
  have hopen : 0 ≤ ((createdWith 3000).get rfl).server.connectsocket := by decide +kernel
  exact ⟨_, _, hnew, hmessage, rfl, rfl,
    (bind_effective_iff (reach_createdWith hnew) hmessage).2 fun _ _ => Or.inl hopen⟩

/-- A server without a socket takes a request for port 65535 as served, and asks for this
port when a message names an interface only. -/
theorem bind_without_effect :
    ∃ b, bindingMachine.Reachable b ∧ b.server.connectsocket = -1 ∧
      (∃ r, b.message (plainEnv 0 []) (asks [setFloat 0, setFloat 65535]) 0#16 = some r ∧
        r.2 = none ∧ r.1.server.connectsocket = -1 ∧
        ¬ b.Effective (asks [setFloat 0, setFloat 65535]) r) ∧
      ∃ r, b.message (plainEnv 0 []) (asks [setSymbol "localhost"]) 0#16 = some r ∧
        r.2 = none ∧ r.1.names 4 = some ⟨some "localhost", 65535#16⟩ ∧
        ¬ b.Effective (asks [setSymbol "localhost"]) r := by
  have hnew : createdWith (-1) = some ((createdWith (-1)).get rfl) := rfl
  refine ⟨_, reach_createdWith hnew, rfl, ⟨_, rfl, rfl, rfl, ?_⟩, ⟨_, rfl, rfl, rfl, ?_⟩⟩
  · intro heffective
    have htakes := (heffective (none, 65535#16) rfl).1 rfl
    exact absurd htakes.1 (by decide +kernel)
  · intro heffective
    have hknows := (heffective (some "localhost", 65535#16) rfl).2 trivial
    exact absurd hknows (Bound.Unbound.not_knowsPort ⟨by decide +kernel, rfl, rfl⟩)

end Iemnet.UdpServer
