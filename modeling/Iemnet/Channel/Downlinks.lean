import Iemnet.Channel.Uplinks
import Iemnet.TcpServer.Service

/-!
# One server and many clients

The way back: the patch of a tcpserver posts lists to its clients.  During one message the
main thread calls the senders of several clients, one after the other, while all send
threads, kernels and clients go on; {lit}`Agrees` says that these calls, their results and
the destroyed senders are those of the message.

Main results:

- Theorem {lit}`reach_mailed`: whoever is connected has taken everything.
- Theorem {lit}`downlinks_deliver`: every client has got the first of the numbers of its
  mail, and all of them once nothing is under way.
-/

namespace Iemnet

open Foundations Multicast Pd Sender

namespace Downlinks

open Channel TcpServer Uplinks

/-! ## What the server has handed over -/

section Mail

variable {x x' : Server} {l : List SocketReceiver} {env : Env} {a : Input} {y : SocketReceiver}
  {w : Watched}

/-- The chunks that {lit}`iemnet__sender_send` was called with for a client. -/
def offers (x : Server) (id : Nat) : List (Option Chunk) :=
  x.sends.filterMap fun p => if p.1.id = id then some p.2.1 else none

/-- A new server has offered nothing. -/
theorem sends_new {abi : Abi} {f : FloatArg} {o : PortOutcome}
    (ho : o.Possible (Server.blank abi env)) : (Server.new emit abi env f o).sends = [] := by
  have hs : (Server.blank abi env).step emit env (.port f o) =
      some (Server.new emit abi env f o) := by
    simp only [Server.step, ho, if_true]
    rfl
  exact (Server.step_effect (Server.inv_blank abi env) hs).sends_eq (Server.inv_blank abi env) id

/-- What has been offered stays. -/
theorem sends_grow (h : watchedMachine.Reach Server.Regular w) {e : Env × Input} {w' : Watched}
    (hs : watchedMachine.step w e = some w') :
    w.server.sends <+: w'.server.sends := by
  rcases Server.reach_refines h with ⟨l, hsteady, -⟩
  rcases Option.map_eq_some_iff.1 hs with ⟨x', hx', rfl⟩
  rw [Server.step_sends hsteady.inv hsteady.small hx']
  exact List.prefix_append _ _

/-- Chunks were only offered to clients, and whoever is connected has not refused one. -/
structure Mailed (x : Server) : Prop where
  known : ∀ p ∈ x.sends, p.1.id < x.os.issued
  taken : ∀ y ∈ x.clients, ∀ p ∈ x.sends, p.1.id = y.id → 0 ≤ p.2.2

/-- Who is connected after an input was so before and has not refused, or is new. -/
theorem mem_nextClients (hy : y ∈ x.nextClients env l a) :
    (y ∈ l ∧ y ∉ x.refusers env a) ∨ (y.id = x.os.issued ∧ x.recipients a = []) := by
  have hnobody : ∀ b : Input, x.recipients b = [] → y ∉ x.refusers env b := by
    intro b hb
    rw [Server.refusers, hb]
    exact List.not_mem_nil
  cases a with
  | incoming fd o =>
      rw [Server.nextClients] at hy
      split at hy
      · rcases List.mem_append.1 hy with hold | hnew
        · exact Or.inl ⟨hold, hnobody _ rfl⟩
        · rw [List.mem_singleton.1 hnew]
          exact Or.inr ⟨rfl, rfl⟩
      · exact Or.inl ⟨hy, hnobody _ rfl⟩
  | received fd c =>
      cases c with
      | none => exact Or.inl ⟨List.mem_of_mem_eraseP hy, hnobody _ rfl⟩
      | some c => exact Or.inl ⟨List.mem_of_mem_filter hy, hnobody _ rfl⟩
  | disconnectClient f =>
      rw [Server.nextClients] at hy
      split at hy
      · exact Or.inl ⟨List.mem_of_mem_eraseIdx hy, hnobody _ rfl⟩
      · exact Or.inl ⟨hy, hnobody _ rfl⟩
  | disconnectSocket f => exact Or.inl ⟨List.mem_of_mem_eraseP hy, hnobody _ rfl⟩
  | disconnectAll => exact Or.inl ⟨Server.mem_spared hy, hnobody _ rfl⟩
  | sendSocket | sendClient | broadcast | defaulttarget | targetsocket | defaultsend
  | serialize | accept | maxconnections | port | info =>
      rcases List.mem_filter.1 hy with ⟨hold, hnot⟩
      exact Or.inl ⟨hold, of_decide_eq_true hnot⟩

/-- Every input keeps the account of what was offered. -/
theorem Mailed.step (h : Mailed x) (hinv : x.Inv l) (hsmall : Server.Small l)
    (hs : x.step emit env a = some x') : Mailed x' := by
  have hissued := (Server.step_effect hinv hs).issued_le hinv
  have hsends := Server.step_sends hinv hsmall hs
  have hclients := (Server.step_nextClients hinv hsmall hs).clients_eq
  have hmem : ∀ p ∈ x'.sends, p ∈ x.sends ∨
      (p.1 ∈ l ∧ p.1 ∈ (x.recipients a).map Prod.fst ∧ p.2.2 = env.result p.1) := by
    intro p hp
    rw [hsends] at hp
    rcases List.mem_append.1 hp with hold | hnew
    · exact Or.inl hold
    · rcases List.mem_map.1 hnew with ⟨q, hq, rfl⟩
      have hq := List.mem_of_mem_filter hq
      exact Or.inr ⟨List.mem_of_getElem? (Server.mem_recipients hinv a hq),
        List.mem_map_of_mem hq, rfl⟩
  constructor
  · intro p hp
    rcases hmem p hp with hold | ⟨hl, -, -⟩
    · exact (h.known p hold).trans_le hissued
    · exact (hinv.id_lt hl).trans_le hissued
  · intro y hy p hp hid
    rw [hclients] at hy
    rcases hmem p hp with hold | ⟨hl, hrecipient, hresult⟩
    · rcases mem_nextClients hy with ⟨hyl, -⟩ | ⟨hnew, -⟩
      · exact h.taken y (hinv.clients_eq ▸ hyl) p hold hid
      · exact absurd (hid.trans hnew) (h.known p hold).ne
    · rcases mem_nextClients hy with ⟨hyl, hnot⟩ | ⟨-, hnobody⟩
      · rw [hinv.eq_of_id hl hyl hid] at hrecipient hresult
        rw [hresult]
        by_contra hneg
        exact hnot (List.mem_filter.2 ⟨hrecipient, decide_eq_true (Int.not_le.1 hneg)⟩)
      · rw [hnobody] at hrecipient
        exact absurd hrecipient List.not_mem_nil

/-- Whoever is connected has taken everything that was offered. -/
theorem reach_mailed (h : watchedMachine.Reach Server.Regular w) : Mailed w.server := by
  have hboth : (∃ l, Server.Steady w l) ∧ Mailed w.server := by
    apply h.invariant (I := fun w => (∃ l, Server.Steady w l) ∧ Mailed w.server)
    · intro w hw
      rcases Server.reach_refines (.start hw) with ⟨l, hsteady, -⟩
      rcases w with ⟨x, s⟩
      rcases hw with ⟨⟨abi, env, f, o, ho, rfl⟩, rfl⟩
      exact ⟨⟨l, hsteady⟩, by simp [sends_new ho], by simp [sends_new ho]⟩
    · intro w e w' _ hw hok hs
      rcases hw with ⟨⟨l, hsteady⟩, hmailed⟩
      rcases Option.map_eq_some_iff.1 hs with ⟨x', hx', rfl⟩
      exact ⟨⟨_, hsteady.step hok hx'⟩, hmailed.step hsteady.inv hsteady.small hx'⟩
  exact hboth.2

/-- The mail of whoever is connected is what it was offered. -/
theorem Mailed.mailbox_eq (h : Mailed x) (hy : y ∈ x.clients) :
    x.mailbox y.id = offers x y.id := by
  have htaken := h.taken y hy
  rw [Server.mailbox, Server.mail, offers, List.filterMap_map, List.filterMap_filter]
  apply List.filterMap_congr
  intro p hp
  by_cases hid : p.1.id = y.id
  · simp [hid, htaken p hp hid]
  · simp [hid]

end Mail

/-! ## The network -/

/-- What happens on a connection. -/
inductive Work
  /-- The server calls {lit}`iemnet__sender_send` with the chunk of a list. -/
  | send (argv : List Atom)
  /-- Any other step of the sender and its kernel. -/
  | sender (a : Action × Int)
  /-- The client gets the next {lit}`n` bytes. -/
  | recv (n : Nat)

def Work.apply (u : Uplink) : Work → Option Uplink
  | .send argv => u.send argv
  | .sender a => u.sender a
  | .recv n =>
      if 0 < n ∧ n ≤ inbufsize ∧ n ≤ u.ahead.length then
        some { u with arrived := u.arrived + n }
      else none

/-- The list that is handed over. -/
def Work.list : Work → Option (List Atom)
  | .send argv => some argv
  | _ => none

/-- The call of {lit}`iemnet__sender_destroy`. -/
def Work.destroys : Work → Bool
  | .sender (.callDestroy, _) => true
  | _ => false

/-- The server, and the other ends of its connections by their serials. -/
structure Network where
  watched : Watched
  links : Nat → Uplink

/-- What can happen next. -/
inductive Event
  /-- A thread, a kernel or a client goes on. -/
  | work (id : Nat) (k : Work)
  /-- A message to the server, or a call of one of its poll functions, and everything that
  happens on the connections in the meantime. -/
  | server (env : Env) (a : Input) (burst : List (Nat × Work))

/-- Several things happen, one after the other. -/
def run (links : Nat → Uplink) : List (Nat × Work) → Option (Nat → Uplink)
  | [] => some links
  | (id, k) :: burst =>
      (k.apply (links id)).bind fun u => run (Function.update links id u) burst

/-- The chunks that a message has offered, with the clients and the results. -/
def newSends (x x' : Server) : List (SocketReceiver × Option Chunk × Int) :=
  x'.sends.drop x.sends.length

/-- The clients that a message has freed together with a sender. -/
def newFreed (x x' : Server) : List Nat :=
  (x'.freed.drop x.freed.length).filter fun id => x.clients.any fun y => y.id = id ∧ y.hasSender

/-- The calls that the main thread makes on the connections are those of the message, and it
is done with them. -/
structure Agrees (x x' : Server) (links : Nat → Uplink) (burst : List (Nat × Work)) : Prop where
  calls : (burst.filterMap fun p => p.2.list.map fun argv => (p.1, chunkCreateList true argv)) =
    (newSends x x').map fun p => (p.1.id, p.2.1)
  results : ∀ p ∈ newSends x x',
    (links p.1.id).stream.sender.results.getLast?.map BitVec.toInt = some p.2.2
  freed : (burst.filter fun p => p.2.destroys).map Prod.fst = newFreed x x'
  done : ∀ p ∈ burst, (links p.1).stream.sender.main = .idle ∨
    (links p.1).stream.sender.main = .destroyed

instance (x x' : Server) (links : Nat → Uplink) (burst : List (Nat × Work)) :
    Decidable (Agrees x x' links burst) :=
  decidable_of_iff (_ ∧ _ ∧ _ ∧ _)
    ⟨fun h => ⟨h.1, h.2.1, h.2.2.1, h.2.2.2⟩, fun h => ⟨h.calls, h.results, h.freed, h.done⟩⟩

def Network.step (s : Network) : Event → Option Network
  | .work id k =>
      if k.list.isSome ∨ k.destroys then none
      else (k.apply (s.links id)).map fun u => { s with links := Function.update s.links id u }
  | .server env a burst =>
      (watchedMachine.step s.watched (env, a)).bind fun w =>
        (run s.links burst).bind fun links =>
          if Agrees s.watched.server w.server links burst then some ⟨w, links⟩ else none

end Downlinks

open Downlinks TcpServer in
/-- A new server, and connections on which nothing has happened. -/
def downlinksMachine : Machine Network Event where
  init s := watchedMachine.init s.watched ∧ s.links = fun _ => Uplinks.Uplink.fresh
  step := Network.step

namespace Downlinks

open Channel TcpServer Uplinks

variable {abi : Abi} {u u' : Uplink} {links links' : Nat → Uplink} {s s' : Network}
  {burst : List (Nat × Work)} {id : Nat} {k : Work}

/-- A step of the main thread gets the memory it asks for. -/
def Work.Allocates : Work → Prop
  | .sender a => Channel.Event.Allocates (.sender a)
  | _ => True

/-- Regular steps of the server, with memory for chunks. -/
def Fitting (s : Network) : Event → Prop
  | .work _ k => k.Allocates
  | .server env a burst =>
      Server.Regular s.watched (env, a) ∧ env.mem = true ∧ ∀ p ∈ burst, p.2.Allocates

/-! ## The connections -/

/-- What happens on a connection keeps it the sending half of a channel. -/
theorem linked_apply (h : Linked abi u) (hmem : k.Allocates) (hk : k.apply u = some u') :
    Linked abi u' := by
  cases k with
  | send argv => exact h.send hk
  | sender a => exact h.sender hmem hk
  | recv n =>
      rw [Work.apply, Option.ite_none_right_eq_some, Option.some.injEq] at hk
      rcases hk with ⟨⟨hpos, hbuf, hn⟩, rfl⟩
      exact h.recv hpos hbuf hn

/-- Only a call with a list adds to what was asked for. -/
theorem asked_apply (hk : k.apply u = some u') : u'.asked = u.asked ++ k.list.toList := by
  cases k with
  | send argv =>
      rcases Option.map_eq_some_iff.1 hk with ⟨stream, -, rfl⟩
      rfl
  | sender a =>
      rcases Uplink.sender_cases hk with ⟨-, stream, -, rfl⟩
      exact (List.append_nil _).symm
  | recv n =>
      rw [Work.apply, Option.ite_none_right_eq_some, Option.some.injEq] at hk
      rcases hk with ⟨-, rfl⟩
      exact (List.append_nil _).symm

/-- Whatever happens in between keeps the connections the sending halves of channels. -/
theorem linked_run (h : ∀ i, Linked abi (links i)) (hmem : ∀ p ∈ burst, p.2.Allocates)
    (hrun : run links burst = some links') : ∀ i, Linked abi (links' i) := by
  induction burst generalizing links with
  | nil =>
      cases hrun
      exact h
  | cons p burst ih =>
      rcases Option.bind_eq_some_iff.1 hrun with ⟨u, hu, hrest⟩
      rw [List.forall_mem_cons] at hmem
      exact ih (linked_update h (linked_apply (h p.1) hmem.1 hu)) hmem.2 hrest

/-- The lists handed over for one client. -/
def handed (burst : List (Nat × Work)) (id : Nat) : List (List Atom) :=
  burst.filterMap fun p => if p.1 = id then p.2.list else none

/-- What is handed over adds up, for each client. -/
theorem asked_run (hrun : run links burst = some links') (id : Nat) :
    (links' id).asked = (links id).asked ++ handed burst id := by
  induction burst generalizing links with
  | nil =>
      cases hrun
      exact (List.append_nil _).symm
  | cons p burst ih =>
      rcases Option.bind_eq_some_iff.1 hrun with ⟨u, hu, hrest⟩
      rw [ih hrest]
      by_cases hid : id = p.1
      · rw [hid, Function.update_self, asked_apply hu, List.append_assoc, handed, handed,
          List.filterMap_cons, if_pos rfl]
        cases p.2.list <;> rfl
      · rw [Function.update_of_ne hid, handed, handed, List.filterMap_cons,
          if_neg (Ne.symm hid)]

/-! ## The network -/

/-- The server has been reached, and on each connection its sender was given the chunks that
the server has offered to its client. -/
structure Attended (abi : Abi) (s : Network) : Prop where
  reach : watchedMachine.Reach Server.Regular s.watched
  linked : ∀ id, Linked abi (s.links id)
  asked : ∀ id, (s.links id).asked.map (chunkCreateList true) = offers s.watched.server id

/-- At first nothing has been offered. -/
theorem attended_init (abi : Abi) (h : downlinksMachine.init s) : Attended abi s := by
  rcases s with ⟨w, links⟩
  rcases h with ⟨hinit, rfl⟩
  refine ⟨.start hinit, fun _ => linked_fresh abi, fun id => ?_⟩
  rcases w with ⟨x, sel⟩
  rcases hinit with ⟨⟨abi', env, f, o, ho, rfl⟩, -⟩
  show [] = offers _ id
  rw [offers, sends_new ho]
  rfl

/-- The calls of a message for one client. -/
theorem handed_eq {x x' : Server} (h : Agrees x x' links burst) (id : Nat) :
    (handed burst id).map (chunkCreateList true) =
      (newSends x x').filterMap fun p => if p.1.id = id then some p.2.1 else none := by
  have hcalls := congrArg
    (List.filterMap fun q : Nat × Option Chunk => if q.1 = id then some q.2 else none) h.calls
  rw [List.filterMap_map, List.filterMap_filterMap] at hcalls
  rw [handed, List.map_filterMap]
  refine Eq.trans (List.filterMap_congr fun p _ => ?_) hcalls
  cases p.2.list with
  | none => by_cases hid : p.1 = id <;> simp [hid]
  | some argv => by_cases hid : p.1 = id <;> simp [hid]

/-- Every step keeps the network attended to. -/
theorem Attended.step (h : Attended abi s) {e : Event} (hok : Fitting s e)
    (hs : s.step e = some s') : Attended abi s' := by
  cases e with
  | work id k =>
      simp only [Network.step] at hs
      split at hs
      · contradiction
      · rename_i hnot
        rcases Option.map_eq_some_iff.1 hs with ⟨u, hu, rfl⟩
        rw [not_or, Option.not_isSome_iff_eq_none] at hnot
        refine ⟨h.reach, linked_update h.linked (linked_apply (h.linked id) hok hu), fun i => ?_⟩
        show (Function.update s.links id u i).asked.map _ = _
        by_cases hi : i = id
        · rw [hi, Function.update_self, asked_apply hu, hnot.1, Option.toList_none,
            List.append_nil, h.asked]
        · rw [Function.update_of_ne hi, h.asked]
  | server env a burst =>
      rcases hok with ⟨hregular, hmem, hallocates⟩
      rcases Option.bind_eq_some_iff.1 hs with ⟨w, hw, hrest⟩
      rcases Option.bind_eq_some_iff.1 hrest with ⟨links, hlinks, hagrees⟩
      split at hagrees
      · rename_i hag
        cases hagrees
        refine ⟨h.reach.next hregular hw, linked_run h.linked hallocates hlinks, fun i => ?_⟩
        rw [asked_run hlinks, List.map_append, h.asked, handed_eq hag]
        rcases sends_grow h.reach hw with ⟨more, hmore⟩
        simp only [offers, newSends, ← hmore, List.filterMap_append, List.drop_left]
      · contradiction

/-- In every run each sender was given what the server has offered to its client. -/
theorem attended (abi : Abi) (h : downlinksMachine.Reach Fitting s) : Attended abi s := by
  refine Machine.Reach.invariant ?_ ?_ h
  · exact fun s hs => attended_init abi hs
  · exact fun s e s' _ hattended hok hs => hattended.step hok hs

/-- At any time, whatever server, senders, kernels and clients do in whatever order: the
server keeps a group, and every member has got the first of the numbers of its mail, and all
of them once nothing is under way on its connection. -/
theorem downlinks_deliver (h : downlinksMachine.Reach Fitting s) :
    ∃ g, (groupMachine Nat (Option Chunk)).Reachable g ∧ Server.Refines s.watched g ∧
      ∀ id ∈ g.members,
        ((s.links id).stream.writes.Pairwise fun w w' => CutShort w → w'.2 ≤ 0) →
        byteAtoms (s.links id).got <+: byteAtoms ((g.mailbox id).flatMap payload) ∧
          (Settled (s.links id) →
            byteAtoms (s.links id).got = byteAtoms ((g.mailbox id).flatMap payload)) := by
  have hattended := attended ⟨true, 64⟩ h
  rcases Server.reach_refines hattended.reach with ⟨l, hsteady, g, hreach, hrefines⟩
  refine ⟨g, hreach, hrefines, fun id hid hshort => ?_⟩
  have hmail : g.mailbox id = (s.links id).asked.map (chunkCreateList true) := by
    rw [hrefines.members] at hid
    rcases List.mem_map.1 hid with ⟨y, hy, rfl⟩
    rw [hattended.asked, ← (reach_mailed hattended.reach).mailbox_eq hy, Server.mailbox,
      ← hrefines.mail]
    rfl
  have hwire : (g.mailbox id).flatMap payload = wire (s.links id).asked := by
    rw [hmail, List.flatMap_map]
    rfl
  rw [hwire, byteAtoms_wire]
  exact (hattended.linked id).got hshort

/-- An event that is fitting as long as nobody is chosen. -/
def Ample : Event → Prop
  | .work _ k => k.Allocates
  | .server env a burst =>
      (∀ fd o, a = .incoming fd o → o.fd < 2 ^ 24) ∧ ¬ a.Targets ∧ env.mem = true ∧
        ∀ p ∈ burst, p.2.Allocates

/-- As long as nobody is chosen, ample events are fitting. -/
theorem runMeets_ample {es : List Event} (hsel : s.watched.selection = .everybody)
    (h : ∀ e ∈ es, Ample e) : downlinksMachine.RunMeets Fitting s es := by
  induction es generalizing s with
  | nil => trivial
  | cons e es ih =>
      rw [List.forall_mem_cons] at h
      cases e with
      | work id k =>
          refine ⟨h.1, fun s' hs => ih ?_ h.2⟩
          simp only [downlinksMachine, Network.step] at hs
          split at hs
          · contradiction
          · rcases Option.map_eq_some_iff.1 hs with ⟨u, -, rfl⟩
            exact hsel
      | server env a burst =>
          rcases h.1 with ⟨hsmall, hnot, hmem, hallocates⟩
          have hregular : watchedMachine.RunMeets Server.Regular s.watched [(env, a)] :=
            Server.runMeets_regular hsel (List.forall_mem_singleton.2 hsmall)
              (List.forall_mem_singleton.2 hnot)
          refine ⟨⟨hregular.1, hmem, hallocates⟩, fun s' hs => ih ?_ h.2⟩
          rcases Option.bind_eq_some_iff.1 hs with ⟨w, hw, hrest⟩
          rcases Option.bind_eq_some_iff.1 hrest with ⟨links, -, hagrees⟩
          split at hagrees
          · cases hagrees
            rcases Option.map_eq_some_iff.1 hw with ⟨x', -, rfl⟩
            exact (Server.select_of_not_targets hnot).trans hsel
          · contradiction

/-- Seven numbers. -/
def sevenNumbers : List Atom :=
  (List.range 7).map fun n => setFloat n

/-- The main thread hands a list over to a client. -/
def handing (id : Nat) (argv : List Atom) : List (Nat × Work) :=
  (id, .send argv) ::
    List.replicate 5 (id, .sender (.step .main ⟨true, 0, none, true⟩, 0))

/-- The send thread of a client goes on. -/
def sending (id : Nat) : Nat × Work :=
  (id, .sender (.step .send ⟨true, 0, none, true⟩, 7))

/-- Two clients connect and get a list.  The first one gets its bytes while the main thread
serves the second one, whose send thread takes turns with it; the first client reads in two
pieces. -/
def twoListeners : List Event :=
  [.server (Server.plainEnv []) (.incoming 3 (Server.caller 5)) [],
    .server (Server.plainEnv []) (.incoming 3 (Server.caller 6)) [],
    .server (Server.plainEnv []) (.broadcast sevenNumbers)
      (handing 1 sevenNumbers ++
        (handing 2 sevenNumbers).flatMap fun p => [sending 1, p])] ++
    (List.replicate 3 ([1, 2, 2, 2].map fun id => .work id (sending id).2)).flatten ++
    [.work 1 (.recv 3), .work 2 (.recv 7), .work 1 (.recv 4)]

/-- Handing a list over gets its memory. -/
theorem allocates_handing (id : Nat) (argv : List Atom) :
    ∀ p ∈ handing id argv, p.2.Allocates := by
  simp [handing, Work.Allocates, Channel.Event.Allocates]

/-- The send thread asks for no memory. -/
theorem allocates_sending (id : Nat) : (sending id).2.Allocates := by
  trivial

/-- Every event of the run is ample. -/
theorem ample_twoListeners : ∀ e ∈ twoListeners, Ample e := by
  have hburst : ∀ p ∈ handing 1 sevenNumbers ++
      (handing 2 sevenNumbers).flatMap (fun p => [sending 1, p]), p.2.Allocates := by
    apply List.forall_mem_append.2 ⟨allocates_handing 1 _, fun p hp => ?_⟩
    rcases List.mem_flatMap.1 hp with ⟨q, hq, hp⟩
    rcases List.mem_pair.1 hp with rfl | rfl
    · exact allocates_sending 1
    · exact allocates_handing 2 _ p hq
  refine List.forall_mem_append.2 ⟨List.forall_mem_append.2 ⟨?_, ?_⟩, ?_⟩
  · rw [List.forall_mem_cons, List.forall_mem_cons, List.forall_mem_singleton]
    refine ⟨?_, ?_, fun fd o ha => Input.noConfusion ha, id, rfl, hburst⟩ <;>
      simp [Ample, Server.plainEnv, Server.caller, Input.Targets]
  · intro e he
    rcases List.mem_flatten.1 he with ⟨es, hes, he⟩
    rw [List.eq_of_mem_replicate hes] at he
    rcases List.mem_map.1 he with ⟨id, -, rfl⟩
    exact allocates_sending id
  · simp [Ample, Work.Allocates]

/-- Two clients get the same list while their send threads take turns. -/
theorem downlinks_deliver_run :
    ∃ s, downlinksMachine.Reachable s ∧
      ∃ g, Server.Refines s.watched g ∧ g.members = [1, 2] ∧ ∀ id ∈ g.members,
        byteAtoms (s.links id).got = byteAtoms ((g.mailbox id).flatMap payload) ∧
        (s.links id).got.length = 7 := by
  have hend : (downlinksMachine.run ⟨watchedStart, fun _ => Uplink.fresh⟩ twoListeners).map
      (fun s : Network => (s.watched.server.clients.map SocketReceiver.id,
        [1, 2].all fun id => decide (Uplinks.Settled (s.links id) ∧ (s.links id).got.length = 7))) =
      some ([1, 2], true) := by decide +kernel
  rcases Option.map_eq_some_iff.1 hend with ⟨s, hrun, hfinal⟩
  rw [Prod.mk.injEq] at hfinal
  rcases hfinal with ⟨hclients, hall⟩
  have hsettled : ∀ id ∈ [1, 2], Uplinks.Settled (s.links id) ∧ (s.links id).got.length = 7 :=
    fun id hid => of_decide_eq_true (List.all_eq_true.1 hall id hid)
  have hinit : downlinksMachine.Reach Fitting ⟨watchedStart, fun _ => Uplink.fresh⟩ :=
    .start ⟨init_watchedStart, rfl⟩
  have hreach := hinit.run (runMeets_ample rfl ample_twoListeners) hrun
  rcases downlinks_deliver hreach with ⟨g, -, hrefines, hdeliver⟩
  have hmembers : g.members = [1, 2] := hrefines.members.trans hclients
  refine ⟨s, hreach.reachable, g, hrefines, hmembers, fun id hid => ?_⟩
  rcases hsettled id (hmembers ▸ hid) with ⟨hdone, hlength⟩
  exact ⟨(hdeliver id hid hdone.short).2 hdone, hlength⟩

end Downlinks

end Iemnet
