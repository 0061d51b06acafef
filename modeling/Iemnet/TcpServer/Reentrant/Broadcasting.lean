import Iemnet.TcpServer.Reentrant.Disconnecting

/-!
# Broadcasting under re-entrant messages

{lit}`tcpserver_send_bytes_clients` walks a snapshot of pointers, with an outlet call after
each of them; when a send has failed, {lit}`tcpserver_info_connection` reads the client
again after each of its outputs.  A message that comes in meanwhile can free a client that
the walk is going to read.

Main results:

- Theorem {lit}`harmless_expand`: a task whose pointers are to clients that have not been
  freed reads no client that has been freed.
- Theorem {lit}`broadcastSafe_spares`: as long as every broadcast begins with the table in
  order, and no client is removed that an unfinished broadcast points to, no broadcast reads
  a freed client, and none offers its chunk to a client twice.
- Theorem {lit}`Careful.dangling`: otherwise a broadcast is left with a pointer to a freed
  client.
-/

namespace Iemnet.TcpServer

open Pd Foundations

namespace Server

variable {x x' : Server} {l : List SocketReceiver} {y : SocketReceiver} {t : Task}

/-! ## Tasks with live pointers -/

/-- Where the faults are the same nobody is harmed. -/
theorem unharmed_of_eq (h : x'.faults = x.faults) : x.Unharmed x' :=
  ⟨[], by rw [h, List.append_nil], fun _ hid => absurd hid List.not_mem_nil⟩

/-- Another kind of fault harms nobody. -/
theorem unharmed_fault (x : Server) {f : Fault} (h : ∀ id, f ≠ .useAfterFree id) :
    x.Unharmed (x.fault f) :=
  ⟨[f], rfl, fun id hid => h id (List.mem_singleton.1 hid).symm⟩

/-- Accessing a slot harms nobody. -/
theorem unharmed_touch (x : Server) (i : Nat) : x.Unharmed (x.touch i) := by
  unfold touch
  split
  · exact Unharmed.refl x
  · exact unharmed_fault x fun id => Fault.noConfusion

/-- Removing a client harms nobody. -/
theorem unharmed_removed (x : Server) (l : List SocketReceiver) (i : Nat)
    (y : SocketReceiver) : x.Unharmed (x.removed l i y) := by
  rcases unharmed_dropped x l i y with ⟨faults, hfaults, hnone⟩
  exact ⟨faults, hfaults, hnone⟩

/-! ## What is sent, and what goes wrong -/

/-- No freed client has been read, and nothing has been sent. -/
structure Harmless (x x' : Server) : Prop where
  unharmed : x.Unharmed x'
  sends : x'.sends = x.sends

/-- What is harmless twice is harmless. -/
theorem Harmless.trans {x₁ x₂ x₃ : Server} (h : x₁.Harmless x₂) (h' : x₂.Harmless x₃) :
    x₁.Harmless x₃ :=
  ⟨h.unharmed.trans h'.unharmed, h'.sends.trans h.sends⟩

/-- Where faults and sends are the same it is harmless. -/
theorem harmless_of_eq (hfaults : x'.faults = x.faults) (hsends : x'.sends = x.sends) :
    x.Harmless x' :=
  ⟨unharmed_of_eq hfaults, hsends⟩

/-- Doing nothing is harmless. -/
theorem Harmless.refl (x : Server) : x.Harmless x :=
  harmless_of_eq rfl rfl

/-- Accessing a slot is harmless. -/
theorem harmless_touch (x : Server) (i : Nat) : x.Harmless (x.touch i) := by
  refine ⟨unharmed_touch x i, ?_⟩
  unfold touch
  split <;> rfl

/-- Another kind of fault is harmless. -/
theorem harmless_fault (x : Server) {f : Fault} (h : ∀ id, f ≠ .useAfterFree id) :
    x.Harmless (x.fault f) :=
  ⟨unharmed_fault x h, rfl⟩

/-- Closing a socket is harmless. -/
theorem harmless_closesocket (x : Server) (fd : Int) : x.Harmless (x.closesocket fd) := by
  unfold closesocket
  split <;> exact harmless_of_eq rfl rfl

/-- Closing the port is harmless. -/
theorem harmless_closePort (x : Server) (sockfd : Int) : x.Harmless (x.closePort sockfd) := by
  have hclose := harmless_closesocket (x.rmpollfn sockfd) sockfd
  unfold Server.closePort
  split
  · exact ⟨hclose.unharmed, hclose.sends⟩
  · exact Harmless.refl x

/-- Reading the client in a slot. -/
theorem harmless_slot {i : Nat} (h : x.Tabled l) (hy : (x.touch i).slot i = some y) :
    x.Harmless ((x.touch i).access y) := by
  have hfreed : y.id ∉ (x.touch i).freed := by
    rw [slot_touch, h.slot_eq] at hy
    rw [(unmoved_touch x i).freed]
    exact h.notFreed y (List.mem_of_getElem? hy)
  rw [access_of_notMem hfreed]
  exact harmless_touch x i

/-- Information on the client in a slot is harmless. -/
theorem harmless_infoClient (h : x.Tabled l) (env : Env) (client : Nat) :
    x.Harmless (infoClientTasks env x client).1 := by
  unfold infoClientTasks
  split
  · simp only
    cases hslot : (x.touch client).slot client with
    | none => exact harmless_touch x client
    | some y => exact harmless_slot h hslot
  · exact Harmless.refl x

/-- The chunk goes to nobody but the client that the send is for. -/
theorem sends_sendBytesClient (env : Env) (x : Server) (sr : Option SocketReceiver) (i : Nat)
    (chunk : Option Chunk) :
    ∃ sends, (sendBytesClientTasks env x sr i chunk).1.sends = x.sends ++ sends ∧
      (sends.map fun p => p.1.id).Sublist (snapshotIds [sr]) := by
  cases sr with
  | none => exact ⟨[], (List.append_nil _).symm, List.nil_sublist _⟩
  | some y =>
      have haccess : (x.access y).sends = x.sends := by
        unfold access
        split <;> rfl
      have hid : ∀ x : Server, (x.current y).id = y.id := fun x => by
        unfold current
        split <;> rfl
      simp only [sendBytesClientTasks]
      split
      · refine ⟨_, congrArg (· ++ _) haccess, ?_⟩
        rw [List.map_cons, List.map_nil, hid]
        exact List.Sublist.refl _
      · exact ⟨[], haccess.trans (List.append_nil _).symm, List.nil_sublist _⟩

/-- Sending to a client that has not been freed harms nobody. -/
theorem unharmed_sendBytesClient (env : Env) (i : Nat) (chunk : Option Chunk)
    {sr : Option SocketReceiver} (h : ∀ id ∈ snapshotIds [sr], id ∉ x.freed) :
    x.Unharmed (sendBytesClientTasks env x sr i chunk).1 := by
  cases sr with
  | none => exact Unharmed.refl x
  | some y =>
      have haccess := access_of_notMem (h y.id List.mem_cons_self)
      simp only [sendBytesClientTasks, haccess]
      split <;> exact unharmed_of_eq rfl

/-- A task whose pointers are to clients that have not been freed reads no client that has
been freed, and only the loop over a snapshot offers anything. -/
theorem harmless_expand (h : x.Tabled l) (hpointers : ∀ id ∈ t.pointers, id ∉ x.freed)
    (hfilled : ∀ p ∈ t.removal, x.slot p.1 ≠ none) (hloop : t.loop = none) :
    x.Harmless (x.expand t).1 := by
  cases t with
  | sendBytesClients serial env srs i chunk => contradiction
  | output o => exact harmless_of_eq rfl rfl
  | patch | numconnout | infoAddress address | infoPort | infoMaxconnections =>
      exact Harmless.refl x
  | infoConnection part y =>
      have haccess := access_of_notMem (hpointers y.id List.mem_cons_self)
      simp only [Server.expand, haccess]
      exact Harmless.refl x
  | disconnect client =>
      have htouch := harmless_touch x client
      simp only [Server.expand]
      cases (x.touch client).slot client with
      | none => exact htouch.trans (harmless_fault _ fun id => Fault.noConfusion)
      | some y => exact htouch
  | remove client y =>
      have hslot := hfilled (client, y) rfl
      rw [h.slot_eq] at hslot
      rcases Option.ne_none_iff_exists'.1 hslot with ⟨z, hz⟩
      have hlt : client < l.length := (List.getElem?_eq_some_iff.1 hz).1
      have hexpand : (x.expand (.remove client y)).1 = x.removed l client z := by
        simp only [Server.expand, Server.remove, h.touch_eq hlt, h.slot_eq, hz,
          free_rearrange_eq h hz]
      rw [hexpand]
      exact ⟨unharmed_removed x l client z, rfl⟩
  | disconnectClient fclient =>
      simp only [Server.expand]
      cases x.fixindex fclient.toInt <;> exact Harmless.refl x
  | disconnectSocket fsocket =>
      simp only [Server.expand, socket2index_eq h]
      cases l.findIdx? fun y => y.fd = fsocket.toInt <;> exact Harmless.refl x
  | disconnectAll fuel id =>
      cases fuel with
      | zero => exact Harmless.refl x
      | succ fuel =>
          simp only [Server.expand]
          split <;> exact Harmless.refl x
  | infoClient client y insize outsize =>
      simp only [Server.expand]
      cases hslot : (x.touch client).slot client with
      | none =>
          exact (harmless_touch x client).trans (harmless_fault _ fun id => Fault.noConfusion)
      | some z => exact harmless_slot h hslot
  | infoClients env fuel client =>
      cases fuel with
      | zero => exact Harmless.refl x
      | succ fuel =>
          simp only [Server.expand]
          split
          · exact harmless_infoClient h env client
          · exact Harmless.refl x
  | receive env c =>
      simp only [Server.expand]
      cases chunk2list env.mem env.raw (some c) x.floatlist with
      | none =>
          exact ⟨unharmed_fault { x with floatlist := none } fun id => Fault.noConfusion, rfl⟩
      | some cl => exact harmless_of_eq rfl rfl
  | register id o =>
      have hclose := harmless_closesocket x o.fd
      simp only [Server.expand]
      split
      · exact hclose
      · split
        · exact hclose
        · unfold socketreceiverNew
          by_cases hmem : o.mem = true
          · simp only [if_pos hmem]
            have htouch := harmless_touch { x with
              polls := if o.receiver then
                x.polls ++ [(o.fd, some (newSocketreceiver x.abi id o x.nconnections))]
              else x.polls } x.nconnections
            exact ⟨htouch.unharmed, htouch.sends⟩
          · simp only [if_neg hmem]
            exact hclose
  | openPort env fportno o sockfd =>
      have hclosed := harmless_closePort x sockfd
      simp only [Server.expand]
      split
      · exact Harmless.refl x
      · cases o.socket with
        | none => exact hclosed
        | some fd =>
            simp only
            split
            · have hopened : x.Harmless { x.closePort sockfd with
                  os := (x.closePort sockfd).os.acquire fd } :=
                hclosed.trans (harmless_of_eq rfl rfl)
              exact hopened.trans (harmless_closesocket _ fd)
            · exact hclosed.trans (harmless_of_eq rfl rfl)

end Server

namespace Reentrant

open Server

variable {x x' : Server} {s s' : State} {l : List SocketReceiver} {t : Task}
  {ts rest : List Task}

/-- No broadcast has read a freed client, and none has offered its chunk to a client
twice. -/
structure BroadcastSafe (s : State) : Prop where
  misused : s.misused = []
  offers : s.offers.Nodup

/-- The clients fill the first slots, and none of them has been freed. -/
def InOrder (x : Server) : Prop :=
  ∃ l, x.Tabled l

/-- The table is in order exactly if it holds its own clients. -/
theorem inOrder_iff (x : Server) : InOrder x ↔ x.Tabled x.clients :=
  ⟨fun ⟨_, hl⟩ => hl.clients_eq ▸ hl, fun h => ⟨x.clients, h⟩⟩

instance (x : Server) (l : List SocketReceiver) : Decidable (x.Tabled l) :=
  decidable_of_iff
    (x.sr = SlotTable.table l (x.maxconnections - l.length) ∧ x.nconnections = l.length ∧
      l.length ≤ x.maxconnections ∧ x.maxconnections < 2 ^ 32 ∧
      (∀ y ∈ l, 0 ≤ y.fd ∧ y.fd < 2 ^ 31) ∧ (∀ y ∈ l, y.id ∉ x.freed) ∧
      (l.map SocketReceiver.fd).Nodup ∧ (l.map SocketReceiver.id).Nodup)
    ⟨fun ⟨h₁, h₂, h₃, h₄, h₅, h₆, h₇, h₈⟩ => ⟨h₁, h₂, h₃, h₄, h₅, h₆, h₇, h₈⟩,
      fun h => ⟨h.sr_eq, h.nconnections_eq, h.length_le, h.max_lt, h.range, h.notFreed,
        h.fds_nodup, h.ids_nodup⟩⟩

instance (x : Server) : Decidable (InOrder x) :=
  decidable_of_iff _ (inOrder_iff x).symm

/-- A broadcast begins only with the table in order.  As long as one is unfinished,
{lit}`tcpserver_disconnect` gets to the removal only with a client in its slot, to which no
unfinished broadcast holds a pointer. -/
def Spares (s : State) : Label → Prop
  | .message env a =>
      ∀ p ∈ s.server.expandInput s.serial env a, loops p.2 ≠ [] → InOrder s.server
  | .proceed =>
      loops s.stack.tail ≠ [] → ∀ p ∈ s.stack.head?.bind Task.removal,
        ∃ z ∈ s.server.slot p.1, z.id ∉ held s.stack.tail

instance (s : State) : (a : Label) → Decidable (Spares s a)
  | .message env a =>
      inferInstanceAs (Decidable (∀ p ∈ s.server.expandInput s.serial env a,
        loops p.2 ≠ [] → InOrder s.server))
  | .proceed =>
      inferInstanceAs (Decidable (loops s.stack.tail ≠ [] →
        ∀ p ∈ s.stack.head?.bind Task.removal,
          ∃ z ∈ s.server.slot p.1, z.id ∉ held s.stack.tail))

/-! ## The record of a step -/

/-- Where nobody is harmed no misuse is recorded. -/
theorem misuses_of_unharmed (h : x.Unharmed x') : misuses x x' = [] := by
  rcases h with ⟨faults, hfaults, hnone⟩
  rw [misuses, hfaults, List.drop_left]
  apply List.filterMap_eq_nil_iff.2
  intro f hf
  cases f with
  | useAfterFree id => exact absurd hf (hnone id)
  | _ => rfl

/-- The new sends are the offers. -/
theorem offered_of_append {sends : List (SocketReceiver × Option Chunk × Int)}
    (h : x'.sends = x.sends ++ sends) : offered x x' = sends.map fun p => p.1.id := by
  rw [offered, h, List.drop_left]

/-- What a harmless step adds to the record. -/
theorem advance_harmless (h : s.server.Harmless x) (b : Option Nat) (stack : List Task) :
    (s.advance b x stack).offers = s.offers ∧ (s.advance b x stack).misused = s.misused := by
  have hoffered : offered s.server x = [] := by
    rw [offered_of_append (h.sends.trans (List.append_nil _).symm)]
    rfl
  have hmisuses := misuses_of_unharmed h.unharmed
  unfold State.advance
  cases b <;> simp [hoffered, hmisuses]

/-! ## What the broadcasts hold -/

/-- The task is no loop, and the patch is not running. -/
def Passive : Task → Prop
  | .patch => False
  | .sendBytesClients .. => False
  | _ => True

/-- A plain task is passive. -/
theorem passive_plain (t : Task) (ht : t.Plain) : Passive t := by
  cases t <;> trivial

/-- Passive tasks belong to the broadcast behind them. -/
theorem broadcasting_passive (hts : ∀ t ∈ ts, Passive t) (rest : List Task) :
    broadcasting (ts ++ rest) = broadcasting rest := by
  induction ts with
  | nil => rfl
  | cons t ts ih =>
      rcases List.forall_mem_cons.1 hts with ⟨ht, htail⟩
      rw [List.cons_append, ← ih htail]
      cases t <;> first | rfl | contradiction

/-- Passive tasks hold their pointers for the broadcast behind them. -/
theorem held_passive (hts : ∀ t ∈ ts, Passive t) (rest : List Task) :
    held (ts ++ rest) =
      (if (broadcasting rest).isSome then ts.flatMap Task.pointers else []) ++ held rest := by
  induction ts with
  | nil => cases broadcasting rest <;> rfl
  | cons t ts ih =>
      rw [List.cons_append, held, ← List.cons_append, broadcasting_passive hts,
        ih (List.forall_mem_cons.1 hts).2, List.flatMap_cons]
      cases broadcasting rest <;> simp

/-- Tasks without pointers hold nothing. -/
theorem held_inert (hts : ∀ t ∈ ts, t.Inert) (rest : List Task) :
    held (ts ++ rest) = held rest := by
  have hpassive : ∀ t ∈ ts, Passive t := fun t ht => passive_plain t (hts t ht).1
  have hnone : ts.flatMap Task.pointers = [] :=
    List.flatMap_eq_nil_iff.2 fun t ht => (hts t ht).2
  rw [held_passive hpassive, hnone, ite_self, List.nil_append]

/-- A loop holds the clients to come. -/
theorem held_loop (serial : Nat) (env : Env) (srs : List (Option SocketReceiver)) (i : Nat)
    (chunk : Option Chunk) (rest : List Task) :
    held (.sendBytesClients serial env srs i chunk :: rest) = snapshotIds srs ++ held rest :=
  rfl

/-- The first entry of a snapshot comes first. -/
theorem snapshotIds_cons (sr : Option SocketReceiver) (srs : List (Option SocketReceiver)) :
    snapshotIds (sr :: srs) = snapshotIds [sr] ++ snapshotIds srs :=
  List.filterMap_append (l := [sr])

/-- The pointers of the tasks that information on a connection makes. -/
theorem pointers_connection (y : SocketReceiver) (event : InfoEvent) {id : Nat}
    (hid : id ∈ (connectionTasks y event).flatMap Task.pointers) : id = y.id := by
  have hnone : (Server.outputs (eventOutputs event)).flatMap Task.pointers = [] :=
    List.flatMap_eq_nil_iff.2 fun t ht => (inert_outputs _ t ht).2
  rw [connectionTasks, List.flatMap_append, hnone, List.nil_append] at hid
  simpa [Task.pointers] using hid

/-- The tasks of a connection are passive. -/
theorem passive_connection (y : SocketReceiver) (event : InfoEvent) :
    ∀ t ∈ connectionTasks y event, Passive t :=
  fun t ht => passive_plain t (plain_connection y event t ht)

/-- What the tasks of a connection hold, with tasks behind them that hold nothing. -/
theorem held_connection (y : SocketReceiver) (event : InfoEvent)
    (hts : ∀ t ∈ ts, Passive t ∧ t.pointers = []) (rest : List Task) {id : Nat}
    (hid : id ∈ held (connectionTasks y event ++ ts ++ rest)) : id = y.id ∨ id ∈ held rest := by
  have hnone : ts.flatMap Task.pointers = [] :=
    List.flatMap_eq_nil_iff.2 fun t ht => (hts t ht).2
  have hpassive : ∀ t ∈ connectionTasks y event ++ ts, Passive t :=
    List.forall_mem_append.2 ⟨passive_connection y event, fun t ht => (hts t ht).1⟩
  rw [held_passive hpassive, List.flatMap_append, hnone, List.append_nil] at hid
  rcases List.mem_append.1 hid with hin | hin
  · left
    split at hin
    · exact pointers_connection y event hin
    · contradiction
  · exact Or.inr hin

/-- What is held after a task has been expanded: what was held before, the client that is
going to be disconnected, and the client that has been entered. -/
theorem held_expand (x : Server) (t : Task) (rest : List Task) {id : Nat}
    (hid : id ∈ held ((x.expand t).2 ++ rest)) :
    id ∈ held (t :: rest) ∨
      (∃ client y, t = .disconnect client ∧ x.slot client = some y ∧ id = y.id) ∨
      ∃ y, t.entering x = [y] ∧ id = y.id := by
  have hrest : ∀ id ∈ held rest, id ∈ held (t :: rest) := fun id hid =>
    List.mem_append_right _ hid
  have hexpansion := expansion x t
  generalize (x.expand t).2 = ts at hexpansion hid
  cases hexpansion with
  | inert hts =>
      rw [held_inert hts] at hid
      exact Or.inl (hrest id hid)
  | output o ht =>
      left
      apply hrest
      simpa [held, Task.pointers] using hid
  | disconnect client y ht hy =>
      rcases held_connection y .disconnect (by simp [Passive, Task.pointers]) rest hid
        with heq | hin
      · exact Or.inr (Or.inl ⟨client, y, ht, hy, heq⟩)
      · exact Or.inl (hrest id hin)
  | loop serial env sr srs i chunk ht =>
      left
      rw [List.append_assoc, held_inert (inert_sendBytesClient env x sr i chunk),
        List.singleton_append, held_loop] at hid
      rw [ht, held_loop, snapshotIds_cons, List.append_assoc]
      exact List.mem_append_right _ hid
  | entered y hy =>
      rcases held_connection y .illegal (by simp [Passive, Task.pointers]) rest hid
        with heq | hin
      · exact Or.inr (Or.inr ⟨y, hy, heq⟩)
      · exact Or.inl (hrest id hin)

/-- Without a loop no task is a step of a broadcast. -/
theorem broadcasting_of_loops {stack : List Task} (h : loops stack = []) :
    broadcasting stack = none := by
  induction stack with
  | nil => rfl
  | cons t rest ih =>
      rw [loops, filterMap_cons_toList, List.append_eq_nil_iff] at h
      cases t <;> first | rfl | exact ih h.2 | exact absurd h.1 (by simp [Task.loop])

/-- Tasks without loops, on top of a stack that waits for the patch, hold nothing. -/
theorem idle_append (hts : loops ts = []) (hrest : broadcasting rest = none) :
    broadcasting (ts ++ rest) = none ∧ held (ts ++ rest) = held rest := by
  induction ts with
  | nil => exact ⟨hrest, rfl⟩
  | cons t ts ih =>
      rw [loops, filterMap_cons_toList, List.append_eq_nil_iff] at hts
      rcases ih hts.2 with ⟨hnone, hheld⟩
      have hhead : broadcasting (t :: (ts ++ rest)) = none := by
        cases t <;> first | rfl | exact hnone | exact absurd hts.1 (by simp [Task.loop])
      refine ⟨hhead, ?_⟩
      rw [List.cons_append, held, hhead, ← hheld]
      rfl

/-- Without a loop no broadcast holds anything. -/
theorem held_of_loops {stack : List Task} (h : loops stack = []) : held stack = [] := by
  have hidle : held (stack ++ []) = held [] := (idle_append h rfl).2
  rwa [List.append_nil] at hidle

/-! ## The invariant -/

/-- What {lit}`Spares` steps keep.  As long as a broadcast is unfinished, the table is in
order; nothing that a broadcast points to has been freed, and a loop has not offered its
chunk to any of the clients to come. -/
structure Careful (s : State) : Prop where
  waiting : Waiting s.stack
  inOrder : Reentrant.loops s.stack ≠ [] → InOrder s.server
  live : ∀ id ∈ held s.stack, id ∉ s.server.freed
  misused : s.misused = []
  offers_nodup : s.offers.Nodup
  offers_lt : ∀ p ∈ s.offers, p.1 < s.serial
  serials : ((Reentrant.loops s.stack).map Prod.fst).Nodup
  loops : ∀ p ∈ Reentrant.loops s.stack,
    p.1 < s.serial ∧ p.2.Nodup ∧ ∀ id ∈ p.2, (p.1, id) ∉ s.offers

/-- At first nothing is under way. -/
theorem careful_start (x : Server) : Careful (.start x) := by
  constructor <;> simp [State.start, Waiting, loops, held]

/-- The pointers of the topmost task, if it is a step of a broadcast. -/
theorem Careful.pointers_live (h : Careful s) (hstack : s.stack = t :: rest)
    (hb : (broadcasting (t :: rest)).isSome) : ∀ id ∈ t.pointers, id ∉ s.server.freed := by
  intro id hid
  apply h.live
  rw [hstack, held, if_pos hb]
  exact List.mem_append_left _ hid

/-- The topmost task may be a loop. -/
theorem loops_cons (t : Task) (rest : List Task) :
    loops (t :: rest) = t.loop.toList ++ loops rest :=
  filterMap_cons_toList Task.loop t rest

/-- What {lit}`Spares` says of the topmost task. -/
theorem Spares.removal (hspares : Spares s .proceed) (hstack : s.stack = t :: rest)
    (hbusy : loops s.stack ≠ []) :
    ∀ p, t.removal = some p → ∃ z ∈ s.server.slot p.1, z.id ∉ held rest := by
  intro p hp
  have hloop : t.loop = none := by
    cases t <;> first | rfl | contradiction
  have hrest : loops rest ≠ [] := by
    rwa [hstack, loops_cons, hloop, Option.toList_none, List.nil_append] at hbusy
  simp only [Spares, hstack] at hspares
  exact hspares hrest p hp

/-- As long as a broadcast is unfinished, no connection is entered. -/
theorem Careful.accepted (h : Careful s) (hstack : s.stack = t :: rest)
    (hbusy : Reentrant.loops s.stack ≠ []) : t.accepted = none := by
  rw [hstack, loops_cons] at hbusy
  rcases eq_or_ne rest [] with rfl | hne
  · cases t <;> first | rfl | exact absurd rfl hbusy
  · exact (hstack ▸ h.waiting).head hne

/-- As long as a broadcast is unfinished, the table stays in order, and what is held after
a step has not been freed by it either. -/
theorem Careful.worked_live (h : Careful s) (hstack : s.stack = t :: rest)
    (hspares : Spares s .proceed) (hbusy : Reentrant.loops s.stack ≠ []) :
    InOrder (s.worked t rest).server ∧
      ∀ id ∈ held (s.worked t rest).stack, id ∉ (s.worked t rest).server.freed := by
  have hremovals := hspares.removal hstack hbusy
  have haccepted := h.accepted hstack hbusy
  have hold : ∀ id ∈ held (t :: rest), id ∉ s.server.freed := hstack ▸ h.live
  rcases h.inOrder hbusy with ⟨l, hl⟩
  rcases hl.expand haccepted (fun p hp => by
    rcases hremovals p hp with ⟨z, hz, -⟩
    rw [Option.mem_def.1 hz]
    exact Option.some_ne_none z) with ⟨l', hl', htable⟩
  refine ⟨⟨l', hl'⟩, fun id hid => ?_⟩
  cases htable with
  | kept hremoval hentering hfreed =>
      show id ∉ (s.server.expand t).1.freed
      rw [hfreed]
      rcases held_expand s.server t rest hid with hin | ⟨client, y, -, hy, rfl⟩ | ⟨y, hy, -⟩
      · exact hold id hin
      · rw [hl.slot_eq] at hy
        exact hl.notFreed y (List.mem_of_getElem? hy)
      · rw [hentering] at hy
        contradiction
  | entered y hremoval hentering hentry hfreed =>
      rw [haccepted] at hentry
      contradiction
  | removed i y z hremoval hentering hz hfreed =>
      rcases hremovals (i, y) hremoval with ⟨z', hz', hunheld⟩
      rw [hl.slot_eq] at hz'
      have hzz : z' = z := Option.some.inj (hz'.symm.trans hz)
      subst hzz
      have hrest : id ∈ held rest := by
        cases t <;> first | exact hid | contradiction
      show id ∉ (s.server.expand t).1.freed
      rw [hfreed, List.mem_append, not_or]
      refine ⟨hold id (List.mem_append_right _ hrest), ?_⟩
      intro hnew
      rw [List.mem_singleton.1 hnew] at hrest
      exact hunheld hrest

/-- A removal of a client that an unfinished broadcast points to leaves the pointer behind. -/
theorem Careful.dangling (h : Careful s) (hstack : s.stack = t :: rest) {i : Nat}
    {y z : SocketReceiver} (ht : t.removal = some (i, y)) (hz : s.server.slot i = some z)
    (hheld : z.id ∈ held rest) :
    ∃ id ∈ held (s.worked t rest).stack, id ∈ (s.worked t rest).server.freed := by
  cases t with
  | remove client y' =>
      have hpair : (client, y') = (i, y) := Option.some.inj ht
      cases hpair
      have hbusy : Reentrant.loops s.stack ≠ [] := by
        intro hnone
        rw [hstack] at hnone
        have hrest : Reentrant.loops rest = [] := hnone
        rw [held_of_loops hrest] at hheld
        contradiction
      rcases h.inOrder hbusy with ⟨l, hl⟩
      rw [hl.slot_eq] at hz
      have hserver : (s.worked (.remove i y) rest).server = s.server.removed l i z :=
        hl.remove hz
      refine ⟨z.id, hheld, ?_⟩
      rw [hserver]
      exact List.mem_append_right _ (List.mem_singleton_self _)
  | _ => contradiction

/-- A step that adds nothing to the record and begins no loop. -/
theorem Careful.quiet (h : Careful s) (hwaiting : Waiting s'.stack)
    (htable : Reentrant.loops s'.stack ≠ [] → InOrder s'.server)
    (hlive : ∀ id ∈ held s'.stack, id ∉ s'.server.freed)
    (hrecord : s'.offers = s.offers ∧ s'.misused = s.misused) (hserial : s.serial ≤ s'.serial)
    (hloops : (Reentrant.loops s'.stack).Sublist (Reentrant.loops s.stack)) :
    Careful s' := by
  rcases hrecord with ⟨hoffers, hmisused⟩
  constructor
  case waiting => exact hwaiting
  case inOrder => exact htable
  case live => exact hlive
  case misused => exact hmisused.trans h.misused
  case offers_nodup => exact hoffers ▸ h.offers_nodup
  case offers_lt =>
    intro p hp
    rw [hoffers] at hp
    exact (h.offers_lt p hp).trans_le hserial
  case serials => exact h.serials.sublist (hloops.map _)
  case loops =>
    intro p hp
    rcases h.loops p (hloops.subset hp) with ⟨hlt, hnodup, hnew⟩
    exact ⟨hlt.trans_le hserial, hnodup, hoffers ▸ hnew⟩

/-- Outside of a broadcast nothing is recorded. -/
theorem advance_none (s : State) (x : Server) (stack : List Task) :
    (s.advance none x stack).offers = s.offers ∧
      (s.advance none x stack).misused = s.misused := by
  simp [State.advance]

/-- In a broadcast the offers and the misuses are recorded. -/
theorem advance_some (s : State) (b : Nat) (x : Server) (stack : List Task) :
    (s.advance (some b) x stack).offers =
        s.offers ++ (offered s.server x).map (fun id => (b, id)) ∧
      (s.advance (some b) x stack).misused = s.misused ++ misuses s.server x := by
  simp [State.advance]

/-- A task that is no loop makes none. -/
theorem loops_expand (x : Server) (hloop : t.loop = none) : loops (x.expand t).2 = [] := by
  have h := expansion x t
  generalize (x.expand t).2 = ts at h
  cases h with
  | inert hts => exact filterMap_plain loop_plain (plain_of_inert hts)
  | output o ht => rfl
  | disconnect client y ht hy =>
      rw [loops, filterMap_connection loop_plain]
      rfl
  | loop serial env sr srs i chunk ht =>
      rw [ht] at hloop
      contradiction
  | entered y hy =>
      rw [loops, filterMap_connection loop_plain]
      rfl

/-- The loops after a step that is not a loop's. -/
theorem loops_worked (s : State) (hstack : s.stack = t :: rest) (hloop : t.loop = none) :
    loops (s.worked t rest).stack = loops s.stack := by
  have hsplit : loops (s.worked t rest).stack =
      loops (s.server.expand t).2 ++ loops rest := List.filterMap_append
  rw [hsplit, loops_expand s.server hloop, hstack, loops_cons, hloop]
  rfl

/-- A step that is not a loop's. -/
theorem Careful.worked_plain (h : Careful s) (hstack : s.stack = t :: rest)
    (hspares : Spares s .proceed) (hloop : t.loop = none) : Careful (s.worked t rest) := by
  have hwaiting : Waiting (s.worked t rest).stack := (hstack ▸ h.waiting).worked s.server
  have hloops := loops_worked s hstack hloop
  have hquiet : (Reentrant.loops s.stack ≠ [] → InOrder (s.worked t rest).server) →
      (∀ id ∈ held (s.worked t rest).stack, id ∉ (s.worked t rest).server.freed) →
      ((s.advance (broadcasting (t :: rest)) (s.server.expand t).1 []).offers = s.offers ∧
        (s.advance (broadcasting (t :: rest)) (s.server.expand t).1 []).misused = s.misused) →
      Careful (s.worked t rest) := by
    intro htable hlive hrecord
    exact h.quiet hwaiting (hloops ▸ htable) hlive hrecord (Nat.le_refl _)
      (hloops ▸ List.Sublist.refl _)
  by_cases hbusy : Reentrant.loops s.stack = []
  case pos =>
    apply hquiet
    · exact fun hne => absurd hbusy hne
    · rw [held_of_loops (hloops.trans hbusy)]
      exact fun id hid => absurd hid List.not_mem_nil
    · rw [← hstack, broadcasting_of_loops hbusy]
      exact advance_none s _ []
  case neg =>
    rcases h.worked_live hstack hspares hbusy with ⟨htable, hlive⟩
    apply hquiet (fun _ => htable) hlive
    cases hb : broadcasting (t :: rest) with
    | none => exact advance_none s _ []
    | some b =>
        have hpointers := h.pointers_live hstack (by rw [hb]; rfl)
        have hfilled : ∀ p ∈ t.removal, s.server.slot p.1 ≠ none := by
          intro p hp
          rcases hspares.removal hstack hbusy p hp with ⟨z, hz, -⟩
          rw [Option.mem_def.1 hz]
          exact Option.some_ne_none z
        rcases h.inOrder hbusy with ⟨l, hl⟩
        exact advance_harmless (harmless_expand hl hpointers hfilled hloop) (some b) []

/-- A step of a loop that has clients to come. -/
theorem Careful.worked_loop {serial : Nat} {env : Env} {sr : Option SocketReceiver}
    {srs : List (Option SocketReceiver)} {i : Nat} {chunk : Option Chunk} (h : Careful s)
    (ht : t = .sendBytesClients serial env (sr :: srs) i chunk)
    (hstack : s.stack = t :: rest) (hspares : Spares s .proceed) :
    Careful (s.worked t rest) := by
  subst ht
  have hold : Reentrant.loops s.stack =
      (serial, snapshotIds (sr :: srs)) :: Reentrant.loops rest := by
    rw [hstack]
    rfl
  rcases h.worked_live hstack hspares (hold ▸ List.cons_ne_nil _ _) with ⟨htable, hlive⟩
  have hwaiting : Waiting (s.worked _ rest).stack := (hstack ▸ h.waiting).worked s.server
  have hnew : Reentrant.loops
      (s.worked (Task.sendBytesClients serial env (sr :: srs) i chunk) rest).stack =
      (serial, snapshotIds srs) :: Reentrant.loops rest := by
    have hplain := plain_of_inert (inert_sendBytesClient env s.server sr i chunk)
    show ((sendBytesClientTasks env s.server sr i chunk).2 ++
      [Task.sendBytesClients serial env srs (i + 1) chunk] ++ rest).filterMap Task.loop = _
    rw [List.append_assoc, List.filterMap_append, filterMap_plain loop_plain hplain]
    rfl
  have hpointers := h.pointers_live hstack rfl
  rcases sends_sendBytesClient env s.server sr i chunk with ⟨sends, hsends, hsub⟩
  have hoffered := offered_of_append hsends
  have hunharmed : s.server.Unharmed (sendBytesClientTasks env s.server sr i chunk).1 := by
    apply unharmed_sendBytesClient env i chunk
    intro id hid
    apply hpointers
    show id ∈ snapshotIds (sr :: srs)
    rw [snapshotIds_cons]
    exact List.mem_append_left _ hid
  have hrecord := advance_some s serial (sendBytesClientTasks env s.server sr i chunk).1 []
  rw [misuses_of_unharmed hunharmed, List.append_nil, hoffered] at hrecord
  have hids := h.loops _ (hold ▸ List.mem_cons_self)
  have hserials := h.serials
  rw [hold, List.map_cons, List.nodup_cons] at hserials
  rw [snapshotIds_cons, List.nodup_append'] at hids
  rcases hids with ⟨hlt, ⟨hone, hnodup, hdisjoint⟩, hunoffered⟩
  refine ⟨hwaiting, fun _ => htable, hlive, hrecord.2.trans h.misused, ?nodup, ?lt, ?serials,
    ?loops⟩
  case nodup =>
    show (s.advance (some serial) (sendBytesClientTasks env s.server sr i chunk).1 []
      ).offers.Nodup
    rw [hrecord.1, List.nodup_append']
    refine ⟨h.offers_nodup, ?_, ?_⟩
    · apply (hone.sublist hsub).map
      exact fun a b hab => (Prod.mk.inj hab).2
    · intro p hp hp'
      rcases List.mem_map.1 hp' with ⟨id, hid, rfl⟩
      exact hunoffered id (List.mem_append_left _ (hsub.subset hid)) hp
  case lt =>
    show ∀ p ∈ (s.advance (some serial) (sendBytesClientTasks env s.server sr i chunk).1 []
      ).offers, p.1 < s.serial
    rw [hrecord.1]
    intro p hp
    rcases List.mem_append.1 hp with hin | hin
    · exact h.offers_lt p hin
    · rcases List.mem_map.1 hin with ⟨id, -, rfl⟩
      exact hlt
  case serials =>
    rw [hnew, List.map_cons, List.nodup_cons]
    exact hserials
  case loops =>
    show ∀ p ∈ Reentrant.loops _, p.1 < s.serial ∧ p.2.Nodup ∧ ∀ id ∈ p.2, (p.1, id) ∉
      (s.advance (some serial) (sendBytesClientTasks env s.server sr i chunk).1 []).offers
    rw [hnew, hrecord.1]
    intro p hp
    rcases List.mem_cons.1 hp with rfl | hin
    · refine ⟨hlt, hnodup, fun id hid hoffer => ?_⟩
      rcases List.mem_append.1 hoffer with hbefore | hnow
      · exact hunoffered id (List.mem_append_right _ hid) hbefore
      · rcases List.mem_map.1 hnow with ⟨id', hid', heq⟩
        have hsame : id' = id := (Prod.mk.inj heq).2
        exact hdisjoint (hsub.subset hid') (hsame ▸ hid)
    · rcases h.loops p (hold ▸ List.mem_cons_of_mem _ hin) with ⟨hplt, hpnodup, hpnew⟩
      refine ⟨hplt, hpnodup, fun id hid hoffer => ?_⟩
      rcases List.mem_append.1 hoffer with hbefore | hnow
      · exact hpnew id hid hbefore
      · rcases List.mem_map.1 hnow with ⟨id', -, heq⟩
        have hsame : serial = p.1 := (Prod.mk.inj heq).1
        have hmem := List.mem_map_of_mem (f := Prod.fst) hin
        rw [← hsame] at hmem
        exact hserials.1 hmem

/-- The last step of a loop. -/
theorem Careful.worked_end {serial : Nat} {env : Env} {i : Nat} {chunk : Option Chunk}
    (h : Careful s) (ht : t = .sendBytesClients serial env [] i chunk)
    (hstack : s.stack = t :: rest) (hspares : Spares s .proceed) :
    Careful (s.worked t rest) := by
  subst ht
  have hold : Reentrant.loops s.stack = (serial, []) :: Reentrant.loops rest := by
    rw [hstack]
    rfl
  rcases h.worked_live hstack hspares (hold ▸ List.cons_ne_nil _ _) with ⟨htable, hlive⟩
  refine h.quiet ((hstack ▸ h.waiting).worked s.server) (fun _ => htable) hlive
    (advance_harmless (Harmless.refl s.server) (some serial) []) (Nat.le_refl _) ?_
  rw [hold]
  exact List.sublist_cons_self _ _

/-- Every task keeps the broadcasts careful. -/
theorem Careful.worked (h : Careful s) (hstack : s.stack = t :: rest)
    (hspares : Spares s .proceed) : Careful (s.worked t rest) := by
  cases hloop : t.loop with
  | none => exact h.worked_plain hstack hspares hloop
  | some p =>
      cases t with
      | sendBytesClients serial env srs i chunk =>
          cases srs with
          | nil => exact h.worked_end rfl hstack hspares
          | cons sr srs => exact h.worked_loop rfl hstack hspares
      | _ => contradiction

/-- The object takes an input only where no broadcast is at work. -/
theorem broadcasting_receptive {stack : List Task} {a : Input}
    (hrec : receptive stack a = true) : broadcasting stack = none := by
  rcases stack with _ | ⟨t, rest⟩
  · rfl
  · cases t <;> first | rfl | contradiction

/-- A handler that begins no broadcast. -/
theorem Careful.received_quiet {env : Env} {a : Input} {tasks : List Task} (h : Careful s)
    (hrec : receptive s.stack a = true)
    (hexpand : s.server.expandInput s.serial env a = some (x, tasks))
    (hnone : Reentrant.loops tasks = []) : Careful (s.received x tasks) := by
  have hloops : Reentrant.loops (s.received x tasks).stack = Reentrant.loops s.stack := by
    have hsplit : Reentrant.loops (s.received x tasks).stack =
        Reentrant.loops tasks ++ Reentrant.loops s.stack := List.filterMap_append
    rw [hsplit, hnone, List.nil_append]
  rcases idle_append hnone (broadcasting_receptive hrec) with ⟨hidle, hheld⟩
  -- outside of broadcasts nothing is asked of the table
  have htable : Reentrant.loops s.stack ≠ [] →
      InOrder x ∧ x.freed = s.server.freed := by
    intro hbusy
    rcases h.inOrder hbusy with ⟨l, hl⟩
    rcases (opening hl hexpand).tabled hl with ⟨hl', hfreed⟩
    exact ⟨⟨l, hl'⟩, hfreed⟩
  refine h.quiet (h.waiting.received hrec hexpand) ?inOrder ?live ?record (Nat.le_succ _)
    (hloops ▸ List.Sublist.refl _)
  case inOrder => exact fun hbusy => (htable (hloops ▸ hbusy)).1
  case live =>
    show ∀ id ∈ held (tasks ++ s.stack), id ∉ x.freed
    rw [hheld]
    by_cases hbusy : Reentrant.loops s.stack = []
    · rw [held_of_loops hbusy]
      exact fun id hid => absurd hid List.not_mem_nil
    · rw [(htable hbusy).2]
      exact h.live
  case record =>
    show (s.advance (broadcasting (tasks ++ s.stack)) x []).offers = s.offers ∧
      (s.advance (broadcasting (tasks ++ s.stack)) x []).misused = s.misused
    rw [hidle]
    exact advance_none s x []

/-- A broadcast begins, with the table in order. -/
theorem Careful.received_broadcast {l : List SocketReceiver} {env : Env}
    {srs : List (Option SocketReceiver)} {chunk : Option Chunk} (h : Careful s)
    (hl : s.server.Tabled l) (hsame : s.server.Unmoved x) (hharmless : s.server.Harmless x)
    (hsrs : (snapshotIds srs).Sublist (l.map SocketReceiver.id)) :
    Careful (s.received x [.sendBytesClients s.serial env srs 0 chunk]) := by
  have hrecord := advance_harmless hharmless (some s.serial) []
  have hfree : ∀ p ∈ Reentrant.loops s.stack, p.1 ≠ s.serial := fun p hp =>
    Nat.ne_of_lt (h.loops p hp).1
  constructor
  case waiting => exact h.waiting.append (by simp [Task.accepted])
  case inOrder => exact fun _ => ⟨l, hl.same hsame.toSameTable⟩
  case live =>
    show ∀ id ∈ snapshotIds srs ++ held s.stack, id ∉ x.freed
    rw [hsame.freed]
    intro id hid
    rcases List.mem_append.1 hid with hin | hin
    · rcases List.mem_map.1 (hsrs.subset hin) with ⟨y, hy, rfl⟩
      exact hl.notFreed y hy
    · exact h.live id hin
  case misused => exact hrecord.2.trans h.misused
  case offers_nodup => exact hrecord.1 ▸ h.offers_nodup
  case offers_lt =>
    intro p hp
    exact Nat.lt_succ_of_lt (h.offers_lt p (hrecord.1 ▸ hp))
  case serials =>
    show (s.serial :: (Reentrant.loops s.stack).map Prod.fst).Nodup
    rw [List.nodup_cons]
    refine ⟨fun hin => ?_, h.serials⟩
    rcases List.mem_map.1 hin with ⟨p, hp, heq⟩
    exact hfree p hp heq
  case loops =>
    show ∀ p ∈ (s.serial, snapshotIds srs) :: Reentrant.loops s.stack,
      p.1 < s.serial + 1 ∧ p.2.Nodup ∧ ∀ id ∈ p.2,
        (p.1, id) ∉ (s.advance (some s.serial) x []).offers
    rw [hrecord.1]
    intro p hp
    rcases List.mem_cons.1 hp with rfl | hin
    · refine ⟨Nat.lt_succ_self _, hl.ids_nodup.sublist hsrs, ?_⟩
      exact fun id _ hoffer => Nat.lt_irrefl _ (h.offers_lt _ hoffer)
    · rcases h.loops p hin with ⟨hlt, hnodup, hnew⟩
      exact ⟨Nat.lt_succ_of_lt hlt, hnodup, hnew⟩

/-- Every input keeps the broadcasts careful. -/
theorem Careful.received {env : Env} {a : Input} {tasks : List Task} (h : Careful s)
    (hrec : receptive s.stack a = true)
    (hexpand : s.server.expandInput s.serial env a = some (x, tasks))
    (hspares : Spares s (.message env a)) : Careful (s.received x tasks) := by
  by_cases hnone : Reentrant.loops tasks = []
  case pos => exact h.received_quiet hrec hexpand hnone
  case neg =>
    rcases hspares (x, tasks) hexpand hnone with ⟨l, hl⟩
    cases opening hl hexpand with
    | plain hsame hts => exact absurd (filterMap_plain loop_plain hts) hnone
    | accept o ha hfresh | port env f o =>
        refine absurd ?_ hnone
        rw [Reentrant.loops, List.filterMap_append,
          filterMap_plain loop_plain (plain_of_inert (inert_outputs _))]
        rfl
    | broadcast env srs chunk hsame hsends hfaults hsrs =>
        exact h.received_broadcast hl hsame (harmless_of_eq hfaults hsends) hsrs

/-- In every run of the condition the broadcasts are careful. -/
theorem reach_careful (h : reentrantMachine.Reach Spares s) : Careful s := by
  apply h.invariant (I := Careful)
  · rintro s ⟨x, -, rfl⟩
    exact careful_start x
  · rintro s a s' _ hs hok hstep
    cases a with
    | message env a =>
        rcases step_message hstep with ⟨x, tasks, hrec, hexpand, rfl⟩
        exact hs.received hrec hexpand hok
    | proceed =>
        rcases step_proceed hstep with ⟨t, rest, hstack, -, rfl⟩
        exact hs.worked hstack hok

/-- As long as broadcasts begin with the table in order, and only clients are removed that
no unfinished broadcast points to, no broadcast reads a freed client, and none offers its
chunk to a client twice. -/
theorem broadcastSafe_spares (h : reentrantMachine.Reach Spares s) : BroadcastSafe s := by
  have hcareful := reach_careful h
  exact ⟨hcareful.misused, hcareful.offers_nodup⟩

/-! ## Answers to a broadcast -/

/-- Something is sent to two clients, and as soon as the first one has been served, the
patch has a client disconnected. -/
def answered (client : Int) (k : Nat) : List Label :=
  callers [5, 6] ++ [.message (Server.plainEnv []) (.broadcast [setFloat 7])] ++
    List.replicate 4 .proceed ++ disconnecting client 24 ++ List.replicate k .proceed

/-- The number of tasks left, who has been freed, to whom the chunk has been offered, and
which freed clients have been read. -/
def State.account (s : State) : Nat × List Nat × List (Nat × Nat) × List Nat :=
  (s.stack.length, s.server.freed, s.offers, s.misused)

/-- The client that has been served may go. -/
theorem broadcastSafe_served :
    ∃ s, reentrantMachine.run listening (answered 1 7) = some s ∧
      s.account = (0, [1], [(2, 1), (2, 2)], []) ∧ BroadcastSafe s := by
  have haccount : (reentrantMachine.run listening (answered 1 7)).map State.account =
      some (0, [1], [(2, 1), (2, 2)], []) := by decide +kernel
  have hspares : reentrantMachine.RunMeets Spares listening (answered 1 7) :=
    Machine.runMeets_of_meets (by decide +kernel)
  rcases Option.map_eq_some_iff.1 haccount with ⟨s, hrun, hs⟩
  exact ⟨s, hrun, hs, broadcastSafe_spares (.run (.start init_listening) hspares hrun)⟩

/-- The client whose turn is next is read after it has been freed. -/
theorem broadcast_reads_freed :
    ∃ s, reentrantMachine.Reachable s ∧ s.account = (0, [2], [(2, 1)], [2]) ∧
      ¬ BroadcastSafe s := by
  have haccount : (reentrantMachine.run listening (answered 2 8)).map State.account =
      some (0, [2], [(2, 1)], [2]) := by decide +kernel
  rcases Option.map_eq_some_iff.1 haccount with ⟨s, hrun, hs⟩
  refine ⟨s, Machine.reach_of_run init_listening hrun, hs, fun h => ?_⟩
  have hmisused : s.misused = [2] := congrArg (fun a => a.2.2.2) hs
  rw [h.misused] at hmisused
  exact absurd hmisused (by decide)

end Reentrant
end Iemnet.TcpServer
