import Iemnet.TcpServer.Reentrant.Connections

/-!
# Steps under re-entrant messages

What the tasks and the inputs are expanded to, as far as it matters for the tasks that lie
on the stack, and with it the invariant of the connections over one step.

Main results:

- Theorems {lit}`expansion`, {lit}`opening`: the kinds of task lists.
- Theorems {lit}`State.Sound.worked`, {lit}`State.Sound.received`: the connections stay in
  order.
-/

namespace Iemnet.TcpServer

open Pd Foundations

namespace Server

variable {x x' : Server} {l : List SocketReceiver} {y : SocketReceiver}
  {pending : List (Int × Nat)} {ports : List Int}

/-! ## What a task is expanded to -/

/-- Outlet calls hold nothing. -/
theorem inert_outputs (os : List Output) : ∀ t ∈ outputs os, t.Inert := by
  intro t ht
  rcases List.mem_map.1 ht with ⟨o, -, rfl⟩
  exact ⟨trivial, rfl⟩

/-- No tasks hold nothing. -/
theorem inert_nil : ∀ t ∈ ([] : List Task), t.Inert :=
  fun _ ht => absurd ht List.not_mem_nil

/-- Tasks one after the other hold nothing if neither do. -/
theorem inert_append {ts ts' : List Task} (h : ∀ t ∈ ts, t.Inert) (h' : ∀ t ∈ ts', t.Inert) :
    ∀ t ∈ ts ++ ts', t.Inert :=
  List.forall_mem_append.2 ⟨h, h'⟩

/-- A task that holds nothing. -/
theorem inert_singleton {t : Task} (h : t.Plain) (h' : t.pointers = []) :
    ∀ t' ∈ [t], t'.Inert := by
  intro t' ht'
  rw [List.mem_singleton.1 ht']
  exact ⟨h, h'⟩

/-- A task that may be there holds nothing if it does not. -/
theorem inert_ite (c : Prop) [Decidable c] {t : Task} (h : t.Plain) (h' : t.pointers = []) :
    ∀ t' ∈ if c then [t] else [], t'.Inert := by
  split
  · exact inert_singleton h h'
  · exact inert_nil

/-- Sending to a client of a snapshot holds nothing. -/
theorem inert_sendBytesClient (env : Env) (x : Server) (sr : Option SocketReceiver)
    (client : Nat) (chunk : Option Chunk) :
    ∀ t ∈ (sendBytesClientTasks env x sr client chunk).2, t.Inert := by
  cases sr with
  | none => exact inert_nil
  | some y =>
      apply inert_append (inert_outputs _)
      apply inert_ite <;> trivial

/-- Sending to a client by its index holds nothing. -/
theorem inert_sendBytes (env : Env) (x : Server) (client : Nat) (chunk : Option Chunk) :
    ∀ t ∈ (sendBytesTasks env x client chunk).2, t.Inert := by
  unfold sendBytesTasks
  split
  · exact inert_sendBytesClient env _ _ client chunk
  · exact inert_nil

/-- Information on a client holds nothing. -/
theorem inert_infoClient (env : Env) (x : Server) (client : Nat) :
    ∀ t ∈ (infoClientTasks env x client).2, t.Inert := by
  unfold infoClientTasks
  split
  · simp only
    split
    · exact inert_nil
    · apply inert_append (inert_outputs _)
      simp [Task.Inert, Task.Plain, Task.pointers]
  · exact inert_nil

/-- Tasks that hold nothing are plain. -/
theorem plain_of_inert {ts : List Task} (h : ∀ t ∈ ts, t.Inert) : ∀ t ∈ ts, t.Plain :=
  fun t ht => (h t ht).1

/-- Plain tasks behind inert ones are plain. -/
theorem plain_append {ts ts' : List Task} (h : ∀ t ∈ ts, t.Inert) (h' : ∀ t ∈ ts', t.Plain) :
    ∀ t ∈ ts ++ ts', t.Plain :=
  List.forall_mem_append.2 ⟨plain_of_inert h, h'⟩

/-- The tasks of a connection are plain. -/
theorem plain_connection (y : SocketReceiver) (event : InfoEvent) :
    ∀ t ∈ connectionTasks y event, t.Plain := by
  apply plain_append (inert_outputs _)
  simp [Task.Plain]

/-- The kinds of task lists that a task is expanded to. -/
inductive Expansion (x : Server) (t : Task) : List Task → Prop
  | inert {ts : List Task} (hts : ∀ t' ∈ ts, t'.Inert) : Expansion x t ts
  | output (o : Output) (ht : t = .output o) : Expansion x t [.patch]
  | disconnect (client : Nat) (y : SocketReceiver) (ht : t = .disconnect client)
      (hy : x.slot client = some y) :
      Expansion x t (connectionTasks y .disconnect ++ [.remove client y, .numconnout])
  | loop (serial : Nat) (env : Env) (sr : Option SocketReceiver)
      (srs : List (Option SocketReceiver)) (i : Nat) (chunk : Option Chunk)
      (ht : t = .sendBytesClients serial env (sr :: srs) i chunk) :
      Expansion x t ((sendBytesClientTasks env x sr i chunk).2 ++
        [.sendBytesClients serial env srs (i + 1) chunk])
  | entered (y : SocketReceiver) (hy : t.entering x = [y]) :
      Expansion x t (connectionTasks y .illegal ++ [.numconnout])

/-- A task may be done. -/
theorem Expansion.nil (x : Server) (t : Task) : Expansion x t [] :=
  .inert inert_nil

/-- A task may become another one that holds nothing. -/
theorem Expansion.single (x : Server) {t t' : Task} (h : t'.Plain) (h' : t'.pointers = []) :
    Expansion x t [t'] :=
  .inert (inert_singleton h h')

/-- A task may become outlet calls. -/
theorem Expansion.outputs (x : Server) (t : Task) (os : List Output) :
    Expansion x t (outputs os) :=
  .inert (inert_outputs os)

/-- Accessing a slot changes no slot. -/
theorem slot_touch (x : Server) (i j : Nat) : (x.touch i).slot j = x.slot j := by
  rw [slot, (unmoved_touch x i).sr, slot]

/-- Every task is expanded in one of these ways. -/
theorem expansion (x : Server) (t : Task) : Expansion x t (x.expand t).2 := by
  cases t with
  | output o => exact .output o rfl
  | patch | remove client y => exact .nil x _
  | infoConnection part y => exact .outputs x _ _
  | numconnout => exact .outputs x _ _
  | disconnect client =>
      simp only [Server.expand, slot_touch]
      cases hslot : x.slot client with
      | none => exact .nil x _
      | some y => exact .disconnect client y rfl hslot
  | disconnectClient fclient =>
      simp only [Server.expand]
      cases x.fixindex fclient.toInt with
      | none => exact .nil x _
      | some client => exact .single x trivial rfl
  | disconnectSocket fsocket =>
      simp only [Server.expand]
      rcases x.socket2index fsocket.toInt with ⟨x', _ | id⟩
      · exact .nil x _
      · exact .single x trivial rfl
  | disconnectAll fuel id =>
      cases fuel with
      | zero => exact .nil x _
      | succ fuel =>
          simp only [Server.expand]
          split
          · exact .inert (by simp [Task.Inert, Task.Plain, Task.pointers])
          · exact .nil x _
  | sendBytesClients serial env srs i chunk =>
      cases srs with
      | nil => exact .nil x _
      | cons sr srs => exact .loop serial env sr srs i chunk rfl
  | infoClient client y insize outsize =>
      simp only [Server.expand]
      cases (x.touch client).slot client with
      | none => exact .nil x _
      | some z => exact .outputs x _ _
  | infoClients env fuel client =>
      cases fuel with
      | zero => exact .nil x _
      | succ fuel =>
          simp only [Server.expand]
          split
          · apply Expansion.inert
            apply inert_append (inert_infoClient env x client)
            simp [Task.Inert, Task.Plain, Task.pointers]
          · exact .nil x _
  | receive env c =>
      simp only [Server.expand]
      cases chunk2list env.mem env.raw (some c) x.floatlist with
      | none => exact .nil x _
      | some cl => exact .outputs x _ _
  | register id o =>
      by_cases hacc : x.accepting = 0
      · simp only [Server.expand, if_pos hacc]
        exact .single x trivial rfl
      · by_cases hfull : x.maxconnections ≤ x.nconnections
        · simp only [Server.expand, if_neg hacc, if_pos hfull]
          exact .nil x _
        · have hentering : Task.entering x (.register id o) =
              (x.socketreceiverNew id o x.nconnections).2.toList :=
            if_pos ⟨hacc, Nat.not_le.1 hfull⟩
          simp only [Server.expand, if_neg hacc, if_neg hfull]
          rcases hnew : x.socketreceiverNew id o x.nconnections with ⟨x', _ | y⟩
          · exact .nil x _
          · rw [hnew] at hentering
            exact .entered y hentering
  | openPort env fportno o sockfd =>
      simp only [Server.expand]
      split
      · exact .nil x _
      · cases o.socket with
        | none => exact .nil x _
        | some fd =>
            simp only
            split
            · exact .single x trivial rfl
            · exact .inert (by simp [Task.Inert, Task.Plain, Task.pointers])
  | infoAddress address => exact .outputs x _ _
  | infoPort | infoMaxconnections => exact .single x trivial rfl

/-! ## What an input is expanded to -/

/-- The clients in a snapshot. -/
def snapshotIds (srs : List (Option SocketReceiver)) : List Nat :=
  srs.filterMap fun sr => sr.map SocketReceiver.id

/-- The kinds of beginnings that the handlers of the inputs have. -/
inductive Opening (x : Server) (l : List SocketReceiver) (serial : Nat) (a : Input) :
    Server → List Task → Prop
  | plain {x' : Server} {ts : List Task} (hsame : x.Undisturbed l x')
      (hts : ∀ t ∈ ts, t.Plain) : Opening x l serial a x' ts
  | accept (o : Incoming) (ha : a.isMessage = false) (hfresh : FreshFd x o.fd) :
      Opening x l serial a (x.opened o.fd)
        (outputs (eventOutputs .connect) ++ [.register x.os.issued o])
  | port (env : Env) (f : FloatArg) (o : PortOutcome) :
      Opening x l serial a x
        (outputs (eventOutputs .serverInfo) ++ [.openPort env f o x.connectsocket])
  | broadcast {x' : Server} (env : Env) (srs : List (Option SocketReceiver))
      (chunk : Option Chunk) (hsame : x.Unmoved x') (hsends : x'.sends = x.sends)
      (hfaults : x'.faults = x.faults)
      (hsrs : (snapshotIds srs).Sublist (l.map SocketReceiver.id)) :
      Opening x l serial a x' [.sendBytesClients serial env srs 0 chunk]

section Inputs

variable {serial : Nat} {env : Env} {a : Input}

/-- A handler may begin with plain tasks. -/
theorem Opening.quiet {ts : List Task} (h : x.Tabled l) (hsame : x.Unmoved x')
    (hts : ∀ t ∈ ts, t.Plain) : Opening x l serial a x' ts :=
  .plain (hsame.undisturbed h) hts

/-- A handler may be done. -/
theorem Opening.still (h : x.Tabled l) (hsame : x.Unmoved x') : Opening x l serial a x' [] :=
  .quiet h hsame fun _ ht => absurd ht List.not_mem_nil

/-- A snapshot of the clients has their serials. -/
theorem snapshotIds_map (l : List SocketReceiver) :
    snapshotIds (l.map some) = l.map SocketReceiver.id := by
  rw [snapshotIds, List.filterMap_map]
  exact congrFun List.filterMap_eq_map l

/-- A snapshot without one client has no others. -/
theorem snapshotIds_set (srs : List (Option SocketReceiver)) (i : Nat) :
    (snapshotIds (srs.set i none)).Sublist (snapshotIds srs) := by
  induction srs generalizing i with
  | nil => exact List.Sublist.refl _
  | cons sr srs ih =>
      cases i with
      | zero =>
          have hsplit : snapshotIds (sr :: srs) = snapshotIds [sr] ++ snapshotIds srs :=
            List.filterMap_append (l := [sr])
          rw [hsplit]
          exact List.sublist_append_right _ _
      | succ i =>
          cases sr with
          | none => exact ih i
          | some y => exact (ih i).cons_cons y.id

/-- A broadcast, perhaps after the default target has been given up. -/
theorem opening_broadcast (h : x.Tabled l) (hsame : x.Unmoved x')
    (hsends : x'.sends = x.sends) (hfaults : x'.faults = x.faults) (argv : List Atom) :
    Opening x l serial a (broadcastTasks serial env x' argv).1
      (broadcastTasks serial env x' argv).2 := by
  have h' := h.same hsame.toSameTable
  unfold broadcastTasks
  split
  · exact .still h hsame
  · rw [snapshot_eq h']
    apply Opening.broadcast env _ _ hsame hsends hfaults
    rw [snapshotIds_map]

/-- How sending to all but one begins. -/
theorem opening_sendButclient (h : x.Tabled l) (but : Nat) (argv : List Atom) :
    Opening x l serial a (sendButclientTasks serial env x but argv).1
      (sendButclientTasks serial env x but argv).2 := by
  unfold sendButclientTasks
  split
  · exact .still h (Unmoved.refl x)
  · rw [snapshot_eq h]
    apply Opening.broadcast env _ _ (Unmoved.refl x) rfl rfl
    rw [← snapshotIds_map l]
    exact snapshotIds_set _ but

/-- How sending to a client by its index begins. -/
theorem opening_sendBytes (h : x.Tabled l) (client : Nat) (chunk : Option Chunk) :
    Opening x l serial a (sendBytesTasks env x client chunk).1
      (sendBytesTasks env x client chunk).2 :=
  .quiet h (unmoved_sendBytes env x client chunk)
    (plain_of_inert (inert_sendBytes env x client chunk))

/-- How a plain list begins. -/
theorem opening_defaultsend (h : x.Tabled l) (argv : List Atom) :
    Opening x l serial a (defaultsendTasks serial env x argv).1
      (defaultsendTasks serial env x argv).2 := by
  have hretarget : x.Unmoved { x with defaulttarget := 0 } :=
    ⟨⟨rfl, rfl, rfl, rfl⟩, rfl, rfl⟩
  simp only [defaultsendTasks, socket2index_eq h]
  split
  · cases l.findIdx? fun y => y.fd = x.defaulttarget with
    | none => exact opening_broadcast h hretarget rfl rfl argv
    | some client => exact opening_sendBytes h client _
  · split
    · cases l.findIdx? fun y => y.fd = -x.defaulttarget with
      | none => exact opening_broadcast h hretarget rfl rfl argv
      | some client => exact opening_sendButclient h client argv
    · exact opening_broadcast h (Unmoved.refl x) rfl rfl argv

/-- How sending to a client by its descriptor begins. -/
theorem opening_sendSocket (h : x.Tabled l) (argv : List Atom) :
    Opening x l serial a (sendSocketTasks env x argv).1 (sendSocketTasks env x argv).2 := by
  cases argv with
  | nil => exact .still h (Unmoved.refl x)
  | cons b rest =>
      simp only [sendSocketTasks, socket2index_eq h]
      cases hfind : l.findIdx? fun y => y.fd = toInt32 (atomGetint b) with
      | none => exact .still h (Unmoved.refl x)
      | some client =>
          simp only [socket2index_eq h, hfind]
          split
          · exact opening_sendBytes h client _
          · exact .still h (Unmoved.refl x)

/-- How sending to a client by its number begins. -/
theorem opening_sendClient (h : x.Tabled l) (argv : List Atom) :
    Opening x l serial a (sendClientTasks env x argv).1 (sendClientTasks env x argv).2 := by
  cases argv with
  | nil => exact .quiet h (Unmoved.refl x) (by simp [sendClientTasks, Task.Plain])
  | cons b rest =>
      simp only [sendClientTasks]
      cases x.fixindex (toInt32 (atomGetint b)) with
      | none => exact .still h (Unmoved.refl x)
      | some client =>
          simp only
          split
          · exact .quiet h (unmoved_infoClient env x client)
              (plain_of_inert (inert_infoClient env x client))
          · exact opening_sendBytes h client _

/-- How information begins. -/
theorem opening_info (h : x.Tabled l) :
    Opening x l serial a (infoTasks env x).1 (infoTasks env x).2 := by
  unfold infoTasks
  split
  · exact .still h (Unmoved.refl x)
  · cases x.reportedPort env with
    | none => exact .still h (Unmoved.refl x)
    | some port =>
        refine Opening.quiet h ⟨⟨rfl, rfl, rfl, rfl⟩, rfl, rfl⟩ ?_
        exact plain_append (inert_outputs _) (by simp [Task.Plain])

/-- Another size of the table does not disturb the clients. -/
theorem undisturbed_setMaxconnections (h : x.Tabled l) (f : FloatArg) :
    x.Undisturbed l (x.setMaxconnections env f) := by
  have hrefl := (Unmoved.refl x).undisturbed h
  simp only [setMaxconnections]
  split
  · exact hrefl
  · split
    · exact hrefl
    · rename_i hle
      split
      · exact hrefl
      · split
        · have hroom : l.length ≤ f.toUInt := by
            have := h.nconnections_eq
            omega
          refine ⟨⟨?_, h.nconnections_eq, hroom, f.toUInt_lt, h.range, h.notFreed,
            h.fds_nodup, h.ids_nodup⟩, rfl, rfl, rfl⟩
          show SlotTable.resize x.sr f.toUInt = _
          rw [h.sr_eq, SlotTable.resize_table _ _ hroom]
        · exact hrefl

/-- Choosing a default target moves nothing. -/
theorem unmoved_setDefaulttarget (x : Server) (f : FloatArg) :
    x.Unmoved (x.setDefaulttarget f) := by
  have hset : ∀ (x : Server) (n : Int), x.Unmoved { x with defaulttarget := n } :=
    fun x n => ⟨⟨rfl, rfl, rfl, rfl⟩, rfl, rfl⟩
  simp only [setDefaulttarget]
  split
  · exact Unmoved.refl x
  · split
    · exact hset x 0
    · have htouch := unmoved_touch x (f.toInt.natAbs - 1)
      cases (x.touch (f.toInt.natAbs - 1)).slot (f.toInt.natAbs - 1) with
      | none => exact htouch.trans (unmoved_fault _ _)
      | some y => exact (htouch.trans (unmoved_access _ y)).trans (hset _ _)

/-- The beginnings of the handlers. -/
theorem opening (h : x.Tabled l) {tasks : List Task}
    (hexpand : x.expandInput serial env a = some (x', tasks)) :
    Opening x l serial a x' tasks := by
  have hpair : ∀ {p : Server × List Task}, some p = some (x', tasks) →
      Opening x l serial a p.1 p.2 → Opening x l serial a x' tasks := by
    intro p hp hopening
    have hp' := Option.some.inj hp
    rw [hp'] at hopening
    exact hopening
  cases a with
  | incoming fd o =>
      simp only [expandInput] at hexpand
      split at hexpand
      case isTrue hin =>
        split at hexpand
        · exact hpair hexpand (.still h (Unmoved.refl x))
        · split at hexpand
          · apply hpair hexpand
            apply Opening.quiet h (Unmoved.refl x)
            exact plain_append (inert_outputs _) (by simp [Task.Plain])
          case isFalse hfd =>
            have hfresh : FreshFd x o.fd := hin.2.resolve_left hfd
            exact hpair hexpand (.accept o rfl hfresh)
      case isFalse => contradiction
  | received fd c =>
      simp only [expandInput] at hexpand
      rcases hpoll : x.pollfn fd with _ | _ | y
      · rw [hpoll] at hexpand
        contradiction
      · rw [hpoll] at hexpand
        contradiction
      · simp only [hpoll] at hexpand
        have hsame := unmoved_access x y
        split at hexpand
        · exact hpair hexpand (.still h hsame)
        · cases c with
          | none => exact hpair hexpand (.quiet h hsame (by simp [Task.Plain]))
          | some c =>
              apply hpair hexpand
              apply Opening.quiet h hsame
              exact List.forall_mem_append.2 ⟨plain_connection y .receive, by simp [Task.Plain]⟩
  | disconnectClient f | disconnectSocket f | disconnectAll =>
      exact hpair hexpand (.quiet h (Unmoved.refl x) (by simp [Task.Plain]))
  | sendSocket argv => exact hpair hexpand (opening_sendSocket h argv)
  | sendClient argv => exact hpair hexpand (opening_sendClient h argv)
  | broadcast argv => exact hpair hexpand (opening_broadcast h (Unmoved.refl x) rfl rfl argv)
  | defaulttarget f => exact hpair hexpand (.still h (unmoved_setDefaulttarget x f))
  | targetsocket f | serialize f | accept f =>
      exact hpair hexpand (.still h ⟨⟨rfl, rfl, rfl, rfl⟩, rfl, rfl⟩)
  | defaultsend argv => exact hpair hexpand (opening_defaultsend h argv)
  | maxconnections f =>
      exact hpair hexpand (.plain (undisturbed_setMaxconnections h f)
        fun _ ht => absurd ht List.not_mem_nil)
  | port f o => exact hpair hexpand (.port env f o)
  | info => exact hpair hexpand (opening_info h)

/-- No handler's beginning touches the table. -/
theorem Opening.tabled {tasks : List Task} (hopening : Opening x l serial a x' tasks)
    (h : x.Tabled l) : x'.Tabled l ∧ x'.freed = x.freed := by
  cases hopening with
  | plain hsame hts => exact ⟨hsame.tabled, hsame.freed⟩
  | accept o ha hfresh => exact ⟨h.same ⟨rfl, rfl, rfl, rfl⟩, rfl⟩
  | port env f o => exact ⟨h, rfl⟩
  | broadcast env srs chunk hsame hsends hfaults hsrs =>
      exact ⟨h.same hsame.toSameTable, hsame.freed⟩

/-- The listener may be going to be closed. -/
theorem Sound.watched (h : x.Sound l pending ports) :
    x.Sound l pending (x.connectsocket :: ports) := by
  refine h.reopen h.tabled rfl (List.Sublist.refl pending) (Nat.le_refl _) ?hopened ?haside
    h.listening
  case hopened => exact fun p hp => (h.connection p hp).opened
  case haside =>
    intro p hp
    have haside := (h.connection p hp).aside
    exact ⟨haside.1, List.not_mem_cons_of_ne_of_not_mem haside.1 haside.2⟩

end Inputs

end Server

namespace Reentrant

variable {x : Server} {l : List SocketReceiver} {s : State} {t : Task} {ts rest : List Task}

/-! ## The tasks on the stack -/

section Views

variable {β : Type} {f : Task → Option β}

/-- A view that sees no plain tasks sees nothing in them. -/
theorem filterMap_plain (hf : ∀ t : Task, t.Plain → f t = none) (hts : ∀ t ∈ ts, t.Plain) :
    ts.filterMap f = [] :=
  List.filterMap_eq_nil_iff.2 fun t ht => hf t (hts t ht)

/-- What a view sees begins with the topmost task. -/
theorem filterMap_cons_toList (f : Task → Option β) (t : Task) (rest : List Task) :
    (t :: rest).filterMap f = (f t).toList ++ rest.filterMap f := by
  rw [List.filterMap_cons]
  cases f t <;> rfl

end Views

/-- A plain task removes nobody. -/
theorem removal_plain (t : Task) (ht : t.Plain) : t.removal = none := by
  cases t <;> first | rfl | contradiction

/-- A plain task enters nobody. -/
theorem accepted_plain (t : Task) (ht : t.Plain) : t.accepted = none := by
  cases t <;> first | rfl | contradiction

/-- A plain task closes no listener. -/
theorem listener_plain (t : Task) (ht : t.Plain) : t.listener = none := by
  cases t <;> first | rfl | contradiction

/-- A plain task is no loop. -/
theorem loop_plain (t : Task) (ht : t.Plain) : t.loop = none := by
  cases t <;> first | rfl | contradiction

/-- The tasks of {lit}`tcpserver_disconnect` and those of a new client that a view does
not see. -/
theorem filterMap_connection {β : Type} {f : Task → Option β}
    (hf : ∀ t : Task, t.Plain → f t = none) (y : SocketReceiver) (event : InfoEvent)
    (ts : List Task) :
    (Server.connectionTasks y event ++ ts).filterMap f = ts.filterMap f := by
  rw [List.filterMap_append, filterMap_plain hf (Server.plain_connection y event),
    List.nil_append]

/-- A view that sees neither loops nor removals sees nothing in what a task is expanded
to. -/
theorem filterMap_expand {β : Type} {f : Task → Option β}
    (hf : ∀ t : Task, t.Plain → f t = none) (hpatch : f .patch = none)
    (hremove : ∀ client y, f (.remove client y) = none)
    (hloop : ∀ serial env srs i chunk, f (.sendBytesClients serial env srs i chunk) = none)
    (x : Server) (t : Task) : (x.expand t).2.filterMap f = [] := by
  have h := Server.expansion x t
  generalize (x.expand t).2 = ts at h
  cases h with
  | inert hts => exact filterMap_plain hf (Server.plain_of_inert hts)
  | output o ht => rw [List.filterMap_cons_none hpatch, List.filterMap_nil]
  | disconnect client y ht hy =>
      rw [filterMap_connection hf, List.filterMap_cons_none (hremove client y),
        List.filterMap_cons_none (hf .numconnout trivial), List.filterMap_nil]
  | loop serial env sr srs i chunk ht =>
      have hplain := Server.plain_of_inert (Server.inert_sendBytesClient env x sr i chunk)
      rw [List.filterMap_append, filterMap_plain hf hplain, List.nil_append,
        List.filterMap_cons_none (hloop serial env srs (i + 1) chunk), List.filterMap_nil]
  | entered y hy =>
      rw [filterMap_connection hf, List.filterMap_cons_none (hf .numconnout trivial),
        List.filterMap_nil]

/-- Nothing that is expanded holds a descriptor. -/
theorem pending_expand (x : Server) (t : Task) : pending (x.expand t).2 = [] :=
  filterMap_expand accepted_plain rfl (fun _ _ => rfl) (fun _ _ _ _ _ => rfl) x t

/-- No task that comes out closes a listener. -/
theorem ports_expand (x : Server) (t : Task) : ports (x.expand t).2 = [] :=
  filterMap_expand listener_plain rfl (fun _ _ => rfl) (fun _ _ _ _ _ => rfl) x t

/-- A call of {lit}`tcpserver_disconnect` begins with the client that is at its index. -/
theorem removals_expand (h : x.Tabled l) (t : Task) :
    ∀ p ∈ removals (x.expand t).2, l[p.1]? = some p.2 := by
  have hexpansion := Server.expansion x t
  generalize (x.expand t).2 = ts at hexpansion
  cases hexpansion with
  | inert hts =>
      rw [removals, filterMap_plain removal_plain (Server.plain_of_inert hts)]
      exact fun p hp => absurd hp List.not_mem_nil
  | output o ht => exact fun p hp => absurd hp List.not_mem_nil
  | disconnect client y ht hy =>
      rw [removals, filterMap_connection removal_plain]
      intro p hp
      have hp' : p = (client, y) := List.mem_singleton.1 hp
      rw [hp', ← h.slot_eq]
      exact hy
  | loop serial env sr srs i chunk ht =>
      have hplain := Server.plain_of_inert (Server.inert_sendBytesClient env x sr i chunk)
      rw [removals, List.filterMap_append, filterMap_plain removal_plain hplain]
      exact fun p hp => absurd hp List.not_mem_nil
  | entered y hy =>
      rw [removals, filterMap_connection removal_plain]
      exact fun p hp => absurd hp List.not_mem_nil

/-! ## Connections on the stack -/

section Accepted

variable {x' : Server} {serial : Nat} {env : Env} {a : Input} {tasks : List Task}

/-- Outlet calls enter nobody. -/
theorem accepted_outputs (os : List Output) : ∀ t ∈ Server.outputs os, t.accepted = none :=
  fun t ht => accepted_plain t (Server.inert_outputs os t ht).1

/-- Sending to a client by its index enters nobody. -/
theorem accepted_sendBytes (env : Env) (x : Server) (client : Nat) (chunk : Option Chunk) :
    ∀ t ∈ (Server.sendBytesTasks env x client chunk).2, t.accepted = none :=
  fun t ht => accepted_plain t (Server.inert_sendBytes env x client chunk t ht).1

/-- A broadcast enters nobody. -/
theorem accepted_broadcast (serial : Nat) (env : Env) (x : Server) (argv : List Atom) :
    ∀ t ∈ (Server.broadcastTasks serial env x argv).2, t.accepted = none := by
  unfold Server.broadcastTasks
  split <;> simp [Task.accepted]

/-- Sending to all but one enters nobody. -/
theorem accepted_sendButclient (serial : Nat) (env : Env) (x : Server) (but : Nat)
    (argv : List Atom) :
    ∀ t ∈ (Server.sendButclientTasks serial env x but argv).2, t.accepted = none := by
  unfold Server.sendButclientTasks
  split <;> simp [Task.accepted]

/-- A plain list enters nobody. -/
theorem accepted_defaultsend (serial : Nat) (env : Env) (x : Server) (argv : List Atom) :
    ∀ t ∈ (Server.defaultsendTasks serial env x argv).2, t.accepted = none := by
  simp only [Server.defaultsendTasks]
  split
  · rcases x.socket2index x.defaulttarget with ⟨x', _ | client⟩
    · exact accepted_broadcast serial env _ argv
    · exact accepted_sendBytes env x' client _
  · split
    · rcases x.socket2index (-x.defaulttarget) with ⟨x', _ | client⟩
      · exact accepted_broadcast serial env _ argv
      · exact accepted_sendButclient serial env x' client argv
    · exact accepted_broadcast serial env x argv

/-- Sending to a client by its descriptor enters nobody. -/
theorem accepted_sendSocket (env : Env) (x : Server) (argv : List Atom) :
    ∀ t ∈ (Server.sendSocketTasks env x argv).2, t.accepted = none := by
  cases argv with
  | nil => simp [Server.sendSocketTasks]
  | cons b rest =>
      simp only [Server.sendSocketTasks]
      rcases x.socket2index (toInt32 (atomGetint b)) with ⟨x', _ | client⟩
      · simp
      · simp only
        split
        · rcases x'.socket2index (toInt32 (atomGetint b)) with ⟨x'', _ | client'⟩
          · simp
          · exact accepted_sendBytes env x'' client' _
        · simp

/-- Sending to a client by its number enters nobody. -/
theorem accepted_sendClient (env : Env) (x : Server) (argv : List Atom) :
    ∀ t ∈ (Server.sendClientTasks env x argv).2, t.accepted = none := by
  cases argv with
  | nil => simp [Server.sendClientTasks, Task.accepted]
  | cons b rest =>
      simp only [Server.sendClientTasks]
      cases x.fixindex (toInt32 (atomGetint b)) with
      | none => simp
      | some client =>
          simp only
          split
          · exact fun t ht => accepted_plain t (Server.inert_infoClient env x client t ht).1
          · exact accepted_sendBytes env x client _

/-- No message accepts a connection, whatever the table is like. -/
theorem accepted_expandInput (ha : a.isMessage = true)
    (hexpand : x.expandInput serial env a = some (x', tasks)) :
    ∀ t ∈ tasks, t.accepted = none := by
  have hpair : ∀ {p : Server × List Task}, some p = some (x', tasks) →
      (∀ t ∈ p.2, t.accepted = none) → ∀ t ∈ tasks, t.accepted = none := by
    intro p hp htasks
    rw [Option.some.inj hp] at htasks
    exact htasks
  cases a with
  | incoming fd o => contradiction
  | received fd c => contradiction
  | disconnectClient f | disconnectSocket f | disconnectAll =>
      exact hpair hexpand (by simp [Task.accepted])
  | sendSocket argv => exact hpair hexpand (accepted_sendSocket env x argv)
  | sendClient argv => exact hpair hexpand (accepted_sendClient env x argv)
  | broadcast argv => exact hpair hexpand (accepted_broadcast serial env x argv)
  | defaultsend argv => exact hpair hexpand (accepted_defaultsend serial env x argv)
  | defaulttarget f | targetsocket f | serialize f | accept f | maxconnections f =>
      exact hpair hexpand (by simp)
  | port f o =>
      apply hpair hexpand
      exact List.forall_mem_append.2 ⟨accepted_outputs _, by simp [Task.accepted]⟩
  | info =>
      apply hpair hexpand
      unfold Server.infoTasks
      split
      · simp
      · cases x.reportedPort env with
        | none => simp
        | some port =>
            exact List.forall_mem_append.2 ⟨accepted_outputs _, by simp [Task.accepted]⟩

/-- A connection that has been accepted waits behind everything else. -/
def Waiting (stack : List Task) : Prop :=
  ∀ t ∈ stack.dropLast, t.accepted = none

/-- Tasks that bring no connection go in front of the others. -/
theorem Waiting.append (h : Waiting rest) (hts : ∀ t ∈ ts, t.accepted = none) :
    Waiting (ts ++ rest) := by
  rcases eq_or_ne rest [] with rfl | hne
  · rw [List.append_nil]
    exact fun t ht => hts t (List.mem_of_mem_dropLast ht)
  · rw [Waiting, List.dropLast_append_of_ne_nil hne]
    exact List.forall_mem_append.2 ⟨hts, h⟩

/-- Only the last task can be that of a connection. -/
theorem Waiting.head (h : Waiting (t :: rest)) (hne : rest ≠ []) : t.accepted = none := by
  apply h
  rw [List.dropLast_cons_of_ne_nil hne]
  exact List.mem_cons_self

/-- Working a task off brings no connection. -/
theorem Waiting.worked (h : Waiting (t :: rest)) (x : Server) :
    Waiting ((x.expand t).2 ++ rest) := by
  have hrest : Waiting rest := by
    rcases eq_or_ne rest [] with rfl | hne
    · exact fun t ht => absurd ht List.not_mem_nil
    · intro t' ht'
      apply h
      rw [List.dropLast_cons_of_ne_nil hne]
      exact List.mem_cons_of_mem t ht'
  refine hrest.append fun t' ht' => ?_
  have hnone := pending_expand x t
  exact List.filterMap_eq_nil_iff.1 hnone t' ht'

/-- Of what a poll function begins with, only the last task can be that of a connection. -/
theorem waiting_expandInput (ha : a.isMessage = false)
    (hexpand : x.expandInput serial env a = some (x', tasks)) : Waiting tasks := by
  have hpair : ∀ {p : Server × List Task}, some p = some (x', tasks) →
      Waiting p.2 → Waiting tasks := by
    intro p hp htasks
    rw [Option.some.inj hp] at htasks
    exact htasks
  have hnone : ∀ {ts : List Task}, (∀ t ∈ ts, t.accepted = none) → Waiting ts :=
    fun hts t ht => hts t (List.mem_of_mem_dropLast ht)
  cases a with
  | incoming fd o =>
      simp only [Server.expandInput] at hexpand
      split at hexpand
      · split at hexpand
        · exact hpair hexpand (hnone (by simp))
        · split at hexpand
          · apply hpair hexpand
            exact hnone (List.forall_mem_append.2 ⟨accepted_outputs _, by simp [Task.accepted]⟩)
          · apply hpair hexpand
            rw [Waiting, List.dropLast_concat]
            exact accepted_outputs _
      · contradiction
  | received fd c =>
      simp only [Server.expandInput] at hexpand
      rcases hpoll : x.pollfn fd with _ | _ | y
      · rw [hpoll] at hexpand
        contradiction
      · rw [hpoll] at hexpand
        contradiction
      · simp only [hpoll] at hexpand
        split at hexpand
        · exact hpair hexpand (hnone (by simp))
        · cases c with
          | none => exact hpair hexpand (hnone (by simp [Task.accepted]))
          | some c =>
              apply hpair hexpand
              apply hnone
              refine List.forall_mem_append.2 ⟨fun t ht => ?_, by simp [Task.accepted]⟩
              exact accepted_plain t (Server.plain_connection y .receive t ht)
  | _ => contradiction

/-- An input brings a connection only where nothing else is to be done. -/
theorem Waiting.received {stack : List Task} (h : Waiting stack)
    (hrec : receptive stack a = true)
    (hexpand : x.expandInput serial env a = some (x', tasks)) : Waiting (tasks ++ stack) := by
  cases hmessage : a.isMessage with
  | true => exact h.append (accepted_expandInput hmessage hexpand)
  | false =>
      have hidle : stack = [] := by
        rcases stack with _ | ⟨t, rest⟩
        · rfl
        · cases t <;> simp [receptive, hmessage] at hrec
      subst hidle
      rw [List.append_nil]
      exact waiting_expandInput hmessage hexpand

end Accepted

/-! ## Steps -/

/-- The connections of a state are in order. -/
def State.Sound (s : State) (l : List SocketReceiver) : Prop :=
  s.server.Sound l (pending s.stack) (ports s.stack)

/-- Working off a task. -/
theorem State.Sound.worked (h : s.Sound l) (hstack : s.stack = t :: rest)
    (hposs : t.Possible s.server) (hfilled : ∀ p ∈ t.removal, s.server.slot p.1 ≠ none) :
    ∃ l', (s.worked t rest).Sound l' ∧
      Server.TableStep s.server l t (s.worked t rest).server l' := by
  unfold State.Sound at h
  rw [hstack, pending, ports, filterMap_cons_toList, filterMap_cons_toList] at h
  rcases h.expand hposs hfilled with ⟨l', hsound, htable⟩
  refine ⟨l', ?_, htable⟩
  show (s.server.expand t).1.Sound l' (pending ((s.server.expand t).2 ++ rest))
    (ports ((s.server.expand t).2 ++ rest))
  have hpending := pending_expand s.server t
  have hports := ports_expand s.server t
  rw [pending] at hpending
  rw [ports] at hports
  rw [pending, ports, List.filterMap_append, List.filterMap_append, hpending, hports]
  exact hsound

/-- Taking an input. -/
theorem State.Sound.received {env : Env} {a : Input} {tasks : List Task} (h : s.Sound l)
    (hrec : receptive s.stack a = true)
    (hexpand : s.server.expandInput s.serial env a = some (x, tasks)) :
    (s.received x tasks).Sound l ∧ x.freed = s.server.freed ∧ removals tasks = [] := by
  have happend : ∀ (ts : List Task), pending (ts ++ s.stack) = pending ts ++ pending s.stack ∧
      ports (ts ++ s.stack) = ports ts ++ ports s.stack := fun ts =>
    ⟨List.filterMap_append, List.filterMap_append⟩
  show x.Sound l (pending (tasks ++ s.stack)) (ports (tasks ++ s.stack)) ∧ _
  rw [(happend tasks).1, (happend tasks).2]
  cases Server.opening h.tabled hexpand with
  | plain hsame hts =>
      rw [pending, ports, removals, filterMap_plain accepted_plain hts,
        filterMap_plain listener_plain hts, filterMap_plain removal_plain hts]
      exact ⟨Server.Sound.undisturbed h hsame, hsame.freed, rfl⟩
  | accept o ha hfresh =>
      have hidle : s.stack = [] := by
        rcases hstack : s.stack with _ | ⟨t, rest⟩
        · rfl
        · rw [hstack] at hrec
          cases t <;> simp [receptive, ha] at hrec
      unfold State.Sound at h
      rw [hidle] at h ⊢
      have hplain := Server.plain_of_inert (Server.inert_outputs (Server.eventOutputs .connect))
      rw [pending, ports, removals, List.filterMap_append, List.filterMap_append,
        List.filterMap_append, filterMap_plain accepted_plain hplain,
        filterMap_plain listener_plain hplain, filterMap_plain removal_plain hplain]
      exact ⟨h.accepting hfresh, rfl, rfl⟩
  | port env f o =>
      have hplain := Server.plain_of_inert
        (Server.inert_outputs (Server.eventOutputs .serverInfo))
      rw [pending, ports, removals, List.filterMap_append, List.filterMap_append,
        List.filterMap_append, filterMap_plain accepted_plain hplain,
        filterMap_plain listener_plain hplain, filterMap_plain removal_plain hplain]
      exact ⟨Server.Sound.watched h, rfl, rfl⟩
  | broadcast env srs chunk hsame =>
      exact ⟨Server.Sound.undisturbed h (hsame.undisturbed h.tabled), hsame.freed, rfl⟩

/-! ## A new server -/

/-- The table does not depend on the port. -/
theorem sameTable_setPort (env : Env) (x : Server) (f : FloatArg) (o : PortOutcome) :
    x.SameTable (Server.setPort emit env x f o) := by
  have hlogged : ∀ (x : Server) (os : List Output), x.SameTable (x.logged os) := fun x os =>
    ⟨rfl, rfl, rfl, rfl⟩
  simp only [Server.setPort, Server.infoEvent_emit, Server.emit_eq]
  have hevent := hlogged x (Server.eventOutputs .serverInfo)
  have hclosed := hevent.trans (Server.sameTable_closePort _ x.connectsocket)
  split
  · exact hevent
  · cases o.socket with
    | none => exact hclosed
    | some fd =>
        simp only
        generalize (x.logged (Server.eventOutputs .serverInfo)).closePort x.connectsocket = x₁
          at hclosed
        have hopened : x.SameTable { x₁ with os := x₁.os.acquire fd } :=
          hclosed.trans ⟨rfl, rfl, rfl, rfl⟩
        have hfailed := (hopened.trans (Server.sameTable_closesocket _ fd)).trans
          (hlogged _ [.plain .statusout "port" [setInt (-1)]])
        split
        · exact hfailed
        · split
          · exact hfailed
          · rcases Server.socket2addressout_emit { x₁ with
                os := x₁.os.acquire fd
                polls := x₁.polls ++ [(fd, none)]
                connectsocket := fd
                port := Server.usedPort { x₁ with os := x₁.os.acquire fd } env f.toInt }
              "local_address" env.address with ⟨outputs, -, heq⟩
            rw [heq]
            exact hopened.trans ⟨rfl, rfl, rfl, rfl⟩

/-- A new server has no connections. -/
theorem sound_start (hinit : tcpserverMachine.init x) :
    (State.start x).Sound [] ∧ x.freed = [] := by
  rcases hinit with ⟨abi, env, f, o, ho, rfl⟩
  have hsame : (Server.blank abi env).SameTable (Server.new emit abi env f o) :=
    sameTable_setPort env _ f o
  have heffect : Server.Effect (Server.blank abi env) [] env (.port f o)
      (Server.new emit abi env f o) := Server.new_effect abi f ho
  rcases heffect.inv (Server.inv_blank abi env) with ⟨l, hl⟩
  have hnil : l = [] := by
    have hn := hl.nconnections_eq.symm.trans hsame.nconnections
    exact List.length_eq_zero_iff.1 hn
  subst hnil
  refine ⟨⟨hl.tabled, ?_, List.nodup_nil, List.nodup_nil, hl.freed_lt, ?_⟩, hsame.freed⟩
  · exact fun p hp => absurd hp List.not_mem_nil
  · intro hopen
    rcases hl.live with ⟨ports, hperm, hports⟩
    rcases hports with ⟨hclosed, -⟩ | ⟨-, k, -, rfl⟩
    · exact absurd hopen (Int.not_le.2 hclosed)
    · exact List.mem_map.2 ⟨_, hperm.mem_iff.2 (List.mem_append_right _ List.mem_cons_self), rfl⟩

end Reentrant
end Iemnet.TcpServer
