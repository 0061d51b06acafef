import Iemnet.Foundations.Demultiplex
import Iemnet.TcpServer.Table

/-!
# What a patch can know

The outlets are all that a patch has.  It can keep the list of the connected sockets by
the type messages and the numbers on the socket outlet, and it can add what comes out of
the message outlet to the socket that was named last.

Main results:

- Theorem {lit}`Reports.knows`: a patch that knows the clients and their data still does
  after a report.
- Theorem {lit}`Reports.carries`: a report carries its data under the sockets that it came
  in on.
-/

namespace Iemnet.TcpServer

open Pd Foundations

/-! ## The patch -/

/-- A patch that listens: the last type message, the last number on the socket outlet, the
sockets it takes for connected with what has come in on each, and the last number of
connections. -/
structure Observer where
  event : Option Atom
  socket : Option Atom
  inbox : List (Atom × List Atom)
  connections : Option Atom
deriving DecidableEq, Repr

namespace Observer

/-- Before the first message. -/
def start : Observer :=
  ⟨none, none, [], some (setInt 0)⟩

/-- A number on the socket outlet, after a type message. -/
def hearSocket (s : Observer) (fd : Atom) : Observer :=
  { s with
    socket := some fd
    inbox :=
      if s.event = some (setSymbol "connect") then s.inbox ++ [(fd, [])]
      else if s.event = some (setSymbol "disconnect") then s.inbox.eraseP fun r => r.1 = fd
      else s.inbox }

/-- A list on the message outlet belongs to the last socket. -/
def hearData (s : Observer) (argv : List Atom) : Observer :=
  { s with inbox := s.inbox.map fun r => if s.socket = some r.1 then (r.1, r.2 ++ argv) else r }

/-- One message from the object. -/
def hear (s : Observer) (o : Output) : Observer :=
  if o.outlet = .statusout ∧ o.selector = "type" then { s with event := o.argv.head? }
  else if o.outlet = .statusout ∧ o.selector = "connections" then
    { s with connections := o.argv.head? }
  else if o.outlet = .sockout then o.argv.foldl hearSocket s
  else if o.outlet = .msgout then s.hearData o.argv
  else s

end Observer

/-- A message as an element of a tagged stream: a number on the socket outlet is a tag, and
every atom on the message outlet is an item. -/
def signals (o : Output) : List (Signal Atom Atom) :=
  match o.outlet with
  | .sockout => o.argv.map Signal.tag
  | .msgout => o.argv.map Signal.data
  | _ => []

/-- The number that stands for a client on the socket outlet. -/
def SocketReceiver.sock (y : SocketReceiver) : Atom :=
  setInt y.fd

/-- A remark about neither the clients nor their data. -/
def Remark (o : Output) : Prop :=
  o.outlet = .statusout ∧ o.selector ≠ "type" ∧ o.selector ≠ "connections"

/-! ## Reports -/

/-- What the object says while its clients {lit}`l` become {lit}`l'` and the data
{lit}`ps` comes in; serials below {lit}`n` have been given away before. -/
inductive Reports (n : Nat) : List SocketReceiver → List Output →
    List (SocketReceiver × Atom) → List SocketReceiver → Prop
  | nil (l : List SocketReceiver) : Reports n l [] [] l
  | remark (l : List SocketReceiver) (o : Output) (ho : Remark o) : Reports n l [o] [] l
  | event (l : List SocketReceiver) (e : InfoEvent) : Reports n l (Server.eventOutputs e) [] l
  | count (l : List SocketReceiver) : Reports n l (Server.numconnOutputs l.length) [] l
  | come (l : List SocketReceiver) (y : SocketReceiver) (hnew : n ≤ y.id) :
      Reports n l (Server.eventOutputs .connect ++
        (Server.connectionOutputs y .illegal ++ Server.numconnOutputs (l.length + 1))) []
        (l ++ [y])
  | gone (l : List SocketReceiver) (i : Nat) (y : SocketReceiver) (hi : l[i]? = some y)
      (hdistinct : (l.map SocketReceiver.sock).Nodup) :
      Reports n l (Server.connectionOutputs y .disconnect ++
        Server.numconnOutputs (l.eraseIdx i).length) [] (l.eraseIdx i)
  | data (l : List SocketReceiver) (y : SocketReceiver) (messages : List Message) (hy : y ∈ l)
      (hold : y.id < n) (hdistinct : (l.map SocketReceiver.sock).Nodup)
      (hserials : (l.map SocketReceiver.id).Nodup) :
      Reports n l (Server.connectionOutputs y .receive ++
          messages.map fun m => .plain .msgout m.selector m.argv)
        ((messages.flatMap Message.argv).map fun a => (y, a)) l
  | append {l l' l'' : List SocketReceiver} {os os' : List Output}
      {ps ps' : List (SocketReceiver × Atom)} (h : Reports n l os ps l')
      (h' : Reports n l' os' ps' l'') : Reports n l (os ++ os') (ps ++ ps') l''

/-- What has come in from each connection, after some more data. -/
def collected (g : Nat → List Atom) (ps : List (SocketReceiver × Atom)) (id : Nat) :
    List Atom :=
  g id ++ (ps.filter fun p => p.1.id = id).map Prod.snd

/-- The patch knows the clients, and what has come in from each of them. -/
structure Observer.Knows (s : Observer) (l : List SocketReceiver) (g : Nat → List Atom) :
    Prop where
  inbox : s.inbox = l.map fun y => (y.sock, g y.id)
  connections : s.connections = some (setInt l.length)

section Hearing

variable {n : Nat} {s : Observer} {l l' l'' : List SocketReceiver} {os os' : List Output}
  {ps : List (SocketReceiver × Atom)} {g : Nat → List Atom}

/-- A report that begins with messages alone. -/
theorem Reports.after (h : Reports n l os [] l') (h' : Reports n l' os' ps l'') :
    Reports n l (os ++ os') ps l'' :=
  .append h h'

/-- Nothing adds nothing. -/
@[simp]
theorem collected_nil (g : Nat → List Atom) : collected g [] = g := by
  funext id
  exact List.append_nil _

/-- Data one after the other is collected one after the other. -/
theorem collected_append (g : Nat → List Atom) (ps qs : List (SocketReceiver × Atom)) :
    collected (collected g ps) qs = collected g (ps ++ qs) := by
  funext id
  simp [collected]

/-- Data from one connection. -/
theorem collected_map (g : Nat → List Atom) (y : SocketReceiver) (atoms : List Atom) (id : Nat) :
    collected g (atoms.map fun a => (y, a)) id = if y.id = id then g id ++ atoms else g id := by
  by_cases hid : y.id = id
  · simp [collected, hid, List.filter_map, Function.comp_def]
  · simp [collected, hid, List.filter_map, Function.comp_def]

/-- A remark tells the observer nothing. -/
theorem hear_remark (s : Observer) {o : Output} (ho : Remark o) : s.hear o = s := by
  rcases ho with ⟨hout, htype, hconn⟩
  simp [Observer.hear, hout, htype, hconn]

/-- The observer remembers the name of an event. -/
theorem hear_eventOutputs (s : Observer) {e : InfoEvent} {name : String}
    (he : Server.infoEventName e = some name) :
    (Server.eventOutputs e).foldl Observer.hear s =
      { s with event := some (setSymbol name) } := by
  simp [Server.eventOutputs, he, Observer.hear, Output.plain]

/-- The observer remembers the number of connections. -/
theorem hear_numconnOutputs (s : Observer) (k : Nat) :
    (Server.numconnOutputs k).foldl Observer.hear s =
      { s with connections := some (setInt k) } := by
  simp [Server.numconnOutputs, Observer.hear, Output.plain]

/-- Of the messages about a connection only the event and the socket matter. -/
theorem hear_connectionOutputs (s : Observer) (y : SocketReceiver) (e : InfoEvent) :
    (Server.connectionOutputs y e).foldl Observer.hear s =
      ((Server.eventOutputs e).foldl Observer.hear s).hearSocket y.sock := by
  rw [Server.connectionOutputs, List.foldl_append]
  simp [Observer.hear, Output.plain, SocketReceiver.sock]

/-- However data is cut into lists, it is added to the row of the last socket. -/
theorem hear_messages (s : Observer) (messages : List Message) :
    (messages.map fun m => Output.plain .msgout m.selector m.argv).foldl Observer.hear s =
      s.hearData (messages.flatMap Message.argv) := by
  induction messages generalizing s with
  | nil => simp [Observer.hearData]
  | cons m messages ih =>
      have hone : s.hear (.plain .msgout m.selector m.argv) = s.hearData m.argv := by
        simp [Observer.hear, Output.plain]
      rw [List.map_cons, List.foldl_cons, hone, ih, List.flatMap_cons]
      simp only [Observer.hearData, List.map_map]
      congr 1
      apply List.map_congr_left
      intro r _
      by_cases hr : s.socket = some r.1 <;> simp [hr]

/-- A client is found by its number on the socket outlet. -/
theorem findIdx_sock {i : Nat} {y : SocketReceiver} (hi : l[i]? = some y)
    (hdistinct : (l.map SocketReceiver.sock).Nodup) :
    l.findIdx? (fun z => z.sock = y.sock) = some i := by
  rcases List.getElem?_eq_some_iff.1 hi with ⟨hlt, rfl⟩
  rw [List.findIdx?_eq_some_iff_getElem]
  refine ⟨hlt, by simp, ?_⟩
  intro j hj heq
  have hsock : l[j].sock = l[i].sock := by simpa using heq
  have hjlt : j < l.length := hj.trans hlt
  have := SlotTable.index_unique hdistinct (List.getElem?_eq_getElem hjlt) hi hsock
  omega

/-- The row of a client that is gone is taken out. -/
theorem eraseP_row {i : Nat} {y : SocketReceiver} (hi : l[i]? = some y)
    (hdistinct : (l.map SocketReceiver.sock).Nodup) (g : Nat → List Atom) :
    (l.map fun z => (z.sock, g z.id)).eraseP (fun r => r.1 = y.sock) =
      (l.eraseIdx i).map fun z => (z.sock, g z.id) := by
  have hfind := findIdx_sock hi hdistinct
  rw [List.eraseP_map, List.eraseP_eq_eraseIdx]
  simp only [Function.comp_def, hfind]

/-- Data is added to the row of its client. -/
theorem hearData_row {y : SocketReceiver} (hy : y ∈ l)
    (hdistinct : (l.map SocketReceiver.sock).Nodup)
    (hserials : (l.map SocketReceiver.id).Nodup) (g : Nat → List Atom) (atoms : List Atom) :
    (l.map fun z => (z.sock, g z.id)).map
        (fun r => if some y.sock = some r.1 then (r.1, r.2 ++ atoms) else r) =
      l.map fun z => (z.sock, collected g (atoms.map fun a => (y, a)) z.id) := by
  rw [List.map_map]
  apply List.map_congr_left
  intro z hz
  have hsame : y.sock = z.sock ↔ y.id = z.id :=
    ⟨fun h => congrArg _ (List.inj_on_of_nodup_map hdistinct hy hz h),
      fun h => congrArg _ (List.inj_on_of_nodup_map hserials hy hz h)⟩
  rw [collected_map]
  by_cases hid : y.id = z.id
  · simp [hid, hsame.2 hid]
  · simp [hid, mt hsame.1 hid]

/-- A patch that knows the clients and their data still does after a report. -/
theorem Reports.knows (h : Reports n l os ps l') (hs : s.Knows l g)
    (hfresh : ∀ id, n ≤ id → g id = []) :
    (os.foldl Observer.hear s).Knows l' (collected g ps) ∧
      ∀ id, n ≤ id → collected g ps id = [] := by
  induction h generalizing s g with
  | nil l =>
      rw [collected_nil]
      exact ⟨hs, hfresh⟩
  | remark l o ho =>
      rw [List.foldl_cons, hear_remark s ho, collected_nil]
      exact ⟨hs, hfresh⟩
  | event l e =>
      rw [collected_nil]
      cases hname : Server.infoEventName e with
      | none =>
          rw [Server.eventOutputs, hname]
          exact ⟨hs, hfresh⟩
      | some name =>
          rw [hear_eventOutputs s hname]
          exact ⟨⟨hs.inbox, hs.connections⟩, hfresh⟩
  | count l =>
      rw [hear_numconnOutputs, collected_nil]
      exact ⟨⟨hs.inbox, rfl⟩, hfresh⟩
  | come l y hnew =>
      rw [List.foldl_append, List.foldl_append, hear_eventOutputs s rfl,
        hear_connectionOutputs, hear_numconnOutputs, collected_nil]
      refine ⟨⟨?_, by rw [List.length_append]; rfl⟩, hfresh⟩
      rw [List.map_append, ← hs.inbox, List.map_singleton, hfresh y.id hnew]
      rfl
  | gone l i y hi hdistinct =>
      rw [List.foldl_append, hear_connectionOutputs, hear_eventOutputs s rfl,
        hear_numconnOutputs, collected_nil]
      refine ⟨⟨?_, rfl⟩, hfresh⟩
      rw [← eraseP_row hi hdistinct g, ← hs.inbox]
      rfl
  | data l y messages hy hold hdistinct hserials =>
      rw [List.foldl_append, hear_connectionOutputs, hear_eventOutputs s rfl, hear_messages]
      refine ⟨⟨?_, hs.connections⟩, ?_⟩
      · rw [← hearData_row hy hdistinct hserials g, ← hs.inbox]
        rfl
      · intro id hid
        rw [collected_map, if_neg (by omega), hfresh id hid]
  | append h h' ih ih' =>
      rw [List.foldl_append, ← collected_append]
      rcases ih hs hfresh with ⟨hknows, hlater⟩
      exact ih' hknows hlater

/-- A remark is no signal. -/
theorem signals_remark {o : Output} (ho : Remark o) : signals o = [] := by
  rw [signals, ho.1]

/-- An event is no signal. -/
theorem signals_eventOutputs (e : InfoEvent) : (Server.eventOutputs e).flatMap signals = [] := by
  cases e <;> rfl

/-- Information on a connection tags what follows with its descriptor. -/
theorem signals_connectionOutputs (y : SocketReceiver) (e : InfoEvent) :
    (Server.connectionOutputs y e).flatMap signals = [.tag y.sock] := by
  rw [Server.connectionOutputs, List.flatMap_append, signals_eventOutputs]
  rfl

/-- Messages are the numbers in them. -/
theorem signals_messages (messages : List Message) :
    (messages.map fun m => Output.plain .msgout m.selector m.argv).flatMap signals =
      (messages.flatMap Message.argv).map Signal.data := by
  rw [List.flatMap_map, List.map_flatMap]
  rfl

/-- What the patch makes of the data. -/
def heard (ps : List (SocketReceiver × Atom)) : List (Atom × Atom) :=
  ps.map fun p => (p.1.sock, p.2)

/-- A report carries its data under the sockets that it came in on. -/
theorem Reports.carries (h : Reports n l os ps l') :
    Carries (os.flatMap signals) (heard ps) := by
  induction h with
  | nil l => exact carries_nil
  | remark l o ho =>
      rw [List.flatMap_singleton, signals_remark ho]
      exact carries_nil
  | event l e =>
      rw [signals_eventOutputs]
      exact carries_nil
  | count l => exact carries_nil
  | come l y hnew =>
      rw [List.flatMap_append, List.flatMap_append, signals_eventOutputs,
        signals_connectionOutputs]
      exact carries_tag y.sock
  | gone l i y hi hdistinct =>
      rw [List.flatMap_append, signals_connectionOutputs]
      exact carries_tag y.sock
  | data l y messages hy hold hdistinct hserials =>
      rw [List.flatMap_append, signals_connectionOutputs, signals_messages, heard, List.map_map]
      exact carries_block y.sock _
  | append h h' ih ih' =>
      rw [List.flatMap_append, heard, List.map_append]
      exact ih.append ih'

end Hearing

end Iemnet.TcpServer
