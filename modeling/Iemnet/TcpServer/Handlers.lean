import Iemnet.TcpServer.Operations

/-!
# The message handlers of the TCP server

Exact descriptions of the handlers over the list of clients, for a patch that does
not answer.  All handlers that send reduce to offering a chunk to some of the
clients one after the other; {lit}`Server.recipients` says to whom.

Main results:

- Theorem {lit}`offer_cases`: what offering a chunk to one client does.
- Theorem {lit}`sending_eq`: every sending handler is a sequence of offers.
- Theorem {lit}`disconnectAll_eq`: which clients {lit}`tcpserver_disconnect_all`
  leaves.
-/

namespace Iemnet.TcpServer

open Pd Foundations

/-- The result of {lit}`iemnet__sender_send`, {lit}`-1` without a sender. -/
def Env.result (env : Env) (y : SocketReceiver) : Int :=
  if y.hasSender then env.sent y.id else -1

namespace Server

variable {x : Server} {l : List SocketReceiver} {y : SocketReceiver}

/-! ## Offering a chunk to one client -/

/-- The server after an offer, before the client is dropped for it. -/
def attempted (env : Env) (chunk : Option Chunk) (x : Server) (p : SocketReceiver × Nat) :
    Server :=
  { x with
    sends := if p.1.hasSender then x.sends ++ [(p.1, chunk, env.result p.1)] else x.sends
    }.logged (sendOutputs p.2 (env.result p.1) p.1)

/-- Offer a chunk to a client under an index. -/
def offer (env : Env) (chunk : Option Chunk) (x : Server) (p : SocketReceiver × Nat) :
    Server :=
  sendBytesClient emit env x (some p.1) p.2 chunk

/-- An attempt to send leaves the table alone. -/
theorem quiet_attempted (env : Env) (chunk : Option Chunk) (x : Server)
    (p : SocketReceiver × Nat) : x.Quiet (x.attempted env chunk p) :=
  ⟨_, _, _, _, rfl, fun _ => Iff.rfl⟩

/-- Reading a client leaves the table alone. -/
theorem quiet_access (x : Server) (y : SocketReceiver) : x.Quiet (x.access y) := by
  unfold access
  split
  · refine ⟨_, _, _, _, rfl, ?_⟩
    intro i
    simp
  · exact Quiet.refl x

/-- The index found for a descriptor depends on the clients only. -/
theorem Quiet.dropIndex {x' : Server} (hq : x.Quiet x') (fsocket : FloatArg) :
    x'.dropIndex fsocket = x.dropIndex fsocket := by
  obtain ⟨log, faults, sends, floatlist, rfl, _⟩ := hq
  rfl

/-- Offering a chunk is an attempt, and a disconnection if it fails. -/
theorem offer_eq (env : Env) (chunk : Option Chunk) (x : Server)
    (p : SocketReceiver × Nat) :
    x.offer env chunk p =
      if env.result (x.current p.1) < 0 then
        disconnectSocket emit ((x.access p.1).attempted env chunk (x.current p.1, p.2))
          (FloatArg.ofInt (x.current p.1).fd)
      else (x.access p.1).attempted env chunk (x.current p.1, p.2) := by
  have hcurrent : (x.access p.1).current p.1 = x.current p.1 := by
    unfold access
    split <;> rfl
  simp only [offer, sendBytesClient, hcurrent, infoEvent_emit, emit_eq, logged_logged]
  by_cases hs : (x.current p.1).hasSender = true
  · simp [attempted, Env.result, sendOutputs, hs]
  · simp [attempted, Env.result, sendOutputs, hs]

/-- The index of the client that is dropped when the chunk could not be sent. -/
def dropFor (x : Server) (env : Env) (y : SocketReceiver) : Option Nat :=
  if env.result y < 0 then x.dropIndex (FloatArg.ofInt y.fd) else none

/-- Who is dropped is in the table. -/
theorem dropFor_lt {env : Env} {i : Nat} (h : x.Tabled l) (hi : x.dropFor env y = some i) :
    i < l.length := by
  unfold dropFor at hi
  split at hi
  · exact dropIndex_lt h hi
  · contradiction

/-- Output does not change who is dropped. -/
theorem Quiet.dropFor {x' : Server} (hq : x.Quiet x') (env : Env) (y : SocketReceiver) :
    x'.dropFor env y = x.dropFor env y := by
  unfold Server.dropFor
  rw [hq.dropIndex]

/-- A failed attempt disconnects the client that its descriptor leads to. -/
theorem disconnect_attempted {env : Env} (h : x.Tabled l) (chunk : Option Chunk)
    (p : SocketReceiver × Nat) :
    (if env.result p.1 < 0 then
      disconnectSocket emit (x.attempted env chunk p) (FloatArg.ofInt p.1.fd)
    else x.attempted env chunk p) =
      match x.dropFor env p.1 with
      | none => x.attempted env chunk p
      | some i => disconnect emit (x.attempted env chunk p) i := by
  have hq := quiet_attempted env chunk x p
  unfold Server.dropFor
  split
  · have heq := disconnectSocket_eq (h.quiet hq) (FloatArg.ofInt p.1.fd)
    rw [hq.dropIndex] at heq
    exact heq
  · rfl

/-- Offering a chunk to a client that is still there. -/
theorem offer_of_notMem (h : x.Tabled l) {env : Env} {chunk : Option Chunk}
    {p : SocketReceiver × Nat} (hp : p.1.id ∉ x.freed) :
    x.offer env chunk p =
      match x.dropFor env p.1 with
      | none => x.attempted env chunk p
      | some i => disconnect emit (x.attempted env chunk p) i := by
  rw [offer_eq, current_of_notMem hp, access_of_notMem hp, ← disconnect_attempted h chunk p]

/-- A freed socketreceiver has no descriptor to be dropped for. -/
theorem dropFor_freed (h : x.Tabled l) (env : Env) (hy : y.id ∈ x.freed) :
    x.dropFor env (x.current y) = none := by
  have hcleared : (x.current y).fd = -1 := by
    rw [current, if_pos hy]
  have hint : (FloatArg.ofInt (-1)).toInt = -1 := FloatArg.toInt_ofInt (by decide)
  have hnone : (l.findIdx? fun z => z.fd = (-1 : Int)) = none := by
    rw [List.findIdx?_eq_none_iff]
    intro z hz
    have := (h.range z hz).1
    simp only [decide_eq_false_iff_not]
    omega
  unfold dropFor dropIndex
  rw [hcleared, hint, h.clients_eq, hnone]
  split <;> rfl

/-- Offering a chunk to a client that has been freed. -/
theorem offer_freed (h : x.Tabled l) {env : Env} {chunk : Option Chunk}
    {p : SocketReceiver × Nat} (hp : p.1.id ∈ x.freed) :
    x.offer env chunk p = (x.access p.1).attempted env chunk (x.current p.1, p.2) := by
  have haccess := quiet_access x p.1
  have hnone := (haccess.dropFor env (x.current p.1)).trans (dropFor_freed h env hp)
  rw [offer_eq, disconnect_attempted (h.quiet haccess) chunk (x.current p.1, p.2), hnone]

/-- Whatever is offered to whomever: the table stays, or one entry is erased, and
then on account of a failed send. -/
theorem offer_cases (h : x.Tabled l) (env : Env) (chunk : Option Chunk)
    (p : SocketReceiver × Nat) :
    ∃ x₁, x.Quiet x₁ ∧ (x.offer env chunk p = x₁ ∨
      ∃ i z, x.dropFor env p.1 = some i ∧ l[i]? = some z ∧
        x.offer env chunk p = x₁.dropped l i z) := by
  by_cases hp : p.1.id ∈ x.freed
  · exact ⟨_, (quiet_access x p.1).trans
      (quiet_attempted env chunk (x.access p.1) (x.current p.1, p.2)), Or.inl (offer_freed h hp)⟩
  · have hq := quiet_attempted env chunk x p
    refine ⟨_, hq, ?_⟩
    rw [offer_of_notMem h hp]
    cases hdrop : x.dropFor env p.1 with
    | none => exact Or.inl rfl
    | some i =>
        have hi := dropFor_lt h hdrop
        refine Or.inr ⟨i, l[i], rfl, List.getElem?_eq_getElem hi, ?_⟩
        exact disconnect_eq (h.quiet hq) (List.getElem?_eq_getElem hi)

/-! ## The sending handlers -/

/-- The socketreceivers in a snapshot with the indices they are sent under. -/
def someEntries (srs : List (Option SocketReceiver)) (i : Nat) :
    List (SocketReceiver × Nat) :=
  (srs.zipIdx i).filterMap fun p => p.1.map fun y => (y, p.2)

/-- The loop offers the chunk to everybody in the snapshot. -/
theorem sendBytesClients_eq (env : Env) (x : Server) (srs : List (Option SocketReceiver))
    (i : Nat) (chunk : Option Chunk) :
    sendBytesClients emit env x srs i chunk = (someEntries srs i).foldl (offer env chunk) x := by
  induction srs generalizing x i with
  | nil => rfl
  | cons sr srs ih =>
      cases sr with
      | none => exact ih x (i + 1)
      | some y => exact ih (x.offer env chunk (y, i)) (i + 1)

/-- The snapshot of a table in order shows its clients. -/
theorem snapshot_eq (h : x.Tabled l) : x.snapshot = (x, l.map some) := by
  have htouch : ∀ indices : List Nat, (∀ i ∈ indices, i < l.length) →
      indices.foldl touch x = x := by
    intro indices hlt
    induction indices with
    | nil => rfl
    | cons i indices ih =>
        rw [List.foldl_cons, h.touch_eq (hlt i List.mem_cons_self)]
        exact ih fun j hj => hlt j (List.mem_cons_of_mem i hj)
  have hslots : (List.range l.length).map x.slot = l.map some := by
    apply List.ext_getElem (by simp)
    intro i hi _
    have hil : i < l.length := by simpa using hi
    simp [h.slot_eq, hil]
  rw [snapshot, h.nconnections_eq, htouch _ fun i hi => List.mem_range.1 hi, hslots]

/-- All clients with their indices. -/
def everyone (x : Server) : List (SocketReceiver × Nat) :=
  x.clients.zipIdx

/-- The client with one index. -/
def only (x : Server) (i : Nat) : List (SocketReceiver × Nat) :=
  x.clients[i]?.toList.map fun y => (y, i)

/-- All clients but the one with one index. -/
def others (x : Server) (i : Nat) : List (SocketReceiver × Nat) :=
  x.everyone.filter fun p => p.2 ≠ i

/-- Without empty slots the entries are the clients with their indices. -/
theorem someEntries_map_some (l : List SocketReceiver) (i : Nat) :
    someEntries (l.map some) i = l.zipIdx i := by
  induction l generalizing i with
  | nil => rfl
  | cons y l ih => simpa [someEntries, List.zipIdx_cons] using ih (i + 1)

/-- The entries without one client are the others. -/
theorem someEntries_set_none (l : List SocketReceiver) (but i : Nat) :
    someEntries ((l.map some).set but none) i =
      (l.zipIdx i).filter fun p => p.2 ≠ but + i := by
  induction l generalizing but i with
  | nil => rfl
  | cons y l ih =>
      cases but with
      | zero =>
          have hlater : ∀ p ∈ l.zipIdx (i + 1), p.2 ≠ i := fun p hp => by
            have := List.le_snd_of_mem_zipIdx hp
            omega
          have hrest := someEntries_map_some l (i + 1)
          have hkeep : (l.zipIdx (i + 1)).filter (fun p => p.2 ≠ i) = l.zipIdx (i + 1) :=
            List.filter_eq_self.2 fun p hp => by simpa using hlater p hp
          simp only [List.map_cons, List.set_cons_zero, List.zipIdx_cons, Nat.zero_add,
            List.filter_cons, ne_eq, not_true_eq_false, decide_false, Bool.false_eq_true,
            if_false] at *
          rw [hkeep]
          exact hrest
      | succ but =>
          have hne : i ≠ but + 1 + i := by omega
          have hshift : but + 1 + i = but + (i + 1) := by omega
          have hrest := ih but (i + 1)
          rw [← hshift] at hrest
          simp only [List.map_cons, List.set_cons_succ, List.zipIdx_cons, List.filter_cons,
            ne_eq, hne, not_false_eq_true, decide_true, if_true]
          rw [← hrest]
          rfl

/-- A broadcast offers the chunk to everyone. -/
theorem broadcast_eq (h : x.Tabled l) (env : Env) (argv : List Atom) :
    broadcast emit env x argv =
      x.everyone.foldl (offer env (chunkCreateList env.mem argv)) x := by
  unfold broadcast everyone
  rw [h.clients_eq]
  by_cases hnone : x.nconnections = 0
  · have hnil : l = [] := List.length_eq_zero_iff.1 (h.nconnections_eq ▸ hnone)
    rw [if_pos hnone, hnil]
    rfl
  · rw [if_neg hnone, snapshot_eq h]
    exact (sendBytesClients_eq env x _ 0 _).trans (by rw [someEntries_map_some])

/-- Sending to all but one offers the chunk to the others. -/
theorem sendButclient_eq (h : x.Tabled l) (env : Env) (but : Nat) (argv : List Atom) :
    sendButclient emit env x but argv =
      (x.others but).foldl (offer env (chunkCreateList env.mem argv)) x := by
  unfold sendButclient others everyone
  rw [h.clients_eq]
  by_cases hnone : x.nconnections = 0
  · have hnil : l = [] := List.length_eq_zero_iff.1 (h.nconnections_eq ▸ hnone)
    rw [if_pos hnone, hnil]
    rfl
  · rw [if_neg hnone, snapshot_eq h]
    exact (sendBytesClients_eq env x _ 0 _).trans (by rw [someEntries_set_none]; rfl)

/-- Sending to one offers the chunk to it. -/
theorem sendToclient_eq (h : x.Inv l) (env : Env) {i : Nat} (hi : i < l.length)
    (argv : List Atom) :
    sendToclient emit env x i argv =
      (x.only i).foldl (offer env (chunkCreateList env.mem argv)) x := by
  have hmax : i < x.maxconnections := Nat.lt_of_lt_of_le hi h.length_le
  simp only [sendToclient, sendBytes, hmax, if_true, h.touch_eq hi, h.slot_eq, only,
    h.clients_eq, List.getElem?_eq_getElem hi]
  rfl

/-- The client that the default target stands for. -/
def targetIndex (x : Server) : Option Nat :=
  x.clients.findIdx? fun y => y.fd = (x.defaulttarget.natAbs : Int)

/-- Who gets a plain list. -/
def targets (x : Server) : List (SocketReceiver × Nat) :=
  match x.targetIndex with
  | none => x.everyone
  | some i =>
      if 0 < x.defaulttarget then x.only i
      else if x.defaulttarget < 0 then x.others i
      else x.everyone

/-- The default target after a plain list. -/
def settledTarget (x : Server) : Int :=
  if x.targetIndex.isSome then x.defaulttarget else 0

/-- Another target keeps the invariant. -/
theorem Inv.retarget (h : x.Inv l) (sockfd : Int) :
    { x with defaulttarget := sockfd }.Inv l :=
  ⟨h.sr_eq, h.nconnections_eq, h.length_le, h.max_lt, h.owner, h.range, h.notFreed,
    h.freed_lt, h.accounted, h.stray, h.live, h.mem_accepted, h.accepted_lt, h.accepted_fd,
    h.polls_nodup, h.mem_polls⟩

/-- An index that is found is one of the list. -/
theorem findIdx_lt {p : SocketReceiver → Bool} {i : Nat} (hi : l.findIdx? p = some i) :
    i < l.length :=
  (List.findIdx?_eq_some_iff_getElem.1 hi).1

/-- A plain list offers the chunk to the targets. -/
theorem defaultsend_eq (h : x.Inv l) (env : Env) (argv : List Atom) :
    defaultsend emit env x argv =
      x.targets.foldl (offer env (chunkCreateList env.mem argv))
        { x with defaulttarget := x.settledTarget } := by
  have hbroadcast := broadcast_eq (h.retarget 0).tabled env argv
  by_cases hpos : 0 < x.defaulttarget
  · have habs : (x.defaulttarget.natAbs : Int) = x.defaulttarget := by omega
    unfold defaultsend targets settledTarget targetIndex
    rw [if_pos hpos, socket2index_eq h.tabled, h.clients_eq, habs]
    cases hfind : l.findIdx? fun y => y.fd = x.defaulttarget with
    | none => exact hbroadcast
    | some i =>
        simp only [hpos, if_true, Option.isSome_some]
        exact sendToclient_eq h env (findIdx_lt hfind) argv
  · by_cases hneg : x.defaulttarget < 0
    · have habs : (x.defaulttarget.natAbs : Int) = -x.defaulttarget := by omega
      unfold defaultsend targets settledTarget targetIndex
      rw [if_neg hpos, if_pos hneg, socket2index_eq h.tabled, h.clients_eq, habs]
      cases hfind : l.findIdx? fun y => y.fd = -x.defaulttarget with
      | none => exact hbroadcast
      | some i =>
          simp only [hpos, hneg, if_true, if_false, Option.isSome_some]
          exact sendButclient_eq h.tabled env i argv
    · have hzero : x.defaulttarget = 0 := by omega
      have hsettled : x.settledTarget = x.defaulttarget := by
        unfold settledTarget
        split <;> omega
      have htargets : x.targets = x.everyone := by
        unfold targets
        cases x.targetIndex with
        | none => rfl
        | some i => simp only [hpos, hneg, if_false]
      rw [defaultsend, if_neg hpos, if_neg hneg, hsettled, htargets]
      exact broadcast_eq h.tabled env argv

/-- To whom an input offers its chunk. -/
def recipients (x : Server) : Input → List (SocketReceiver × Nat)
  | .broadcast _ => x.everyone
  | .defaultsend _ => x.targets
  | .sendClient (a :: _ :: _) => (x.fixindex (toInt32 (atomGetint a))).elim [] x.only
  | .sendSocket (a :: _) =>
      if a.type = .float then
        (x.clients.findIdx? fun y => y.fd = toInt32 (atomGetint a)).elim [] x.only
      else []
  | _ => []

/-- Everyone is every client with its index. -/
theorem mem_everyone (h : x.Inv l) {p : SocketReceiver × Nat} :
    p ∈ x.everyone ↔ l[p.2]? = some p.1 := by
  rw [everyone, h.clients_eq, List.mem_zipIdx_iff_getElem?]

/-- The only one is the client with that index. -/
theorem mem_only (h : x.Inv l) {i : Nat} {p : SocketReceiver × Nat} :
    p ∈ x.only i ↔ l[i]? = some p.1 ∧ p.2 = i := by
  rw [only, h.clients_eq, List.mem_map]
  constructor
  · rintro ⟨y, hy, rfl⟩
    exact ⟨by simpa using hy, rfl⟩
  · rintro ⟨hy, rfl⟩
    exact ⟨p.1, by simpa using hy, rfl⟩

/-- The targets are clients with their indices. -/
theorem mem_targets (h : x.Inv l) {p : SocketReceiver × Nat} (hp : p ∈ x.targets) :
    l[p.2]? = some p.1 := by
  have honly : ∀ i, p ∈ x.only i → l[p.2]? = some p.1 := fun i hmem => by
    rcases (mem_only h).1 hmem with ⟨hy, rfl⟩
    exact hy
  have hothers : ∀ i, p ∈ x.others i → l[p.2]? = some p.1 := fun i hmem =>
    (mem_everyone h).1 (List.mem_of_mem_filter hmem)
  unfold targets at hp
  cases htarget : x.targetIndex with
  | none => simp only [htarget, mem_everyone h] at hp; exact hp
  | some i =>
      simp only [htarget] at hp
      split at hp
      · exact honly i hp
      · split at hp
        · exact hothers i hp
        · exact (mem_everyone h).1 hp

/-- Chunks are offered to clients only. -/
theorem mem_recipients (h : x.Inv l) (a : Input) {p : SocketReceiver × Nat}
    (hp : p ∈ x.recipients a) : l[p.2]? = some p.1 := by
  have honly : ∀ o : Option Nat, p ∈ o.elim [] x.only → l[p.2]? = some p.1 := fun o hmem => by
    cases o with
    | none => contradiction
    | some i =>
        rcases (mem_only h).1 hmem with ⟨hy, rfl⟩
        exact hy
  cases a with
  | broadcast argv => exact (mem_everyone h).1 hp
  | defaultsend argv => exact mem_targets h hp
  | sendClient argv =>
      cases argv with
      | nil => contradiction
      | cons a rest =>
          cases rest with
          | nil => contradiction
          | cons b rest => exact honly _ hp
  | sendSocket argv =>
      cases argv with
      | nil => contradiction
      | cons a rest =>
          simp only [recipients] at hp
          split at hp
          · exact honly _ hp
          · contradiction
  | incoming | received | disconnectClient | disconnectSocket | disconnectAll | defaulttarget
  | targetsocket | serialize | accept | maxconnections | port | info => contradiction

/-- Sending by the descriptor offers the chunk to its recipient. -/
theorem sendSocket_eq (h : x.Inv l) (env : Env) (a : Atom) (rest : List Atom) :
    sendSocket emit env x (a :: rest) =
      (x.recipients (.sendSocket (a :: rest))).foldl
        (offer env (chunkCreateList env.mem rest)) x := by
  simp only [sendSocket, recipients, socket2index_eq h.tabled, h.clients_eq]
  cases hfind : l.findIdx? fun y => y.fd = toInt32 (atomGetint a) with
  | none =>
      simp only [Option.elim_none, ite_self]
      rfl
  | some i =>
      simp only [Option.elim_some]
      by_cases htype : a.type = .float
      · rw [if_pos htype, if_pos htype, socket2index_eq h.tabled, hfind]
        exact sendToclient_eq h env (findIdx_lt hfind) rest
      · rw [if_neg htype, if_neg htype]
        rfl

/-- Sending by the number offers the chunk to its recipient. -/
theorem sendClient_eq (h : x.Inv l) (env : Env) (a b : Atom) (rest : List Atom) :
    sendClient emit env x (a :: b :: rest) =
      (x.recipients (.sendClient (a :: b :: rest))).foldl
        (offer env (chunkCreateList env.mem (b :: rest))) x := by
  simp only [sendClient, recipients]
  cases hfix : x.fixindex (toInt32 (atomGetint a)) with
  | none => rfl
  | some i =>
      have hi : i < l.length := h.nconnections_eq ▸ (fixindex_eq_some.1 hfix).2
      simp only [List.cons_ne_nil b rest, if_false, Option.elim_some]
      exact sendToclient_eq h env hi (b :: rest)

/-! ## Information -/

/-- The outputs of {lit}`tcpserver_info_client`. -/
def clientOutputs (env : Env) (client : Nat) (y : SocketReceiver) : List Output :=
  eventOutputs .clientInfo ++
    [⟨.statusout, "client",
        [clientNumber client, setInt y.fd, setSymbol y.hostname, setInt y.port.toNat],
        some y.id⟩,
      ⟨.statusout, "bufsize",
        [clientNumber client, setInt (if y.hasReceiver then 0 else -1),
          setInt (if y.hasSender then env.queued y.id else -1)],
        some y.id⟩]

/-- Information on a client is nothing but output. -/
theorem infoClient_eq (h : x.Inv l) (env : Env) {i : Nat} (hi : l[i]? = some y) :
    infoClient emit env x i = x.logged (clientOutputs env i y) := by
  have hlt : i < l.length := (List.getElem?_eq_some_iff.1 hi).1
  have hmax : i < x.maxconnections := Nat.lt_of_lt_of_le hlt h.length_le
  have hfree := h.notFreed y (List.mem_of_getElem? hi)
  have h₁ := h.logged (eventOutputs .clientInfo)
  have hfree₁ : y.id ∉ (x.logged (eventOutputs .clientInfo)).freed := hfree
  simp only [infoClient, hmax, if_true, h.touch_eq hlt, h.slot_eq, hi, access_of_notMem hfree,
    current_of_notMem hfree, infoEvent_emit, h₁.touch_eq hlt, h₁.slot_eq,
    access_of_notMem hfree₁, emit_eq, logged_logged, clientOutputs, List.append_assoc]
  rfl

/-- Every message about a client carries its current number. -/
def Numbered (l : List SocketReceiver) (outputs : List Output) : Prop :=
  ∀ o ∈ outputs, ∀ id, o.about = some id →
    ∃ i y, l[i]? = some y ∧ y.id = id ∧ o.argv.head? = some (clientNumber i)

/-- Outputs about nobody have no wrong numbers. -/
theorem numbered_plain {outputs : List Output} (h : ∀ o ∈ outputs, o.about = none) :
    Numbered l outputs := by
  intro o ho id hid
  rw [h o ho] at hid
  contradiction

/-- Outputs one after the other have the right numbers if both do. -/
theorem Numbered.append {a b : List Output} (ha : Numbered l a) (hb : Numbered l b) :
    Numbered l (a ++ b) := by
  intro o ho
  cases List.mem_append.1 ho with
  | inl hin => exact ha o hin
  | inr hin => exact hb o hin

/-- The output of an event is about nobody. -/
theorem eventOutputs_about (event : InfoEvent) : ∀ o ∈ eventOutputs event, o.about = none := by
  cases event <;> simp [eventOutputs, infoEventName, Output.plain]

/-- Information on a client has its number. -/
theorem numbered_clientOutputs (env : Env) {i : Nat} (hi : l[i]? = some y) :
    Numbered l (clientOutputs env i y) := by
  apply (numbered_plain (eventOutputs_about _)).append
  intro o ho id hid
  refine ⟨i, y, hi, ?_⟩
  simp only [List.mem_cons, List.not_mem_nil, or_false] at ho
  rcases ho with rfl | rfl
  · exact ⟨Option.some.inj hid, rfl⟩
  · exact ⟨Option.some.inj hid, rfl⟩

/-- Information on many clients is nothing but output with the right numbers. -/
theorem infoClients_eq (h : x.Inv l) (env : Env) (fuel i : Nat) :
    ∃ outputs, infoClients emit env x fuel i = x.logged outputs ∧ Numbered l outputs := by
  induction fuel generalizing x i with
  | zero => exact ⟨[], logged_nil.symm, numbered_plain (by simp)⟩
  | succ fuel ih =>
      rw [infoClients, h.nconnections_eq]
      by_cases hi : i < l.length
      · have hget := List.getElem?_eq_getElem hi
        rw [if_pos hi, infoClient_eq h env hget]
        rcases ih (h.logged (clientOutputs env i l[i])) (i + 1) with ⟨outputs, heq, hnum⟩
        exact ⟨_, heq.trans (logged_logged _ _), (numbered_clientOutputs env hget).append hnum⟩
      · rw [if_neg hi]
        exact ⟨[], logged_nil.symm, numbered_plain (by simp)⟩

end Server
end Iemnet.TcpServer
