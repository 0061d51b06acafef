import Iemnet.UdpServer.Table

/-!
# The clients of the UDP server over whole runs

{lit}`udpserver_sender_remove` empties the slot of a client but leaves the later
clients where they are.  The table stays in order as long as every client that is
disconnected by its index is the last one; clients that expire may stand anywhere.

Main results:

- Theorem {lit}`Holds.step`: what one input does to the list of clients.
- Theorem {lit}`clients_in_order`: the table over runs, and when a removal is right.
-/

namespace Iemnet.UdpServer

open Pd Foundations

/-- The address of a client as its record keeps it. -/
def UdpSender.address (y : UdpSender) : Int × BitVec 16 :=
  (y.host, y.port)

/-- Sending a list to the client fails. -/
def Fails (env : Env) (argv : List Atom) (y : UdpSender) : Prop :=
  env.mem = true ∧ argv ≠ [] ∧ Server.sendSize env y < 0

/-- Of the clients {lit}`l` that a list is sent to, it fails for those only whose index
is as {lit}`ok` says. -/
def FailsOnly (ok : Nat → Nat → Prop) (env : Env) (argv : List Atom) (l : List UdpSender)
    (addressed : Nat → Prop) : Prop :=
  ∀ i y, l[i]? = some y → addressed i → Fails env argv y → ok i l.length

/-- The last of {lit}`n` clients. -/
def Last (i n : Nat) : Prop :=
  i + 1 = n

/-- The input may call {lit}`udpserver_sender_autoremove`. -/
def Input.Checks : Input → Prop
  | .disconnectClient _ | .disconnectAll | .sendClient _ | .broadcast _ | .defaultsend _
  | .info => True
  | _ => False

namespace Server

variable {x : Server} {l : List UdpSender} {y : UdpSender} {env : Env}

/-- The client that {lit}`x_defaulttarget` selects or excludes. -/
def targetIndex (x : Server) : Option Nat :=
  if 0 < x.defaulttarget then (x.socket2index x.defaulttarget).2
  else if x.defaulttarget < 0 then (x.socket2index (-x.defaulttarget)).2
  else none

/-- Every client that the input disconnects by its index {lit}`i`, while there are
{lit}`n` clients, has {lit}`ok i n`: a client that is asked to leave, or one that a
message cannot be sent to. -/
def DisconnectsOnly (ok : Nat → Nat → Prop) (x : Server) (env : Env) : Input → Prop
  | .disconnectClient f => ∀ id ∈ x.fixindex f.toInt, ok id x.nconnections
  | .disconnectAll => ∀ id, id < x.nconnections → ok id x.nconnections
  | .sendClient (a :: argv) =>
      ∀ id ∈ x.fixindex (toInt32 (atomGetint a)), FailsOnly ok env argv x.clients (· = id)
  | .broadcast argv => FailsOnly ok env argv (x.survivors env.now x.clients) fun _ => True
  | .defaultsend argv =>
      match x.targetIndex with
      | some id =>
          FailsOnly ok env argv x.clients fun i => if 0 < x.defaulttarget then i = id else i ≠ id
      | none => FailsOnly ok env argv (x.survivors env.now x.clients) fun _ => True
  | _ => True

/-- The address that an {lit}`addclient` message hands to
{lit}`udpserver_sender_add`. -/
def addRequest (x : Server) (env : Env) : Input → Option (Nat × BitVec 16)
  | .addClient s f =>
      if f.toInt < 1 ∨ 0xFFFF ≤ f.toInt then none
      else (env.host s).map fun addr =>
        (x.abi.toULong (x.abi.ntohl addr).toNat, BitVec.ofNat 16 f.toUInt)
  | _ => none

/-- The address that an input hands to {lit}`udpserver_sender_add`. -/
def asked (x : Server) (env : Env) : Input → Option (Nat × BitVec 16)
  | .received _ (some c) => some (x.abi.toULong c.addr, c.port)
  | a => x.addRequest env a

/-- The input does not disconnect the client by its index: nobody asks for it, and what is
sent does not fail for this client. -/
def Spares (x : Server) (env : Env) (y : UdpSender) : Input → Prop
  | .disconnectClient f => ∀ id ∈ x.fixindex f.toInt, x.slot id ≠ some y
  | .disconnectAll => False
  | .sendClient (_ :: argv) | .broadcast argv | .defaultsend argv => ¬ Fails env argv y
  | _ => True

/-! ## Indices -/

/-- An index that {lit}`udpserver_fixindex` accepts is that of a client. -/
theorem fixindex_lt {client : Int} {id : Nat} (h : x.fixindex client = some id) :
    id < x.nconnections := by
  unfold fixindex at h
  split at h
  · cases h
  · split at h
    · cases h
    · split at h
      · cases h
      · rw [Option.some.injEq] at h
        omega

theorem socket2indexFrom_faults (x : Server) (sockfd : Int) (m i : Nat) :
    ∃ f, (x.socket2indexFrom sockfd m i).1 = { x with faults := f } := by
  induction m generalizing x i with
  | zero => exact ⟨x.faults, rfl⟩
  | succ m ih =>
      rcases touch_faults x i with ⟨f, hf⟩
      rw [socket2indexFrom, slot_touch, hf]
      cases x.slot i with
      | none => exact ⟨_, rfl⟩
      | some y =>
          dsimp only
          split
          · exact ⟨f, rfl⟩
          · rcases ih { x with faults := f } (i + 1) with ⟨g, hg⟩
            exact ⟨g, hg⟩

/-- Looking for a client changes the recorded faults at most. -/
theorem socket2index_faults (x : Server) (sockfd : Int) :
    ∃ f, (x.socket2index sockfd).1 = { x with faults := f } :=
  socket2indexFrom_faults x sockfd x.nconnections 0

/-- A client found by its number is among those that count. -/
theorem socket2indexFrom_lt {sockfd : Int} {m i id : Nat}
    (h : (x.socket2indexFrom sockfd m i).2 = some id) : id < i + m := by
  induction m generalizing x i with
  | zero => cases h
  | succ m ih =>
      rw [socket2indexFrom] at h
      split at h
      · cases h
      · split at h
        · cases h
          omega
        · have := ih h
          omega

/-- An index that the search for a socket finds is that of a client. -/
theorem socket2index_lt {sockfd : Int} {id : Nat} (h : (x.socket2index sockfd).2 = some id) :
    id < x.nconnections := by
  have hlt := socket2indexFrom_lt (intIndex_eq_some.1 h).1
  omega

/-- In a table in order looking for a client changes nothing. -/
theorem socket2indexFrom_fst (h : x.Holds l) (sockfd : Int) (m i : Nat)
    (hm : i + m = l.length) : (x.socket2indexFrom sockfd m i).1 = x := by
  induction m generalizing i with
  | zero => rfl
  | succ m ih =>
      have hi : i < l.length := by omega
      have hslot : x.slot i = some l[i] := by rw [h.slot_eq, List.getElem?_eq_getElem hi]
      rw [socket2indexFrom, h.touch_eq hi]
      simp only [hslot]
      split
      · rfl
      · exact ih (i + 1) (by omega)

/-! ## Targets -/

/-- The server after the search for a target, if there has been one. -/
def Searched (x x₁ : Server) : Prop :=
  x₁ = x ∨ ∃ sockfd, x₁ = (x.socket2index sockfd).1

/-- A search changes nothing but the record of faults. -/
theorem Searched.faults {x₁ : Server} (h : x.Searched x₁) :
    ∃ f, x₁ = { x with faults := f } := by
  rcases h with rfl | ⟨sockfd, rfl⟩
  · exact ⟨x₁.faults, rfl⟩
  · exact socket2index_faults x sockfd

/-- In a table that holds a list, a search changes nothing at all. -/
theorem Holds.searched (h : x.Holds l) {x₁ : Server} (hsearched : x.Searched x₁) : x₁ = x := by
  rcases hsearched with rfl | ⟨sockfd, rfl⟩
  · rfl
  · rw [socket2index, h.count]
    exact socket2indexFrom_fst h sockfd l.length 0 (by omega)

/-- A plain list goes to one client, to all but one, or to all. -/
theorem defaultsend_cases (x : Server) (env : Env) (argv : List Atom) :
    ∃ x₁, x.Searched x₁ ∧
      ((0 < x.defaulttarget ∧ ∃ id, x.targetIndex = some id ∧ id < x.nconnections ∧
          x.defaultsend env argv = x₁.sendToclient env id argv) ∨
        (x.defaulttarget < 0 ∧ ∃ id, x.targetIndex = some id ∧ id < x.nconnections ∧
          x.defaultsend env argv = x₁.sendButclient env id argv) ∨
        (x.targetIndex = none ∧
          x.defaultsend env argv = { x₁ with defaulttarget := 0 }.broadcast env argv)) := by
  unfold defaultsend targetIndex
  dsimp only
  by_cases hpos : 0 < x.defaulttarget
  · have hlt := @socket2index_lt x x.defaulttarget
    rw [if_pos hpos, if_pos hpos]
    refine ⟨_, Or.inr ⟨x.defaulttarget, rfl⟩, ?_⟩
    generalize x.socket2index x.defaulttarget = r at hlt ⊢
    rcases r with ⟨x₁, _ | id⟩
    · exact Or.inr (Or.inr ⟨rfl, rfl⟩)
    · exact Or.inl ⟨hpos, id, rfl, hlt rfl, rfl⟩
  · rw [if_neg hpos, if_neg hpos]
    by_cases hneg : x.defaulttarget < 0
    · have hlt := @socket2index_lt x (-x.defaulttarget)
      rw [if_pos hneg, if_pos hneg]
      refine ⟨_, Or.inr ⟨-x.defaulttarget, rfl⟩, Or.inr ?_⟩
      generalize x.socket2index (-x.defaulttarget) = r at hlt ⊢
      rcases r with ⟨x₁, _ | id⟩
      · exact Or.inr ⟨rfl, rfl⟩
      · exact Or.inl ⟨hneg, id, rfl, hlt rfl, rfl⟩
    · have hzero : 0 = x.defaulttarget := by omega
      rw [if_neg hneg, if_neg hneg]
      refine ⟨x, Or.inl rfl, Or.inr (Or.inr ⟨rfl, ?_⟩)⟩
      rw [hzero]

/-! ## Sending -/

/-- The server after a message has been handed to the sender of a client. -/
def offered (env : Env) (x : Server) (client : Nat) (y : UdpSender) (chunk : Chunk) : Server :=
  let chunk := { chunk with addr := y.host, port := y.port }
  let x := if y.sender = none then x
    else { x with sends := x.sends ++ [(y, chunk, sendSize env y)] }
  emit x ⟨.statusout, "sendbuffersize",
    [clientNumber client, setInt (sendSize env y), setInt y.uniq], some y.id⟩

theorem offered_frame (x : Server) (env : Env) (client : Nat) (y : UdpSender) (chunk : Chunk) :
    ∃ sends log, x.offered env client y chunk = { x with sends := sends, log := log } := by
  unfold offered
  dsimp only
  split <;> exact ⟨_, _, rfl⟩

/-- Giving a chunk to a sender leaves the table as it is. -/
theorem Holds.offered (h : x.Holds l) (client : Nat) (y : UdpSender) (chunk : Chunk) :
    (x.offered env client y chunk).Holds l := by
  rcases offered_frame x env client y chunk with ⟨_, _, heq⟩
  rw [heq]
  exact h.congr rfl rfl rfl

theorem survivors_offered (client : Nat) (y : UdpSender) (chunk : Chunk) (now : ℚ)
    (k : List UdpSender) :
    (x.offered env client y chunk).survivors now k = x.survivors now k := by
  rcases offered_frame x env client y chunk with ⟨_, _, heq⟩
  rw [heq]
  rfl

/-- What sending to an index comes to. -/
theorem sendBytes_cases (x : Server) (env : Env) (client : Nat) (chunk : Option Chunk) :
    (x.maxconnections ≤ client ∧ x.sendBytes env client chunk = x) ∨
      (x.slot client = none ∧ x.sendBytes env client chunk = x.touch client) ∨
      (∃ y, x.slot client = some y ∧ chunk = none ∧
        x.sendBytes env client chunk = (x.touch client).fault .nullChunk) ∨
      ∃ y c, x.slot client = some y ∧ chunk = some c ∧ x.sendBytes env client chunk =
        if sendSize env y < 0 then ((x.touch client).offered env client y c).disconnect env client
        else (x.touch client).offered env client y c := by
  unfold sendBytes
  by_cases hmax : client < x.maxconnections
  · rw [if_pos hmax]
    dsimp only
    rw [slot_touch]
    cases x.slot client with
    | none => exact Or.inr (Or.inl ⟨rfl, rfl⟩)
    | some y =>
        cases chunk with
        | none => exact Or.inr (Or.inr (Or.inl ⟨y, rfl, rfl, rfl⟩))
        | some c => exact Or.inr (Or.inr (Or.inr ⟨y, c, rfl, rfl, rfl⟩))
  · rw [if_neg hmax]
    exact Or.inl ⟨Nat.not_lt.1 hmax, rfl⟩

/-- Sending to a client of the list, with the cases of {lit}`udpserver_send_bytes` spelled out.
-/
theorem sendBytes_eq (h : x.Holds l) {client : Nat} (hget : l[client]? = some y)
    (argv : List Atom) :
    x.sendBytes env client (chunkCreateList env.mem argv) =
      match chunkCreateList env.mem argv with
      | none => x.fault .nullChunk
      | some chunk =>
          if sendSize env y < 0 then (x.offered env client y chunk).disconnect env client
          else x.offered env client y chunk := by
  have hlt : client < l.length := (List.getElem?_eq_some_iff.1 hget).1
  have hslot : x.slot client = some y := by rw [h.slot_eq, hget]
  have hfits := h.fits
  rw [sendBytes, if_pos (by omega), h.touch_eq hlt]
  simp only [hslot]
  rfl

/-- A chunk of a list exists only if there is memory and the list is not empty. -/
theorem chunk_of_list {mem : Bool} {argv : List Atom} {chunk : Chunk}
    (h : chunkCreateList mem argv = some chunk) : mem = true ∧ argv ≠ [] := by
  cases mem with
  | false => simp [chunkCreateList, chunkCreateEmpty] at h
  | true =>
      refine ⟨rfl, fun hnil => ?_⟩
      rw [chunkCreateList_eq, if_pos hnil] at h
      cases h

/-- A send that does not fail leaves the table alone. -/
theorem Holds.sendBytes (h : x.Holds l) {client : Nat} (hget : l[client]? = some y)
    {argv : List Atom} (hok : ¬ Fails env argv y) :
    (x.sendBytes env client (chunkCreateList env.mem argv)).Holds l := by
  rw [sendBytes_eq h hget]
  cases hchunk : chunkCreateList env.mem argv with
  | none => exact h.congr rfl rfl rfl
  | some chunk =>
      have hlist := chunk_of_list hchunk
      have hsize : ¬ sendSize env y < 0 := fun hneg => hok ⟨hlist.1, hlist.2, hneg⟩
      simp only [if_neg hsize]
      exact h.offered client y chunk

/-- A send that fails for the last client leaves the survivors of the others. -/
theorem Holds.sendBytes_fails (h : x.Holds l) {client : Nat} (hget : l[client]? = some y)
    {argv : List Atom} (hfails : Fails env argv y) (hlast : client + 1 = l.length) :
    (x.sendBytes env client (chunkCreateList env.mem argv)).Holds
      (x.survivors env.now (l.eraseIdx client)) := by
  rw [sendBytes_eq h hget, hfails.1, chunkCreateList_eq, if_neg hfails.2.1]
  simp only [if_pos hfails.2.2]
  rw [← survivors_offered (x := x) client y]
  exact (h.offered client y _).disconnect env hlast

/-- Sending to a client that does not fail leaves the others in time. -/
theorem survivors_sendBytes (h : x.Holds l) {client : Nat} (hget : l[client]? = some y)
    {argv : List Atom} (hok : ¬ Fails env argv y) (k : List UdpSender) :
    (x.sendBytes env client (chunkCreateList env.mem argv)).survivors env.now k =
      x.survivors env.now k := by
  rw [sendBytes_eq h hget]
  cases hchunk : chunkCreateList env.mem argv with
  | none => rfl
  | some chunk =>
      have hlist := chunk_of_list hchunk
      have hsize : ¬ sendSize env y < 0 := fun hneg => hok ⟨hlist.1, hlist.2, hneg⟩
      simp only [if_neg hsize]
      exact survivors_offered client y chunk env.now k

theorem sendFrom_done {but : Option Nat} {chunk : Option Chunk} {client : Nat}
    (h : x.nconnections ≤ client) (fuel : Nat) : x.sendFrom env but chunk fuel client = x := by
  cases fuel with
  | zero => rfl
  | succ fuel => rw [sendFrom, if_neg (by omega)]

/-- A client survives if it is in time whenever a check is due. -/
theorem mem_survivors {now : ℚ} (hy : y ∈ l) (htime : x.Due now → x.inTime now y = true) :
    y ∈ x.survivors now l := by
  unfold survivors
  split
  · rename_i hdue
    exact List.mem_filter.2 ⟨hy, htime hdue⟩
  · exact hy

/-- What is left of the clients {lit}`l` of a server once a list has been sent: among
others those that are in time and that the list can be sent to. -/
structure Leaves (x : Server) (env : Env) (argv : List Atom) (l l' : List UdpSender) : Prop where
  sublist : l'.Sublist l
  kept : ∀ y ∈ x.survivors env.now l, ¬ Fails env argv y → y ∈ l'

theorem leaves_refl (x : Server) (env : Env) (argv : List Atom) (l : List UdpSender) :
    x.Leaves env argv l l :=
  ⟨List.Sublist.refl l, fun _ hy _ => (survivors_sublist x env.now l).subset hy⟩

/-- A client that a list cannot be sent to is dropped, and those that are late. -/
theorem leaves_eraseIdx {argv : List Atom} {client : Nat} (hget : l[client]? = some y)
    (hfail : Fails env argv y) :
    x.Leaves env argv l (x.survivors env.now (l.eraseIdx client)) := by
  refine ⟨(survivors_sublist x env.now _).trans (List.eraseIdx_sublist l client), ?_⟩
  intro z hz hok
  have hother : ∀ z ∈ l, ¬ Fails env argv z → z ∈ l.eraseIdx client := by
    intro z hz hok
    rcases List.mem_iff_getElem?.1 hz with ⟨i, hi⟩
    refine List.mem_eraseIdx_iff_getElem?.2 ⟨i, fun hic => ?_, hi⟩
    subst hic
    rw [hget, Option.some_inj] at hi
    exact hok (hi ▸ hfail)
  by_cases hdue : x.Due env.now
  · rw [survivors, if_pos hdue, List.mem_filter] at hz ⊢
    exact ⟨hother z hz.1 hok, hz.2⟩
  · rw [survivors, if_neg hdue] at hz ⊢
    exact hother z hz hok

theorem Leaves.congr {x' : Server} {argv : List Atom} {l' : List UdpSender}
    (h : x'.Leaves env argv l l') (hsurvivors : x'.survivors env.now l = x.survivors env.now l) :
    x.Leaves env argv l l' :=
  ⟨h.sublist, by rw [← hsurvivors]; exact h.kept⟩

/-- The loop over the clients keeps the table in order if it fails for the last one
only. -/
theorem Holds.sendFrom (h : x.Holds l) {but : Option Nat} {argv : List Atom}
    (hfails : FailsOnly Last env argv l fun i => but ≠ some i) (fuel client : Nat) :
    ∃ l', (x.sendFrom env but (chunkCreateList env.mem argv) fuel client).Holds l' ∧
      x.Leaves env argv l l' := by
  induction fuel generalizing x client with
  | zero => exact ⟨l, h, leaves_refl x env argv l⟩
  | succ fuel ih =>
      rw [Server.sendFrom, h.count]
      by_cases hlt : client < l.length
      · have hget : l[client]? = some l[client] := List.getElem?_eq_getElem hlt
        rw [if_pos hlt]
        by_cases hbut : but = some client
        · rw [if_pos hbut]
          exact ih h (client + 1)
        · rw [if_neg hbut]
          by_cases hfail : Fails env argv l[client]
          · have hlast : client + 1 = l.length := hfails client _ hget hbut hfail
            have hleft := h.sendBytes_fails hget hfail hlast
            have hshort := (survivors_sublist x env.now (l.eraseIdx client)).length_le
            rw [List.length_eraseIdx, if_pos hlt] at hshort
            rw [sendFrom_done (by rw [hleft.count]; omega)]
            exact ⟨_, hleft, leaves_eraseIdx hget hfail⟩
          · rcases ih (h.sendBytes hget hfail) (client + 1) with ⟨l', hl', hleaves⟩
            exact ⟨l', hl', hleaves.congr (survivors_sendBytes h hget hfail l)⟩
      · rw [if_neg hlt]
        exact ⟨l, h, leaves_refl x env argv l⟩

/-- A second check at the same time finds nobody. -/
theorem survivors_autoremove (h : x.Holds l) (now : ℚ) :
    (x.autoremove now).survivors now (x.survivors now l) = x.survivors now l := by
  by_cases hdue : x.Due now
  · have htimeout : (x.autoremove now).inTime now = x.inTime now := by
      rw [autoremove_eq h hdue]
      rfl
    rw [survivors, survivors, if_pos hdue, htimeout]
    split
    · rw [List.filter_filter]
      simp
    · rfl
  · rw [autoremove_of_not_due hdue, survivors, if_neg hdue, survivors, if_neg hdue]

/-- A message to all clients keeps the table in order if it fails only for the last of
those that have not expired. -/
theorem Holds.broadcast (h : x.Holds l) {argv : List Atom}
    (hfails : FailsOnly Last env argv (x.survivors env.now l) fun _ => True) :
    ∃ l', (x.broadcast env argv).Holds l' ∧ x.Leaves env argv l l' := by
  have hall : FailsOnly Last env argv (x.survivors env.now l) fun i => none ≠ some i :=
    fun i y hi _ hfail => hfails i y hi trivial hfail
  rcases (h.autoremove env.now).sendFrom hall (2 ^ 32) 0 with ⟨l', hl', hleaves⟩
  refine ⟨l', ?_, hleaves.sublist.trans (survivors_sublist x env.now l), ?_⟩
  · unfold Server.broadcast
    dsimp only
    split
    · exact hl'.logged _
    · exact hl'
  · intro y hy hok
    exact hleaves.kept y (by rwa [survivors_autoremove h env.now]) hok

/-- A message to one client keeps the table in order if it can be sent or the client is
the last one. -/
theorem Holds.sendToclient (h : x.Holds l) {argv : List Atom} {client : Nat}
    (hlt : client < l.length) (hfails : FailsOnly Last env argv l (· = client)) :
    ∃ l', (x.sendToclient env client argv).Holds l' ∧ x.Leaves env argv l l' := by
  have hget : l[client]? = some l[client] := List.getElem?_eq_getElem hlt
  by_cases hfail : Fails env argv l[client]
  · exact ⟨_, h.sendBytes_fails hget hfail (hfails client _ hget rfl hfail),
      leaves_eraseIdx hget hfail⟩
  · exact ⟨l, h.sendBytes hget hfail, leaves_refl x env argv l⟩

/-- A plain list keeps the table in order under the conditions of the message it stands
for. -/
theorem Holds.defaultsend (h : x.Holds l) {argv : List Atom}
    (hfails : x.DisconnectsOnly Last env (.defaultsend argv)) :
    ∃ l', (x.defaultsend env argv).Holds l' ∧ x.Leaves env argv l l' := by
  simp only [DisconnectsOnly, h.clients_eq] at hfails
  rcases defaultsend_cases x env argv with ⟨x₁, hsearched, hcases⟩
  have hsame := h.searched hsearched
  subst hsame
  rcases hcases with ⟨hpos, id, hindex, hlt, hsend⟩ | ⟨hneg, id, hindex, hlt, hsend⟩ |
    ⟨hindex, hsend⟩ <;> rw [hindex] at hfails <;> rw [hsend]
  · apply h.sendToclient (h.count ▸ hlt)
    simpa only [if_pos hpos] using hfails
  · apply h.sendFrom
    intro i y hi hbut hfail
    apply hfails i y hi _ hfail
    rw [if_neg (not_lt.2 hneg.le)]
    exact fun hid => hbut (congrArg some hid.symm)
  · have hcleared : ({ x₁ with defaulttarget := 0 } : Server).Holds l := h.congr rfl rfl rfl
    rcases hcleared.broadcast hfails with ⟨l', hl', hleaves⟩
    exact ⟨l', hl', hleaves.congr rfl⟩

/-! ## Registering -/

/-- The table holds clients with different addresses. -/
structure Registers (x : Server) (l : List UdpSender) : Prop where
  holds : x.Holds l
  distinct : (l.map UdpSender.address).Nodup

/-- A table from which only clients have gone. -/
theorem Registers.sublist (h : x.Registers l) {x' : Server} {l' : List UdpSender}
    (hl' : x'.Holds l') (hsub : l'.Sublist l) : x'.Registers l' :=
  ⟨hl', h.distinct.sublist (hsub.map UdpSender.address)⟩

/-- A client that is heard from keeps everything but the time. -/
theorem map_set_seenNow {β : Type*} (f : UdpSender → β) {id : Nat} (hid : l[id]? = some y)
    (hf : f (seenNow env y) = f y) : (l.set id (seenNow env y)).map f = l.map f := by
  have hlt : id < l.length := (List.getElem?_eq_some_iff.1 hid).1
  apply List.ext_getElem?
  intro i
  rw [List.getElem?_map, List.getElem?_map, List.getElem?_set]
  by_cases hi : id = i
  · subst hi
    rw [if_pos rfl, if_pos hlt, hid, Option.map_some, Option.map_some, hf]
  · rw [if_neg hi]

/-- An address that no client has is new as a record keeps it, too. -/
theorem address_newSender_notMem {host : Nat} {port : BitVec 16}
    (hnew : ∀ y ∈ l, y.key x.abi ≠ (host, port)) (hhost : host < 2 ^ x.abi.longBits) :
    (newSender env x host port).address ∉ l.map UdpSender.address := by
  intro hmem
  rcases List.mem_map.1 hmem with ⟨y, hy, haddress⟩
  have hsame : y.host = x.abi.ofULong host ∧ y.port = port := by
    simpa [UdpSender.address, newSender] using haddress
  apply hnew y hy
  rw [UdpSender.key, hsame.1, hsame.2, x.abi.toULong_ofULong hhost]

/-- What {lit}`udpserver_sender_add` makes of the clients {lit}`l`. -/
inductive Added (x : Server) (env : Env) (host : Nat) (port : BitVec 16) (l : List UdpSender) :
    List UdpSender → Prop
  | refused (h : x.accept = 0 ∨ x.findSender host port = (x, none)) : Added x env host port l l
  | heard {id : Nat} {y : UdpSender} (haccept : x.accept ≠ 0) (hid : l[id]? = some y)
      (hfind : x.findSender host port = (x, some id)) :
      Added x env host port l (l.set id (seenNow env y))
  | entered (hfind : x.findSender host port = (x, none)) :
      Added x env host port l (l ++ [newSender env x host port])

/-- {lit}`udpserver_sender_add` keeps the table in step with a list. -/
theorem Holds.senderAdd (h : x.Holds l) (hclient : env.client = true) (host : Nat)
    (port : BitVec 16) :
    ∃ l', (x.senderAdd env host port).1.Holds l' ∧ x.Added env host port l l' := by
  by_cases haccept : x.accept = 0
  · refine ⟨l, ?_, .refused (Or.inl haccept)⟩
    rw [Server.senderAdd, if_pos haccept]
    exact h
  · rcases findSender_cases h host port with ⟨hfind, -⟩ | ⟨id, y, hid, -, hfind⟩
    · by_cases hroom : x.Room
      · rw [senderAdd_new h haccept hclient hfind hroom]
        exact ⟨_, h.entered env host port hroom, .entered hfind⟩
      · rw [senderAdd_full h haccept hfind hroom]
        exact ⟨l, h, .refused (Or.inr hfind)⟩
    · rw [senderAdd_known h haccept hid hfind]
      exact ⟨_, h.heard env hid, .heard haccept hid hfind⟩

/-- {lit}`udpserver_sender_add` keeps the addresses different. -/
theorem Registers.added (h : x.Registers l) {host : Nat} (hhost : host < 2 ^ x.abi.longBits)
    {port : BitVec 16} {l' : List UdpSender} (hadded : x.Added env host port l l') :
    (l'.map UdpSender.address).Nodup := by
  cases hadded with
  | refused => exact h.distinct
  | heard haccept hid hfind =>
      rw [map_set_seenNow UdpSender.address hid rfl]
      exact h.distinct
  | entered hfind =>
      have hnew : ∀ y ∈ l, y.key x.abi ≠ (host, port) := by
        rcases findSender_cases h.holds host port with ⟨-, hnew⟩ | ⟨id, y, -, -, hfound⟩
        · exact hnew
        · rw [hfind] at hfound
          cases hfound
      rw [List.map_append, List.nodup_append]
      refine ⟨h.distinct, List.nodup_singleton _, ?_⟩
      intro a ha b hb hab
      have hb' : b = (newSender env x host port).address := by simpa using hb
      exact address_newSender_notMem hnew hhost (hb' ▸ hab ▸ ha)

/-- {lit}`udpserver_sender_add` keeps the addresses of the list distinct. -/
theorem Registers.senderAdd (h : x.Registers l) (hclient : env.client = true) {host : Nat}
    (hhost : host < 2 ^ x.abi.longBits) (port : BitVec 16) :
    ∃ l', (x.senderAdd env host port).1.Registers l' := by
  rcases h.holds.senderAdd hclient host port with ⟨l', hl', hadded⟩
  exact ⟨l', hl', h.added hhost hadded⟩

/-- The message {lit}`addclient` is a call of {lit}`udpserver_sender_add` with the address it
asks for. -/
theorem addClient_eq (x : Server) (s : String) (f : FloatArg) :
    x.addClient env s f =
      match x.addRequest env (.addClient s f) with
      | none => x
      | some q => (x.senderAdd env q.1 q.2).1 := by
  simp only [addClient, addRequest]
  split
  · rfl
  · cases env.host s <;> rfl

theorem addRequest_lt {a : Input} {q : Nat × BitVec 16} (h : q ∈ x.addRequest env a) :
    q.1 < 2 ^ x.abi.longBits := by
  cases a with
  | addClient s f =>
      simp only [addRequest] at h
      split at h
      · cases h
      · rcases Option.map_eq_some_iff.1 h with ⟨addr, -, rfl⟩
        exact x.abi.toULong_lt (x.abi.ntohl addr).toNat
  | _ => cases h

theorem asked_lt {a : Input} {q : Nat × BitVec 16} (h : q ∈ x.asked env a) :
    q.1 < 2 ^ x.abi.longBits := by
  cases a with
  | received fd c =>
      cases c with
      | none => cases h
      | some c =>
          rw [← Option.some.inj h]
          exact x.abi.toULong_lt c.addr
  | addClient s f =>
      have hadd : q ∈ x.addRequest env (.addClient s f) := h
      exact addRequest_lt hadd
  | _ => cases h

/-! ## Inputs that are not about the table -/

/-- The table and its two sizes are the same. -/
structure SameTable (x x' : Server) : Prop where
  sr_eq : x'.sr = x.sr
  count : x'.nconnections = x.nconnections
  max : x'.maxconnections = x.maxconnections

theorem SameTable.trans {x₁ x₂ x₃ : Server} (h₁ : SameTable x₁ x₂) (h₂ : SameTable x₂ x₃) :
    SameTable x₁ x₃ :=
  ⟨h₂.sr_eq.trans h₁.sr_eq, h₂.count.trans h₁.count, h₂.max.trans h₁.max⟩

/-- A step that leaves the table alone keeps its list. -/
theorem SameTable.holds {x' : Server} (hsame : SameTable x x') (h : x.Holds l) : x'.Holds l :=
  h.congr hsame.sr_eq hsame.count hsame.max

theorem SameTable.registers {x' : Server} (hsame : SameTable x x') (h : x.Registers l) :
    x'.Registers l :=
  ⟨hsame.holds h.holds, h.distinct⟩

theorem SameTable.logged {x' : Server} (h : SameTable x x') (outputs : List Output) :
    SameTable x (x'.logged outputs) :=
  ⟨h.sr_eq, h.count, h.max⟩

/-- A datagram changes the table only as far as its sender is added. -/
theorem sameTable_receiveCallback (x : Server) (c : Chunk) :
    SameTable (x.senderAdd env (x.abi.toULong c.addr) c.port).1
      (x.receiveCallback env (some c)) := by
  unfold receiveCallback
  dsimp only
  rcases x.senderAdd env (x.abi.toULong c.addr) c.port with ⟨x₁, _ | sdr⟩
  · exact ⟨rfl, rfl, rfl⟩
  · simp only [infoConnection_eq, numconnout_eq]
    split <;> split <;> exact ⟨rfl, rfl, rfl⟩

theorem sameTable_touch (x : Server) (i : Nat) : SameTable x (x.touch i) := by
  rcases touch_faults x i with ⟨_, hf⟩
  rw [hf]
  exact ⟨rfl, rfl, rfl⟩

theorem sameTable_infoClient (x : Server) (client : Nat) :
    SameTable x (x.infoClient env client) := by
  rcases infoClient_quiet x env client with ⟨_, _, hquiet⟩
  rw [hquiet]
  exact ⟨rfl, rfl, rfl⟩

theorem sameTable_infoClients (fuel : Nat) (x : Server) (client : Nat) :
    SameTable x (x.infoClients env fuel client) := by
  rcases infoClients_quiet fuel x env client with ⟨_, _, hquiet⟩
  rw [hquiet]
  exact ⟨rfl, rfl, rfl⟩

/-- A bang changes the table only as far as late clients are removed. -/
theorem sameTable_info (x : Server) : SameTable (x.autoremove env.now) (x.info env) := by
  have hlearn : SameTable (x.autoremove env.now) ((x.autoremove env.now).learnPort env) := by
    unfold learnPort
    split
    · split <;> exact ⟨rfl, rfl, rfl⟩
    · exact ⟨rfl, rfl, rfl⟩
  unfold info
  simp only [socket2addressout_eq, emit_eq, logged_logged]
  exact hlearn.logged _

theorem SameTable.of_unbound {x' : Server} (h : x'.unbound = x.unbound) : SameTable x x' := by
  have hsr := congrArg Server.sr h
  have hcount := congrArg Server.nconnections h
  have hmax := congrArg Server.maxconnections h
  exact ⟨hsr, hcount, hmax⟩

theorem sameTable_setDefaulttarget (x : Server) (f : FloatArg) :
    SameTable x (x.setDefaulttarget f) := by
  unfold setDefaulttarget
  dsimp only
  split
  · exact ⟨rfl, rfl, rfl⟩
  · split
    · exact ⟨rfl, rfl, rfl⟩
    · split
      · exact (sameTable_touch x _).trans ⟨rfl, rfl, rfl⟩
      · exact (sameTable_touch x _).trans ⟨rfl, rfl, rfl⟩

/-! ## Steps -/

/-- With one client at most, {lit}`disconnect` keeps the table in step with a list. -/
theorem Holds.disconnectAll (h : x.Holds l) (hone : l.length ≤ 1) :
    ∃ l', (x.disconnectAll env).Holds l' ∧ l'.Sublist l := by
  unfold Server.disconnectAll
  rw [show 2 ^ 32 = (2 ^ 32 - 1) + 1 from rfl, disconnectAllFrom, h.count]
  by_cases hsome : 0 < l.length
  · have hlast : 0 + 1 = l.length := by omega
    have hleft := h.disconnect env hlast
    have hshort := (survivors_sublist x env.now (l.eraseIdx 0)).length_le
    rw [List.length_eraseIdx, if_pos hsome] at hshort
    rw [if_pos hsome, show 2 ^ 32 - 1 = (2 ^ 32 - 2) + 1 from rfl, disconnectAllFrom,
      if_neg (by rw [hleft.count]; omega)]
    exact ⟨_, hleft, (survivors_sublist x env.now _).trans (List.eraseIdx_sublist l 0)⟩
  · rw [if_neg hsome]
    exact ⟨l, h, List.Sublist.refl l⟩

/-- A new capacity keeps the list. -/
theorem Holds.setMaxconnections (h : x.Holds l) (f : FloatArg) :
    (x.setMaxconnections env f).Holds l := by
  unfold Server.setMaxconnections
  dsimp only
  split
  · exact h
  · split
    · exact h
    · rename_i hcount
      split
      · exact h
      · split
        · exact h.resized (by rw [← h.count]; omega)
        · exact h

/-- What an input makes of the clients {lit}`l`: those that it spares and that are in time
stay, or it hands an address to {lit}`udpserver_sender_add`. -/
inductive Course (x : Server) (env : Env) (a : Input) (l : List UdpSender) :
    List UdpSender → Prop
  | thin {l' : List UdpSender} (hasked : x.asked env a = none) (hsub : l'.Sublist l)
      (hkept : ∀ y ∈ l, x.Spares env y a →
        (a.Checks → x.Due env.now → x.inTime env.now y = true) → y ∈ l') :
      Course x env a l l'
  | added {q : Nat × BitVec 16} {l' : List UdpSender} (hasked : x.asked env a = some q)
      (hadded : x.Added env q.1 q.2 l l') : Course x env a l l'

/-- Nobody goes and nobody comes. -/
theorem course_refl {a : Input} (hasked : x.asked env a = none) : x.Course env a l l :=
  .thin hasked (List.Sublist.refl l) fun _ hy _ _ => hy

/-- A list that is sent changes the table as {lit}`Course` says. -/
theorem Leaves.course {a : Input} {argv : List Atom} {l' : List UdpSender}
    (h : x.Leaves env argv l l') (hasked : x.asked env a = none) (hchecks : a.Checks)
    (hspares : ∀ y, x.Spares env y a → ¬ Fails env argv y) : x.Course env a l l' :=
  .thin hasked h.sublist fun _ hy hspared htime =>
    h.kept _ (mem_survivors hy (htime hchecks)) (hspares _ hspared)

/-- The table is as it was. -/
theorem SameTable.course {a : Input} {x' : Server} (hsame : SameTable x x') (h : x.Holds l)
    (hasked : x.asked env a = none) : ∃ l', x'.Holds l' ∧ x.Course env a l l' :=
  ⟨l, hsame.holds h, course_refl hasked⟩

/-- How a datagram changes the list. -/
theorem Holds.receiveCallback_course (h : x.Holds l) (hclient : env.client = true) (fd : Int)
    (c : Option Chunk) :
    ∃ l', (x.receiveCallback env c).Holds l' ∧ x.Course env (.received fd c) l l' := by
  cases c with
  | none => exact ⟨l, h, course_refl rfl⟩
  | some c =>
      rcases h.senderAdd hclient (x.abi.toULong c.addr) c.port with ⟨l', hl', hadded⟩
      exact ⟨l', (sameTable_receiveCallback x c).holds hl', .added rfl hadded⟩

/-- How the message {lit}`addclient` changes the list. -/
theorem Holds.addClient_course (h : x.Holds l) (hclient : env.client = true) (s : String)
    (f : FloatArg) :
    ∃ l', (x.addClient env s f).Holds l' ∧ x.Course env (.addClient s f) l l' := by
  rw [addClient_eq]
  cases hasked : x.addRequest env (.addClient s f) with
  | none => exact ⟨l, h, course_refl hasked⟩
  | some q =>
      rcases h.senderAdd hclient q.1 q.2 with ⟨l', hl', hadded⟩
      exact ⟨l', hl', .added hasked hadded⟩

/-- How disconnecting the last client changes the list. -/
theorem Holds.disconnectClient_course (h : x.Holds l) {f : FloatArg}
    (hlast : x.DisconnectsOnly Last env (.disconnectClient f)) :
    ∃ l', (x.disconnectClient env f).Holds l' ∧ x.Course env (.disconnectClient f) l l' := by
  unfold Server.disconnectClient
  cases hfix : x.fixindex f.toInt with
  | none => exact ⟨l, h, course_refl rfl⟩
  | some id =>
      have hid : id + 1 = l.length := by
        rw [← h.count]
        exact hlast id hfix
      refine ⟨_, h.disconnect env hid, .thin rfl
        ((survivors_sublist x env.now _).trans (List.eraseIdx_sublist l id)) ?_⟩
      intro y hy hspared htime
      apply mem_survivors _ (htime trivial)
      rcases List.mem_iff_getElem?.1 hy with ⟨i, hi⟩
      refine List.mem_eraseIdx_iff_getElem?.2 ⟨i, fun hii => ?_, hi⟩
      subst hii
      exact hspared i hfix ((h.slot_eq i).trans hi)

/-- How disconnecting all clients changes a list of one client at most. -/
theorem Holds.disconnectAll_course (h : x.Holds l)
    (hlast : x.DisconnectsOnly Last env .disconnectAll) :
    ∃ l', (x.disconnectAll env).Holds l' ∧ x.Course env .disconnectAll l l' := by
  have hone : l.length ≤ 1 := by
    by_contra hmany
    have hfirst : Last 0 x.nconnections := hlast 0 (by rw [h.count]; omega)
    rw [Last, h.count] at hfirst
    omega
  rcases h.disconnectAll hone with ⟨l', hl', hsub⟩
  exact ⟨l', hl', .thin rfl hsub fun _ _ hspared => hspared.elim⟩

/-- How sending to a client changes the list, if none but the last one fails. -/
theorem Holds.sendClient_course (h : x.Holds l) {argv : List Atom}
    (hlast : x.DisconnectsOnly Last env (.sendClient argv)) :
    ∃ l', (x.sendClient env argv).Holds l' ∧ x.Course env (.sendClient argv) l l' := by
  unfold Server.sendClient
  cases argv with
  | nil => exact (sameTable_infoClients _ x 0).course h rfl
  | cons a rest =>
      cases hfix : x.fixindex (toInt32 (atomGetint a)) with
      | none =>
          simp only [hfix]
          exact ⟨l, h, course_refl rfl⟩
      | some id =>
          simp only [hfix]
          split
          · exact (sameTable_infoClient x id).course h rfl
          · have hlt := fixindex_lt hfix
            rw [h.count] at hlt
            have hfails := hlast id hfix
            rw [h.clients_eq] at hfails
            rcases h.sendToclient hlt hfails with ⟨l', hl', hleaves⟩
            exact ⟨l', hl', hleaves.course rfl trivial fun _ hspared => hspared⟩

/-- One input whose disconnections are all of the last client keeps the table in order. -/
theorem Holds.step (h : x.Holds l) {a : Input} {x' : Server} (hclient : env.client = true)
    (hlast : x.DisconnectsOnly Last env a) (hstep : x.step env a = some x') :
    ∃ l', x'.Holds l' ∧ x.Course env a l l' := by
  cases a with
  | received fd c =>
      rw [Server.step, Option.ite_none_right_eq_some, Option.some_inj] at hstep
      rcases hstep with ⟨-, rfl⟩
      exact h.receiveCallback_course hclient fd c
  | disconnectClient f =>
      cases hstep
      exact h.disconnectClient_course hlast
  | disconnectAll =>
      cases hstep
      exact h.disconnectAll_course hlast
  | accept f | timeout f | elsewhere k =>
      cases hstep
      exact ⟨l, h.congr rfl rfl rfl, course_refl rfl⟩
  | maxconnections f =>
      cases hstep
      exact ⟨l, h.setMaxconnections f, course_refl rfl⟩
  | sendClient argv =>
      cases hstep
      exact h.sendClient_course hlast
  | broadcast argv =>
      cases hstep
      simp only [DisconnectsOnly, h.clients_eq] at hlast
      rcases h.broadcast hlast with ⟨l', hl', hleaves⟩
      exact ⟨l', hl', hleaves.course rfl trivial fun _ hspared => hspared⟩
  | defaultsend argv =>
      cases hstep
      rcases h.defaultsend hlast with ⟨l', hl', hleaves⟩
      exact ⟨l', hl', hleaves.course rfl trivial fun _ hspared => hspared⟩
  | defaulttarget f =>
      cases hstep
      exact (sameTable_setDefaulttarget x f).course h rfl
  | addClient s f =>
      cases hstep
      exact h.addClient_course hclient s f
  | bind argv wild o =>
      rw [Server.step, Option.ite_none_right_eq_some, Option.some_inj] at hstep
      rcases hstep with ⟨-, rfl⟩
      exact (SameTable.of_unbound (unbound_bind x env argv wild o)).course h rfl
  | port f o =>
      rw [Server.step, Option.ite_none_right_eq_some, Option.some_inj] at hstep
      rcases hstep with ⟨-, rfl⟩
      exact (SameTable.of_unbound (unbound_setPort x env f o)).course h rfl
  | info =>
      cases hstep
      exact ⟨_, (sameTable_info x).holds (h.autoremove env.now), .thin rfl
        (survivors_sublist x env.now l) fun _ hy _ htime => mem_survivors hy (htime trivial)⟩

/-- The addresses stay different as well. -/
theorem Registers.step (h : x.Registers l) {a : Input} {x' : Server}
    (hclient : env.client = true) (hlast : x.DisconnectsOnly Last env a)
    (hstep : x.step env a = some x') : ∃ l', x'.Registers l' := by
  rcases h.holds.step hclient hlast hstep with ⟨l', hl', hcourse⟩
  cases hcourse with
  | thin _ hsub => exact ⟨l', h.sublist hl' hsub⟩
  | added hasked hadded => exact ⟨l', hl', h.added (asked_lt hasked) hadded⟩

/-- A new object has an empty table. -/
theorem registers_of_created (h : Created x) : x.Registers [] := by
  rcases h with ⟨abi, env, k, f, o, -, rfl⟩
  have hblank : (blank abi env (toInt32 (1000 + k))).Registers [] :=
    ⟨⟨rfl, rfl, by simp [blank], by simp⟩, List.nodup_nil⟩
  have hport := (SameTable.of_unbound (unbound_setPort _ env f o)).registers hblank
  exact hport.sublist (hport.holds.congr rfl rfl rfl) (List.Sublist.refl [])

end Server

/-- There is memory for the record of a new client, and every client that the input
disconnects by its index is the last one of the table. -/
def Server.LastLeave (x : Server) (a : Env × Input) : Prop :=
  a.1.client = true ∧ x.DisconnectsOnly Last a.1 a.2

/-- In a run in which only the last client is ever disconnected, the used slots come
first and hold clients with different addresses; and a removal drops one client and
keeps the order of the others exactly if it is the last one. -/
theorem clients_in_order {x : Server} (h : udpserverMachine.Reach Server.LastLeave x) :
    ∃ l, x.Holds l ∧ (l.map UdpSender.address).Nodup ∧
      ∀ id, id < x.nconnections →
        ((x.senderRemove id).Holds (l.eraseIdx id) ↔ id + 1 = x.nconnections) := by
  have hregisters : ∃ l, x.Registers l := by
    apply h.invariant (I := fun x => ∃ l, x.Registers l)
    · exact fun x hx => ⟨[], Server.registers_of_created hx⟩
    · rintro x a x' _ ⟨l, hl⟩ hok hs
      exact hl.step hok.1 hok.2 hs
  rcases hregisters with ⟨l, hl⟩
  refine ⟨l, hl.holds, hl.distinct, fun id hid => ?_⟩
  rw [hl.holds.count] at hid ⊢
  exact Server.senderRemove_holds_iff hl.holds hid

/-! ## A bound server -/

/-- An environment in which everything succeeds and every send leaves 7 bytes queued,
but for the clients in {lit}`broken`. -/
def plainEnv (now : ℚ) (broken : List Nat) : Env where
  now := now
  sent id := if id ∈ broken then -1 else 7
  queued _ := 0
  mem := true
  client := true
  sender := true
  receiver := true
  copy := true
  raw _ := setFloat 0
  host _ := some 0x0100007f#32
  sockname := none
  address := none

/-- A datagram of one byte from the local host. -/
def datagram (port : BitVec 16) : Chunk :=
  ⟨[42#8], 0x7f000001, port, afInet⟩

/-- A new object that is bound to descriptor 3. -/
def started : Server :=
  Server.new ⟨true, 64⟩ (plainEnv 0 []) (toInt32 (1000 + (0 : Nat))) ⟨3000, 0#32⟩ ⟨some 3, true⟩

theorem init_started : udpserverMachine.init started := by
  refine ⟨_, _, 0, _, _, ?_, rfl⟩
  intro fd hfd
  have hthree : fd = 3 := (Option.some.inj hfd).symm
  subst hthree
  decide

/-- A peer writes once. -/
def onePeer : List (Env × Input) :=
  [(plainEnv 0 [], .received 3 (some (datagram 5000#16)))]

/-- Two datagrams from different ports. -/
def twoPeers : List (Env × Input) :=
  [(plainEnv 0 [], .received 3 (some (datagram 5000#16))),
    (plainEnv 0 [], .received 3 (some (datagram 5001#16)))]

/-- Two clients write, and client {lit}`f` is disconnected. -/
def twoClients (f : ℚ) : List (Env × Input) :=
  [(plainEnv 0 [], .received 3 (some (datagram 5000#16))),
    (plainEnv 0 [], .received 3 (some (datagram 5001#16))),
    (plainEnv 0 [], .disconnectClient ⟨f, 0#32⟩)]

theorem lastLeave_twoClients :
    udpserverMachine.RunMeets Server.LastLeave started (twoClients 2) := by
  refine ⟨⟨rfl, trivial⟩, fun x₁ h₁ => ?_⟩
  refine ⟨⟨rfl, trivial⟩, fun x₂ h₂ => ?_⟩
  refine ⟨⟨rfl, ?_⟩, fun _ _ => trivial⟩
  cases h₁
  cases h₂
  intro id hid
  have hone : id = 1 := by
    apply Option.some.inj
    rw [← hid]
    decide +kernel
  subst hone
  show 1 + 1 = _
  decide +kernel

/-- Two clients register, and the last one leaves. -/
theorem clients_in_order_run :
    ∃ x l, udpserverMachine.run started (twoClients 2) = some x ∧ x.freed = [1] ∧ x.Holds l ∧
      (l.map UdpSender.address).Nodup := by
  have hrun : udpserverMachine.run started (twoClients 2) = some _ := rfl
  have hreach := Foundations.Machine.Reach.run (.start init_started) lastLeave_twoClients hrun
  rcases clients_in_order hreach with ⟨l, hl, hdistinct, -⟩
  exact ⟨_, l, hrun, by decide +kernel, hl, hdistinct⟩

/-- Disconnecting the first of two clients leaves a gap in front of the second one, which
does not count any more. -/
theorem first_leaves_gap :
    ∃ x, udpserverMachine.Reach (fun _ a => a.1.client = true) x ∧ x.nconnections = 1 ∧
      x.slot 0 = none ∧ (x.slot 1).map UdpSender.address = some (0x7f000001, 5001#16) := by
  have hrun : udpserverMachine.run started (twoClients 1) = some _ := rfl
  have hclient : udpserverMachine.RunMeets (fun _ a => a.1.client = true) started
      (twoClients 1) :=
    ⟨rfl, fun _ _ => ⟨rfl, fun _ _ => ⟨rfl, fun _ _ => trivial⟩⟩⟩
  exact ⟨_, .run (.start init_started) hclient hrun, by decide +kernel, by decide +kernel,
    by decide +kernel⟩

end Iemnet.UdpServer
