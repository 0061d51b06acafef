import Iemnet.UdpServer.Model

/-!
# The client table of the UDP server

The operations on {lit}`x_sr` over the list of clients that it holds:
{lit}`Server.Holds` says that the used slots come first, in the order of the list.

Main results:

- Theorems {lit}`senderAdd_known`, {lit}`senderAdd_new`, {lit}`senderAdd_full`: what
  {lit}`udpserver_sender_add` does with an address.
- Theorem {lit}`senderRemove_eq`: {lit}`udpserver_sender_remove` empties one slot.
- Theorem {lit}`autoremove_eq`: {lit}`udpserver_sender_autoremove` filters the list.
- Theorem {lit}`unbound_doBind`: {lit}`udpserver_do_bind` leaves everything but the socket
  alone.
-/

namespace Iemnet.UdpServer

open Pd Foundations

/-- What {lit}`equal_addr` compares. -/
def UdpSender.key (abi : Abi) (y : UdpSender) : Nat × BitVec 16 :=
  (abi.toULong y.host, y.port)

namespace Server

variable {x : Server} {l : List UdpSender} {y : UdpSender}

/-! ## Outputs and releases -/

/-- The server after some outlet calls. -/
def logged (x : Server) (outputs : List Output) : Server :=
  { x with log := x.log ++ outputs }

theorem emit_eq (x : Server) (o : Output) : emit x o = x.logged [o] :=
  rfl

@[simp]
theorem logged_logged (a b : List Output) : (x.logged a).logged b = x.logged (a ++ b) := by
  simp [logged]

/-- The outputs of {lit}`iemnet__addrout`. -/
def addressOutputs (y : UdpSender) : List Output :=
  let addr := (addressBytes (BitVec.ofInt 32 y.host) ++ [y.port.toNat]).map
    fun n => setFloat (n : ℚ)
  [.plain .statusout "address" addr, .plain .addrout "list" addr]

/-- The outputs of {lit}`iemnet__numconnout`. -/
def numconnOutputs (n : Nat) : List Output :=
  [.plain .statusout "connections" [setInt n], .plain .connectout "float" [setInt n]]

theorem infoConnection_eq (x : Server) (y : UdpSender) :
    x.infoConnection y = x.logged (addressOutputs y) := by
  simp [infoConnection, addrout, addressOutputs, emit_eq]

theorem numconnout_eq (x : Server) (n : Nat) :
    numconnout emit x n = x.logged (numconnOutputs n) := by
  simp [numconnout, numconnOutputs, emit_eq]

/-- An access to the table changes the recorded faults at most. -/
theorem touch_faults (x : Server) (i : Nat) : ∃ f, x.touch i = { x with faults := f } := by
  unfold touch
  split
  · exact ⟨_, rfl⟩
  · exact ⟨_, rfl⟩

theorem slot_touch (x : Server) (i j : Nat) : (x.touch i).slot j = x.slot j := by
  unfold touch
  split <;> rfl

/-- Telling about a client changes the history only. -/
theorem infoClient_quiet (x : Server) (env : Env) (client : Nat) :
    ∃ faults log, x.infoClient env client = { x with faults := faults, log := log } := by
  unfold infoClient
  split
  · rcases touch_faults x client with ⟨f, hf⟩
    rw [hf]
    dsimp only
    split
    · exact ⟨_, _, rfl⟩
    · exact ⟨_, _, rfl⟩
  · exact ⟨_, _, rfl⟩

theorem infoClients_quiet (fuel : Nat) (x : Server) (env : Env) (client : Nat) :
    ∃ faults log, x.infoClients env fuel client = { x with faults := faults, log := log } := by
  induction fuel generalizing x client with
  | zero => exact ⟨_, _, rfl⟩
  | succ fuel ih =>
      rw [infoClients]
      split
      · rcases infoClient_quiet x env client with ⟨_, _, hone⟩
        rw [hone]
        rcases ih _ (client + 1) with ⟨_, _, hrest⟩
        rw [hrest]
        exact ⟨_, _, rfl⟩
      · exact ⟨_, _, rfl⟩

/-- The output of {lit}`iemnet__socket2addressout`. -/
def localOutputs (abi : Abi) (s : String) (address : Option SockaddrIn) : List Output :=
  address.toList.map fun a => .plain .statusout s (setSymbol "IPv4" ::
    (addressBytes (abi.ntohl a.addr) ++ [(abi.ntohs a.port).toNat]).map
      fun n => setFloat (n : ℚ))

theorem socket2addressout_eq (abi : Abi) (x : Server) (s : String)
    (address : Option SockaddrIn) :
    socket2addressout emit abi x s address = x.logged (localOutputs abi s address) := by
  cases address with
  | none => simp [socket2addressout, localOutputs, logged]
  | some a => rfl

/-- {lit}`iemnet__closesocket` of a number. -/
def closeNumber (d : Descriptors) (n : Int) : Descriptors :=
  if 0 ≤ n then d.close n else d

/-- The server after the records {lit}`ys` have been freed. -/
def released (x : Server) (ys : List UdpSender) : Server :=
  { x with
    os := ys.foldl (fun d y => closeNumber d y.uniq) x.os
    freed := x.freed ++ ys.map UdpSender.id }

@[simp]
theorem released_nil : x.released [] = x := by
  simp [released]

theorem senderFree_eq (x : Server) (y : UdpSender) : x.senderFree y = x.released [y] := by
  unfold senderFree closesocket released
  simp only [List.foldl_cons, List.foldl_nil, closeNumber, List.map_cons, List.map_nil]
  split <;> rfl

/-! ## Accesses that are in order -/

/-- Looking at a slot of the array is no fault. -/
theorem touch_of_lt {i : Nat} (h : i < x.sr.length) : x.touch i = x :=
  if_pos h

/-- Looking beyond the array is one. -/
theorem touch_of_ge {i : Nat} (h : x.sr.length ≤ i) :
    x.touch i = x.fault (.outOfBounds i) :=
  if_neg (Nat.not_lt.2 h)

theorem setSlot_of_lt {i : Nat} (h : i < x.sr.length) (v : Option UdpSender) :
    x.setSlot i v = { x with sr := x.sr.set i v } := by
  rw [setSlot, touch_of_lt h]

/-! ## The table -/

/-- The first slots hold the clients {lit}`l`, the others are {lit}`NULL`, and
{lit}`x_nconnections` counts the clients. -/
structure Holds (x : Server) (l : List UdpSender) : Prop where
  sr_eq : x.sr = SlotTable.table l (x.maxconnections - l.length)
  count : x.nconnections = l.length
  fits : l.length ≤ x.maxconnections
  small : l.length < 2 ^ 31

/-- The clients in the order of the table. -/
def clients (x : Server) : List UdpSender :=
  SlotTable.entries x.sr

theorem Holds.clients_eq (h : x.Holds l) : x.clients = l := by
  rw [clients, h.sr_eq, SlotTable.entries_table]

theorem Holds.length_sr (h : x.Holds l) : x.sr.length = x.maxconnections := by
  have := h.fits
  rw [h.sr_eq, SlotTable.length_table]
  omega

/-- The slots are the entries of the list. -/
theorem Holds.slot_eq (h : x.Holds l) (i : Nat) : x.slot i = l[i]? := by
  rw [slot, h.sr_eq, SlotTable.get_table]

theorem Holds.lt_sr (h : x.Holds l) {i : Nat} (hi : i < l.length) : i < x.sr.length :=
  Nat.lt_of_lt_of_eq (Nat.lt_of_lt_of_le hi h.fits) h.length_sr.symm

/-- Looking at a client of the list changes nothing. -/
theorem Holds.touch_eq (h : x.Holds l) {i : Nat} (hi : i < l.length) : x.touch i = x :=
  touch_of_lt (h.lt_sr hi)

/-- Only the table and its two sizes matter. -/
theorem Holds.congr (h : x.Holds l) {x' : Server} (hsr : x'.sr = x.sr)
    (hcount : x'.nconnections = x.nconnections) (hmax : x'.maxconnections = x.maxconnections) :
    x'.Holds l :=
  ⟨by rw [hsr, hmax, h.sr_eq], by rw [hcount, h.count], by rw [hmax]; exact h.fits, h.small⟩

theorem Holds.logged (h : x.Holds l) (outputs : List Output) : (x.logged outputs).Holds l :=
  h.congr rfl rfl rfl

/-- A larger or smaller table with room for every client. -/
theorem Holds.resized (h : x.Holds l) {m : Nat} (hm : l.length ≤ m) :
    { x with sr := SlotTable.resize x.sr m, maxconnections := m }.Holds l := by
  refine ⟨?_, h.count, hm, h.small⟩
  show SlotTable.resize x.sr m = _
  rw [h.sr_eq, SlotTable.resize_table _ _ hm]

/-! ## Looking up an address -/

theorem intIndex_eq_some {id : Option Nat} {i : Nat} :
    intIndex id = some i ↔ id = some i ∧ i < 2 ^ 31 := by
  rw [intIndex, Option.filter_eq_some_iff, decide_eq_true_eq]

theorem intIndex_of_lt {id : Option Nat} (h : ∀ i ∈ id, i < 2 ^ 31) : intIndex id = id := by
  cases id with
  | none => rfl
  | some i => exact intIndex_eq_some.2 ⟨rfl, h i rfl⟩

/-- {lit}`equal_addr` compares the keys of clients. -/
theorem equalAddr_key (abi : Abi) (y : UdpSender) (host : Nat) (port : BitVec 16) :
    equalAddr host port (abi.toULong y.host) y.port = decide (y.key abi = (host, port)) := by
  rw [equalAddr, UdpSender.key, decide_eq_decide, Prod.mk.injEq]
  exact ⟨fun heq => ⟨heq.2.symm, heq.1.symm⟩, fun heq => ⟨heq.2.symm, heq.1.symm⟩⟩

/-- The search finds the first slot with the address, if no slot before it is empty. -/
theorem findSenderFrom_iff (x : Server) (host : Nat) (port : BitVec 16) (m i id : Nat) :
    (x.findSenderFrom host port m i).2 = some id ↔
      i ≤ id ∧ id < i + m ∧ (∃ y, x.slot id = some y ∧ y.key x.abi = (host, port)) ∧
        ∀ j, i ≤ j → j < id → ∃ z, x.slot j = some z ∧ z.key x.abi ≠ (host, port) := by
  induction m generalizing x i with
  | zero =>
      simp only [findSenderFrom]
      constructor
      · intro hnone
        cases hnone
      · rintro ⟨hle, hlt, -⟩
        omega
  | succ m ih =>
      rcases touch_faults x i with ⟨f, hf⟩
      rw [findSenderFrom, hf]
      have hslot : slot { x with faults := f } i = x.slot i := rfl
      cases hi : x.slot i with
      | none =>
          simp only [hslot, hi]
          refine iff_of_false (fun hnone => by cases hnone) ?_
          rintro ⟨hle, -, ⟨y, hy, -⟩, hbefore⟩
          rcases Nat.eq_or_lt_of_le hle with rfl | hlt
          · rw [hi] at hy
            cases hy
          · rcases hbefore i (Nat.le_refl i) hlt with ⟨z, hz, -⟩
            rw [hi] at hz
            cases hz
      | some y =>
          simp only [hslot, hi, equalAddr_key, decide_eq_true_eq]
          by_cases hfound : y.key x.abi = (host, port)
          · rw [if_pos hfound, Option.some_inj]
            constructor
            · rintro rfl
              exact ⟨Nat.le_refl i, by omega, ⟨y, hi, hfound⟩, fun j hle hlt => by omega⟩
            · rintro ⟨hle, -, -, hbefore⟩
              by_contra hne
              rcases hbefore i (Nat.le_refl i) (by omega) with ⟨z, hz, hother⟩
              rw [hi, Option.some_inj] at hz
              exact hother (hz ▸ hfound)
          · rw [if_neg hfound, ih { x with faults := f } (i + 1)]
            constructor
            · rintro ⟨hle, hlt, hhere, hbefore⟩
              refine ⟨by omega, by omega, hhere, fun j hij hj => ?_⟩
              rcases Nat.eq_or_lt_of_le hij with rfl | hij
              · exact ⟨y, hi, hfound⟩
              · exact hbefore j hij hj
            · rintro ⟨hle, hlt, hhere, hbefore⟩
              have hne : i ≠ id := by
                rintro rfl
                rcases hhere with ⟨z, hz, hzkey⟩
                rw [hi, Option.some_inj] at hz
                exact hfound (hz ▸ hzkey)
              exact ⟨by omega, by omega, hhere, fun j hij hj => hbefore j (by omega) hj⟩

/-- The search through the slots is a search through the list. -/
theorem findSenderFrom_eq (h : x.Holds l) (host : Nat) (port : BitVec 16) (m i : Nat)
    (hm : i + m = l.length) :
    x.findSenderFrom host port m i =
      (x, ((l.drop i).findIdx? fun y => y.key x.abi = (host, port)).map (· + i)) := by
  induction m generalizing i with
  | zero => rw [List.drop_of_length_le (by omega)]; rfl
  | succ m ih =>
      have hi : i < l.length := by omega
      have hslot : x.slot i = some l[i] := by rw [h.slot_eq, List.getElem?_eq_getElem hi]
      rw [findSenderFrom, h.touch_eq hi, List.drop_eq_getElem_cons hi, List.findIdx?_cons]
      simp only [hslot, equalAddr_key]
      split
      · rw [Option.map_some, Nat.zero_add]
      · rw [ih (i + 1) (by omega), Option.map_map]
        congr 2
        ext j
        simp only [Function.comp_apply]
        omega

/-- {lit}`udpserver__find_sender` finds the first client with the address. -/
theorem findSender_eq (h : x.Holds l) (host : Nat) (port : BitVec 16) :
    x.findSender host port = (x, l.findIdx? fun y => y.key x.abi = (host, port)) := by
  rw [findSender, h.count, findSenderFrom_eq h host port l.length 0 (by omega)]
  simp only [List.drop_zero, Nat.add_zero, Option.map_id']
  rw [intIndex_of_lt]
  intro id hid
  have hlt := (List.findIdx?_eq_some_iff_getElem.1 hid).1
  exact Nat.lt_trans hlt h.small

/-- An address is found where the list has it, and only there. -/
theorem findSender_cases (h : x.Holds l) (host : Nat) (port : BitVec 16) :
    (x.findSender host port = (x, none) ∧ ∀ y ∈ l, y.key x.abi ≠ (host, port)) ∨
      ∃ id y, l[id]? = some y ∧ y.key x.abi = (host, port) ∧
        x.findSender host port = (x, some id) := by
  rw [findSender_eq h]
  cases hfirst : l.findIdx? fun y => y.key x.abi = (host, port) with
  | none =>
      left
      refine ⟨rfl, fun y hy => ?_⟩
      exact of_decide_eq_false (List.findIdx?_eq_none_iff.1 hfirst y hy)
  | some id =>
      right
      rcases List.findIdx?_eq_some_iff_getElem.1 hfirst with ⟨hlt, hkey, -⟩
      exact ⟨id, l[id], List.getElem?_eq_getElem hlt, of_decide_eq_true hkey, rfl⟩

/-- Looking for an address can go wrong but changes nothing else. -/
theorem findSenderFrom_faults (x : Server) (host : Nat) (port : BitVec 16) (m i : Nat) :
    ∃ f, (x.findSenderFrom host port m i).1 = { x with faults := f } := by
  induction m generalizing x i with
  | zero => exact ⟨x.faults, rfl⟩
  | succ m ih =>
      rcases touch_faults x i with ⟨f, hf⟩
      rw [findSenderFrom, slot_touch, hf]
      cases x.slot i with
      | none => exact ⟨f, rfl⟩
      | some y =>
          dsimp only
          split
          · exact ⟨f, rfl⟩
          · rcases ih { x with faults := f } (i + 1) with ⟨g, hg⟩
            exact ⟨g, hg⟩

theorem findSender_faults (x : Server) (host : Nat) (port : BitVec 16) :
    ∃ f, (x.findSender host port).1 = { x with faults := f } :=
  findSenderFrom_faults x host port x.nconnections 0

/-- What the search finds is in a used slot. -/
theorem findSender_get {host : Nat} {port : BitVec 16} {id : Nat}
    (h : (x.findSender host port).2 = some id) : ∃ y, x.slot id = some y := by
  rcases (findSenderFrom_iff ..).1 (intIndex_eq_some.1 h).1 with ⟨-, -, ⟨y, hslot, -⟩, -⟩
  exact ⟨y, hslot⟩

theorem slot_findSender (x : Server) (host : Nat) (port : BitVec 16) (i : Nat) :
    (x.findSender host port).1.slot i = x.slot i := by
  rcases findSender_faults x host port with ⟨f, hf⟩
  rw [hf]
  rfl

/-! ## Adding -/

/-- The client {lit}`y` heard from at the time of {lit}`env`. -/
def seenNow (env : Env) (y : UdpSender) : UdpSender :=
  { y with lastseen := env.now }

/-- A client that is found is heard from. -/
theorem senderAdd_heard (env : Env) {host : Nat} {port : BitVec 16} {id : Nat}
    (haccept : x.accept ≠ 0) (hfind : (x.findSender host port).2 = some id) :
    ∃ y, x.slot id = some y ∧ x.senderAdd env host port =
      ((x.findSender host port).1.setSlot id (some (seenNow env y)), some (seenNow env y)) := by
  rcases findSender_get hfind with ⟨y, hslot⟩
  have hslot' := slot_findSender x host port id
  rw [hslot] at hslot'
  refine ⟨y, hslot, ?_⟩
  rw [senderAdd, if_neg haccept]
  generalize x.findSender host port = r at hfind hslot' ⊢
  rcases r with ⟨x₁, found⟩
  subst hfind
  have hrefresh : x₁.refresh env id = x₁.setSlot id (some (seenNow env y)) := by
    unfold refresh
    rw [hslot']
    rfl
  have hread : (x₁.setSlot id (some (seenNow env y))).slot id = some (seenNow env y) := by
    show SlotTable.get (x₁.sr.set id _) id = _
    rw [SlotTable.get_set, if_pos ⟨rfl, SlotTable.lt_of_get hslot'⟩]
  simp only [hrefresh, hread]

/-- An address that is not found is entered, if there is room. -/
theorem senderAdd_unknown (env : Env) {host : Nat} {port : BitVec 16}
    (haccept : x.accept ≠ 0) (hfind : (x.findSender host port).2 = none) :
    x.senderAdd env host port = (x.findSender host port).1.enter env host port := by
  rw [senderAdd, if_neg haccept]
  generalize x.findSender host port = r at hfind ⊢
  rcases r with ⟨x₁, found⟩
  subst hfind
  rfl

theorem senderNew_frame (x : Server) (env : Env) (host : Nat) (port : BitVec 16) :
    ∃ uniq made, (x.senderNew env host port).1 =
      { x with uniq := uniq, sendersMade := made } := by
  unfold senderNew
  split <;> exact ⟨_, _, rfl⟩

theorem setSlot_frame (x : Server) (i : Nat) (v : Option UdpSender) :
    ∃ f, x.setSlot i v = { x with sr := x.sr.set i v, faults := f } := by
  rcases touch_faults x i with ⟨f, hf⟩
  rw [setSlot, hf]
  exact ⟨f, rfl⟩

/-- Entering an address concerns the table and its account only. -/
theorem enter_frame (x : Server) (env : Env) (host : Nat) (port : BitVec 16) :
    ∃ sr n uniq made f, (x.enter env host port).1 =
      { x with
        sr := sr
        nconnections := n
        uniq := uniq
        sendersMade := made
        faults := f } := by
  rcases senderNew_frame x env host port with ⟨uniq, made, hnew⟩
  unfold enter
  generalize x.senderNew env host port = r at hnew ⊢
  rcases r with ⟨x₁, v⟩
  subst hnew
  dsimp only
  split
  · split
    · exact ⟨_, _, _, _, _, rfl⟩
    · rcases setSlot_frame { x with uniq := uniq, sendersMade := made }
        (toInt32 x.nconnections).toNat v with ⟨f, hf⟩
      rw [hf]
      exact ⟨_, _, _, _, _, rfl⟩
  · exact ⟨_, _, _, _, _, rfl⟩

/-- With room one more client is counted, whatever the allocator delivers. -/
theorem enter_counts (env : Env) (host : Nat) (port : BitVec 16)
    (hroom : toInt32 x.nconnections < toInt32 x.maxconnections) :
    (x.enter env host port).1.nconnections = (x.nconnections + 1) % 2 ^ 32 := by
  rcases senderNew_frame x env host port with ⟨uniq, made, hnew⟩
  unfold enter
  generalize x.senderNew env host port = r at hnew ⊢
  rcases r with ⟨x₁, v⟩
  subst hnew
  rw [if_pos hroom]
  dsimp only
  split
  · rfl
  · rcases setSlot_frame { x with uniq := uniq, sendersMade := made }
      (toInt32 x.nconnections).toNat v with ⟨f, hf⟩
    rw [hf]

/-- What the allocator delivers is stored and returned. -/
theorem enter_stores (env : Env) (host : Nat) (port : BitVec 16)
    (hroom : toInt32 x.nconnections < toInt32 x.maxconnections)
    (hpos : 0 ≤ toInt32 x.nconnections) (hlt : (toInt32 x.nconnections).toNat < x.sr.length) :
    (x.enter env host port).1.sr =
        x.sr.set (toInt32 x.nconnections).toNat (x.senderNew env host port).2 ∧
      (x.enter env host port).2 = (x.senderNew env host port).2 := by
  rcases senderNew_frame x env host port with ⟨uniq, made, hnew⟩
  unfold enter
  generalize x.senderNew env host port = r at hnew ⊢
  rcases r with ⟨x₁, v⟩
  subst hnew
  simp only [if_pos hroom, if_neg (not_lt.2 hpos)]
  refine ⟨rfl, ?_⟩
  show SlotTable.get (x.sr.set _ v) _ = v
  rw [SlotTable.get_set, if_pos ⟨rfl, hlt⟩]

/-- Behind a negative index nothing is found. -/
theorem enter_negative (env : Env) (host : Nat) (port : BitVec 16)
    (hneg : toInt32 x.nconnections < 0) : (x.enter env host port).2 = none := by
  by_cases hroom : toInt32 x.nconnections < toInt32 x.maxconnections
  · simp only [enter, if_pos hroom, if_pos hneg]
  · simp only [enter, if_neg hroom]

/-- Registering concerns the table and its account only. -/
theorem senderAdd_frame (x : Server) (env : Env) (host : Nat) (port : BitVec 16) :
    ∃ sr n uniq made f, (x.senderAdd env host port).1 =
      { x with
        sr := sr
        nconnections := n
        uniq := uniq
        sendersMade := made
        faults := f } := by
  rcases findSender_faults x host port with ⟨f, hf⟩
  by_cases haccept : x.accept = 0
  · rw [senderAdd, if_pos haccept]
    exact ⟨_, _, _, _, _, rfl⟩
  · cases hfind : (x.findSender host port).2 with
    | none =>
        rw [senderAdd_unknown env haccept hfind, hf]
        rcases enter_frame { x with faults := f } env host port with ⟨_, _, _, _, _, henter⟩
        exact ⟨_, _, _, _, _, henter⟩
    | some id =>
        rcases senderAdd_heard env haccept hfind with ⟨y, -, hadd⟩
        rcases setSlot_frame { x with faults := f } id (some (seenNow env y)) with ⟨g, hg⟩
        rw [hadd, hf, hg]
        exact ⟨_, _, _, _, _, rfl⟩

/-- The server with the client in slot {lit}`id` heard from. -/
def heard (env : Env) (x : Server) (id : Nat) (y : UdpSender) : Server :=
  { x with sr := x.sr.set id (some (seenNow env y)) }

/-- A datagram from a known client updates its entry. -/
theorem Holds.heard (h : x.Holds l) (env : Env) {id : Nat} (hid : l[id]? = some y) :
    (x.heard env id y).Holds (l.set id (seenNow env y)) := by
  have hlt : id < l.length := (List.getElem?_eq_some_iff.1 hid).1
  refine ⟨?_, ?_, ?_, ?_⟩
  · show x.sr.set id _ = _
    rw [h.sr_eq, SlotTable.table, SlotTable.table, List.set_append_left _ _ (by simpa using hlt),
      List.length_set, List.map_set]
    rfl
  · rw [List.length_set]
    exact h.count
  · rw [List.length_set]
    exact h.fits
  · rw [List.length_set]
    exact h.small

/-- A known address is heard from again. -/
theorem senderAdd_known (h : x.Holds l) {env : Env} (haccept : x.accept ≠ 0) {host : Nat}
    {port : BitVec 16} {id : Nat} (hid : l[id]? = some y)
    (hfind : x.findSender host port = (x, some id)) :
    x.senderAdd env host port = (x.heard env id y, some (seenNow env y)) := by
  have hsr := h.lt_sr (List.getElem?_eq_some_iff.1 hid).1
  rcases senderAdd_heard env haccept (congrArg Prod.snd hfind) with ⟨z, hslot, hadd⟩
  rw [h.slot_eq, hid, Option.some_inj] at hslot
  rw [hadd, hfind, setSlot_of_lt hsr, hslot]
  rfl

/-- There is room for one more client as far as {lit}`udpserver_sender_add` can
tell. -/
def Room (x : Server) : Prop :=
  (x.nconnections : Int) < toInt32 x.maxconnections

theorem toInt32_natCast_le (n : Nat) : toInt32 n ≤ n ∧ toInt32 n < 2 ^ 31 := by
  have hlt := @BitVec.toInt_lt 32 (BitVec.ofInt 32 n)
  refine ⟨?_, by rw [toInt32]; simpa using hlt⟩
  rw [toInt32, BitVec.toInt_ofInt]
  simp only [Int.bmod]
  split <;> omega

/-- A small number is the same as an {lit}`int`. -/
theorem toInt32_natCast {n : Nat} (h : n < 2 ^ 31) : toInt32 n = n := by
  rw [toInt32, BitVec.toInt_ofInt, Int.bmod_eq_of_le] <;> omega

/-- The number of clients as an {lit}`int`. -/
theorem Holds.toInt32_count (h : x.Holds l) : toInt32 x.nconnections = l.length := by
  rw [h.count, toInt32_natCast h.small]

/-- Without room an unknown address is refused. -/
theorem senderAdd_full (h : x.Holds l) {env : Env} (haccept : x.accept ≠ 0) {host : Nat}
    {port : BitVec 16} (hfind : x.findSender host port = (x, none)) (hroom : ¬ x.Room) :
    x.senderAdd env host port = (x, none) := by
  have hfull : ¬ toInt32 x.nconnections < toInt32 x.maxconnections := by
    rw [h.toInt32_count, ← h.count]
    exact hroom
  rw [senderAdd_unknown env haccept (congrArg Prod.snd hfind), hfind]
  simp only [enter, if_neg hfull]

/-- The server once a record has been made. -/
def counted (x : Server) : Server :=
  { x with uniq := toInt32 (x.uniq + 1), sendersMade := x.sendersMade + 1 }

/-- The server with one more client. -/
def entered (env : Env) (x : Server) (host : Nat) (port : BitVec 16) : Server :=
  { x.counted with
    sr := x.sr.set x.nconnections (some (newSender env x host port))
    nconnections := x.nconnections + 1 }

theorem Holds.room_lt (h : x.Holds l) (hroom : x.Room) :
    l.length < x.maxconnections ∧ l.length + 1 < 2 ^ 31 := by
  have hmax := toInt32_natCast_le x.maxconnections
  have hcount := h.count
  unfold Room at hroom
  omega

/-- A new client goes to the end of the list. -/
theorem Holds.entered (h : x.Holds l) (env : Env) (host : Nat) (port : BitVec 16)
    (hroom : x.Room) :
    (x.entered env host port).Holds (l ++ [newSender env x host port]) := by
  have hlt := h.room_lt hroom
  have hspare : x.maxconnections - l.length = x.maxconnections - (l.length + 1) + 1 := by
    omega
  refine ⟨?_, ?_, ?_, ?_⟩
  · show x.sr.set x.nconnections _ = _
    rw [h.sr_eq, h.count, hspare, SlotTable.set_table_length, List.length_append,
      List.length_singleton]
    rfl
  · rw [List.length_append, List.length_singleton, ← h.count]
    rfl
  · rw [List.length_append, List.length_singleton]
    exact hlt.1
  · rw [List.length_append, List.length_singleton]
    exact hlt.2

/-- With room and memory an unknown address is entered behind the last client. -/
theorem senderAdd_new (h : x.Holds l) {env : Env} (haccept : x.accept ≠ 0)
    (hclient : env.client = true) {host : Nat} {port : BitVec 16}
    (hfind : x.findSender host port = (x, none)) (hroom : x.Room) :
    x.senderAdd env host port =
      (x.entered env host port, some (newSender env x host port)) := by
  have hlt := h.room_lt hroom
  have hsr : x.nconnections < x.sr.length := by
    rw [h.length_sr, h.count]
    exact hlt.1
  have hid : toInt32 x.nconnections = (x.nconnections : Nat) := by
    rw [h.toInt32_count, h.count]
  have hnext : (x.nconnections + 1) % 2 ^ 32 = x.nconnections + 1 := by
    rw [h.count]
    omega
  have hread : (x.entered env host port).slot x.nconnections =
      some (newSender env x host port) := by
    rw [(h.entered env host port hroom).slot_eq, h.count, List.getElem?_concat_length]
  have hpos : ¬ ((x.nconnections : Nat) : Int) < 0 := by omega
  have hnew : x.senderNew env host port = (x.counted, some (newSender env x host port)) := by
    rw [senderNew, if_pos hclient]
    rfl
  have hset : x.counted.setSlot x.nconnections (some (newSender env x host port)) =
      { x.counted with sr := x.sr.set x.nconnections (some (newSender env x host port)) } :=
    setSlot_of_lt (x := x.counted) hsr _
  have hroom' : ((x.nconnections : Nat) : Int) < toInt32 x.maxconnections := hroom
  have hcount : x.counted.nconnections = x.nconnections := rfl
  rw [senderAdd, if_neg haccept, hfind]
  show x.enter env host port = _
  unfold enter
  simp only [hid, hnew, if_neg hpos, Int.toNat_natCast, hset, hcount, hnext, if_pos hroom']
  exact congrArg (Prod.mk _) hread

/-! ## Removing -/

/-- The loop that should close the gap copies the next slot over the removed one again
and again. -/
theorem shift_eq (x : Server) (id m : Nat) (hid : id + 1 < x.sr.length) :
    x.shift id (m + 1) = { x with sr := x.sr.set id (x.slot (id + 1)) } := by
  have hlt : id < x.sr.length := by omega
  induction m generalizing x with
  | zero => rw [shift, shift, touch_of_lt hid, setSlot_of_lt hlt]
  | succ m ih =>
      have hother : SlotTable.get (x.sr.set id (x.slot (id + 1))) (id + 1) = x.slot (id + 1) := by
        rw [SlotTable.get_set, if_neg (by omega)]
        rfl
      rw [shift, touch_of_lt hid, setSlot_of_lt hlt, ih _ (by simpa using hid) (by simpa using hlt)]
      simp only [slot] at hother ⊢
      rw [hother, List.set_set]

/-- {lit}`udpserver_sender_remove` empties the slot of a client and moves nobody; the
slot behind the table is read if the last slot of all is emptied. -/
theorem senderRemove_eq (h : x.Holds l) {id : Nat} (hid : l[id]? = some y) :
    x.senderRemove id =
      { x.released [y] with
        sr := x.sr.set id none
        nconnections := l.length - 1
        faults := x.faults ++
          if id + 1 = x.maxconnections then [.outOfBounds (id + 1)] else [] } := by
  have hlt : id < l.length := (List.getElem?_eq_some_iff.1 hid).1
  have hsr := h.lt_sr hlt
  have hslot : x.slot id = some y := by rw [h.slot_eq, hid]
  rw [senderRemove, if_pos (by rw [h.count]; exact hlt), h.touch_eq hlt]
  simp only [hslot, senderFree_eq, h.count]
  by_cases hlast : id + 1 = x.maxconnections
  · have hone : l.length - id = 1 := by
      have := h.fits
      omega
    have hge : (x.released [y]).sr.length ≤ id + 1 := by
      show x.sr.length ≤ id + 1
      rw [h.length_sr]
      omega
    have hsr₁ : id < ((x.released [y]).fault (.outOfBounds (id + 1))).sr.length := hsr
    rw [hone, if_pos hlast, shift, shift, touch_of_ge hge, setSlot_of_lt hsr₁,
      setSlot_of_lt (by rw [List.length_set]; exact hsr₁), List.set_set]
    simp only [fault, released, h.count]
  · have hnext : id + 1 < (x.released [y]).sr.length := by
      have := h.fits
      show id + 1 < x.sr.length
      rw [h.length_sr]
      omega
    have hsome : l.length - id = l.length - id - 1 + 1 := by omega
    have hsr₁ : id < (x.released [y]).sr.length := hsr
    rw [hsome, if_neg hlast, shift_eq _ _ _ hnext,
      setSlot_of_lt (by rw [List.length_set]; exact hsr₁), List.set_set, List.append_nil]
    simp only [released, h.count]

/-- Removing a client is right exactly if it is the last one. -/
theorem senderRemove_holds_iff (h : x.Holds l) {id : Nat} (hid : id < l.length) :
    (x.senderRemove id).Holds (l.eraseIdx id) ↔ id + 1 = l.length := by
  have hget : l[id]? = some l[id] := List.getElem?_eq_getElem hid
  have hlen : (l.eraseIdx id).length = l.length - 1 := by rw [List.length_eraseIdx, if_pos hid]
  have hfits := h.fits
  have hspare : x.maxconnections - (l.length - 1) = x.maxconnections - l.length + 1 := by
    omega
  rw [senderRemove_eq h hget]
  constructor
  · intro hholds
    have hsr : x.sr.set id none =
        SlotTable.table (l.eraseIdx id) (x.maxconnections - (l.eraseIdx id).length) :=
      hholds.sr_eq
    rw [h.sr_eq, hlen] at hsr
    exact (SlotTable.set_none_eq_eraseIdx_iff l _ _ hid hspare).1 hsr
  · intro hlast
    refine ⟨?_, hlen.symm, ?_, ?_⟩
    · show x.sr.set id none = _
      rw [h.sr_eq, hlen]
      exact (SlotTable.set_none_eq_eraseIdx_iff l _ _ hid hspare).2 hlast
    · show (l.eraseIdx id).length ≤ x.maxconnections
      omega
    · have := h.small
      omega

/-! ## Expiry -/

/-- {lit}`udpserver_sender_autoremove` looks at the clients. -/
def Due (x : Server) (now : ℚ) : Prop :=
  0 < x.timeout ∧ 0 < clockGettimesince now x.lastchecked

instance (x : Server) (now : ℚ) : Decidable (x.Due now) :=
  inferInstanceAs (Decidable (_ ∧ _))

/-- The client has been heard from within the timeout. -/
def inTime (x : Server) (now : ℚ) (y : UdpSender) : Bool :=
  clockGettimesince now y.lastseen ≤ x.timeout

/-- The clients that are left after a check. -/
def survivors (x : Server) (now : ℚ) (l : List UdpSender) : List UdpSender :=
  if x.Due now then l.filter (x.inTime now) else l

/-- The survivors stay in order. -/
theorem survivors_sublist (x : Server) (now : ℚ) (l : List UdpSender) :
    (x.survivors now l).Sublist l := by
  unfold survivors
  split
  · exact List.filter_sublist
  · exact List.Sublist.refl l

/-- The clients that a check frees. -/
def expired (x : Server) (now : ℚ) (l : List UdpSender) : List UdpSender :=
  l.filter fun y => !x.inTime now y

theorem expired_cons_of_late {now : ℚ} (h : x.inTime now y = false) (ys : List UdpSender) :
    x.expired now (y :: ys) = y :: x.expired now ys := by
  simp [expired, h]

theorem expired_cons_of_inTime {now : ℚ} (h : x.inTime now y = true) (ys : List UdpSender) :
    x.expired now (y :: ys) = x.expired now ys := by
  simp [expired, h]

/-- The first loop compacts the table and frees the clients it leaves out. -/
theorem expireFrom_eq (now : ℚ) (x : Server) (m id w : Nat) (hw : w ≤ id)
    (hm : id + m ≤ x.sr.length) :
    x.expireFrom now m id w =
      ({ x.released (x.expired now (SlotTable.window x.sr id m)) with
          sr := (SlotTable.compact (x.inTime now) x.sr m id w).1 },
        (SlotTable.compact (x.inTime now) x.sr m id w).2) := by
  induction m generalizing x id w with
  | zero => simp [expireFrom, SlotTable.compact, SlotTable.window, SlotTable.entries, expired]
  | succ m ih =>
      have hid : id < x.sr.length := by omega
      have hwlt : w < x.sr.length := by omega
      rw [expireFrom, touch_of_lt hid, SlotTable.compact, SlotTable.window_succ hid]
      cases hslot : x.slot id with
      | none =>
          have hget : SlotTable.get x.sr id = none := hslot
          simp only [hget, Option.toList_none, List.nil_append]
          exact ih x (id + 1) w (by omega) (by omega)
      | some y =>
          have hget : SlotTable.get x.sr id = some y := hslot
          simp only [hget, Option.toList_some, List.singleton_append]
          by_cases hlate : x.timeout < clockGettimesince now y.lastseen
          · have hout : x.inTime now y = false := decide_eq_false (not_le.2 hlate)
            have hsr : id < (x.released [y]).sr.length := hid
            rw [if_pos hlate, senderFree_eq, setSlot_of_lt hsr,
              ih _ _ _ (by omega) (by rw [List.length_set]; show _ ≤ x.sr.length; omega)]
            rw [expired_cons_of_late hout]
            simp only [hout, Bool.false_eq_true, if_false]
            have hwindow : SlotTable.window ((x.released [y]).sr.set id none) (id + 1) m =
                SlotTable.window x.sr (id + 1) m :=
              SlotTable.window_set (Nat.lt_succ_self id) none m
            have hin : { x.released [y] with sr := (x.released [y]).sr.set id none }.inTime now =
                x.inTime now := rfl
            rw [hwindow, hin]
            simp only [released, List.foldl_cons, List.foldl_nil, List.map_cons, List.map_nil,
              List.append_assoc, List.singleton_append]
            rfl
          · have hkeep : x.inTime now y = true := decide_eq_true (not_lt.1 hlate)
            rw [if_neg hlate, setSlot_of_lt hwlt,
              ih _ _ _ (by omega) (by rw [List.length_set]; omega)]
            have hwindow : SlotTable.window (x.sr.set w (some y)) (id + 1) m =
                SlotTable.window x.sr (id + 1) m :=
              SlotTable.window_set (by omega) (some y) m
            have hin : { x with sr := x.sr.set w (some y) }.inTime now = x.inTime now := rfl
            rw [expired_cons_of_inTime hkeep, hwindow, hin]
            simp only [hkeep, if_true, released]
            rfl

/-- Clearing the slots is clearing the array. -/
theorem clearFrom_eq (x : Server) (m w : Nat) (hm : w + m ≤ x.sr.length) :
    x.clearFrom m w = { x with sr := SlotTable.clear x.sr m w } := by
  induction m generalizing x w with
  | zero => rfl
  | succ m ih =>
      rw [clearFrom, setSlot_of_lt (by omega), ih _ _ (by rw [List.length_set]; omega)]
      rfl

/-- Counting the slots is counting in the array. -/
theorem recountFrom_eq (x : Server) (m i : Nat) (hm : i + m ≤ x.sr.length) :
    x.recountFrom m i = (x, SlotTable.count x.sr m i) := by
  induction m generalizing i with
  | zero => rfl
  | succ m ih =>
      rw [recountFrom, touch_of_lt (by omega), SlotTable.count]
      cases hslot : x.slot i with
      | none =>
          have hget : SlotTable.get x.sr i = none := hslot
          simp only [hget]
      | some y =>
          have hget : SlotTable.get x.sr i = some y := hslot
          simp only [hget]
          exact ih (i + 1) (by omega)

/-- Before the time of the next check nothing happens. -/
theorem autoremove_of_not_due {now : ℚ} (h : ¬ x.Due now) : x.autoremove now = x := by
  unfold autoremove
  by_cases htimeout : x.timeout ≤ 0
  · rw [if_pos htimeout]
  · rw [if_neg htimeout, if_pos]
    by_contra hchecked
    exact h ⟨not_le.1 htimeout, not_le.1 hchecked⟩

/-- A check keeps those of the counted clients that are in time, in their order, and
clears all other slots. -/
theorem autoremove_due (hlen : x.sr.length = x.maxconnections)
    (hcount : x.nconnections ≤ x.maxconnections) {now : ℚ} (hdue : x.Due now) :
    x.autoremove now =
      { x.released (x.expired now (SlotTable.window x.sr 0 x.nconnections)) with
        sr := SlotTable.table ((SlotTable.window x.sr 0 x.nconnections).filter (x.inTime now))
          (x.maxconnections -
            ((SlotTable.window x.sr 0 x.nconnections).filter (x.inTime now)).length)
        nconnections :=
          ((SlotTable.window x.sr 0 x.nconnections).filter (x.inTime now)).length
        lastchecked := now } := by
  have hkept : ((SlotTable.window x.sr 0 x.nconnections).filter (x.inTime now)).length ≤
      x.nconnections :=
    Nat.le_trans (List.length_filter_le _ _) (SlotTable.length_window_le x.sr x.nconnections)
  have hcompact := SlotTable.clear_compact (x.inTime now) x.sr (hlen ▸ hcount)
  have hsnd := SlotTable.compact_snd (x.inTime now) x.sr x.nconnections 0 0 (Nat.le_refl 0)
    (by omega)
  have hexpire := expireFrom_eq now { x with lastchecked := now } x.nconnections 0 0
    (Nat.le_refl 0) (by show 0 + x.nconnections ≤ x.sr.length; omega)
  have hin : { x with lastchecked := now }.inTime now = x.inTime now := rfl
  simp only [hin] at hexpire
  generalize hkeep : (SlotTable.window x.sr 0 x.nconnections).filter (x.inTime now) = kept
    at hkept hcompact hsnd ⊢
  unfold autoremove
  rw [if_neg (not_le.2 hdue.1), if_neg (not_le.2 hdue.2)]
  simp only [hexpire]
  rw [clearFrom_eq _ _ _ (by
    show _ + (x.maxconnections - _) ≤ (SlotTable.compact _ x.sr _ _ _).1.length
    rw [SlotTable.length_compact, hlen]
    omega)]
  have hsr : SlotTable.clear (SlotTable.compact (x.inTime now) x.sr x.nconnections 0 0).1
      (x.maxconnections - (SlotTable.compact (x.inTime now) x.sr x.nconnections 0 0).2)
      (SlotTable.compact (x.inTime now) x.sr x.nconnections 0 0).2 =
        SlotTable.table kept (x.maxconnections - kept.length) := by
    rw [← hlen]
    exact hcompact
  rw [recountFrom_eq _ _ _ (by
    show 0 + x.maxconnections ≤ (SlotTable.clear _ (x.maxconnections - _) _).length
    rw [hsr, SlotTable.length_table]
    omega)]
  have hrecount : SlotTable.count (SlotTable.table kept (x.maxconnections - kept.length))
      x.maxconnections 0 = kept.length :=
    SlotTable.count_table _ _ _ _ (Nat.zero_le _) (by omega)
  have hmax : ({ x with lastchecked := now }.released (expired { x with lastchecked := now } now
      (SlotTable.window x.sr 0 x.nconnections))).maxconnections = x.maxconnections := rfl
  simp only [hmax, hsr, hrecount]
  rfl

/-- In a table in order all clients are checked. -/
theorem autoremove_eq (h : x.Holds l) {now : ℚ} (hdue : x.Due now) :
    x.autoremove now =
      { x.released (x.expired now l) with
        sr := SlotTable.table (l.filter (x.inTime now))
          (x.maxconnections - (l.filter (x.inTime now)).length)
        nconnections := (l.filter (x.inTime now)).length
        lastchecked := now } := by
  have hwindow : SlotTable.window x.sr 0 x.nconnections = l := by
    rw [h.sr_eq, h.count, SlotTable.window_table]
  rw [autoremove_due h.length_sr (h.count ▸ h.fits) hdue, hwindow]

/-- After a check the table holds the survivors. -/
theorem Holds.autoremove (h : x.Holds l) (now : ℚ) :
    (x.autoremove now).Holds (x.survivors now l) := by
  by_cases hdue : x.Due now
  · have hle : (l.filter (x.inTime now)).length ≤ l.length := List.length_filter_le _ l
    have hfits := h.fits
    have hsmall := h.small
    rw [autoremove_eq h hdue, survivors, if_pos hdue]
    exact ⟨rfl, rfl, show _ ≤ x.maxconnections by omega, by omega⟩
  · rw [autoremove_of_not_due hdue, survivors, if_neg hdue]
    exact h

/-! ## Disconnecting -/

/-- Disconnecting by an index does nothing, or reads an empty slot for the copy, or removes a
client and checks the others; the rest are outputs. -/
theorem disconnect_cases (x : Server) (env : Env) (client : Nat) :
    (x.nconnections ≤ client ∧ x.disconnect env client = x) ∨
      (client < x.nconnections ∧ env.copy = true ∧ x.slot client = none ∧
        x.disconnect env client = (x.touch client).fault (.nullSlot client)) ∨
      (client < x.nconnections ∧ ¬ (env.copy = true ∧ x.slot client = none) ∧
        ∃ outputs, x.disconnect env client =
          (((x.touch client).senderRemove client).autoremove env.now).logged outputs) := by
  unfold disconnect
  by_cases hout : x.nconnections ≤ client
  · rw [if_pos hout]
    exact Or.inl ⟨hout, rfl⟩
  · rw [if_neg hout]
    dsimp only
    rw [slot_touch]
    have hin := Nat.not_le.1 hout
    by_cases hcopy : env.copy = true
    · rw [if_pos hcopy]
      cases x.slot client with
      | none =>
          rw [if_pos ⟨hcopy, rfl⟩]
          exact Or.inr (Or.inl ⟨hin, hcopy, rfl, rfl⟩)
      | some y =>
          rw [if_neg fun hboth => Option.some_ne_none y hboth.2]
          dsimp only
          rw [infoConnection_eq, numconnout_eq, logged_logged]
          exact Or.inr (Or.inr ⟨hin, fun hboth => Option.some_ne_none y hboth.2, _, rfl⟩)
    · rw [if_neg hcopy, if_neg fun hboth => hcopy hboth.1, numconnout_eq]
      exact Or.inr (Or.inr ⟨hin, fun hboth => hcopy hboth.1, _, rfl⟩)

/-- Disconnecting the last client leaves the survivors of the others. -/
theorem Holds.disconnect (h : x.Holds l) (env : Env) {id : Nat} (hid : id + 1 = l.length) :
    (x.disconnect env id).Holds (x.survivors env.now (l.eraseIdx id)) := by
  have hlt : id < l.length := by omega
  have hget : l[id]? = some l[id] := List.getElem?_eq_getElem hlt
  have hslot : x.slot id = some l[id] := by rw [h.slot_eq, hget]
  have hremoved := (senderRemove_holds_iff h hlt).2 hid
  have hleft := hremoved.autoremove env.now
  have hsurvivors : (x.senderRemove id).survivors env.now (l.eraseIdx id) =
      x.survivors env.now (l.eraseIdx id) := by
    rw [senderRemove_eq h hget]
    rfl
  rw [hsurvivors] at hleft
  rcases disconnect_cases x env id with ⟨hout, -⟩ | ⟨-, -, hnone, -⟩ | ⟨-, -, outputs, heq⟩
  · rw [h.count] at hout
    omega
  · rw [hslot] at hnone
    cases hnone
  · rw [heq, h.touch_eq hlt]
    exact hleft.logged outputs

/-! ## Binding -/

/-- The server without what belongs to its socket. -/
def unbound (x : Server) : Server :=
  { x with
    connectsocket := -1
    port := 0
    ifaddr := none
    receiver := none
    polls := []
    receivers := []
    receiversMade := 0
    os := .empty
    log := [] }

@[simp]
theorem unbound_logged (outputs : List Output) : (x.logged outputs).unbound = x.unbound :=
  rfl

@[simp]
theorem unbound_closesocket (sockfd : Int) : (x.closesocket sockfd).unbound = x.unbound := by
  unfold closesocket
  split <;> rfl

@[simp]
theorem unbound_closePort : x.closePort.unbound = x.unbound := by
  unfold closePort
  split
  · exact unbound_closesocket x.connectsocket
  · rfl

theorem unbound_listenOn (env : Env) (ifaddr : Option String) (portno : BitVec 16)
    (sockfd : Int) : (x.listenOn env ifaddr portno sockfd).unbound = x.unbound := by
  have hcreate : (receiverCreate env x sockfd).1.unbound = x.unbound := by
    unfold receiverCreate
    split <;> rfl
  unfold listenOn
  generalize receiverCreate env x sockfd = r at hcreate ⊢
  simp only [socket2addressout_eq, emit_eq, logged_logged, unbound_logged]
  exact hcreate

/-- Binding concerns the socket only. -/
theorem unbound_doBind (x : Server) (env : Env) (ifaddr : Option String) (portno : BitVec 16)
    (o : BindOutcome) : (x.doBind env ifaddr portno o).unbound = x.unbound := by
  unfold doBind
  split
  · rfl
  · dsimp only
    cases o.socket with
    | none => exact unbound_closePort
    | some sockfd =>
        have hopened : { x.closePort with os := x.closePort.os.acquire sockfd }.unbound =
            x.unbound := (unbound_closePort : x.closePort.unbound = x.unbound)
        dsimp only
        split
        · rw [unbound_closesocket, hopened]
        · split
          · rw [emit_eq, unbound_logged, unbound_closesocket, hopened]
          · rw [unbound_listenOn, hopened]

theorem unbound_setPort (x : Server) (env : Env) (f : FloatArg) (o : BindOutcome) :
    (x.setPort env f o).unbound = x.unbound := by
  unfold setPort
  split
  · rfl
  · exact unbound_doBind x env _ _ o

theorem unbound_bind (x : Server) (env : Env) (argv : List Atom) (wild : BitVec 32)
    (o : BindOutcome) : (x.bind env argv wild o).unbound = x.unbound := by
  unfold bind
  split
  · exact unbound_doBind x env _ _ o
  · dsimp only
    split
    · rfl
    · exact unbound_doBind x env _ _ o
  · rfl

end Server

end Iemnet.UdpServer
