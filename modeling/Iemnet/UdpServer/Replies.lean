import Iemnet.UdpServer.Posting
import Iemnet.UdpServer.Broadcast

/-!
# Replies of the UDP server

An address comes in through {lit}`iemnet__chunk_create_dataaddr`, is kept in the record of a
client and goes out through {lit}`iemnet__sender_defaultsend`.

Main results:

- Theorem {lit}`senderAdd_cases_of_sound`: whom a datagram is attributed to.
- Theorem {lit}`reach_speaksFor`: what is handed to the sender of a client is for its address.
- Theorem {lit}`replies_to_source_iff`: replies go to where the datagram came from, and a later
  datagram belongs to the same client exactly if no hole of the table hides it.
-/

namespace Iemnet.UdpServer

open Pd Foundations

/-- The client is registered for a source of datagrams. -/
def UdpSender.From (abi : Abi) (a : SockaddrIn) (y : UdpSender) : Prop :=
  y.key abi = ((abi.ntohl a.addr).toNat, abi.ntohs a.port)

instance (abi : Abi) (a : SockaddrIn) (y : UdpSender) : Decidable (y.From abi a) :=
  inferInstanceAs (Decidable (_ = _))

namespace Server

variable {x x' : Server} {env : Env} {y z : UdpSender} {k : Nat × BitVec 16}

/-! ## Whom a datagram is attributed to -/

/-- Slot {lit}`id` is the first one that holds a client with the address, it counts, and no
slot in front of it is {lit}`NULL`. -/
def InSight (x : Server) (k : Nat × BitVec 16) (id : Nat) : Prop :=
  id < x.nconnections ∧ (∃ y, x.slot id = some y ∧ y.key x.abi = k) ∧
    ∀ j, j < id → ∃ z, x.slot j = some z ∧ z.key x.abi ≠ k

/-- There is only one first slot with an address. -/
theorem InSight.unique {id id' : Nat} (h : x.InSight k id) (h' : x.InSight k id') : id = id' := by
  have hle : ∀ {i j}, x.InSight k i → x.InSight k j → i ≤ j := by
    intro i j hi hj
    by_contra hlt
    rcases hi.2.2 j (Nat.not_le.1 hlt) with ⟨z, hz, hne⟩
    rcases hj.2.1 with ⟨y, hy, hkey⟩
    rw [hz, Option.some_inj] at hy
    exact hne (hy ▸ hkey)
  exact Nat.le_antisymm (hle h h') (hle h' h)

/-- The lookup finds the client in sight, if its index fits an {lit}`int`. -/
theorem findSender_iff (x : Server) (host : Nat) (port : BitVec 16) (id : Nat) :
    (x.findSender host port).2 = some id ↔ x.InSight (host, port) id ∧ id < 2 ^ 31 := by
  have hfrom := findSenderFrom_iff x host port x.nconnections 0 id
  constructor
  · intro hfind
    rcases intIndex_eq_some.1 hfind with ⟨hid, hint⟩
    rcases hfrom.1 hid with ⟨-, hlt, hhere, hbefore⟩
    exact ⟨⟨by omega, hhere, fun j hj => hbefore j (Nat.zero_le j) hj⟩, hint⟩
  · rintro ⟨⟨hlt, hhere, hbefore⟩, hint⟩
    have hid := hfrom.2 ⟨Nat.zero_le id, by omega, hhere, fun j _ hj => hbefore j hj⟩
    exact intIndex_eq_some.2 ⟨hid, hint⟩

/-- What {lit}`udpserver_sender_add` returns for an unknown address. -/
theorem enter_some (h : x.books.Sound) {host : Nat} {port : BitVec 16}
    (henter : x.enter env host port = (x', some z)) : z = newSender env x host port := by
  have hid : toInt32 x.nconnections = x.nconnections := toInt32_natCast h.small
  have hmax := toInt32_natCast_le x.maxconnections
  have hlen : x.sr.length = x.maxconnections := h.length_sr
  by_cases hroom : toInt32 x.nconnections < toInt32 x.maxconnections
  · have hstored := (enter_stores env host port hroom (by omega) (by omega)).2
    rw [henter] at hstored
    unfold senderNew at hstored
    split at hstored
    · exact Option.some.inj hstored
    · cases hstored
  · simp only [enter, if_neg hroom] at henter
    cases henter

/-- A datagram is attributed to the client in sight, or to a new one. -/
theorem senderAdd_cases_of_sound (h : x.books.Sound) {host : Nat}
    (hhost : host < 2 ^ x.abi.longBits) {port : BitVec 16}
    (hadd : x.senderAdd env host port = (x', some z)) :
    z.key x.abi = (host, port) ∧
      ((∃ id y, x.InSight (host, port) id ∧ x.slot id = some y ∧ z = seenNow env y) ∨
        ((∀ id, ¬ x.InSight (host, port) id) ∧ z.id = x.sendersMade)) := by
  have hsmall : x.nconnections < 2 ^ 31 := h.small
  by_cases haccept : x.accept = 0
  · rw [senderAdd, if_pos haccept] at hadd
    cases hadd
  · cases hfind : (x.findSender host port).2 with
    | none =>
        rcases findSender_faults x host port with ⟨f, hf⟩
        rw [senderAdd_unknown env haccept hfind, hf] at hadd
        have hz := enter_some (x := { x with faults := f }) h hadd
        refine ⟨?_, Or.inr ⟨fun id hsight => ?_, congrArg UdpSender.id hz⟩⟩
        · rw [hz]
          simp only [UdpSender.key, newSender, x.abi.toULong_ofULong hhost]
        · have hsome := (findSender_iff x host port id).2 ⟨hsight, Nat.lt_trans hsight.1 hsmall⟩
          rw [hfind] at hsome
          cases hsome
    | some id =>
        have hsight := ((findSender_iff x host port id).1 hfind).1
        rcases senderAdd_heard env haccept hfind with ⟨y, hy, hheard⟩
        have hz : z = seenNow env y := by
          rw [hheard, Prod.mk.injEq, Option.some_inj] at hadd
          exact hadd.2.symm
        rcases hsight.2.1 with ⟨y', hy', hkey⟩
        rw [hy, Option.some_inj] at hy'
        subst hy' hz
        exact ⟨hkey, Or.inl ⟨id, y, hsight, hy, rfl⟩⟩

/-- Whom a datagram is attributed to is in the table. -/
theorem senderAdd_mem (h : x.books.Sound) {host : Nat} {port : BitVec 16}
    (hadd : x.senderAdd env host port = (x', some z)) : z ∈ x'.clients := by
  have hset : ∀ {i : Nat}, i < x.sr.length → x'.sr = x.sr.set i (some z) → z ∈ x'.clients := by
    intro i hi hsr
    refine SlotTable.mem_entries.2 ⟨i, ?_⟩
    rw [hsr, SlotTable.get_set, if_pos ⟨rfl, hi⟩]
  have hlen : x.sr.length = x.maxconnections := h.length_sr
  rcases findSender_faults x host port with ⟨f, hf⟩
  by_cases haccept : x.accept = 0
  · rw [senderAdd, if_pos haccept] at hadd
    cases hadd
  · cases hfind : (x.findSender host port).2 with
    | none =>
        have hid : toInt32 x.nconnections = x.nconnections := toInt32_natCast h.small
        have hmax := toInt32_natCast_le x.maxconnections
        rw [senderAdd_unknown env haccept hfind, hf] at hadd
        by_cases hroom : toInt32 x.nconnections < toInt32 x.maxconnections
        · have hstored := enter_stores (x := { x with faults := f }) env host port hroom
            (by simp [hid]) (by simp [hid, hlen]; omega)
          rw [hadd] at hstored
          exact hset (i := (toInt32 x.nconnections).toNat) (by omega)
            (hstored.1.trans (by rw [← hstored.2]))
        · simp only [enter, if_neg hroom] at hadd
          cases hadd
    | some id =>
        rcases senderAdd_heard env haccept hfind with ⟨y, hy, hheard⟩
        rw [hheard, hf, Prod.mk.injEq, Option.some_inj] at hadd
        rcases hadd with ⟨rfl, rfl⟩
        exact hset (SlotTable.lt_of_get hy) rfl

end Server

/-! ## What is handed over for a client -/

section Handed

variable {x x' : Server} {env : Env} {z : UdpSender}

/-- Client {lit}`z` has been made, and its number stands for its address, in the table and in
whatever was handed over. -/
structure SpeaksFor (x : Server) (z : UdpSender) : Prop where
  id_lt : z.id < x.sendersMade
  client : ∀ y ∈ x.clients, y.id = z.id → y.address = z.address
  sends : ∀ e ∈ x.sends, e.1.id = z.id → (e.2.1.addr, e.2.1.port) = z.address

/-- The number of a client keeps standing for its address at every input. -/
theorem SpeaksFor.step (h : SpeaksFor x z) (hsound : x.books.Sound) {a : Input}
    (hs : x.step env a = some x') : SpeaksFor x' z := by
  have hfollows := Server.follows_step hsound hs
  rcases (Server.frame_step hsound.sized hs).2.2 with ⟨new, hnew, hoffers⟩
  constructor
  case id_lt => exact h.id_lt.trans_le hfollows.made_le
  case client =>
    intro y hy hid
    rcases hfollows.client y hy with hlate | ⟨y₀, hy₀, hid₀, haddress⟩
    · have hlt := h.id_lt
      rw [← hid] at hlt
      exact absurd hlate (Nat.not_le.2 hlt)
    · exact haddress ▸ h.client y₀ hy₀ (hid₀.trans hid)
  case sends =>
    intro e he hid
    rw [hnew, List.mem_append] at he
    rcases he with hold | hmore
    · exact h.sends e hold hid
    · exact (hoffers e hmore).2.trans (h.client e.1 (hoffers e hmore).1 hid)

/-- Clients of one table are told apart by their numbers. -/
theorem eq_of_id (hsound : x.books.Sound) {y : UdpSender} (hy : y ∈ x.clients)
    (hz : z ∈ x.clients) (hid : y.id = z.id) : y = z :=
  List.inj_on_of_nodup_map hsound.ids_nodup hy hz hid

/-- In every reachable state, what was ever handed over is for clients that have been made,
and for every client of the table it is for its address. -/
theorem reach_speaksFor (h : udpserverMachine.Reachable x) :
    (∀ e ∈ x.sends, e.1.id < x.sendersMade) ∧ ∀ z ∈ x.clients, SpeaksFor x z := by
  apply h.invariant
    (I := fun x => (∀ e ∈ x.sends, e.1.id < x.sendersMade) ∧ ∀ z ∈ x.clients, SpeaksFor x z)
  · intro x hx
    have hsound := Server.sound_of_created hx
    have hnone := sends_of_created hx
    refine ⟨by simp [hnone], fun z hz => ⟨hsound.id_lt z hz, fun y hy hid => ?_, ?_⟩⟩
    · rw [eq_of_id hsound hy hz hid]
    · simp [hnone]
  · rintro x ⟨env, a⟩ x' hreach ⟨hmade, hspeaks⟩ _ hs
    have hsound := Server.reach_sound hreach
    have hsound' := hsound.moves (Server.moves_step hsound hs)
    have hfollows := Server.follows_step hsound hs
    rcases (Server.frame_step hsound.sized hs).2.2 with ⟨new, hnew, hoffers⟩
    have hlt : ∀ e ∈ x'.sends, e.1.id < x.sendersMade := by
      intro e he
      rw [hnew, List.mem_append] at he
      rcases he with hold | hmore
      · exact hmade e hold
      · exact hsound.id_lt e.1 (hoffers e hmore).1
    refine ⟨fun e he => (hlt e he).trans_le hfollows.made_le, fun z hz => ?_⟩
    rcases hfollows.client z hz with hlate | ⟨y, hy, hid, haddress⟩
    · refine ⟨hsound'.id_lt z hz, fun y hy hid => ?_, fun e he hid => ?_⟩
      · rw [eq_of_id hsound' hy hz hid]
      · have hearly := hlt e he
        rw [hid] at hearly
        exact absurd hlate (Nat.not_le.2 hearly)
    · have hstep := (hspeaks y hy).step hsound hs
      refine ⟨hid ▸ hstep.id_lt, fun y' hy' hid' => ?_, fun e he hid' => ?_⟩
      · exact haddress ▸ hstep.client y' hy' (hid'.trans hid.symm)
      · exact haddress ▸ hstep.sends e he (hid'.trans hid.symm)

end Handed

/-! ## Replies -/

/-- However the server goes on from {lit}`x`, whatever is sent to whomever and in whatever order
the threads go on: the send thread of client {lit}`z` asks for the copies it passes on, and each
time for {lit}`sendto` with the address {lit}`a`. -/
def RepliesTo (x : Server) (z : UdpSender) (a : SockaddrIn) : Prop :=
  ∀ w es w', postMachine.Reachable w → w.server = x → postMachine.run w es = some w' →
    w'.mail.requestsOf z.id =
        ((w'.mail.senders z.id).passed.map fun c => defaultsendRequest c.chunk) ∧
      ∀ r ∈ w'.mail.requestsOf z.id, r.sockaddr x.abi = some ⟨afInet, a.addr, a.port⟩

section Posted

variable {w w' : PostOffice} {z : UdpSender} {abi : Abi} {a : SockaddrIn}

/-- Over a run, a client's number goes on standing for its address. -/
theorem Posted.run (h : Posted w) (hspeaks : SpeaksFor w.server z) {es : List Event}
    (hrun : postMachine.run w es = some w') : Posted w' ∧ SpeaksFor w'.server z := by
  refine Machine.run_invariant (M := postMachine)
    (I := fun w => Posted w ∧ SpeaksFor w.server z) ?_ ⟨h, hspeaks⟩ hrun
  rintro w e w' ⟨hposted, hspeaks⟩ hs
  refine ⟨hposted.step hs, ?_⟩
  rcases PostOffice.step_server hs with hsame | ⟨env, a, ha⟩
  · rw [hsame]
    exact hspeaks
  · exact hspeaks.step (Server.reach_sound hposted.reach) ha

/-- What the send thread of a client passes on is for its address. -/
theorem Posted.passed (h : Posted w) (hspeaks : SpeaksFor w.server z) {c : Copy}
    (hc : c ∈ (w.mail.senders z.id).passed) :
    (c.chunk.addr, c.chunk.port) = z.address ∧ c.chunk.family = afInet := by
  have hmade := (Sender.delivery (h.kept.reach z.id)).1.passedMem c hc
  rcases List.mem_mapIdx.1 hmade with ⟨i, hi, rfl⟩
  have hcall := h.kept.calls z.id _ (Or.inl (List.getElem_mem hi))
  rw [h.calls] at hcall
  rcases List.mem_map.1 hcall with ⟨e, he, heq⟩
  rw [Prod.mk.injEq] at heq
  have haddress := hspeaks.sends e he heq.1
  rw [heq.2] at haddress
  exact ⟨haddress, rfl⟩

/-- The address of a client is the one it has written from. -/
theorem UdpSender.From.sockaddr (hlong : 32 ≤ abi.longBits) (h : z.From abi a)
    (hport : a.port ≠ 0) {c : Chunk} (haddress : (c.addr, c.port) = z.address)
    (hfamily : c.family = afInet) :
    (defaultsendRequest c).sockaddr abi = some ⟨afInet, a.addr, a.port⟩ := by
  have hhost : BitVec.ofInt 32 z.host = abi.ntohl a.addr :=
    abi.ofInt_eq_of_toULong hlong (congrArg Prod.fst h)
  have hzport : z.port = abi.ntohs a.port := congrArg Prod.snd h
  have haddr : c.addr = z.host := congrArg Prod.fst haddress
  have hcport : c.port = z.port := congrArg Prod.snd haddress
  have hne : c.port ≠ 0#16 := by
    rw [hcport, hzport]
    exact abi.ntohs_ne_zero hport
  rw [defaultsendRequest, if_pos hne, SendRequest.sockaddr, hfamily, haddr, hhost,
    abi.ntohl_ntohl, hcport, hzport, abi.ntohs_ntohs]

theorem UdpSender.From.repliesTo {x : Server} (hlong : 32 ≤ x.abi.longBits)
    (h : z.From x.abi a) (hport : a.port ≠ 0) (hz : z ∈ x.clients) : RepliesTo x z a := by
  rintro w es w' hw rfl hrun
  have hposted := reach_posted hw
  rcases hposted.run ((reach_speaksFor hposted.reach).2 z hz) hrun with ⟨hposted', hspeaks⟩
  have hrequests := hposted'.kept.requests z.id
  refine ⟨hrequests, fun r hr => ?_⟩
  rw [hrequests] at hr
  rcases List.mem_map.1 hr with ⟨c, hc, rfl⟩
  rcases hposted'.passed hspeaks hc with ⟨haddress, hfamily⟩
  exact h.sockaddr hlong hport haddress hfamily

end Posted

/-- Two addresses have the same key exactly if they are the same. -/
theorem key_eq_iff (abi : Abi) (a a' : SockaddrIn) :
    ((abi.ntohl a.addr).toNat, abi.ntohs a.port) =
        ((abi.ntohl a'.addr).toNat, abi.ntohs a'.port) ↔
      a.addr = a'.addr ∧ a.port = a'.port := by
  rw [Prod.mk.injEq]
  constructor
  · rintro ⟨haddr, hport⟩
    refine ⟨?_, ?_⟩
    · rw [← abi.ntohl_ntohl a.addr, BitVec.eq_of_toNat_eq haddr, abi.ntohl_ntohl]
    · rw [← abi.ntohs_ntohs a.port, hport, abi.ntohs_ntohs]
  · rintro ⟨haddr, hport⟩
    rw [haddr, hport]
    exact ⟨rfl, rfl⟩

/-- In every reachable state, for every client {lit}`y` of the table, registered for the source
{lit}`a`, and every datagram from a source {lit}`a'` that is let in: replies to the client
{lit}`z` it is attributed to go to {lit}`a'`; and {lit}`z` is {lit}`y` just if the sources are
the same, exactly if {lit}`y` is in sight in the case that they are. -/
theorem replies_to_source_iff {x x' : Server} (hx : udpserverMachine.Reachable x)
    (hlong : x.abi.longBits = 32 ∨ x.abi.longBits = 64) {i : Nat} {y z : UdpSender}
    {a a' : SockaddrIn} (hslot : x.slot i = some y) (hy : y.From x.abi a) (hport : a'.port ≠ 0)
    {env : Env} {data : List (BitVec 8)} {c : Chunk}
    (hc : chunkCreateDataaddr x.abi env.mem data.length data (some a') = some c)
    (hadd : x.senderAdd env (x.abi.toULong c.addr) c.port = (x', some z)) :
    z.From x.abi a' ∧ RepliesTo (x.receiveCallback env (some c)) z a' ∧
      ((z.id = y.id ↔ a'.addr = a.addr ∧ a'.port = a.port) ↔
        (a'.addr = a.addr ∧ a'.port = a.port → x.InSight (y.key x.abi) i)) := by
  have hbits : 32 ≤ x.abi.longBits := by omega
  have hsound := Server.reach_sound hx
  have habi := (Server.receiveCallback_frame x env c).1
  have hclient : z ∈ (x.receiveCallback env (some c)).clients := by
    have hadded := Server.senderAdd_mem hsound hadd
    rwa [Server.clients, (Server.sameTable_receiveCallback x c).sr_eq, hadd]
  rcases chunkCreateDataaddr_some hc with ⟨haddr, hcport⟩
  rw [haddr, x.abi.toULong_toLong hbits, hcport] at hadd
  have hhost : (x.abi.ntohl a'.addr).toNat < 2 ^ x.abi.longBits :=
    Nat.lt_of_lt_of_le (x.abi.ntohl a'.addr).isLt (Nat.pow_le_pow_right Nat.zero_lt_two hbits)
  rcases Server.senderAdd_cases_of_sound hsound hhost hadd with ⟨hz, hcases⟩
  refine ⟨hz, UdpSender.From.repliesTo (habi ▸ hbits) (habi ▸ hz) hport hclient, ?_⟩
  have hsame : a'.addr = a.addr ∧ a'.port = a.port ↔ z.key x.abi = y.key x.abi := by
    rw [hz, hy, key_eq_iff]
  have hmember : y ∈ x.books.clients := SlotTable.mem_entries.2 ⟨i, hslot⟩
  have hsameId : z.id = y.id ↔ z.key x.abi = y.key x.abi ∧ x.InSight (y.key x.abi) i := by
    rcases hcases with ⟨j, w, hsight, hw, rfl⟩ | ⟨hhidden, hnew⟩
    · constructor
      · intro hid
        have hji : j = i := SlotTable.get_unique hsound.ids_nodup hw hslot hid
        subst hji
        have hwy : w = y := Option.some.inj (hw.symm.trans hslot)
        subst hwy
        have hwkey : w.key x.abi = _ := hz
        exact ⟨rfl, hwkey ▸ hsight⟩
      · rintro ⟨hkey, hyi⟩
        rw [← hkey, hz] at hyi
        have hji := hsight.unique hyi
        subst hji
        have hwy : w = y := Option.some.inj (hw.symm.trans hslot)
        subst hwy
        rfl
    · constructor
      · intro hid
        have hlt : y.id < x.sendersMade := hsound.id_lt y hmember
        omega
      · rintro ⟨hkey, hyi⟩
        rw [← hkey, hz] at hyi
        exact absurd hyi (hhidden i)
  rw [hsame, hsameId]
  by_cases hkey : z.key x.abi = y.key x.abi
  · simp [hkey]
  · simp [hkey]

/-- The peer of {lit}`datagram`, on a little-endian machine. -/
def peerAddr (port : BitVec 16) : SockaddrIn :=
  ⟨afInet, 0x0100007f#32, swapBytes16 port⟩

/-- A list of seven bytes. -/
def sevenBytes : List Atom :=
  (List.range 7).map fun n => setFloat n

/-- The chunk is addressed and handed to the sender of a client, which makes a copy. -/
def turnTo (id : Nat) (port : BitVec 16) (q : Nat) : List Work :=
  [.address 0x7f000001 port, .send id] ++ List.replicate 5 (.main q ⟨true, 0, none, true⟩)

/-- Two peers write, and the first one again. -/
def threeDatagrams : List Event :=
  (twoPeers ++ onePeer).map fun a => .message a.1 a.2 []

/-- A list for both: the thread of the first client has not got far when the chunk is addressed
to the second one, whose thread asks the kernel first. -/
def oneBroadcast : List Event :=
  .message (plainEnv 0 []) (.broadcast sevenBytes)
      (.create 0 ⟨[0, 1, 2, 3, 4, 5, 6], 0, 0, afInet⟩ ::
        turnTo 0 5000#16 1 ++ List.replicate 2 (.thread 0 ⟨true, 0, none, true⟩) ++
        turnTo 1 5001#16 2 ++ [.destroy]) ::
    (List.replicate 9 (.work (.thread 1 ⟨true, 0, none, true⟩)) ++
      List.replicate 7 (.work (.thread 0 ⟨true, 0, none, true⟩)))

/-- The server that has heard from two peers. -/
def heardTwo : Server :=
  (started.receiveCallback (plainEnv 0 []) (some (datagram 5000#16))).receiveCallback
    (plainEnv 0 []) (some (datagram 5001#16))

/-- A peer writes a second time, and what it is sent goes to its address. -/
theorem replies_to_source_one :
    ∃ x' z y w w', heardTwo.senderAdd (plainEnv 0 []) 0x7f000001 5000#16 = (x', some z) ∧
      heardTwo.slot 0 = some y ∧ z.id = y.id ∧
      postMachine.run ⟨started, .empty⟩ threeDatagrams = some w ∧
      postMachine.run w oneBroadcast = some w' ∧ w'.mail.requests.map Prod.fst = [1, z.id] ∧
      ∀ r ∈ w'.mail.requestsOf z.id,
        r.sockaddr heardTwo.abi =
          some ⟨afInet, (peerAddr 5000#16).addr, (peerAddr 5000#16).port⟩ := by
  have hrun : udpserverMachine.run started twoPeers = some heardTwo := rfl
  have hport : (peerAddr 5000#16).port ≠ 0 := by decide
  have hboth := @replies_to_source_iff _ _ (Machine.reach_of_run init_started hrun) (Or.inr rfl) 0
    _ _ (peerAddr 5000#16) (peerAddr 5000#16) rfl (by decide +kernel) hport (plainEnv 0 [])
    [42#8] (datagram 5000#16) rfl rfl
  have hid := (hboth.2.2.2 fun _ => ⟨by decide +kernel, ⟨_, rfl, rfl⟩, by omega⟩).2 ⟨rfl, rfl⟩
  have hbefore : postMachine.run ⟨started, .empty⟩ threeDatagrams =
      some ⟨heardTwo.receiveCallback (plainEnv 0 []) (some (datagram 5000#16)), .empty⟩ := rfl
  have hreach := Machine.reach_of_run (M := postMachine) ⟨init_started, rfl⟩ hbefore
  have hend : (postMachine.run
      ⟨heardTwo.receiveCallback (plainEnv 0 []) (some (datagram 5000#16)), .empty⟩
      oneBroadcast).map (fun w => w.mail.requests.map Prod.fst) = some [1, 0] := by decide +kernel
  rcases Option.map_eq_some_iff.1 hend with ⟨w', hafter, hrequests⟩
  have hreplies := (hboth.2.1 _ oneBroadcast w' hreach rfl hafter).2
  rw [(Server.receiveCallback_frame heardTwo (plainEnv 0 []) (datagram 5000#16)).1] at hreplies
  refine ⟨_, _, _, _, w', rfl, rfl, hid, hbefore, hafter, hrequests.trans ?_, hreplies⟩
  decide +kernel

/-- Two clients, of which the first is disconnected, then a third peer that writes twice: its
datagrams are attributed to different clients, since the search stops at the empty slot. -/
theorem same_source_two_clients :
    ∃ x x' y z, udpserverMachine.Reachable x ∧ x.slot 1 = some y ∧
      y.From x.abi (peerAddr 5002#16) ∧
      chunkCreateDataaddr x.abi true 1 [42#8] (some (peerAddr 5002#16)) =
        some (datagram 5002#16) ∧
      x.senderAdd (plainEnv 0 []) (x.abi.toULong (datagram 5002#16).addr) 5002#16 =
        (x', some z) ∧ z.id ≠ y.id := by
  have hrun : udpserverMachine.run started (twoClients 1 ++
      [(plainEnv 0 [], .received 3 (some (datagram 5002#16)))]) = some _ := rfl
  exact ⟨_, _, _, _, Machine.reach_of_run init_started hrun, rfl, by decide +kernel,
    by decide +kernel, rfl, by decide +kernel⟩

end Iemnet.UdpServer
