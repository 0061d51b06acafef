import Iemnet.UdpServer.EmptyList
import Iemnet.UdpServer.Replies

/-!
# Registrations that fail

{lit}`udpserver_sender_add` stores what {lit}`udpserver_sender_new` delivers and counts it
before anyone looks whether there is a client.  Other functions dereference every slot that
counts.

Main results:

- Theorem {lit}`adds_looks`: while no counted slot is empty, nothing that looks at them
  dereferences {lit}`NULL`.
- Theorem {lit}`sender_add_safe_iff`: a registration is safe exactly if it does not come to
  the allocator, or the allocator delivers and the index of the slot is not negative.
-/

namespace Iemnet.UdpServer

open Pd Foundations

/-- The inputs that look up, target, describe or write to the clients that count. -/
def Input.Looks : Input → Prop
  | .received .. | .addClient .. | .defaulttarget _ | .info | .sendClient _ | .broadcast _
  | .defaultsend _ => True
  | _ => False

namespace Server

variable {x x' : Server} {env : Env} {host : Nat} {port : BitVec 16}

/-- No input that looks at the clients dereferences an empty slot, as long as the table is
the one of {lit}`x`. -/
def Quiet (x : Server) : Prop :=
  ∀ w : Server, w.sr = x.sr → w.nconnections = x.nconnections →
    ∀ env a w', a.Looks → w.step env a = some w' →
      ∀ i, w'.faults.count (.nullSlot i) = w.faults.count (.nullSlot i)

/-- What {lit}`udpserver_sender_add` has to leave behind: the table as it was, if it returns
{lit}`NULL`, and otherwise the client in a slot that counts; never an empty slot that
counts. -/
structure FailsSafe (x : Server) (r : Server × Option UdpSender) : Prop where
  refused : r.2 = none → r.1.sr = x.sr ∧ r.1.nconnections = x.nconnections
  returned : ∀ y ∈ r.2, ∃ i, i < r.1.nconnections ∧ r.1.slot i = some y
  used : ∀ i, i < r.1.nconnections → r.1.slot i ≠ none
  quiet : r.1.Quiet

/-- One of the clients that count has the address; its index is returned as an
{lit}`int`. -/
def Known (x : Server) (k : Nat × BitVec 16) : Prop :=
  ∃ id, id < x.nconnections ∧ id < 2 ^ 31 ∧ ∃ y, x.slot id = some y ∧ y.key x.abi = k

/-- The server accepts, the address is unknown, and there is room as far as the two sizes
tell as {lit}`int`s: {lit}`udpserver_sender_add` needs a record. -/
structure Attempts (x : Server) (host : Nat) (port : BitVec 16) : Prop where
  accept : x.accept ≠ 0
  unknown : ¬ x.Known (host, port)
  room : toInt32 x.nconnections < toInt32 x.maxconnections

/-! ## Looking at the clients -/

/-- A fault in which no slot of the table is involved. -/
def Slotless (f : Fault) : Prop :=
  ∀ i, f ≠ .nullSlot i

/-- With all counted slots used, a message that only looks at the table meets no null slot. -/
theorem adds_looks {a : Input} (hused : ∀ i, i < x.nconnections → x.slot i ≠ none)
    (ha : a.Looks) (hstep : x.step env a = some x') : Adds Slotless x x' := by
  have hp : ∀ i, Slotless (.outOfBounds i) := fun _ _ => Fault.noConfusion
  have hchunk : Slotless .nullChunk := fun _ => Fault.noConfusion
  have hlist : Slotless .nullList := fun _ => Fault.noConfusion
  have hslots : ∀ j, j < x.nconnections → x.slot j = none → Slotless (.nullSlot j) :=
    fun j hj hnone => absurd hnone (hused j hj)
  cases a with
  | received fd c =>
      simp only [step] at hstep
      split at hstep
      · cases hstep
        exact adds_receiveCallback hp x env c hlist
      · cases hstep
  | addClient s f =>
      cases hstep
      exact adds_addClient hp x env s f
  | defaulttarget f =>
      cases hstep
      exact adds_setDefaulttarget hp x f hslots
  | info =>
      cases hstep
      exact adds_info hp x env
  | sendClient argv =>
      cases hstep
      exact adds_sendClient hp x env argv hchunk
  | broadcast argv =>
      cases hstep
      exact adds_broadcast hp x env argv hchunk
  | defaultsend argv =>
      cases hstep
      exact adds_defaultsend hp x env argv hchunk hslots
  | disconnectClient | disconnectAll | accept | maxconnections | timeout | bind | port
  | elsewhere => exact ha.elim

theorem quiet_of_used (hused : ∀ i, i < x.nconnections → x.slot i ≠ none) : x.Quiet := by
  intro w hsr hcount env a w' ha hstep i
  have hsame : ∀ j, j < w.nconnections → w.slot j ≠ none := by
    intro j hj
    rw [slot, hsr]
    exact hused j (hcount ▸ hj)
  exact (adds_looks hsame ha hstep).count_eq fun hslot => hslot i rfl

/-! ## Registering -/

/-- In a table without holes a known address is found. -/
theorem Filled.findSender_eq_none_iff (h : x.Filled) :
    (x.findSender host port).2 = none ↔ ¬ x.Known (host, port) := by
  rw [Option.eq_none_iff_forall_ne_some]
  constructor
  · rintro hnone hknown
    classical
    rcases Nat.find_spec hknown with ⟨hcount, hint, hhere⟩
    have hfirst := fun j => @Nat.find_min _ _ hknown j
    generalize Nat.find hknown = id at hcount hint hhere hfirst
    refine hnone id ((findSender_iff x host port id).2 ⟨⟨hcount, hhere, fun j hj => ?_⟩, hint⟩)
    rcases h.slot_some (Nat.lt_trans hj hcount) with ⟨z, hz⟩
    refine ⟨z, hz, fun hkey => ?_⟩
    exact hfirst j hj ⟨Nat.lt_trans hj hcount, Nat.lt_trans hj hint, z, hz, hkey⟩
  · intro hunknown id hfind
    rcases (findSender_iff x host port id).1 hfind with ⟨⟨hcount, hhere, -⟩, hint⟩
    exact hunknown ⟨id, hcount, hint, hhere⟩

/-- The table stays as it is when nobody is registered. -/
theorem Filled.failsSafe_refused (h : x.Filled) (hsr : x'.sr = x.sr)
    (hcount : x'.nconnections = x.nconnections) : x.FailsSafe (x', none) := by
  have hused : ∀ i, i < x'.nconnections → x'.slot i ≠ none := by
    intro i hi
    rw [slot, hsr]
    exact h.used i (hcount ▸ hi)
  constructor
  case refused => exact fun _ => ⟨hsr, hcount⟩
  case returned => rintro _ ⟨⟩
  case used => exact hused
  case quiet => exact quiet_of_used hused

/-- A slot that is written does not become empty. -/
theorem FailsSafe.of_set {y : UdpSender} {id : Nat} (hsr : x'.sr = x.sr.set id (some y))
    (hlt : id < x.sr.length) (hcount : id < x'.nconnections)
    (hused : ∀ i, i < x'.nconnections → i ≠ id → x.slot i ≠ none) :
    x.FailsSafe (x', some y) := by
  have hhere : x'.slot id = some y := by
    rw [slot, hsr, SlotTable.get_set, if_pos ⟨rfl, hlt⟩]
  have hall : ∀ i, i < x'.nconnections → x'.slot i ≠ none := by
    intro i hi
    by_cases hid : i = id
    · rw [hid, hhere]
      exact Option.some_ne_none y
    · rw [slot, hsr, SlotTable.get_set, if_neg fun hboth => hid hboth.1.symm]
      exact hused i hi hid
  constructor
  case refused =>
    intro hnone
    cases hnone
  case returned =>
    rintro _ ⟨⟩
    exact ⟨id, hcount, hhere⟩
  case used => exact hall
  case quiet => exact quiet_of_used hall

/-- A size that is not negative as an {lit}`int`. -/
theorem toInt32_natCast_nonneg {n : Nat} (h : 0 ≤ toInt32 n) :
    (toInt32 n).toNat ≤ n ∧ (n + 1) % 2 ^ 32 = (toInt32 n).toNat + 1 := by
  have hlow := @BitVec.le_toInt 32 (BitVec.ofInt 32 n)
  have hmod : toInt32 n = Int.bmod n (2 ^ 32) := by
    rw [toInt32, BitVec.toInt_ofInt]
  rw [hmod] at h ⊢
  simp only [Int.bmod] at h ⊢
  split at h <;> split <;> omega

/-- With room a registration is safe exactly if a record is stored where it is found. -/
theorem Filled.failsSafe_enter_iff (h : x.Filled) (env : Env) (host : Nat) (port : BitVec 16)
    (hroom : toInt32 x.nconnections < toInt32 x.maxconnections) :
    x.FailsSafe (x.enter env host port) ↔ env.client = true ∧ 0 ≤ toInt32 x.nconnections := by
  have hcount := enter_counts env host port hroom
  have hmax := toInt32_natCast_le x.maxconnections
  have hlen := h.length_sr
  by_cases hpos : 0 ≤ toInt32 x.nconnections
  · have hlt : (toInt32 x.nconnections).toNat < x.sr.length := by omega
    rcases toInt32_natCast_nonneg hpos with ⟨hle, hnext⟩
    rcases enter_stores env host port hroom hpos hlt with ⟨hsr, hresult⟩
    generalize x.enter env host port = r at hcount hsr hresult ⊢
    rcases r with ⟨x', v⟩
    subst hresult
    dsimp only at hcount hsr
    by_cases hclient : env.client = true
    · -- the record is in the slot behind the last client
      rw [senderNew, if_pos hclient] at hsr ⊢
      refine iff_of_true (FailsSafe.of_set hsr hlt ?_ fun i hi hne => h.used i ?_) ⟨hclient, hpos⟩
      · omega
      · omega
    · -- an empty slot is counted
      rw [senderNew, if_neg hclient]
      refine iff_of_false (fun hsafe => ?_) fun hboth => hclient hboth.1
      have hsame : x'.nconnections = x.nconnections := (hsafe.refused rfl).2
      omega
  · -- nothing is stored, but one more client is counted
    refine iff_of_false (fun hsafe => ?_) fun hboth => hpos hboth.2
    have hsame := (hsafe.refused (enter_negative env host port (not_le.1 hpos))).2
    omega

end Server

/-- In every state whose counted slots are all used: registering an address is safe, whether
it succeeds or not, exactly if no record is needed for it, or the allocator delivers one and
the number of clients is not negative as an {lit}`int`. -/
theorem sender_add_safe_iff {x : Server} (h : x.Filled) (env : Env) (host : Nat)
    (port : BitVec 16) :
    x.FailsSafe (x.senderAdd env host port) ↔
      (x.Attempts host port → env.client = true ∧ 0 ≤ toInt32 x.nconnections) := by
  rcases x.findSender_faults host port with ⟨f, hf⟩
  by_cases haccept : x.accept = 0
  · rw [Server.senderAdd, if_pos haccept]
    exact iff_of_true (h.failsSafe_refused rfl rfl) fun hattempt =>
      absurd haccept hattempt.accept
  cases hfind : (x.findSender host port).2 with
  | some id =>
      -- a known client
      have hknown : ¬ ¬ x.Known (host, port) := by
        rw [← h.findSender_eq_none_iff, hfind]
        exact Option.some_ne_none id
      refine iff_of_true ?_ fun hattempt => absurd hattempt.unknown hknown
      rcases Server.senderAdd_heard env haccept hfind with ⟨y, hslot, hadd⟩
      have hcount : id < x.nconnections := ((Server.findSender_iff x host port id).1 hfind).1.1
      have hsame := congrArg Books.nconnections
        (Server.books_setSlot { x with faults := f } id (some (Server.seenNow env y)))
      rw [hadd, hf]
      apply Server.FailsSafe.of_set rfl (SlotTable.lt_of_get hslot)
      · exact hcount.trans_eq hsame.symm
      · exact fun i hi _ => h.used i (hi.trans_eq hsame)
  | none =>
      have hunknown := h.findSender_eq_none_iff.1 hfind
      rw [Server.senderAdd_unknown env haccept hfind, hf]
      by_cases hroom : toInt32 x.nconnections < toInt32 x.maxconnections
      · have henter := Server.Filled.failsSafe_enter_iff (x := { x with faults := f })
          ⟨h.length_sr, h.used⟩ env host port hroom
        have hattempt : x.Attempts host port := ⟨haccept, hunknown, hroom⟩
        rw [forall_prop_of_true hattempt, ← henter]
        exact ⟨fun hsafe => ⟨hsafe.refused, hsafe.returned, hsafe.used, hsafe.quiet⟩,
          fun hsafe => ⟨hsafe.refused, hsafe.returned, hsafe.used, hsafe.quiet⟩⟩
      · -- the table is full
        have hrefused : Server.enter env { x with faults := f } host port =
            ({ x with faults := f }, none) := if_neg hroom
        rw [hrefused]
        exact iff_of_true (h.failsSafe_refused rfl rfl) fun hattempt =>
          absurd hattempt.room hroom

/-- Two clients are in a table for three; a third peer is registered, and a fourth one is
refused. -/
theorem sender_add_safe_run :
    ∃ x x₁ x₂ y, udpserverMachine.run started
        (twoPeers ++ [(plainEnv 0 [], .maxconnections ⟨3, 0#32⟩)]) = some x ∧
      x.nconnections = 2 ∧
      x.senderAdd (plainEnv 0 []) 0x7f000001 5002#16 = (x₁, some y) ∧ x₁.nconnections = 3 ∧
      x.FailsSafe (x₁, some y) ∧
      x₁.senderAdd (plainEnv 0 []) 0x7f000001 5003#16 = (x₂, none) ∧
      x₁.FailsSafe (x₂, none) := by
  have hrun : udpserverMachine.run started
      (twoPeers ++ [(plainEnv 0 [], .maxconnections ⟨3, 0#32⟩)]) = some _ := rfl
  refine ⟨_, _, _, _, hrun, by decide +kernel, rfl, by decide +kernel, ?_, rfl, ?_⟩
  · exact (sender_add_safe_iff ⟨by decide +kernel, by decide +kernel⟩ (plainEnv 0 [])
      0x7f000001 5002#16).2 fun _ => ⟨rfl, by decide +kernel⟩
  · exact (sender_add_safe_iff ⟨by decide +kernel, by decide +kernel⟩ (plainEnv 0 [])
      0x7f000001 5003#16).2 fun hattempt => absurd hattempt.room (by decide +kernel)

/-- An environment without memory for the record of a client. -/
def noClientEnv : Env :=
  { plainEnv 0 [] with client := false }

/-- A peer writes to a new object while there is no memory, and the patch selects the first
client. -/
theorem sender_add_counts_null :
    ∃ x x₁ x₂, udpserverMachine.Reachable x ∧ x.Filled ∧ x.nconnections = 0 ∧
      (∀ i, x.slot i = none) ∧
      x.senderAdd noClientEnv 0x7f000001 5000#16 = (x₁, none) ∧ x₁.nconnections = 1 ∧
      x₁.slot 0 = none ∧ x₁.faults = [] ∧
      x₁.step (plainEnv 0 []) (.defaulttarget ⟨1, 0#32⟩) = some x₂ ∧
      x₂.faults = [.nullSlot 0] := by
  have hsr : started.sr = SlotTable.table [] 32 := by decide +kernel
  refine ⟨started, _, _, .start init_started, ⟨by decide +kernel, by decide +kernel⟩,
    by decide +kernel, ?_, rfl, by decide +kernel, by decide +kernel, by decide +kernel, rfl,
    by decide +kernel⟩
  intro i
  rw [Server.slot, hsr, SlotTable.get_table]
  rfl

end Iemnet.UdpServer
