import Iemnet.UdpServer.Faults

/-!
# Empty lists and the NULL chunk

{lit}`iemnet__chunk_create_list` makes no chunk of an empty list, and
{lit}`udpserver_send_bytes` writes the address of the client into its chunk without looking
whether there is one.

Main results:

- Theorem {lit}`sendFrom_null`: how often the loop over the clients dereferences
  {lit}`NULL`.
- Theorem {lit}`null_chunk_iff`: a message that sends is safe exactly if its list is not
  empty or nobody is addressed.
-/

namespace Iemnet.UdpServer

open Pd Foundations

/-- The messages that send. -/
def Input.Sends : Input → Prop
  | .sendClient _ | .broadcast _ | .defaultsend _ => True
  | _ => False

/-- The atoms of a message that are sent. -/
def Input.atoms : Input → List Atom
  | .sendClient argv => argv.tail
  | .broadcast argv | .defaultsend argv => argv
  | _ => []

namespace Server

variable {x x' : Server} {env : Env} {y : UdpSender}

/-- The table has {lit}`x_maxconnections` slots, and the first {lit}`x_nconnections` of
them are used. -/
structure Filled (x : Server) : Prop where
  length_sr : x.sr.length = x.maxconnections
  used : ∀ i, i < x.nconnections → x.slot i ≠ none

/-- Some client is left once those that have been silent for too long are gone. -/
def SomeoneStays (x : Server) (now : ℚ) : Prop :=
  ∃ i y, i < x.nconnections ∧ x.slot i = some y ∧ (x.Due now → x.inTime now y = true)

/-- The message sends to some client. -/
def Addresses (x : Server) (now : ℚ) : Input → Prop
  | .sendClient (a :: rest) =>
      rest ≠ [] ∧ (x.fixindex (toInt32 (atomGetint a))).isSome
  | .broadcast _ => x.SomeoneStays now
  | .defaultsend _ =>
      match x.targetIndex with
      | some id => 0 < x.defaulttarget ∨ ∃ i, i < x.nconnections ∧ i ≠ id
      | none => x.SomeoneStays now
  | _ => False

/-- How often a {lit}`NULL` chunk has been dereferenced. -/
def nulls (x : Server) : Nat :=
  x.faults.count .nullChunk

/-! ## A chunk -/

/-- A fault in which no chunk is involved. -/
def Chunkless (f : Fault) : Prop :=
  f ≠ .nullChunk

theorem chunkless_outOfBounds (i : Nat) : Chunkless (.outOfBounds i) :=
  Fault.noConfusion

theorem Adds.nulls_eq (h : Adds Chunkless x x') : x'.nulls = x.nulls :=
  h.count_eq (not_not.2 rfl)

theorem nulls_autoremove (x : Server) (now : ℚ) : (x.autoremove now).nulls = x.nulls :=
  (adds_autoremove chunkless_outOfBounds x now).nulls_eq

/-- A chunk that was made is no null pointer. -/
theorem nulls_sendBytes_some (x : Server) (env : Env) (client : Nat) (chunk : Chunk) :
    (x.sendBytes env client (some chunk)).nulls = x.nulls :=
  (adds_sendBytes chunkless_outOfBounds x env client (some chunk) (by simp)).nulls_eq

theorem nulls_sendFrom_some (env : Env) (but : Option Nat) (chunk : Chunk) (fuel client : Nat)
    (x : Server) : (x.sendFrom env but (some chunk) fuel client).nulls = x.nulls :=
  (adds_sendFrom chunkless_outOfBounds env but (some chunk) (by simp) fuel client x).nulls_eq

/-! ## No chunk -/

theorem Filled.count_le (h : x.Filled) : x.nconnections ≤ x.maxconnections := by
  by_contra hlt
  have hused := h.used x.maxconnections (by omega)
  rw [slot, SlotTable.get, List.getElem?_eq_none (by rw [h.length_sr])] at hused
  exact hused rfl

/-- Every counted slot of a filled table is used. -/
theorem Filled.slot_some (h : x.Filled) {i : Nat} (hi : i < x.nconnections) :
    ∃ y, x.slot i = some y :=
  Option.ne_none_iff_exists'.1 (h.used i hi)

/-- The server after {lit}`NULL` has been dereferenced {lit}`k` times. -/
def nulled (x : Server) (k : Nat) : Server :=
  { x with faults := x.faults ++ List.replicate k .nullChunk }

theorem nulls_nulled (x : Server) (k : Nat) : (x.nulled k).nulls = x.nulls + k := by
  rw [nulls, nulled, List.count_append, List.count_replicate_self]
  rfl

theorem Filled.nulled (h : x.Filled) (k : Nat) : (x.nulled k).Filled :=
  ⟨h.length_sr, h.used⟩

/-- Sending the chunk of an empty list to a client passes one null pointer on. -/
theorem sendBytes_null (h : x.Filled) (env : Env) {client : Nat}
    (hclient : client < x.nconnections) : x.sendBytes env client none = x.nulled 1 := by
  have hmax := h.count_le
  rcases h.slot_some hclient with ⟨y, hslot⟩
  have hsr : client < x.sr.length := by
    rw [h.length_sr]
    omega
  rw [sendBytes, if_pos (by omega), touch_of_lt hsr]
  simp only [hslot]
  rfl

/-- Without a chunk the loop dereferences {lit}`NULL` for each client it sends to. -/
theorem sendFrom_null (h : x.Filled) (env : Env) (but : Option Nat) (fuel client : Nat) :
    ∃ k, x.sendFrom env but none fuel client = x.nulled k ∧
      (k = 0 ↔ ∀ i, client ≤ i → i < client + fuel → i < x.nconnections → but = some i) := by
  have hnone : x.nulled 0 = x := by simp [Server.nulled]
  induction fuel generalizing x client with
  | zero =>
      refine ⟨0, hnone.symm, iff_of_true rfl fun i hi hlt => ?_⟩
      omega
  | succ fuel ih =>
      rw [sendFrom]
      by_cases hclient : client < x.nconnections
      · rw [if_pos hclient]
        by_cases hbut : but = some client
        · rw [if_pos hbut]
          rcases ih h (client + 1) hnone with ⟨k, hk, hzero⟩
          refine ⟨k, hk, hzero.trans ⟨fun hall i hi hfuel hlt => ?_, fun hall i hi hfuel hlt => ?_⟩⟩
          · by_cases hic : i = client
            · rw [hic, hbut]
            · exact hall i (by omega) (by omega) hlt
          · exact hall i (by omega) (by omega) hlt
        · rw [if_neg hbut, sendBytes_null h env hclient]
          have hnone' : (x.nulled 1).nulled 0 = x.nulled 1 := by simp [Server.nulled]
          rcases ih (h.nulled 1) (client + 1) hnone' with ⟨k, hk, -⟩
          refine ⟨1 + k, ?_, ?_⟩
          · rw [hk]
            simp [Server.nulled, ← List.replicate_append_replicate]
          · constructor
            · intro hzero
              omega
            · intro hall
              exact absurd (hall client (Nat.le_refl _) (by omega) hclient) hbut
      · rw [if_neg hclient]
        refine ⟨0, hnone.symm, iff_of_true rfl fun i hi _ hlt => ?_⟩
        omega

/-! ## Messages -/

/-- The check for late clients leaves the table filled, and somebody in it if somebody stays.
-/
theorem Filled.autoremove (h : x.Filled) (now : ℚ) :
    (x.autoremove now).Filled ∧ (0 < (x.autoremove now).nconnections ↔ x.SomeoneStays now) := by
  by_cases hdue : x.Due now
  · have hkept : ∀ y, y ∈ (SlotTable.window x.sr 0 x.nconnections).filter (x.inTime now) ↔
        (∃ i, i < x.nconnections ∧ x.slot i = some y) ∧ x.inTime now y = true := fun y => by
      rw [List.mem_filter, SlotTable.mem_window]
      rfl
    have hle : ((SlotTable.window x.sr 0 x.nconnections).filter (x.inTime now)).length ≤
        x.maxconnections :=
      (Nat.le_trans (List.length_filter_le _ _) (SlotTable.length_window_le _ _)).trans h.count_le
    rw [autoremove_due h.length_sr h.count_le hdue]
    generalize (SlotTable.window x.sr 0 x.nconnections).filter (x.inTime now) = kept at hkept hle
    refine ⟨⟨?_, fun i hi hnone => ?_⟩, ?_⟩
    · show (SlotTable.table kept _).length = x.maxconnections
      rw [SlotTable.length_table]
      omega
    · change SlotTable.get (SlotTable.table kept _) i = none at hnone
      rw [SlotTable.get_table, List.getElem?_eq_none_iff] at hnone
      exact Nat.not_lt.2 hnone hi
    · show 0 < kept.length ↔ _
      rw [List.length_pos_iff_exists_mem]
      constructor
      · rintro ⟨y, hy⟩
        rcases (hkept y).1 hy with ⟨⟨i, hi, hslot⟩, hin⟩
        exact ⟨i, y, hi, hslot, fun _ => hin⟩
      · rintro ⟨i, y, hi, hslot, hin⟩
        exact ⟨y, (hkept y).2 ⟨⟨i, hi, hslot⟩, hin hdue⟩⟩
  · rw [autoremove_of_not_due hdue]
    refine ⟨h, fun hpos => ?_, ?_⟩
    · rcases h.slot_some hpos with ⟨y, hslot⟩
      exact ⟨0, y, hpos, hslot, fun hyes => absurd hyes hdue⟩
    · rintro ⟨i, _, hi, _⟩
      omega

/-- A broadcast passes no null pointer on exactly if the list is not empty or nobody stays. -/
theorem nulls_broadcast (h : x.Filled) (hmem : env.mem = true) (argv : List Atom) :
    (x.broadcast env argv).nulls = x.nulls ↔ argv ≠ [] ∨ ¬ x.SomeoneStays env.now := by
  rcases h.autoremove env.now with ⟨hfilled, hstays⟩
  have hloop : (x.broadcast env argv).nulls =
      ((x.autoremove env.now).sendFrom env none (chunkCreateList env.mem argv)
        (2 ^ 32) 0).nulls := by
    unfold broadcast
    dsimp only
    split <;> rfl
  rw [hloop, hmem, chunkCreateList_eq]
  by_cases hnil : argv = []
  · rw [if_pos hnil]
    rcases sendFrom_null hfilled env none (2 ^ 32) 0 with ⟨k, hk, hzero⟩
    have hsafe : k = 0 ↔ ¬ 0 < (x.autoremove env.now).nconnections := by
      rw [hzero]
      constructor
      · intro hall hpos
        exact absurd (hall 0 (Nat.le_refl 0) (by norm_num) hpos) (by simp)
      · intro hnone i _ _ hi
        omega
    rw [hk, nulls_nulled, nulls_autoremove, ← hstays, ← hsafe]
    constructor
    · intro hsame
      exact Or.inr (by omega)
    · rintro (hlist | hnobody)
      · exact absurd hnil hlist
      · rw [hnobody, Nat.add_zero]
  · rw [if_neg hnil, nulls_sendFrom_some, nulls_autoremove]
    exact iff_of_true rfl (Or.inl hnil)

theorem nulls_searched {x₁ : Server} (h : x.Searched x₁) : x₁.nulls = x.nulls := by
  apply Adds.nulls_eq
  apply adds_searched chunkless_outOfBounds h
  intro _ _ _
  exact Fault.noConfusion

/-- A list to one client passes no null pointer on exactly if it is not empty. -/
theorem nulls_sendToclient (h : x.Filled) (hmem : env.mem = true) {id : Nat}
    (hid : id < x.nconnections) (argv : List Atom) :
    (x.sendToclient env id argv).nulls = x.nulls ↔ argv ≠ [] := by
  rw [sendToclient, hmem, chunkCreateList_eq]
  by_cases hnil : argv = []
  · rw [if_pos hnil, sendBytes_null h env hid, nulls_nulled]
    exact iff_of_false (by omega) (not_not.2 hnil)
  · rw [if_neg hnil, nulls_sendBytes_some]
    exact iff_of_true rfl hnil

/-- The same of a list to all clients but one. -/
theorem nulls_sendButclient (h : x.Filled) (hmem : env.mem = true) (id : Nat)
    (argv : List Atom) : (x.sendButclient env id argv).nulls = x.nulls ↔
      argv ≠ [] ∨ ¬ ∃ i, i < x.nconnections ∧ i ≠ id := by
  rw [sendButclient, hmem, chunkCreateList_eq]
  by_cases hnil : argv = []
  · rw [if_pos hnil]
    rcases sendFrom_null h env (some id) (2 ^ 32) 0 with ⟨k, hk, hzero⟩
    rw [hk, nulls_nulled]
    have hsafe : k = 0 ↔ ¬ ∃ i, i < x.nconnections ∧ i ≠ id := by
      rw [hzero]
      constructor
      · rintro hall ⟨i, hi, hne⟩
        -- one of the first two clients is another one
        have hfirst : ∀ j, j < x.nconnections → j < 2 → j = id := fun j hj htwo =>
          (Option.some.inj (hall j (Nat.zero_le j) (by omega) hj)).symm
        by_cases hid : id = 0
        · have hone := hfirst 1 (by omega) (by omega)
          omega
        · have hnull := hfirst 0 (by omega) (by omega)
          omega
      · intro hnone i _ _ hi
        by_contra hne
        exact hnone ⟨i, hi, fun heq => hne (congrArg some heq.symm)⟩
    rw [← hsafe]
    constructor
    · intro hsame
      exact Or.inr (by omega)
    · rintro (hlist | hnobody)
      · exact absurd hnil hlist
      · rw [hnobody, Nat.add_zero]
  · rw [if_neg hnil, nulls_sendFrom_some]
    exact iff_of_true rfl (Or.inl hnil)

/-- A plain list passes no null pointer on exactly if it is not empty or addresses nobody. -/
theorem nulls_defaultsend (h : x.Filled) (hmem : env.mem = true) (argv : List Atom) :
    (x.defaultsend env argv).nulls = x.nulls ↔
      argv ≠ [] ∨ ¬ x.Addresses env.now (.defaultsend argv) := by
  rcases defaultsend_cases x env argv with ⟨x₁, hsearched, hcases⟩
  have hnulls := nulls_searched hsearched
  rcases hsearched.faults with ⟨f, rfl⟩
  have hfilled : { x with faults := f }.Filled := ⟨h.length_sr, h.used⟩
  rcases hcases with ⟨hpos, id, hindex, hlt, hsend⟩ | ⟨hneg, id, hindex, hlt, hsend⟩ |
    ⟨hindex, hsend⟩ <;> rw [hsend, ← hnulls] <;> simp only [Addresses, hindex]
  · rw [nulls_sendToclient hfilled hmem hlt argv]
    simp [hpos]
  · rw [nulls_sendButclient hfilled hmem id argv]
    simp [not_lt.2 hneg.le]
  · exact nulls_broadcast (x := { x with faults := f, defaulttarget := 0 }) ⟨h.length_sr, h.used⟩
      hmem argv

theorem nulls_sendClient (h : x.Filled) (hmem : env.mem = true) (argv : List Atom) :
    (x.sendClient env argv).nulls = x.nulls := by
  unfold sendClient
  cases argv with
  | nil => exact (adds_infoClients chunkless_outOfBounds _ x env 0).nulls_eq
  | cons a rest =>
      cases hfix : x.fixindex (toInt32 (atomGetint a)) with
      | none => simp only [hfix]
      | some id =>
          simp only [hfix]
          split
          · exact (adds_infoClient chunkless_outOfBounds x env id).nulls_eq
          · rename_i hrest
            exact (nulls_sendToclient h hmem (fixindex_lt hfix) rest).2 hrest

end Server

/-- In a state whose counted slots are all used, and with memory for chunks, a message
that sends does not dereference a {lit}`NULL` chunk exactly if its list is not empty or
it addresses no client. -/
theorem null_chunk_iff {x x' : Server} {env : Env} {a : Input} (h : x.Filled)
    (hmem : env.mem = true) (ha : a.Sends) (hstep : x.step env a = some x') :
    x'.faults.count .nullChunk = x.faults.count .nullChunk ↔
      a.atoms ≠ [] ∨ ¬ x.Addresses env.now a := by
  cases a with
  | sendClient argv =>
      cases hstep
      have hsafe := Server.nulls_sendClient h hmem argv
      refine iff_of_true hsafe ?_
      cases argv with
      | nil => exact Or.inr id
      | cons a rest =>
          by_cases hrest : rest = []
          · exact Or.inr fun haddress => haddress.1 hrest
          · exact Or.inl hrest
  | broadcast argv =>
      cases hstep
      exact Server.nulls_broadcast h hmem argv
  | defaultsend argv =>
      cases hstep
      exact Server.nulls_defaultsend h hmem argv
  | received | disconnectClient | disconnectAll | accept | maxconnections | timeout
  | defaulttarget | addClient | bind | port | info | elsewhere => exact ha.elim

/-- A byte for one client. -/
theorem null_chunk_safe :
    ∃ x x', udpserverMachine.run started
        [(plainEnv 0 [], .received 3 (some (datagram 5000#16)))] = some x ∧
      x.step (plainEnv 0 []) (.broadcast [setFloat 1]) = some x' ∧
      x'.faults.count .nullChunk = x.faults.count .nullChunk := by
  have hrun : udpserverMachine.run started
      [(plainEnv 0 [], .received 3 (some (datagram 5000#16)))] = some _ := rfl
  refine ⟨_, _, hrun, rfl, ?_⟩
  exact (null_chunk_iff (a := .broadcast [setFloat 1]) ⟨by decide +kernel, by decide +kernel⟩
    rfl trivial rfl).2 (Or.inl (by simp [Input.atoms]))

/-- An empty list for one client. -/
theorem null_chunk_crashes :
    ∃ x x', udpserverMachine.Reachable x ∧ x.Filled ∧ x.nconnections = 1 ∧ x.faults = [] ∧
      x.step (plainEnv 0 []) (.broadcast []) = some x' ∧ .nullChunk ∈ x'.faults := by
  have hrun : udpserverMachine.run started
      [(plainEnv 0 [], .received 3 (some (datagram 5000#16)))] = some _ := rfl
  exact ⟨_, _, Foundations.Machine.reach_of_run init_started hrun,
    ⟨by decide +kernel, by decide +kernel⟩, by decide +kernel, by decide +kernel, rfl,
    by decide +kernel⟩

end Iemnet.UdpServer
