import Iemnet.UdpServer.Moves

/-!
# What the inputs of the UDP server leave alone

Only the receive callback touches the float list, no input changes the machine, and
{lit}`iemnet__sender_send` is only called for clients of the table, with a chunk that carries
their address.

Main results:

- Theorem {lit}`hands_sendBytes`: what {lit}`udpserver_send_bytes` hands over.
- Theorem {lit}`frame_step`: the machine, the float list and the calls over one input.
- Theorem {lit}`follows_step`: where the clients after an input come from.
-/

namespace Iemnet.UdpServer

open Pd Foundations

namespace Books

variable {b b' b₁ : Books}

/-! ## Where clients come from -/

/-- Who is in the table after a removal was in it before. -/
theorem Drop.clients_subset (h : Drop b b') : b'.clients ⊆ b.clients := by
  cases h with
  | @remove i y hi hslot => exact (SlotTable.entries_set_none_sublist b.sr i).subset
  | check keep =>
      intro z hz
      rw [clients_checked] at hz
      exact (SlotTable.window_sublist ..).subset (List.mem_of_mem_filter hz)

theorem Drops.clients_subset (h : Drops b b') : b'.clients ⊆ b.clients := by
  induction h with
  | refl => exact List.Subset.refl _
  | tail _ hlast ih => exact fun z hz => ih (hlast.clients_subset hz)

/-- Every client has the number and the address of an earlier one, or a new number. -/
structure Follows (b b' : Books) : Prop where
  made_le : b.made ≤ b'.made
  client : ∀ z ∈ b'.clients,
    b.made ≤ z.id ∨ ∃ y ∈ b.clients, y.id = z.id ∧ y.address = z.address

theorem Follows.of_subset (hmade : b'.made = b.made) (hsub : b'.clients ⊆ b.clients) :
    Follows b b' :=
  ⟨hmade.ge, fun z hz => Or.inr ⟨z, hsub hz, rfl, rfl⟩⟩

theorem Follows.refl (b : Books) : Follows b b :=
  .of_subset rfl (List.Subset.refl _)

/-- New clients after two steps are new after one of them. -/
theorem Follows.trans (h : Follows b b₁) (h' : Follows b₁ b') : Follows b b' := by
  refine ⟨h.made_le.trans h'.made_le, fun z hz => ?_⟩
  rcases h'.client z hz with hnew | ⟨y, hy, hid, haddress⟩
  · exact Or.inl (h.made_le.trans hnew)
  · rcases h.client y hy with hnew | ⟨w, hw, hid', haddress'⟩
    · exact Or.inl (hid ▸ hnew)
    · exact Or.inr ⟨w, hw, hid'.trans hid, haddress'.trans haddress⟩

/-- Who is in the table after one slot has been written. -/
theorem mem_clients_set {i : Nat} {v : Option UdpSender} {z : UdpSender}
    (hz : z ∈ SlotTable.entries (b.sr.set i v)) : z ∈ v ∨ z ∈ b.clients := by
  rcases SlotTable.mem_entries.1 hz with ⟨j, hj⟩
  rw [SlotTable.get_set] at hj
  split at hj
  · exact Or.inl hj
  · exact Or.inr (SlotTable.mem_entries.2 ⟨j, hj⟩)

/-- A move of the table brings in only a client with a fresh serial number. -/
theorem Move.follows (h : Move b b') : Follows b b' := by
  cases h with
  | drop hdrop =>
      refine .of_subset ?_ hdrop.clients_subset
      cases hdrop <;> rfl
  | @hear i y hslot now =>
      refine ⟨Nat.le_refl _, fun z hz => Or.inr ?_⟩
      rcases mem_clients_set hz with hheard | hold
      · rw [Option.mem_some_iff] at hheard
        exact ⟨y, SlotTable.mem_entries.2 ⟨i, hslot⟩, by rw [← hheard], by rw [← hheard]; rfl⟩
      · exact ⟨z, hold, rfl, rfl⟩
  | enter v hroom hsmall hid =>
      refine ⟨Nat.le_add_right _ _, fun z hz => ?_⟩
      rcases mem_clients_set hz with hnew | hold
      · exact Or.inl (hid z hnew).ge
      · exact Or.inr ⟨z, hold, rfl, rfl⟩
  | resize hn => exact .of_subset rfl (SlotTable.entries_resize_sublist b.sr _).subset

/-- So do several moves in a row. -/
theorem Moves.follows (h : Moves b b') : Follows b b' := by
  induction h with
  | refl => exact .refl b
  | tail _ hlast ih => exact ih.trans hlast.follows

end Books

namespace Server

variable {x x' x₁ : Server} {env : Env} {y : UdpSender}

/-- Where the clients after an input come from. -/
theorem follows_step (h : x.books.Sound) {a : Input} (hs : x.step env a = some x') :
    Books.Follows x.books x'.books :=
  (moves_step h hs).follows

/-! ## What stays -/

/-- What only the receive callback may change. -/
def setup (x : Server) : Abi × Option Floatlist :=
  (x.abi, x.floatlist)

/-- What only the receive callback and a message that sends may change. -/
def kept (x : Server) : (Abi × Option Floatlist) × List (UdpSender × Chunk × Int) :=
  (x.setup, x.sends)

@[simp]
theorem kept_logged (outputs : List Output) : (x.logged outputs).kept = x.kept :=
  rfl

@[simp]
theorem kept_touch (i : Nat) : (x.touch i).kept = x.kept := by
  rcases touch_faults x i with ⟨f, hf⟩
  rw [hf]
  rfl

@[simp]
theorem kept_setSlot (i : Nat) (v : Option UdpSender) : (x.setSlot i v).kept = x.kept :=
  kept_touch i

@[simp]
theorem kept_senderFree (y : UdpSender) : (x.senderFree y).kept = x.kept := by
  rw [senderFree_eq]
  rfl

/-- Adding a client leaves what is kept as it is. -/
theorem kept_senderAdd (host : Nat) (port : BitVec 16) :
    (x.senderAdd env host port).1.kept = x.kept := by
  rcases senderAdd_frame x env host port with ⟨_, _, _, _, _, hadd⟩
  rw [hadd]
  rfl

@[simp]
theorem kept_shift (id m : Nat) : (x.shift id m).kept = x.kept := by
  induction m generalizing x with
  | zero => rfl
  | succ m ih => rw [shift, ih, kept_setSlot, kept_touch]

/-- Removing a client leaves what is kept as it is. -/
@[simp]
theorem kept_senderRemove (id : Nat) : (x.senderRemove id).kept = x.kept := by
  unfold senderRemove
  split
  · dsimp only
    split
    · exact kept_touch id
    · show (setSlot _ id none).kept = x.kept
      rw [kept_setSlot, kept_shift, kept_senderFree, kept_touch]
  · rfl

@[simp]
theorem kept_expireFrom (now : ℚ) (m id w : Nat) :
    (x.expireFrom now m id w).1.kept = x.kept := by
  induction m generalizing x id w with
  | zero => rfl
  | succ m ih =>
      rw [expireFrom]
      split
      · rw [ih, kept_touch]
      · split
        · rw [ih, kept_setSlot, kept_senderFree, kept_touch]
        · rw [ih, kept_setSlot, kept_touch]

@[simp]
theorem kept_clearFrom (m w : Nat) : (x.clearFrom m w).kept = x.kept := by
  induction m generalizing x w with
  | zero => rfl
  | succ m ih => rw [clearFrom, ih, kept_setSlot]

@[simp]
theorem kept_recountFrom (m id : Nat) : (x.recountFrom m id).1.kept = x.kept := by
  induction m generalizing x id with
  | zero => rfl
  | succ m ih =>
      rw [recountFrom]
      split
      · exact kept_touch id
      · rw [ih, kept_touch]

/-- The check for late clients leaves what is kept as it is. -/
@[simp]
theorem kept_autoremove (now : ℚ) : (x.autoremove now).kept = x.kept := by
  unfold autoremove
  split
  · rfl
  · split
    · rfl
    · show (recountFrom _ _ _).1.kept = x.kept
      rw [kept_recountFrom, kept_clearFrom, kept_expireFrom]
      rfl

theorem kept_disconnect (client : Nat) : (x.disconnect env client).kept = x.kept := by
  rcases disconnect_cases x env client with
    ⟨-, heq⟩ | ⟨-, -, -, heq⟩ | ⟨-, -, outputs, heq⟩ <;> rw [heq]
  · exact kept_touch client
  · rw [kept_logged, kept_autoremove, kept_senderRemove, kept_touch]

theorem kept_disconnectAllFrom (fuel id : Nat) :
    (x.disconnectAllFrom env fuel id).kept = x.kept := by
  induction fuel generalizing x id with
  | zero => rfl
  | succ fuel ih =>
      rw [disconnectAllFrom]
      split
      · rw [ih, kept_disconnect]
      · rfl

/-- A bang leaves what is kept as it is. -/
theorem kept_info : (x.info env).kept = x.kept := by
  have hlearn : ((x.autoremove env.now).learnPort env).kept = x.kept := by
    rw [← kept_autoremove (x := x) env.now]
    unfold learnPort
    split
    · split <;> rfl
    · rfl
  unfold info
  simp only [socket2addressout_eq, emit_eq, kept_logged]
  exact hlearn

theorem kept_of_unbound (h : x'.unbound = x.unbound) : x'.kept = x.kept := by
  have hkept : x'.unbound.kept = x.unbound.kept := by rw [h]
  exact hkept

/-! ## What is handed over -/

/-- A chunk for a client of the table, with its address. -/
def Offers (x : Server) (e : UdpSender × Chunk × Int) : Prop :=
  e.1 ∈ x.clients ∧ (e.2.1.addr, e.2.1.port) = e.1.address

/-- The machine and the float list are the same, and chunks have been offered to clients of
the table. -/
structure Hands (x x' : Server) : Prop where
  setup : x'.setup = x.setup
  sends : ∃ new, x'.sends = x.sends ++ new ∧ ∀ e ∈ new, x.Offers e

theorem Hands.of_kept (h : x'.kept = x.kept) : x.Hands x' where
  setup := congrArg Prod.fst h
  sends := ⟨[], (congrArg Prod.snd h).trans (List.append_nil _).symm, by simp⟩

/-- What two steps in a row hand over is what they hand over together. -/
theorem Hands.trans (h : x.Hands x₁) (hdrops : Books.Drops x.books x₁.books)
    (h' : x₁.Hands x') : x.Hands x' := by
  refine ⟨h'.setup.trans h.setup, ?_⟩
  rcases h.sends with ⟨new, hnew, hoffers⟩
  rcases h'.sends with ⟨more, hmore, hoffers'⟩
  refine ⟨new ++ more, by rw [hmore, hnew, List.append_assoc], fun e he => ?_⟩
  rcases List.mem_append.1 he with he | he
  · exact hoffers e he
  · exact ⟨hdrops.clients_subset (hoffers' e he).1, (hoffers' e he).2⟩

theorem hands_offered {client : Nat} (hslot : x.slot client = some y) (chunk : Chunk) :
    x.Hands ((x.touch client).offered env client y chunk) := by
  rcases touch_faults x client with ⟨f, hf⟩
  have hclient : y ∈ x.clients := SlotTable.mem_entries.2 ⟨client, hslot⟩
  rw [hf]
  unfold offered
  dsimp only
  split
  · exact .of_kept rfl
  · refine ⟨rfl, [(y, { chunk with addr := y.host, port := y.port }, sendSize env y)], rfl, ?_⟩
    rw [List.forall_mem_singleton]
    exact ⟨hclient, rfl⟩

/-- Sending to a client hands over one chunk at most, to that client. -/
theorem hands_sendBytes (client : Nat) (chunk : Option Chunk) :
    x.Hands (x.sendBytes env client chunk) := by
  rcases sendBytes_cases x env client chunk with
    ⟨-, heq⟩ | ⟨-, heq⟩ | ⟨y, -, -, heq⟩ | ⟨y, c, hslot, -, heq⟩ <;> rw [heq]
  · exact .of_kept rfl
  · exact .of_kept (kept_touch client)
  · exact .of_kept (kept_touch client)
  · have hoffered : x.Hands ((x.touch client).offered env client y c) := hands_offered hslot c
    split
    · refine hoffered.trans ?_ (.of_kept (kept_disconnect client))
      rw [books_offered, books_touch]
    · exact hoffered

/-- The broadcast loop hands over chunks to clients of the table only. -/
theorem hands_sendFrom (h : x.books.Sized) (but : Option Nat) (chunk : Option Chunk)
    (fuel client : Nat) : x.Hands (x.sendFrom env but chunk fuel client) := by
  induction fuel generalizing x client with
  | zero => exact .of_kept rfl
  | succ fuel ih =>
      rw [sendFrom]
      split
      · by_cases hbut : but = some client
        · rw [if_pos hbut]
          exact ih h (client + 1)
        · rw [if_neg hbut]
          have hdrops := drops_sendBytes h env client chunk
          exact (hands_sendBytes client chunk).trans hdrops (ih (h.drops hdrops) (client + 1))
      · exact .of_kept rfl

/-- So does a broadcast. -/
theorem hands_broadcast (h : x.books.Sized) (argv : List Atom) :
    x.Hands (x.broadcast env argv) := by
  have hdrops := drops_autoremove h env.now
  have hloop : (x.autoremove env.now).Hands
      ((x.autoremove env.now).sendFrom env none (chunkCreateList env.mem argv) (2 ^ 32) 0) :=
    hands_sendFrom (h.drops hdrops) none _ (2 ^ 32) 0
  have hall := (Hands.of_kept (kept_autoremove (x := x) env.now)).trans hdrops hloop
  unfold broadcast
  dsimp only
  split
  · exact ⟨hall.setup, hall.sends⟩
  · exact hall

theorem hands_sendToclient (client : Nat) (argv : List Atom) :
    x.Hands (x.sendToclient env client argv) :=
  hands_sendBytes client _

theorem hands_sendButclient (h : x.books.Sized) (but : Nat) (argv : List Atom) :
    x.Hands (x.sendButclient env but argv) :=
  hands_sendFrom h (some but) _ (2 ^ 32) 0

/-- So does a plain list. -/
theorem hands_defaultsend (h : x.books.Sized) (argv : List Atom) :
    x.Hands (x.defaultsend env argv) := by
  rcases defaultsend_cases x env argv with ⟨x₁, hsearched, hcases⟩
  rcases hsearched.faults with ⟨f, rfl⟩
  have hfrom : ∀ {x₂ : Server}, Hands { x with faults := f } x₂ → x.Hands x₂ := fun hall =>
    ⟨hall.setup, hall.sends⟩
  rcases hcases with ⟨-, id, -, -, hsend⟩ | ⟨-, id, -, -, hsend⟩ | ⟨-, hsend⟩ <;> rw [hsend]
  · exact hfrom (hands_sendToclient id argv)
  · exact hfrom (hands_sendButclient (x := { x with faults := f }) h id argv)
  · have hbroadcast : Hands { x with faults := f, defaulttarget := 0 }
        (broadcast env { x with faults := f, defaulttarget := 0 } argv) :=
      hands_broadcast (x := { x with faults := f, defaulttarget := 0 }) h argv
    exact ⟨hbroadcast.setup, hbroadcast.sends⟩

/-- So does a list that names its client. -/
theorem hands_sendClient (argv : List Atom) : x.Hands (x.sendClient env argv) := by
  unfold sendClient
  split
  · rcases infoClients_quiet (2 ^ 32) x env 0 with ⟨f, log, hquiet⟩
    rw [hquiet]
    exact .of_kept rfl
  · split
    · exact .of_kept rfl
    · rename_i client _
      split
      · rcases infoClient_quiet x env client with ⟨f, log, hquiet⟩
        rw [hquiet]
        exact .of_kept rfl
      · exact hands_sendBytes client _

/-! ## One input -/

/-- What {lit}`udpserver_receive_callback` leaves alone. -/
theorem receiveCallback_frame (x : Server) (env : Env) (c : Chunk) :
    (x.receiveCallback env (some c)).abi = x.abi ∧
      ((x.receiveCallback env (some c)).floatlist = x.floatlist ∨
        (x.receiveCallback env (some c)).floatlist =
          chunk2list env.mem env.raw (some c) x.floatlist) ∧
      (x.receiveCallback env (some c)).sends = x.sends := by
  have hadd := @kept_senderAdd x env (x.abi.toULong c.addr) c.port
  unfold receiveCallback
  dsimp only
  generalize x.senderAdd env (x.abi.toULong c.addr) c.port = r at hadd ⊢
  rcases r with ⟨x₁, _ | sdr⟩
  · exact ⟨congrArg (fun k => k.1.1) hadd, Or.inl (congrArg (fun k => k.1.2) hadd),
      congrArg Prod.snd hadd⟩
  · have habi : x₁.abi = x.abi := congrArg (fun k => k.1.1) hadd
    have hlist : x₁.floatlist = x.floatlist := congrArg (fun k => k.1.2) hadd
    have hsends : x₁.sends = x.sends := congrArg Prod.snd hadd
    simp only [infoConnection_eq, numconnout_eq]
    refine ⟨?_, Or.inr ?_, ?_⟩
    · split <;> split <;> exact habi
    · rw [← hlist]
      split <;> split <;> rfl
    · split <;> split <;> exact hsends

/-- No input changes the machine, only received data the float list, and what is handed to
the senders of clients carries their address. -/
theorem frame_step (h : x.books.Sized) {a : Input} (hstep : x.step env a = some x') :
    x'.abi = x.abi ∧
      (x'.floatlist = x.floatlist ∨
        ∃ fd c, a = .received fd (some c) ∧
          x'.floatlist = chunk2list env.mem env.raw (some c) x.floatlist) ∧
      ∃ new, x'.sends = x.sends ++ new ∧ ∀ e ∈ new, x.Offers e := by
  have hhands : ∀ {x₂ : Server}, x.Hands x₂ → x₂.abi = x.abi ∧
      (x₂.floatlist = x.floatlist ∨
        ∃ fd c, a = .received fd (some c) ∧
          x₂.floatlist = chunk2list env.mem env.raw (some c) x.floatlist) ∧
      ∃ new, x₂.sends = x.sends ++ new ∧ ∀ e ∈ new, x.Offers e := fun hall =>
    ⟨congrArg Prod.fst hall.setup, Or.inl (congrArg Prod.snd hall.setup), hall.sends⟩
  cases a with
  | received fd c =>
      simp only [Server.step] at hstep
      split at hstep
      · rw [Option.some.injEq] at hstep
        subst hstep
        cases c with
        | none => exact hhands (.of_kept rfl)
        | some c =>
            rcases receiveCallback_frame x env c with ⟨habi, hlist, hsends⟩
            exact ⟨habi, hlist.imp_right fun hlist => ⟨fd, c, rfl, hlist⟩, [],
              hsends.trans (List.append_nil _).symm, by simp⟩
      · cases hstep
  | disconnectClient f =>
      cases hstep
      refine hhands (.of_kept ?_)
      unfold disconnectClient
      split
      · rfl
      · exact kept_disconnect _
  | disconnectAll =>
      cases hstep
      exact hhands (.of_kept (kept_disconnectAllFrom _ 0))
  | accept f =>
      cases hstep
      exact hhands (.of_kept rfl)
  | maxconnections f =>
      cases hstep
      refine hhands (.of_kept ?_)
      unfold setMaxconnections
      dsimp only
      repeat' split
      all_goals rfl
  | timeout f =>
      cases hstep
      exact hhands (.of_kept rfl)
  | sendClient argv =>
      cases hstep
      exact hhands (hands_sendClient argv)
  | broadcast argv =>
      cases hstep
      exact hhands (hands_broadcast h argv)
  | defaultsend argv =>
      cases hstep
      exact hhands (hands_defaultsend h argv)
  | defaulttarget f =>
      cases hstep
      refine hhands (.of_kept ?_)
      unfold setDefaulttarget
      dsimp only
      split
      · rfl
      · split
        · rfl
        · split <;> exact kept_touch _
  | addClient s f =>
      cases hstep
      refine hhands (.of_kept ?_)
      unfold addClient
      split
      · rfl
      · split
        · rfl
        · exact kept_senderAdd _ _
  | bind argv wild o =>
      simp only [Server.step] at hstep
      split at hstep
      · cases hstep
        exact hhands (.of_kept (kept_of_unbound (unbound_bind x env argv wild o)))
      · cases hstep
  | port f o =>
      simp only [Server.step] at hstep
      split at hstep
      · cases hstep
        exact hhands (.of_kept (kept_of_unbound (unbound_setPort x env f o)))
      · cases hstep
  | info =>
      cases hstep
      exact hhands (.of_kept kept_info)
  | elsewhere k =>
      cases hstep
      exact hhands (.of_kept rfl)

end Server

end Iemnet.UdpServer
