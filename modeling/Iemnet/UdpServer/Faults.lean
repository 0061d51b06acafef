import Iemnet.UdpServer.Moves

/-!
# What the UDP server does wrong, operation by operation

The record of faults only grows.  {lit}`Server.Adds` says which faults an operation can add
to it, so that whoever is interested in one kind of fault can leave out the operations that
cannot cause it.

Main results:

- Theorems {lit}`adds_autoremove`, {lit}`adds_disconnect`: the table is compacted without
  more than accesses behind its end.
- Theorem {lit}`adds_sendBytes`: one client is sent a chunk, if there is one.
- Theorem {lit}`adds_socket2indexFrom`: the search for a number meets only the slots that it
  looks at.
-/

namespace Iemnet.UdpServer

open Pd Foundations

namespace Server

variable {x x' x'' : Server} {env : Env} {y : UdpSender} {p : Fault → Prop}

/-- The faults that have been added have the property. -/
def Adds (p : Fault → Prop) (x x' : Server) : Prop :=
  ∃ fs, x'.faults = x.faults ++ fs ∧ ∀ f ∈ fs, p f

theorem Adds.of_eq (h : x'.faults = x.faults) : Adds p x x' :=
  ⟨[], by rw [h, List.append_nil], by simp⟩

theorem Adds.refl (x : Server) : Adds p x x :=
  .of_eq rfl

/-- The kinds of faults of two steps in a row are those of both. -/
theorem Adds.trans (h : Adds p x x') (h' : Adds p x' x'') : Adds p x x'' := by
  rcases h with ⟨fs, heq, hfs⟩
  rcases h' with ⟨gs, heq', hgs⟩
  refine ⟨fs ++ gs, by rw [heq', heq, List.append_assoc], fun f hf => ?_⟩
  cases List.mem_append.1 hf with
  | inl hleft => exact hfs f hleft
  | inr hright => exact hgs f hright

/-- Only the faults matter. -/
theorem Adds.congr (h : Adds p x x') (hsame : x''.faults = x'.faults) : Adds p x x'' :=
  h.trans (.of_eq hsame)

theorem adds_fault {f : Fault} (h : p f) : Adds p x (x.fault f) :=
  ⟨[f], rfl, fun _ hg => List.mem_singleton.1 hg ▸ h⟩

/-- A fault without the property has happened as often as before. -/
theorem Adds.count_eq (h : Adds p x x') {f : Fault} (hf : ¬ p f) :
    x'.faults.count f = x.faults.count f := by
  rcases h with ⟨fs, heq, hfs⟩
  rw [heq, List.count_append, List.count_eq_zero_of_not_mem fun hmem => hf (hfs f hmem)]
  rfl

/-! ## The table -/

theorem adds_senderFree (x : Server) (y : UdpSender) : Adds p x (x.senderFree y) := by
  rw [senderFree_eq]
  exact .of_eq rfl

section

variable (hp : ∀ i, p (.outOfBounds i))

include hp

theorem adds_touch (x : Server) (i : Nat) : Adds p x (x.touch i) := by
  unfold touch
  split
  · exact .refl x
  · exact adds_fault (hp i)

theorem adds_setSlot (x : Server) (i : Nat) (v : Option UdpSender) :
    Adds p x (x.setSlot i v) :=
  (adds_touch hp x i).congr rfl

/-- The shift loop adds only accesses out of bounds. -/
theorem adds_shift (id m : Nat) (x : Server) : Adds p x (x.shift id m) := by
  induction m generalizing x with
  | zero => exact .refl x
  | succ m ih =>
      rw [shift]
      exact ((adds_touch hp x (id + 1)).trans (adds_setSlot hp _ id _)).trans (ih _)

/-- Removing a client adds only accesses out of bounds. -/
theorem adds_senderRemove (x : Server) (id : Nat) : Adds p x (x.senderRemove id) := by
  have htouch := adds_touch hp x id
  unfold senderRemove
  split
  · dsimp only
    split
    · exact htouch
    · rename_i sdr _
      have hfree := htouch.trans (adds_senderFree _ sdr)
      have hshift := hfree.trans (adds_shift hp id ((x.touch id).nconnections - id) _)
      exact (hshift.trans (adds_setSlot hp _ id none)).congr rfl
  · exact .refl x

theorem adds_expireFrom (now : ℚ) (m id w : Nat) (x : Server) :
    Adds p x (x.expireFrom now m id w).1 := by
  induction m generalizing x id w with
  | zero => exact .refl x
  | succ m ih =>
      have htouch := adds_touch hp x id
      rw [expireFrom]
      split
      · exact htouch.trans (ih (id + 1) w _)
      · rename_i y _
        split
        · have hfree := htouch.trans (adds_senderFree _ y)
          exact (hfree.trans (adds_setSlot hp _ id none)).trans (ih (id + 1) w _)
        · exact (htouch.trans (adds_setSlot hp _ w (some y))).trans (ih (id + 1) (w + 1) _)

theorem adds_clearFrom (m w : Nat) (x : Server) : Adds p x (x.clearFrom m w) := by
  induction m generalizing x w with
  | zero => exact .refl x
  | succ m ih =>
      rw [clearFrom]
      exact (adds_setSlot hp x w none).trans (ih (w + 1) _)

theorem adds_recountFrom (m i : Nat) (x : Server) : Adds p x (x.recountFrom m i).1 := by
  induction m generalizing x i with
  | zero => exact .refl x
  | succ m ih =>
      have htouch := adds_touch hp x i
      rw [recountFrom]
      split
      · exact htouch
      · exact htouch.trans (ih (i + 1) _)

/-- The check for late clients adds only accesses out of bounds. -/
theorem adds_autoremove (x : Server) (now : ℚ) : Adds p x (x.autoremove now) := by
  unfold autoremove
  split
  · exact .refl x
  · split
    · exact .refl x
    · have hlast : Adds p x { x with lastchecked := now } := .of_eq rfl
      have hexpire := hlast.trans (adds_expireFrom hp now x.nconnections 0 0 _)
      refine Adds.congr ?_ rfl
      exact (hexpire.trans (adds_clearFrom hp _ _ _)).trans (adds_recountFrom hp _ 0 _)

/-! ## Clients -/

/-- The client to be disconnected is read without a test when it is copied. -/
theorem adds_disconnect (x : Server) (env : Env) {client : Nat}
    (hslot : x.slot client = none → p (.nullSlot client)) :
    Adds p x (x.disconnect env client) := by
  have htouch := adds_touch hp x client
  rcases disconnect_cases x env client with
    ⟨-, heq⟩ | ⟨-, -, hnone, heq⟩ | ⟨-, -, outputs, heq⟩ <;> rw [heq]
  · exact .refl x
  · exact htouch.trans (adds_fault (hslot hnone))
  · have hremoved := htouch.trans (adds_senderRemove hp _ client)
    exact (hremoved.trans (adds_autoremove hp _ env.now)).congr rfl

/-- Sending to a client adds a null pointer only if there is no chunk. -/
theorem adds_sendBytes (x : Server) (env : Env) (client : Nat) (chunk : Option Chunk)
    (hchunk : chunk = none → p .nullChunk) : Adds p x (x.sendBytes env client chunk) := by
  have htouch := adds_touch hp x client
  rcases sendBytes_cases x env client chunk with
    ⟨-, heq⟩ | ⟨-, heq⟩ | ⟨y, -, hnone, heq⟩ | ⟨y, c, hslot, -, heq⟩ <;> rw [heq]
  · exact .refl x
  · exact htouch
  · exact htouch.trans (adds_fault (hchunk hnone))
  · rcases offered_frame (x.touch client) env client y c with ⟨sends, log, hoffered⟩
    have hadds : Adds p x ((x.touch client).offered env client y c) := by
      rw [hoffered]
      exact htouch.congr rfl
    split
    · refine hadds.trans (adds_disconnect hp _ env fun hnone => ?_)
      rw [hoffered] at hnone
      change (x.touch client).slot client = none at hnone
      rw [slot_touch, hslot] at hnone
      cases hnone
    · exact hadds

theorem adds_sendFrom (env : Env) (but : Option Nat) (chunk : Option Chunk)
    (hchunk : chunk = none → p .nullChunk) (fuel client : Nat) (x : Server) :
    Adds p x (x.sendFrom env but chunk fuel client) := by
  induction fuel generalizing x client with
  | zero => exact .refl x
  | succ fuel ih =>
      rw [sendFrom]
      split
      · split
        · exact ih (client + 1) x
        · exact (adds_sendBytes hp x env client chunk hchunk).trans (ih (client + 1) _)
      · exact .refl x

theorem adds_infoClient (x : Server) (env : Env) (client : Nat) :
    Adds p x (x.infoClient env client) := by
  have htouch := adds_touch hp x client
  unfold infoClient
  split
  · dsimp only
    split
    · exact htouch
    · exact htouch.congr rfl
  · exact .refl x

theorem adds_infoClients (fuel : Nat) (x : Server) (env : Env) (client : Nat) :
    Adds p x (x.infoClients env fuel client) := by
  induction fuel generalizing x client with
  | zero => exact .refl x
  | succ fuel ih =>
      rw [infoClients]
      split
      · exact (adds_infoClient hp x env client).trans (ih _ (client + 1))
      · exact .refl x

/-! ## Searching -/

/-- The search for a number reads every slot that it comes to without a test. -/
theorem adds_socket2indexFrom (x : Server) (sockfd : Int) (m i : Nat)
    (hslots : ∀ j, i ≤ j → j < i + m → x.slot j = none → p (.nullSlot j)) :
    Adds p x (x.socket2indexFrom sockfd m i).1 := by
  induction m generalizing x i with
  | zero => exact .refl x
  | succ m ih =>
      have htouch := adds_touch hp x i
      rw [socket2indexFrom, slot_touch]
      cases hslot : x.slot i with
      | none => exact htouch.trans (adds_fault (hslots i (Nat.le_refl i) (by omega) hslot))
      | some y =>
          dsimp only
          split
          · exact htouch
          · refine htouch.trans (ih (x.touch i) (i + 1) fun j hij hj hnone => ?_)
            rw [slot_touch] at hnone
            exact hslots j (by omega) (by omega) hnone

theorem adds_findSenderFrom (x : Server) (host : Nat) (port : BitVec 16) (m i : Nat) :
    Adds p x (x.findSenderFrom host port m i).1 := by
  induction m generalizing x i with
  | zero => exact .refl x
  | succ m ih =>
      have htouch := adds_touch hp x i
      rw [findSenderFrom]
      split
      · exact htouch
      · split
        · exact htouch
        · exact htouch.trans (ih _ (i + 1))

/-! ## Messages -/

/-- Entering a client adds only accesses out of bounds. -/
theorem adds_enter (x : Server) (env : Env) (host : Nat) (port : BitVec 16) :
    Adds p x (x.enter env host port).1 := by
  have hnew : Adds p x (x.senderNew env host port).1 := by
    rcases senderNew_frame x env host port with ⟨_, _, hnew⟩
    rw [hnew]
    exact .of_eq rfl
  unfold enter
  generalize x.senderNew env host port = r at hnew ⊢
  rcases r with ⟨x₁, v⟩
  dsimp only
  split
  · split
    · exact (hnew.trans (adds_fault (hp x₁.nconnections))).congr rfl
    · exact (hnew.trans (adds_setSlot hp x₁ _ v)).congr rfl
  · exact .refl x

/-- A client that is heard from is one that has been found. -/
theorem adds_senderAdd (x : Server) (env : Env) (host : Nat) (port : BitVec 16) :
    Adds p x (x.senderAdd env host port).1 := by
  have hsearch : Adds p x (x.findSender host port).1 := adds_findSenderFrom hp x host port _ 0
  by_cases haccept : x.accept = 0
  · rw [senderAdd, if_pos haccept]
    exact .refl x
  · cases hfind : (x.findSender host port).2 with
    | none =>
        rw [senderAdd_unknown env haccept hfind]
        exact hsearch.trans (adds_enter hp _ env host port)
    | some id =>
        rcases senderAdd_heard env haccept hfind with ⟨y, -, hadd⟩
        rw [hadd]
        exact hsearch.trans (adds_setSlot hp _ id _)

/-- A datagram adds a null list and accesses out of bounds at most. -/
theorem adds_receiveCallback (x : Server) (env : Env) (c : Option Chunk) (hlist : p .nullList) :
    Adds p x (x.receiveCallback env c) := by
  cases c with
  | none => exact .refl x
  | some c =>
      have hadd := adds_senderAdd hp x env (x.abi.toULong c.addr) c.port
      unfold receiveCallback
      dsimp only
      rcases hr : x.senderAdd env (x.abi.toULong c.addr) c.port with ⟨x₁, _ | sdr⟩
      · rw [hr] at hadd
        exact hadd
      · rw [hr] at hadd
        simp only [infoConnection_eq, numconnout_eq]
        split
        · refine Adds.trans ?_ (adds_fault hlist)
          split <;> exact hadd.congr rfl
        · split <;> exact hadd.congr rfl

theorem adds_addClient (x : Server) (env : Env) (s : String) (f : FloatArg) :
    Adds p x (x.addClient env s f) := by
  unfold addClient
  split
  · exact .refl x
  · split
    · exact .refl x
    · exact adds_senderAdd hp x env _ _

/-- Setting the target adds a null slot only if a counted slot is empty. -/
theorem adds_setDefaulttarget (x : Server) (f : FloatArg)
    (hslots : ∀ j, j < x.nconnections → x.slot j = none → p (.nullSlot j)) :
    Adds p x (x.setDefaulttarget f) := by
  unfold setDefaulttarget
  dsimp only
  split
  · exact .refl x
  · split
    · exact .of_eq rfl
    · have htouch := adds_touch hp x (f.toInt.natAbs - 1)
      rw [slot_touch]
      cases hslot : x.slot (f.toInt.natAbs - 1) with
      | none => exact htouch.trans (adds_fault (hslots _ (by omega) hslot))
      | some y => exact htouch.congr rfl

/-- A broadcast adds a null chunk and accesses out of bounds at most. -/
theorem adds_broadcast (x : Server) (env : Env) (argv : List Atom) (hchunk : p .nullChunk) :
    Adds p x (x.broadcast env argv) := by
  have hloop := (adds_autoremove hp x env.now).trans
    (adds_sendFrom hp env none (chunkCreateList env.mem argv) (fun _ => hchunk) (2 ^ 32) 0 _)
  unfold broadcast
  dsimp only
  split
  · exact hloop.congr rfl
  · exact hloop

/-- A target is searched among the counted slots. -/
theorem adds_searched {x₁ : Server} (h : x.Searched x₁)
    (hslots : ∀ j, j < x.nconnections → x.slot j = none → p (.nullSlot j)) : Adds p x x₁ := by
  rcases h with rfl | ⟨sockfd, rfl⟩
  · exact .refl x₁
  · exact adds_socket2indexFrom hp x sockfd _ 0 fun j _ hj => hslots j (by omega)

/-- A plain list adds a null chunk, null slots and accesses out of bounds at most. -/
theorem adds_defaultsend (x : Server) (env : Env) (argv : List Atom) (hchunk : p .nullChunk)
    (hslots : ∀ j, j < x.nconnections → x.slot j = none → p (.nullSlot j)) :
    Adds p x (x.defaultsend env argv) := by
  rcases defaultsend_cases x env argv with ⟨x₁, hsearched, hcases⟩
  have hadds := adds_searched hp hsearched hslots
  rcases hcases with ⟨-, id, -, -, hsend⟩ | ⟨-, id, -, -, hsend⟩ | ⟨-, hsend⟩ <;> rw [hsend]
  · exact hadds.trans (adds_sendBytes hp x₁ env id _ fun _ => hchunk)
  · exact hadds.trans (adds_sendFrom hp env (some id) _ (fun _ => hchunk) (2 ^ 32) 0 x₁)
  · exact (hadds.congr rfl).trans (adds_broadcast hp _ env argv hchunk)

theorem adds_sendClient (x : Server) (env : Env) (argv : List Atom) (hchunk : p .nullChunk) :
    Adds p x (x.sendClient env argv) := by
  unfold sendClient
  split
  · exact adds_infoClients hp (2 ^ 32) x env 0
  · split
    · exact .refl x
    · rename_i client _
      split
      · exact adds_infoClient hp x env client
      · exact adds_sendBytes hp x env client _ fun _ => hchunk

theorem adds_info (x : Server) (env : Env) : Adds p x (x.info env) := by
  have hlearn : ∀ x₁ : Server, (x₁.learnPort env).faults = x₁.faults := by
    intro x₁
    unfold learnPort
    split
    · split <;> rfl
    · rfl
  have hknown := (adds_autoremove hp x env.now).congr (hlearn _)
  unfold info
  generalize (x.autoremove env.now).learnPort env = x₁ at hknown ⊢
  simp only [socket2addressout_eq, emit_eq, logged_logged]
  exact hknown.congr rfl

end

end Server

end Iemnet.UdpServer
