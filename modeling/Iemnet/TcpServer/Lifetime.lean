import Iemnet.TcpServer.Bounds

/-!
# The end of the TCP server

{lit}`tcpserver_free` walks over all slots, frees what it finds and closes the listener
last.  The slots it has passed are empty while later ones are still in use, so the table
invariant does not hold on the way; what the server has open, polled and freed is at any
moment what a server without the clients passed so far would have.

Main results:

- Theorem {lit}`Alike.freeSlots`: the walk over the slots.
- Theorem {lit}`free_releases`: deletion in any reachable state closes every descriptor
  that was ever opened exactly once, and frees every client exactly once.
-/

namespace Iemnet.TcpServer
namespace Server

open Pd Foundations

variable {x x' x₀ : Server} {l : List SocketReceiver} {y : SocketReceiver} {env : Env}
variable {a : Input}

/-! ## Nothing is freed twice -/

/-- Closing the port frees nobody. -/
theorem freed_closePort (x : Server) : (x.closePort x.connectsocket).freed = x.freed := by
  rw [closePort_eq]
  split <;> rfl

/-- What is freed is freed once, whatever the input. -/
theorem Effect.freed_nodup (h : x.Inv l) (hnodup : x.freed.Nodup)
    (he : Effect x l env a x') : x'.freed.Nodup := by
  have hdrop : ∀ (x : Server) (l : List SocketReceiver) (i : Nat) (y : SocketReceiver),
      x.Inv l → x.freed.Nodup → l[i]? = some y → (x.dropped l i y).freed.Nodup := by
    intro x l i y hx hfreed hi
    refine List.nodup_append.2 ⟨hfreed, List.nodup_singleton _, ?_⟩
    intro k hk k' hk' heq
    rw [List.mem_singleton] at hk'
    exact hx.notFreed y (List.mem_of_getElem? hi) (hk' ▸ heq ▸ hk)
  cases he with
  | settled | resized | refused | registered => exact hnodup
  | unbound before =>
      have hclose := freed_closePort (x.logged before)
      exact hclose.symm ▸ hnodup
  | failed fd before after | bound fd port before after =>
      have hclose := freed_closePort (x.logged before)
      exact hclose.symm ▸ hnodup
  | dropped i y hi => exact hdrop x l i y h hnodup hi
  | droppedAll =>
      rcases disconnectAllFrom_induct (P := fun x _ => x.freed.Nodup) (2 ^ 32) 0 h hnodup
        hdrop with ⟨l', -, hfreed⟩
      exact hfreed
  | offered =>
      have hsame : (x.retargeted a).freed = x.freed := by
        rcases retargeted_eq x a with ⟨sockfd, heq⟩
        rw [heq]
      rcases offers_induct (P := fun x _ => x.freed.Nodup) env _ (x.recipients a)
        (h.retargeted a) (hsame.symm ▸ hnodup)
        (fun _ _ _ _ hfreed hq => hq.freed ▸ hfreed)
        (fun x l i y _ hx hfreed _ _ hi => hdrop x l i y hx hfreed hi) with ⟨l', -, hfreed⟩
      exact hfreed

/-- In every state nobody has been freed twice. -/
theorem reach_freed {ok : Server → Env × Input → Prop} (h : tcpserverMachine.Reach ok x) :
    ∃ l, x.Inv l ∧ x.freed.Nodup := by
  apply h.invariant (I := fun x => ∃ l, x.Inv l ∧ x.freed.Nodup)
  · intro x hx
    rcases hx with ⟨abi, env, f, o, ho, rfl⟩
    have heffect := new_effect abi f ho
    rcases heffect.inv (inv_blank abi env) with ⟨l, hl⟩
    exact ⟨l, hl, heffect.freed_nodup (inv_blank abi env) List.nodup_nil⟩
  · intro x e x' _ hx _ hstep
    rcases hx with ⟨l, hl, hnodup⟩
    have heffect := step_effect hl hstep
    rcases heffect.inv hl with ⟨l', hl'⟩
    exact ⟨l', hl', heffect.freed_nodup hl hnodup⟩

/-! ## The walk over the slots -/

/-- Both servers have the same open, polled and freed. -/
structure Alike (x x₀ : Server) : Prop where
  polls : x.polls = x₀.polls
  os : x.os = x₀.os
  freed : x.freed = x₀.freed
  connectsocket : x.connectsocket = x₀.connectsocket

/-- Freeing the first client is removing it, but for the table. -/
theorem Alike.free_head (h : Alike x x₀) (hinv : x₀.Inv (y :: l)) (i : Nat) :
    Alike ((x.socketreceiverFree (some y)).setSlot i none) (x₀.removed (y :: l) 0 y) := by
  have hy : y ∈ y :: l := List.mem_cons_self
  have hfree : y.id ∉ x.freed := h.freed ▸ hinv.notFreed y hy
  rw [socketreceiverFree_eq hfree (hinv.range y hy).1, setSlot, touch_eq_faults]
  constructor
  · simp only [h.polls, Server.removed]
  · simp only [h.os, Server.removed]
  · simp only [h.freed, Server.removed]
  · exact h.connectsocket

/-- The loop of {lit}`tcpserver_free`: beside a server that holds the clients still to
come. -/
theorem Alike.freeSlots (m i : Nat) (h : Alike x x₀) (hinv : x₀.Inv l) (hm : l.length ≤ m)
    (hslots : ∀ j, j < m → x.slot (i + j) = l[j]?) (hend : i + m ≤ x.sr.length) :
    ∃ x₁ : Server, x₁.Inv [] ∧ Alike (x.freeSlots m i) x₁ ∧
      (x.freeSlots m i).freed = x.freed ++ l.map SocketReceiver.id ∧
      (x.freeSlots m i).faults = x.faults := by
  induction m generalizing x x₀ l i with
  | zero =>
      have hnil : l = [] := List.eq_nil_of_length_eq_zero (Nat.le_zero.1 hm)
      subst hnil
      exact ⟨x₀, hinv, h, (List.append_nil _).symm, rfl⟩
  | succ m ih =>
      have hi : i < x.sr.length := by omega
      rw [freeSlots, touch_of_lt hi]
      have hfirst := hslots 0 (Nat.zero_lt_succ m)
      rw [Nat.add_zero] at hfirst
      cases l with
      | nil =>
          simp only [hfirst, List.getElem?_nil]
          refine ih (i + 1) h hinv (Nat.zero_le m) ?_ (by omega)
          intro j hj
          rw [Nat.add_assoc, Nat.add_comm 1 j, hslots (j + 1) (by omega)]
          rfl
      | cons y l =>
          simp only [hfirst, List.getElem?_cons_zero]
          have hfree : y.id ∉ x.freed := h.freed ▸ hinv.notFreed y List.mem_cons_self
          have hsr : (x.socketreceiverFree (some y)).sr = x.sr := socketreceiverFree_sr x y
          have hlt : i < (x.socketreceiverFree (some y)).sr.length := by rwa [hsr]
          have hset : ((x.socketreceiverFree (some y)).setSlot i none).sr = x.sr.set i none := by
            rw [setSlot_of_lt hlt, hsr]
          have hinv' : (x₀.removed (y :: l) 0 y).Inv l := hinv.removed rfl
          have hlater : ∀ j, j < m →
              ((x.socketreceiverFree (some y)).setSlot i none).slot (i + 1 + j) = l[j]? := by
            intro j hj
            have hother := hslots (j + 1) (by omega)
            rw [List.getElem?_cons_succ] at hother
            rw [← hother, slot, slot, hset, Nat.add_assoc, Nat.add_comm 1 j, SlotTable.get_set,
              if_neg (by omega)]
          have hend' : i + 1 + m ≤ ((x.socketreceiverFree (some y)).setSlot i none).sr.length := by
            rw [hset, List.length_set]
            omega
          rcases ih (i + 1) (h.free_head hinv i) hinv' (by simpa using hm) hlater hend' with
            ⟨x₁, hinv₁, halike, hfreed, hfaults⟩
          refine ⟨x₁, hinv₁, halike, ?_, ?_⟩
          · rw [hfreed, (h.free_head hinv i).freed, Server.removed, ← h.freed]
            simp
          · rw [hfaults, setSlot_of_lt hlt]
            exact (socketreceiverFree_faults x y).trans (by rw [access_of_notMem hfree])

/-! ## Deletion -/

/-- A server that has neither clients nor a listener has nothing open. -/
theorem Inv.nothing_open (h : x.Inv []) (hclosed : x.connectsocket < 0) :
    x.os.live = [] ∧ x.polls = [] := by
  constructor
  · rcases h.live with ⟨ports, hperm, ⟨-, rfl⟩ | ⟨hopen, -⟩⟩
    · exact List.perm_nil.1 hperm
    · omega
  · refine List.eq_nil_iff_forall_not_mem.2 fun p hp => ?_
    rcases (h.mem_polls p).1 hp with ⟨-, hopen⟩ | ⟨z, hz, -⟩
    · omega
    · cases hz

/-- What deleting the object does, slot by slot and then to the port. -/
theorem free_eq (x : Server) :
    x.free = { (if 0 ≤ (x.freeSlots x.maxconnections 0).connectsocket then
      { x.freeSlots x.maxconnections 0 with
        polls := (x.freeSlots x.maxconnections 0).polls.eraseP fun p =>
          p.1 = (x.freeSlots x.maxconnections 0).connectsocket
        os := (x.freeSlots x.maxconnections 0).os.close
          (x.freeSlots x.maxconnections 0).connectsocket }
      else x.freeSlots x.maxconnections 0) with floatlist := none } := by
  rw [free]
  split
  · rename_i hopen
    rw [closesocket, if_pos hopen]
    rfl
  · rfl

/-- Deleting the object in any state that any messages, connections and data have led to
closes every descriptor that was ever opened exactly once, removes every poll function, and
frees the clients of the table, so that no client is freed twice; nothing is touched that
must not be. -/
theorem free_releases {ok : Server → Env × Input → Prop} (h : tcpserverMachine.Reach ok x) :
    x.free.os.live = [] ∧ x.free.os.stray = [] ∧
      (∀ k < x.free.os.issued, x.free.os.closed.count k = 1) ∧ x.free.polls = [] ∧
      x.free.freed = x.freed ++ x.clients.map SocketReceiver.id ∧ x.free.freed.Nodup ∧
      x.free.faults = x.faults := by
  rcases reach_freed h with ⟨l, hinv, hnodup⟩
  have hsame : Alike x x := ⟨rfl, rfl, rfl, rfl⟩
  rcases hsame.freeSlots x.maxconnections 0 hinv hinv.length_le
    (fun j _ => by rw [Nat.zero_add, hinv.slot_eq]) (by rw [hinv.length_sr]; omega) with
    ⟨x₁, hinv₁, halike, hfreed, hfaults⟩
  -- the listener is closed like that of a server without clients
  have hclosed := hinv₁.closePort
  have hend := free_eq x
  have hpolls : x.free.polls = (x₁.closePort x₁.connectsocket).polls := by
    rw [closePort_eq, hend, halike.connectsocket]
    split
    · exact congrArg (List.eraseP _) halike.polls
    · exact halike.polls
  have hos : x.free.os = (x₁.closePort x₁.connectsocket).os := by
    rw [closePort_eq, hend, halike.connectsocket]
    split
    · exact congrArg (fun d : Descriptors => d.close x₁.connectsocket) halike.os
    · exact halike.os
  have hrest : x.free.freed = (x.freeSlots x.maxconnections 0).freed ∧
      x.free.faults = (x.freeSlots x.maxconnections 0).faults := by
    rw [hend]
    split <;> exact ⟨rfl, rfl⟩
  have hnone : (x₁.closePort x₁.connectsocket).connectsocket < 0 := by
    rw [closePort_eq]
    split
    · exact (by decide : (-1 : Int) < 0)
    · omega
  have hempty := hclosed.nothing_open hnone
  rw [hpolls, hos, hrest.1, hrest.2, hfreed, hfaults, hinv.clients_eq]
  refine ⟨hempty.1, hclosed.stray, ?_, hempty.2, rfl, ?_, rfl⟩
  · intro k hk
    rcases hclosed.accounted.open_or_closed hk with ⟨⟨fd, hfd⟩, -⟩ | ⟨-, hone⟩
    · rw [hempty.1] at hfd
      cases hfd
    · exact hone
  · refine List.nodup_append.2 ⟨hnodup, hinv.ids_nodup, ?_⟩
    intro k hk k' hk' heq
    rcases List.mem_map.1 hk' with ⟨y, hy, rfl⟩
    exact hinv.notFreed y hy (heq ▸ hk)

/-- Two clients connect, and the first one leaves. -/
def oneLeft : List (Env × Input) :=
  [(plainEnv [], .incoming 3 (caller 5)), (plainEnv [], .incoming 3 (caller 6)),
    (plainEnv [], .disconnectClient ⟨1, 0#32⟩)]

/-- With one client left the deletion closes what is open and frees the client. -/
theorem free_releases_run :
    ∃ x, tcpserverMachine.run started oneLeft = some x ∧
      x.os.live.length = 2 ∧ x.free.os.live = [] ∧ x.free.freed = [1, 2] := by
  have hrun : ∃ x, tcpserverMachine.run started oneLeft = some x ∧ x.os.live.length = 2 ∧
      x.freed = [1] ∧ x.clients.map SocketReceiver.id = [2] :=
    ⟨_, rfl, by decide +kernel, by decide +kernel, by decide +kernel⟩
  rcases hrun with ⟨x, hrun, hopen, hfreed, hclients⟩
  rcases free_releases (Machine.reach_of_run init_started hrun) with
    ⟨hlive, -, -, -, hall, -⟩
  refine ⟨x, hrun, hopen, hlive, ?_⟩
  rw [hall, hfreed, hclients]
  rfl

end Server
end Iemnet.TcpServer
