import Iemnet.TcpServer.Refinement
import Iemnet.UdpServer.Moves

/-!
# Disconnecting all clients

The loops of {lit}`tcpserver_disconnect_all` and {lit}`udpserver_disconnect_all` count up
to {lit}`x_nconnections`, which every removal brings down.

Main results:

- Theorem {lit}`disconnectAll_empties_iff`: in both servers everybody is disconnected
  exactly if there was at most one client.
-/

namespace Iemnet

open Foundations

/-! ## The TCP server -/

namespace TcpServer.Server

variable {x : Server} {l : List SocketReceiver}

/-- {lit}`x'` has no client, and each client of {lit}`x` has been freed once. -/
structure Emptied (x x' : Server) : Prop where
  nconnections : x'.nconnections = 0
  slots : ∀ i, x'.slot i = none
  released : ∀ y ∈ x.clients, x'.freed.count y.id = 1

/-- Disconnecting everybody keeps the table in order. -/
theorem Inv.disconnectAll (h : x.Inv l) : (disconnectAll emit x).Inv (spared l) :=
  disconnectAllFrom_spared [] l (2 ^ 32) h (h.tabled.length_le_int.trans (by norm_num))

/-- The tcpserver is emptied exactly if there was one client at most. -/
theorem disconnectAll_emptied_iff (h : x.Inv l) :
    x.Emptied (disconnectAll emit x) ↔ x.nconnections ≤ 1 := by
  have hleft := h.disconnectAll
  rw [h.nconnections_eq]
  constructor
  · intro hemptied
    have hnone : (spared l).length = 0 := hleft.nconnections_eq ▸ hemptied.nconnections
    rcases l with _ | ⟨y, _ | ⟨z, l⟩⟩
    · exact Nat.zero_le 1
    · exact Nat.le_refl 1
    · simp [spared] at hnone
  · intro hone
    have hspared : spared l = [] := by
      rcases l with _ | ⟨y, _ | ⟨z, l⟩⟩
      · rfl
      · rfl
      · simp at hone
    rw [hspared] at hleft
    refine ⟨hleft.nconnections_eq, hleft.slot_eq, ?_⟩
    rw [h.clients_eq]
    rcases l with _ | ⟨y, _ | ⟨z, l⟩⟩
    · simp
    · intro z hz
      have hzy : z = y := List.mem_singleton.1 hz
      have hfirst := disconnect_eq (y := y) h.tabled (i := 0) rfl
      have hlast : disconnectAll emit x = x.dropped [y] 0 y := by
        have hcount : 0 < x.nconnections := by
          rw [h.nconnections_eq]
          exact Nat.one_pos
        have hone : [y].length - 1 ≤ 1 := Nat.zero_le 1
        have hrest := disconnectAllFrom_done (h.dropped (i := 0) (y := y) rfl) (2 ^ 32 - 1) hone
        rw [Server.disconnectAll, show 2 ^ 32 = (2 ^ 32 - 1) + 1 from rfl, disconnectAllFrom,
          if_pos hcount, hfirst]
        exact hrest
      have hfreed : (x.dropped [y] 0 y).freed = x.freed ++ [y.id] := rfl
      have hold := List.count_eq_zero_of_not_mem (h.notFreed y List.mem_cons_self)
      rw [hlast, hfreed, hzy, List.count_append, hold, List.count_singleton_self]
    · simp at hone

end TcpServer.Server

/-! ## The UDP server -/

namespace UdpServer

namespace Books

variable {b b' : Books} {k : Nat}

/-- Client {lit}`k` has not been freed and is not among those that count. -/
structure Unreached (b : Books) (k : Nat) : Prop where
  not_freed : k ∉ b.freed
  uncounted : b.Uncounted k

/-- Who cannot be reached cannot be reached after a removal either. -/
theorem Unreached.drop (h : b.Unreached k) (hd : Drop b b') : b'.Unreached k := by
  refine ⟨?_, h.uncounted.drop hd⟩
  intro hk
  cases hd with
  | @remove i y hi hslot =>
      cases List.mem_append.1 hk with
      | inl hold => exact h.not_freed hold
      | inr hnew =>
          have hy : y ∈ b.counted := SlotTable.mem_window.2 ⟨i, hi, hslot⟩
          exact h.uncounted y hy (List.mem_singleton.1 hnew).symm
  | check keep =>
      cases List.mem_append.1 hk with
      | inl hold => exact h.not_freed hold
      | inr hnew =>
          rcases List.mem_map.1 hnew with ⟨z, hz, hid⟩
          exact h.uncounted z (List.mem_of_mem_filter hz) hid

/-- Who cannot be reached cannot be reached after many removals either. -/
theorem Unreached.drops (h : b.Unreached k) (hd : Drops b b') : b'.Unreached k := by
  induction hd with
  | refl => exact h
  | tail _ hlast ih => exact ih.drop hlast

/-- A table without counted clients has nobody to free. -/
theorem Drops.freed_of_none (hnone : b.nconnections = 0) (hd : Drops b b') :
    b'.nconnections = 0 ∧ b'.freed = b.freed := by
  induction hd with
  | refl => exact ⟨hnone, rfl⟩
  | @tail b₁ _ _ hlast ih =>
      rcases ih with ⟨hcount, hfreed⟩
      cases hlast with
      | remove hi _ => omega
      | check keep =>
          have hcounted : b₁.counted = [] := by
            rw [counted, hcount, ← List.length_eq_zero_iff]
            exact Nat.le_zero.1 (SlotTable.length_window_le _ _)
          simp [checked, hcounted, hfreed]

end Books

namespace Server

variable {x : Server} {env : Env} {l : List UdpSender}

/-- {lit}`x'` has no client, and each client of {lit}`x` has been freed once. -/
structure Emptied (x x' : Server) : Prop where
  nconnections : x'.nconnections = 0
  slots : ∀ i, x'.slot i = none
  released : ∀ y ∈ x.clients, x'.freed.count y.id = 1

/-- The first round of the loop. -/
theorem disconnectAll_first (env : Env) (hx : x.books.Sound) (h : x.Holds l) {y : UdpSender}
    (hy : l[0]? = some y) :
    Books.Drops (x.books.without 0 y) (x.disconnect env 0).books := by
  have hslot : x.slot 0 = some y := by rw [h.slot_eq, hy]
  have hcount : 0 < x.nconnections := by
    rw [h.count]
    exact (List.getElem?_eq_some_iff.1 hy).1
  have hslot' : (x.touch 0).slot 0 = some y := by rw [slot_touch, hslot]
  have hcount' : 0 < (x.touch 0).nconnections := by
    show 0 < (x.touch 0).books.nconnections
    rw [books_touch]
    exact hcount
  have hremoved := books_senderRemove hcount' hslot'
  rw [books_touch] at hremoved
  have hsound : ((x.touch 0).senderRemove 0).books.Sound := by
    rw [hremoved]
    exact hx.without hslot
  rw [books_disconnect, if_pos ⟨hcount, fun hnull => by rw [hslot] at hnull; cases hnull.2⟩,
    ← hremoved]
  exact drops_autoremove hsound.sized env.now

/-- The last of several clients is never reached. -/
theorem disconnectAll_misses (env : Env) (hx : x.books.Sound) (h : x.Holds l)
    (hmany : 2 ≤ l.length) :
    ∃ y ∈ l, (x.disconnectAll env).books.Unreached y.id := by
  have hfirst : l[0]? = some l[0] := List.getElem?_eq_getElem (by omega)
  have hlast : l[l.length - 1]? = some l[l.length - 1] := List.getElem?_eq_getElem (by omega)
  refine ⟨l[l.length - 1], List.mem_of_getElem? hlast, ?_⟩
  have hids : (l.map UdpSender.id).Nodup := by
    have hnodup := hx.ids_nodup
    rwa [show x.books.clients = l from h.clients_eq] at hnodup
  have hclients : ∀ y ∈ l, y ∈ x.books.clients := fun y hy => by
    rw [show x.books.clients = l from h.clients_eq]
    exact hy
  have hout : (x.books.without 0 l[0]).Unreached l[l.length - 1].id := by
    constructor
    · intro hk
      cases List.mem_append.1 hk with
      | inl hold => exact hx.not_freed _ (hclients _ (List.mem_of_getElem? hlast)) hold
      | inr hnew =>
          have := SlotTable.index_unique hids hlast hfirst (List.mem_singleton.1 hnew)
          omega
    · intro z hz hid
      rcases Books.counted_without _ _ _ z hz with ⟨j, hj, _, hget⟩
      have hslot : l[j]? = some z := by
        rw [← h.slot_eq]
        exact hget
      have hindex := SlotTable.index_unique hids hslot hlast hid
      have hcount : x.books.nconnections = l.length := h.count
      omega
  have hone : Books.Drops (x.books.without 0 l[0]) (x.disconnect env 0).books :=
    disconnectAll_first env hx h hfirst
  have hsound := (hx.without (show SlotTable.get x.books.sr 0 = some l[0] by
    rw [← hfirst]; exact h.slot_eq 0)).moves hone.moves
  have hcount : 0 < x.nconnections := by
    rw [h.count]
    omega
  rw [disconnectAll, show 2 ^ 32 = (2 ^ 32 - 1) + 1 from rfl, disconnectAllFrom, if_pos hcount]
  exact (hout.drops hone).drops (drops_disconnectAll hsound.sized env _ _)

/-- The udpserver is emptied exactly if there was one client at most. -/
theorem disconnectAll_emptied_iff (hx : x.books.Sound) (h : x.Holds l) :
    x.Emptied (x.disconnectAll env) ↔ x.nconnections ≤ 1 := by
  rw [h.count]
  constructor
  · intro hemptied
    by_contra hmany
    rcases disconnectAll_misses env hx h (by omega) with ⟨y, hy, hmissed⟩
    have hcount := hemptied.released y (h.clients_eq.symm ▸ hy)
    have hpos : 0 < (x.disconnectAll env).freed.count y.id := by omega
    exact hmissed.not_freed (List.count_pos_iff.1 hpos)
  · intro hone
    rcases l with _ | ⟨y, _ | ⟨z, l⟩⟩
    · have hsame : x.disconnectAll env = x := by
        rw [disconnectAll, show 2 ^ 32 = (2 ^ 32 - 1) + 1 from rfl, disconnectAllFrom, h.count]
        rfl
      rw [hsame]
      refine ⟨h.count, h.slot_eq, ?_⟩
      rw [h.clients_eq]
      simp
    · have hslot : SlotTable.get x.books.sr 0 = some y := h.slot_eq 0
      have hfirst := disconnectAll_first env hx h (y := y) rfl
      have hnone : (x.books.without 0 y).nconnections = 0 := by
        show x.nconnections - 1 = 0
        rw [h.count]
        rfl
      rcases Books.Drops.freed_of_none hnone hfirst with ⟨hcount, hfreed⟩
      have hlast : x.disconnectAll env = x.disconnect env 0 := by
        have hpos : 0 < x.nconnections := by
          rw [h.count]
          exact Nat.one_pos
        rw [disconnectAll, show 2 ^ 32 = (2 ^ 32 - 2) + 1 + 1 from rfl, disconnectAllFrom,
          if_pos hpos, disconnectAllFrom,
          if_neg (by show ¬ 1 < (x.disconnect env 0).books.nconnections; omega)]
      have hlength : 0 + 1 = [y].length := rfl
      have hleft := h.disconnect env hlength
      have hnobody : x.survivors env.now ([y].eraseIdx 0) = [] :=
        List.sublist_nil.1 (survivors_sublist x env.now [])
      rw [hnobody] at hleft
      rw [hlast]
      refine ⟨hcount, hleft.slot_eq, ?_⟩
      rw [h.clients_eq]
      intro z hz
      have hzy : z = y := List.mem_singleton.1 hz
      have hnew : (x.disconnect env 0).freed = x.freed ++ [y.id] := hfreed
      have hold : y.id ∉ x.freed := hx.not_freed y (SlotTable.mem_entries.2 ⟨0, hslot⟩)
      rw [hnew, hzy, List.count_append, List.count_eq_zero_of_not_mem hold,
        List.count_singleton_self]
    · simp at hone

end Server

end UdpServer

/-! ## Both servers -/

/-- In every reachable state, the UDP server's with its counted slots all used, the
{lit}`disconnect` message leaves no client and frees each one once exactly if there is at
most one. -/
theorem disconnectAll_empties_iff {x : TcpServer.Server} {u : UdpServer.Server}
    (hx : tcpserverMachine.Reachable x) (hu : udpserverMachine.Reachable u)
    (hused : ∀ i, i < u.nconnections → u.slot i ≠ none) (env : UdpServer.Env) :
    (x.Emptied (x.disconnectAll TcpServer.emit) ↔ x.nconnections ≤ 1) ∧
      (u.Emptied (u.disconnectAll env) ↔ u.nconnections ≤ 1) := by
  rcases TcpServer.Server.reach_inv hx with ⟨l, hl⟩
  have hsound := UdpServer.Server.reach_sound hu
  exact ⟨TcpServer.Server.disconnectAll_emptied_iff hl,
    UdpServer.Server.disconnectAll_emptied_iff hsound
      (UdpServer.Server.holds_of_sound hsound hused)⟩

/-- A caller connects to the one server, a peer writes to the other. -/
theorem disconnectAll_empties_one :
    ∃ x u, tcpserverMachine.Reachable x ∧ udpserverMachine.Reachable u ∧
      x.nconnections = 1 ∧ u.nconnections = 1 ∧ x.Emptied (x.disconnectAll TcpServer.emit) ∧
      u.Emptied (u.disconnectAll (UdpServer.plainEnv 0 [])) := by
  have hrun : tcpserverMachine.run TcpServer.Server.started
      [(TcpServer.Server.plainEnv [], .incoming 3 (TcpServer.Server.caller 5))] = some _ := rfl
  have hrun' : udpserverMachine.run UdpServer.started
      [(UdpServer.plainEnv 0 [], .received 3 (some (UdpServer.datagram 5000#16)))] = some _ := rfl
  have hx := Machine.reach_of_run TcpServer.Server.init_started hrun
  have hu := Machine.reach_of_run UdpServer.init_started hrun'
  have hboth := disconnectAll_empties_iff hx hu (by decide +kernel) (UdpServer.plainEnv 0 [])
  exact ⟨_, _, hx, hu, by decide +kernel, by decide +kernel, hboth.1.2 (by decide +kernel),
    hboth.2.2 (by decide +kernel)⟩

/-- Two clients: in both servers one of them stays. -/
theorem disconnectAll_spares :
    ∃ x u, tcpserverMachine.Reachable x ∧ udpserverMachine.Reachable u ∧
      x.nconnections = 2 ∧ u.nconnections = 2 ∧ (∀ i, i < u.nconnections → u.slot i ≠ none) ∧
      (x.disconnectAll TcpServer.emit).nconnections = 1 ∧
      ¬ x.Emptied (x.disconnectAll TcpServer.emit) ∧
      (u.disconnectAll (UdpServer.plainEnv 0 [])).nconnections = 1 ∧
      ¬ u.Emptied (u.disconnectAll (UdpServer.plainEnv 0 [])) := by
  have hrun : tcpserverMachine.run TcpServer.Server.started
      [(TcpServer.Server.plainEnv [], .incoming 3 (TcpServer.Server.caller 5)),
        (TcpServer.Server.plainEnv [], .incoming 3 (TcpServer.Server.caller 6))] = some _ := rfl
  have hrun' : udpserverMachine.run UdpServer.started
      [(UdpServer.plainEnv 0 [], .received 3 (some (UdpServer.datagram 5000#16))),
        (UdpServer.plainEnv 0 [], .received 3 (some (UdpServer.datagram 5001#16)))] =
      some _ := rfl
  have hx := Machine.reach_of_run TcpServer.Server.init_started hrun
  have hu := Machine.reach_of_run UdpServer.init_started hrun'
  refine ⟨_, _, hx, hu, by decide +kernel, by decide +kernel, by decide +kernel,
    by decide +kernel, fun h => ?_, by decide +kernel, fun h => ?_⟩
  · exact absurd h.nconnections (by decide +kernel)
  · exact absurd h.nconnections (by decide +kernel)

end Iemnet
