import Iemnet.TcpServer.Reentrant.Steps

/-!
# Disconnecting under re-entrant messages

{lit}`tcpserver_disconnect` announces a client and then uses its index again.  A message
that comes in meanwhile can remove another client, and the clients behind it move down
one slot.

Main results:

- Theorem {lit}`disconnected_ordered`: as long as nothing is removed at or below an index
  that an unfinished call is going to use, every call frees its client and no other.
- Theorem {lit}`Orderly.displaced`: otherwise an unfinished call has lost its client.
-/

namespace Iemnet.TcpServer

open Pd Foundations

namespace Reentrant

variable {s s' : State} {l : List SocketReceiver} {t : Task} {rest : List Task}

/-- Every call of {lit}`tcpserver_disconnect` that has been carried out has freed the
client that was at its index at the time of the call, nobody has been freed twice or
otherwise, and the table holds all the other clients. -/
structure Disconnected (s : State) : Prop where
  freed_eq : s.server.freed = s.ended
  nodup : s.ended.Nodup
  clients_eq : s.server.clients = s.entered.filter fun y => y.id ∉ s.ended
  nconnections_eq : s.server.nconnections = s.server.clients.length

/-- When {lit}`tcpserver_disconnect` removes the client at an index, the calls of it that
have not come to their removal yet have smaller indices. -/
def Ordered (s : State) : Label → Prop
  | .message .. => True
  | .proceed =>
      ∀ p ∈ s.stack.head?.bind Task.removal, ∀ q ∈ removals s.stack.tail, q.1 < p.1

instance (s : State) (a : Label) : Decidable (Ordered s a) := by
  cases a <;> unfold Ordered <;> infer_instance

/-- What {lit}`Ordered` steps keep: the client of every unfinished call is still at its
index. -/
structure Orderly (s : State) (l : List SocketReceiver) : Prop where
  sound : s.Sound l
  placed : ∀ p ∈ removals s.stack, l[p.1]? = some p.2
  freed_eq : s.server.freed = s.ended
  nodup : s.ended.Nodup
  clients_eq : l = s.entered.filter fun y => y.id ∉ s.ended

/-- Who is in order has disconnected whom it should. -/
theorem Orderly.disconnected (h : Orderly s l) : Disconnected s := by
  have hclients := h.sound.tabled.clients_eq
  constructor
  case freed_eq => exact h.freed_eq
  case nodup => exact h.nodup
  case clients_eq => rw [hclients, ← h.clients_eq]
  case nconnections_eq => rw [hclients, h.sound.tabled.nconnections_eq]

/-- At first nobody has been disconnected. -/
theorem orderly_start {x : Server} (hinit : tcpserverMachine.init x) :
    Orderly (.start x) [] := by
  rcases sound_start hinit with ⟨hsound, hfreed⟩
  exact ⟨hsound, fun p hp => absurd hp List.not_mem_nil, hfreed, List.nodup_nil, rfl⟩

/-- The clients without the one at an index are those with another serial. -/
theorem eraseIdx_eq_filter_id {x : Server} {i : Nat} {y : SocketReceiver} (h : x.Tabled l)
    (hi : l[i]? = some y) : l.eraseIdx i = l.filter fun z => z.id ≠ y.id := by
  rw [SlotTable.eraseIdx_eq_filter (List.Nodup.of_map _ h.ids_nodup) hi]
  apply List.filter_congr
  intro z hz
  rcases List.getElem?_of_mem hz with ⟨j, hj⟩
  rw [decide_eq_decide, not_iff_not]
  constructor
  · exact fun heq => heq ▸ rfl
  · intro hid
    have hij := (h.id_eq_iff hj hi).1 hid
    subst hij
    exact Option.some.inj (hj.symm.trans hi)

/-- Every task of the condition keeps the calls in order. -/
theorem Orderly.worked (h : Orderly s l) (hstack : s.stack = t :: rest)
    (hposs : t.Possible s.server) (hordered : Ordered s .proceed) :
    ∃ l', Orderly (s.worked t rest) l' := by
  have hplaced : ∀ p, t.removal = some p → l[p.1]? = some p.2 := by
    intro p hp
    apply h.placed
    rw [hstack]
    exact List.mem_filterMap.2 ⟨t, List.mem_cons_self, hp⟩
  have hplaced_rest : ∀ p ∈ removals rest, l[p.1]? = some p.2 := by
    intro p hp
    apply h.placed
    rw [hstack, removals, filterMap_cons_toList]
    exact List.mem_append_right _ hp
  have hbelow : ∀ p, t.removal = some p → ∀ q ∈ removals rest, q.1 < p.1 := by
    simp only [Ordered, hstack] at hordered
    exact hordered
  have hnew := removals_expand h.sound.tabled t
  have hsplit : removals (s.worked t rest).stack =
      removals (s.server.expand t).2 ++ removals rest := List.filterMap_append
  have hended : (s.worked t rest).ended =
      s.ended ++ t.removal.toList.map fun p => p.2.id := rfl
  have hentered : (s.worked t rest).entered = s.entered ++ t.entering s.server := rfl
  rcases h.sound.worked hstack hposs (fun p hp => by
    rw [h.sound.tabled.slot_eq, hplaced p hp]
    exact Option.some_ne_none _) with ⟨l', hsound, htable⟩
  refine ⟨l', ?_⟩
  cases htable with
  | kept hremoval hentering hfreed =>
      rw [hremoval, Option.toList_none, List.map_nil, List.append_nil] at hended
      rw [hentering, List.append_nil] at hentered
      constructor
      case sound => exact hsound
      case placed =>
        rw [hsplit]
        exact List.forall_mem_append.2 ⟨hnew, hplaced_rest⟩
      case freed_eq => rw [hfreed, hended, h.freed_eq]
      case nodup => exact hended ▸ h.nodup
      case clients_eq => rw [hended, hentered, ← h.clients_eq]
  | entered y hremoval hentering haccepted hfreed =>
      rw [hremoval, Option.toList_none, List.map_nil, List.append_nil] at hended
      rw [hentering] at hentered
      have hkeep : ∀ p : Nat × SocketReceiver, l[p.1]? = some p.2 →
          (l ++ [y])[p.1]? = some p.2 := by
        intro p hp
        rw [List.getElem?_append_left (List.getElem?_eq_some_iff.1 hp).1]
        exact hp
      have hunfreed : y.id ∉ s.ended := by
        have hentry : y.entry ∈ pending s.stack := by
          rw [hstack]
          exact List.mem_filterMap.2 ⟨t, List.mem_cons_self, haccepted⟩
        rw [← h.freed_eq]
        exact (h.sound.connection _ (List.mem_append_right _ hentry)).unfreed
      constructor
      case sound => exact hsound
      case placed =>
        rw [hsplit]
        exact List.forall_mem_append.2
          ⟨fun p hp => hkeep p (hnew p hp), fun p hp => hkeep p (hplaced_rest p hp)⟩
      case freed_eq => rw [hfreed, hended, h.freed_eq]
      case nodup => exact hended ▸ h.nodup
      case clients_eq =>
        rw [hended, hentered, List.filter_append, ← h.clients_eq,
          List.filter_singleton, decide_eq_true hunfreed]
        rfl
  | removed i y z hremoval hentering hz hfreed =>
      have hi : l[i]? = some y := hplaced (i, y) hremoval
      have hzy : z = y := Option.some.inj (hz.symm.trans hi)
      subst hzy
      have hid : z.id ∉ s.ended := by
        rw [← h.freed_eq]
        exact h.sound.tabled.notFreed z (List.mem_of_getElem? hi)
      rw [hremoval] at hended
      rw [hentering, List.append_nil] at hentered
      constructor
      case sound => exact hsound
      case placed =>
        rw [hsplit]
        have hnone : removals (s.server.expand t).2 = [] := by
          cases t <;> first | rfl | contradiction
        rw [hnone, List.nil_append]
        intro p hp
        rw [List.getElem?_eraseIdx_of_lt (hbelow (i, z) hremoval p hp)]
        exact hplaced_rest p hp
      case freed_eq =>
        rw [hfreed, hended, h.freed_eq]
        rfl
      case nodup =>
        rw [hended, List.nodup_append']
        refine ⟨h.nodup, List.nodup_singleton _, ?_⟩
        exact List.disjoint_singleton.2 hid
      case clients_eq =>
        have hmem : ∀ id, id ∉ s.ended ++ [z.id] ↔ id ∉ s.ended ∧ id ≠ z.id := by simp
        calc l.eraseIdx i
          _ = l.filter fun y => y.id ≠ z.id := eraseIdx_eq_filter_id h.sound.tabled hi
          _ = (s.entered.filter fun y => y.id ∉ s.ended).filter fun y => y.id ≠ z.id := by
              rw [← h.clients_eq]
          _ = s.entered.filter fun y => y.id ∉ s.ended ++ [z.id] := by
              rw [List.filter_filter]
              apply List.filter_congr
              intro y _
              rw [← Bool.decide_and, decide_eq_decide, hmem, and_comm]
          _ = (s.worked t rest).entered.filter fun y => y.id ∉ (s.worked t rest).ended := by
              rw [hended, hentered]
              rfl

/-- A removal that is not in order takes the client of an unfinished call away from its
index. -/
theorem Orderly.displaced (h : Orderly s l) (hstack : s.stack = t :: rest)
    (hunordered : ¬ Ordered s .proceed) :
    ∃ q ∈ removals (s.worked t rest).stack, (s.worked t rest).server.slot q.1 ≠ some q.2 := by
  simp only [Ordered, hstack, List.head?_cons, Option.bind_some, List.tail_cons, not_forall,
    Nat.not_lt] at hunordered
  rcases hunordered with ⟨⟨i, y⟩, hp, q, hq, hle⟩
  cases t with
  | remove client y' =>
      have hpair : (client, y') = (i, y) := Option.some.inj hp
      cases hpair
      have hplaced : ∀ q ∈ removals (.remove i y :: rest), l[q.1]? = some q.2 :=
        hstack ▸ h.placed
      have hi : l[i]? = some y := hplaced (i, y) List.mem_cons_self
      have hqi : l[q.1]? = some q.2 := hplaced q (List.mem_cons_of_mem _ hq)
      have hserver : (s.worked (.remove i y) rest).server = s.server.removed l i y :=
        h.sound.tabled.remove hi
      refine ⟨q, hq, fun hslot => ?_⟩
      rw [hserver, (h.sound.tabled.removed hi).slot_eq,
        List.getElem?_eraseIdx_of_ge hle] at hslot
      have := (h.sound.tabled.id_eq_iff hslot hqi).1 rfl
      omega
  | _ => contradiction

/-- Every input keeps the calls in order. -/
theorem Orderly.received {env : Env} {a : Input} {x : Server} {tasks : List Task}
    (h : Orderly s l) (hrec : receptive s.stack a = true)
    (hexpand : s.server.expandInput s.serial env a = some (x, tasks)) :
    Orderly (s.received x tasks) l := by
  rcases h.sound.received hrec hexpand with ⟨hsound, hfreed, hremovals⟩
  constructor
  case sound => exact hsound
  case placed =>
    have hsplit : removals (s.received x tasks).stack = removals tasks ++ removals s.stack :=
      List.filterMap_append
    rw [hsplit, hremovals]
    exact h.placed
  case freed_eq => exact hfreed.trans h.freed_eq
  case nodup => exact h.nodup
  case clients_eq => exact h.clients_eq

/-- In every run of the condition the calls are in order. -/
theorem reach_orderly (h : reentrantMachine.Reach Ordered s) : ∃ l, Orderly s l := by
  apply h.invariant (I := fun s => ∃ l, Orderly s l)
  · rintro s ⟨x, hinit, rfl⟩
    exact ⟨[], orderly_start hinit⟩
  · rintro s a s' _ ⟨l, hl⟩ hok hs
    cases a with
    | message env a =>
        rcases step_message hs with ⟨x, tasks, hrec, hexpand, rfl⟩
        exact ⟨l, hl.received hrec hexpand⟩
    | proceed =>
        rcases step_proceed hs with ⟨t, rest, hstack, hposs, rfl⟩
        exact hl.worked hstack hposs hok

/-- As long as nothing is removed at or below an index that an unfinished call is going to
use, every call frees its client and no other. -/
theorem disconnected_ordered (h : reentrantMachine.Reach Ordered s) : Disconnected s := by
  rcases reach_orderly h with ⟨l, hl⟩
  exact hl.disconnected

/-! ## Answers to an announcement -/

/-- A listening server. -/
def listening : State :=
  .start Server.started

/-- The listening object is a start. -/
theorem init_listening : reentrantMachine.init listening :=
  ⟨_, Server.init_started, rfl⟩

/-- Connections come in one after the other, and the patch does not answer. -/
def callers (fds : List Int) : List Label :=
  fds.flatMap fun fd =>
    .message (Server.plainEnv []) (.incoming 3 (Server.caller fd)) :: List.replicate 22 .proceed

/-- A client is to be disconnected, and {lit}`k` tasks are worked off. -/
def disconnecting (client : Int) (k : Nat) : List Label :=
  .message (Server.plainEnv []) (.disconnectClient ⟨client, 0#32⟩) :: List.replicate k .proceed

/-- While the first client is announced, the patch has the second one disconnected. -/
def lastFirst : List Label :=
  callers [5, 6] ++ disconnecting 1 3 ++ disconnecting 2 24 ++ List.replicate 21 .proceed

/-- The number of tasks left, for whom {lit}`tcpserver_disconnect` has been carried out,
who has been freed, and who is in the table. -/
def State.summary (s : State) : Nat × List Nat × List Nat × List Nat :=
  (s.stack.length, s.ended, s.server.freed, s.server.clients.map SocketReceiver.id)

/-- The last client is disconnected while the first one is announced: both go, nobody else
does. -/
theorem disconnected_lastFirst :
    ∃ s, reentrantMachine.run listening lastFirst = some s ∧
      s.summary = (0, [2, 1], [2, 1], []) ∧ Disconnected s := by
  have hsummary : (reentrantMachine.run listening lastFirst).map State.summary =
      some (0, [2, 1], [2, 1], []) := by decide +kernel
  have hordered : reentrantMachine.RunMeets Ordered listening lastFirst :=
    Machine.runMeets_of_meets (by decide +kernel)
  rcases Option.map_eq_some_iff.1 hsummary with ⟨s, hrun, hs⟩
  exact ⟨s, hrun, hs, disconnected_ordered (.run (.start init_listening) hordered hrun)⟩

/-- While the second of three clients is announced, the patch has the first one
disconnected. -/
def firstFirst : List Label :=
  callers [5, 6, 7] ++ disconnecting 2 3 ++ disconnecting 1 24 ++ List.replicate 21 .proceed

/-- The third client is freed in place of the second. -/
theorem disconnect_frees_other :
    ∃ s, reentrantMachine.Reachable s ∧ s.summary = (0, [1, 2], [1, 3], [2]) ∧
      ¬ Disconnected s := by
  have hsummary : (reentrantMachine.run listening firstFirst).map State.summary =
      some (0, [1, 2], [1, 3], [2]) := by decide +kernel
  rcases Option.map_eq_some_iff.1 hsummary with ⟨s, hrun, hs⟩
  refine ⟨s, Machine.reach_of_run init_listening hrun, hs, fun h => ?_⟩
  have hended : s.ended = [1, 2] := congrArg (fun a => a.2.1) hs
  have hfreed : s.server.freed = [1, 3] := congrArg (fun a => a.2.2.1) hs
  have hequal : [1, 3] = [1, 2] := hfreed.symm.trans (h.freed_eq.trans hended)
  exact absurd hequal (by decide)

end Reentrant
end Iemnet.TcpServer
