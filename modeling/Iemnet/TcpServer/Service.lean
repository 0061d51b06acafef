import Iemnet.Foundations.Multicast
import Iemnet.TcpServer.Target

/-!
# The TCP server is a multicast service

Seen from outside, the server keeps a group: connections join, lists are posted to an
audience, and whoever cannot be sent to leaves.  {lit}`Server.meaning` says what each input
means for the group; members are named by the serials of their connections, so nothing of
the table, the descriptors or the default target is left.

Main results:

- Theorem {lit}`Steady.step`: what a regular step keeps.
- Theorem {lit}`service_refined`: one input of the server is its meaning for the group.
- Theorem {lit}`mail_in_order`: what the sender of one client is given in a whole run.
-/

namespace Iemnet.TcpServer

open Pd Foundations Multicast

/-- The audience that a selection stands for. -/
def Selection.audience : Selection → Audience Nat
  | .everybody => .everybody
  | .only id => .only id
  | .allBut id => .allBut id
  | .socket => .everybody

/-- The chunk of a list that is sent. -/
def Input.posted (env : Env) : Input → List (Option Chunk)
  | .broadcast argv => [chunkCreateList env.mem argv]
  | .defaultsend argv => [chunkCreateList env.mem argv]
  | .sendClient argv => [chunkCreateList env.mem argv.tail]
  | .sendSocket argv => [chunkCreateList env.mem argv.tail]
  | _ => []

namespace Server

variable {x x' : Server} {l : List SocketReceiver} {y : SocketReceiver} {env : Env}
  {a : Input} {s : Selection}

/-! ## What an input means -/

/-- The clients that cannot be sent to. -/
def refusing (x : Server) (env : Env) : List Nat :=
  (x.clients.filter fun y => env.result y < 0).map SocketReceiver.id

/-- The clients with a property leave. -/
def leaving (x : Server) (p : SocketReceiver → Bool) : List (Event Nat (Option Chunk)) :=
  ((x.clients.filter p).map SocketReceiver.id).map .leave

/-- What an input means for the group of clients. -/
def meaning (x : Server) (s : Selection) (env : Env) : Input → List (Event Nat (Option Chunk))
  | .incoming _ o => if x.Admits o then [.join x.os.issued] else []
  | .received fd none => x.leaving fun y => y.fd = fd
  | .disconnectClient f =>
      if 0 < f.toInt then x.leaving fun y => x.clients[(f.toInt - 1).toNat]? = some y else []
  | .disconnectSocket f => x.leaving fun y => y.fd = f.toInt
  | .disconnectAll => x.leaving fun y => y ∉ spared x.clients
  | .defaulttarget f => [.choose (x.select s (.defaulttarget f)).audience]
  | .broadcast argv =>
      [.post (some .everybody) (chunkCreateList env.mem argv) (x.refusing env)]
  | .defaultsend argv => [.post none (chunkCreateList env.mem argv) (x.refusing env)]
  | .sendClient argv => (x.recipients (.sendClient argv)).map fun p =>
      .post (some (.only p.1.id)) (chunkCreateList env.mem argv.tail) (x.refusing env)
  | .sendSocket argv => (x.recipients (.sendSocket argv)).map fun p =>
      .post (some (.only p.1.id)) (chunkCreateList env.mem argv.tail) (x.refusing env)
  | _ => []

/-- What has been handed to the senders of the clients and taken by them. -/
def mail (x : Server) : List (Nat × Option Chunk) :=
  (x.sends.filter fun p => 0 ≤ p.2.2).map fun p => (p.1.id, p.2.1)

/-- What the sender of the client {lit}`id` has taken, oldest first. -/
def mailbox (x : Server) (id : Nat) : List (Option Chunk) :=
  x.mail.filterMap fun p => if p.1 = id then some p.2 else none

/-! ## The clients that leave -/

/-- Erasing by the descriptor leaves the clients with other descriptors. -/
theorem eraseP_fd_eq_filter (h : (l.map SocketReceiver.fd).Nodup) (fd : Int) :
    (l.eraseP fun y => y.fd = fd) = l.filter fun y => ¬ y.fd = fd := by
  induction l with
  | nil => rfl
  | cons y l ih =>
      rw [List.map_cons, List.nodup_cons] at h
      by_cases hy : y.fd = fd
      · rw [List.eraseP_cons_of_pos (by simpa using hy),
          List.filter_cons_of_neg (by simpa using hy), eq_comm, List.filter_eq_self]
        intro z hz
        have hne : z.fd ≠ fd := fun hzfd => h.1 (hy ▸ hzfd ▸ List.mem_map_of_mem hz)
        simpa using hne
      · rw [List.eraseP_cons_of_neg (by simpa using hy),
          List.filter_cons_of_pos (by simpa using hy), ih h.2]

/-- Erasing at an index leaves the clients at other indices. -/
theorem eraseIdx_eq_filter_get (h : l.Nodup) (i : Nat) :
    l.eraseIdx i = l.filter fun y => ¬ l[i]? = some y := by
  cases hi : l[i]? with
  | none =>
      rw [List.eraseIdx_of_length_le (List.getElem?_eq_none_iff.1 hi), eq_comm,
        List.filter_eq_self]
      simp
  | some y =>
      rw [SlotTable.eraseIdx_eq_filter h hi]
      apply List.filter_congr
      intro z _
      simp [eq_comm]

/-- Who is spared are those who are. -/
theorem spared_eq_filter (h : l.Nodup) : spared l = l.filter fun y => ¬ y ∉ spared l := by
  induction l using spared.induct with
  | case1 => rfl
  | case2 y => simp [spared]
  | case3 y z l ih =>
      rw [List.nodup_cons, List.nodup_cons, List.mem_cons, not_or] at h
      have hy : y ∉ spared l := fun hmem => h.1.2 (mem_spared hmem)
      have hrest : (l.filter fun w => ¬ w ∉ z :: spared l) = l.filter fun w => ¬ w ∉ spared l := by
        apply List.filter_congr
        intro w hw
        have hwz : w ≠ z := fun heq => h.2.1 (heq ▸ hw)
        simp [hwz]
      rw [spared, List.filter_cons_of_neg (by simp [h.1.1, hy]),
        List.filter_cons_of_pos (by simp), hrest, ← ih h.2.2]

/-- Ids tell clients apart. -/
theorem Inv.eq_of_id (h : x.Inv l) {y z : SocketReceiver} (hy : y ∈ l) (hz : z ∈ l)
    (hid : y.id = z.id) : y = z :=
  List.inj_on_of_nodup_map h.ids_nodup hy hz hid

/-- The ids that stay are those of the clients that stay. -/
theorem Inv.filter_ids (h : x.Inv l) (p : SocketReceiver → Bool) :
    ((l.map SocketReceiver.id).filter fun i => i ∉ (l.filter p).map SocketReceiver.id) =
      (l.filter fun y => !p y).map SocketReceiver.id := by
  rw [List.filter_map]
  congr 1
  apply List.filter_congr
  intro y hy
  have hmem : y.id ∈ (l.filter p).map SocketReceiver.id ↔ p y = true := by
    constructor
    · intro hin
      rcases List.mem_map.1 hin with ⟨z, hz, hid⟩
      rcases List.mem_filter.1 hz with ⟨hzl, hpz⟩
      exact h.eq_of_id hzl hy hid ▸ hpz
    · intro hp
      exact List.mem_map_of_mem (List.mem_filter.2 ⟨hy, hp⟩)
  simp only [Function.comp_apply, hmem]
  cases p y <;> rfl

/-! ## What is sent -/

/-- Only with a sender a send succeeds. -/
theorem result_nonneg_hasSender (h : ¬ env.result y < 0) : y.hasSender = true := by
  by_contra hnone
  rw [Env.result, if_neg hnone] at h
  exact h (by decide)

/-- A client refuses exactly if the send to it fails. -/
theorem refused_iff (h : x.Inv l) (hy : y ∈ l) : y.id ∈ x.refusing env ↔ env.result y < 0 := by
  rw [refusing, h.clients_eq]
  constructor
  · intro hin
    rcases List.mem_map.1 hin with ⟨z, hz, hid⟩
    rcases List.mem_filter.1 hz with ⟨hzl, hresult⟩
    rw [← h.eq_of_id hzl hy hid]
    simpa using hresult
  · intro hresult
    exact List.mem_map_of_mem (List.mem_filter.2 ⟨hy, by simpa using hresult⟩)

/-- Closing the port sends nothing. -/
theorem sends_closePort (x : Server) : (x.closePort x.connectsocket).sends = x.sends := by
  rw [closePort_eq]
  split <;> rfl

/-- Other inputs send nothing. -/
theorem Effect.sends_eq (h : x.Inv l) (he : Effect x l env a x') (hnot : ¬ a.Sends) :
    x'.sends = x.sends := by
  cases he with
  | settled | resized | refused | registered | dropped => rfl
  | unbound before => exact sends_closePort (x.logged before)
  | failed fd before after | bound fd port before after =>
      exact sends_closePort (x.logged before)
  | droppedAll =>
      rcases disconnectAllFrom_induct (P := fun x' _ => x'.sends = x.sends) (2 ^ 32) 0 h rfl
        (fun x' l i y _ hsends _ => hsends) with ⟨l', -, hsends⟩
      exact hsends
  | offered hkind => exact absurd hkind hnot

/-- An input that sends offers its chunk to its recipients, and to nobody else. -/
theorem step_sends (h : x.Inv l) (hsmall : Small l) (hs : x.step emit env a = some x') :
    x'.sends = x.sends ++ ((x.recipients a).filter fun p => p.1.hasSender).map
      fun p => (p.1, chunkCreateList env.mem a.atoms, env.result p.1) := by
  have hmem : ∀ p ∈ x.recipients a, p.1 ∈ l := fun p hp =>
    List.mem_of_getElem? (mem_recipients h a hp)
  have hoffer : ∀ x₀ : Server, x₀.Inv l → x₀.sends = x.sends →
      ((x.recipients a).foldl (offer env (chunkCreateList env.mem a.atoms)) x₀).sends =
        x.sends ++ ((x.recipients a).filter fun p => p.1.hasSender).map
          fun p => (p.1, chunkCreateList env.mem a.atoms, env.result p.1) := by
    intro x₀ hx₀ hsame
    have hexact := @offers_exact x₀ l env (chunkCreateList env.mem a.atoms) (x.recipients a)
      hx₀ hmem (recipients_nodup h a) fun p hp => hsmall.own h (hmem p hp)
    rw [hexact.2, hsame]
  cases a with
  | broadcast argv =>
      cases hs
      rw [broadcast_eq h.tabled]
      exact hoffer x h rfl
  | defaultsend argv =>
      cases hs
      rw [defaultsend_eq h]
      exact hoffer _ (h.retarget x.settledTarget) rfl
  | sendClient argv =>
      cases hs
      cases argv with
      | nil =>
          rcases infoClients_eq h env (2 ^ 32) 0 with ⟨outputs, heq, -⟩
          rw [sendClient, heq]
          exact (List.append_nil _).symm
      | cons a rest =>
          cases rest with
          | nil =>
              rw [sendClient]
              cases hfix : x.fixindex (toInt32 (atomGetint a)) with
              | none => exact (List.append_nil _).symm
              | some i =>
                  have hi : i < l.length := h.nconnections_eq ▸ (fixindex_eq_some.1 hfix).2
                  simp only [if_true, infoClient_eq h env (List.getElem?_eq_getElem hi)]
                  exact (List.append_nil _).symm
          | cons b rest =>
              rw [sendClient_eq h]
              exact hoffer x h rfl
  | sendSocket argv =>
      cases hs
      cases argv with
      | nil => exact (List.append_nil _).symm
      | cons a rest =>
          rw [sendSocket_eq h]
          exact hoffer x h rfl
  | incoming | received | disconnectClient | disconnectSocket | disconnectAll | defaulttarget
  | targetsocket | serialize | accept | maxconnections | port | info =>
      exact ((step_effect h hs).sends_eq h id).trans (List.append_nil _).symm

/-- What is added to the mail. -/
theorem mail_step (h : x.Inv l) (hsmall : Small l) (hs : x.step emit env a = some x') :
    x'.mail = x.mail ++ (((x.recipients a).map fun p => p.1.id).filter
      fun i => i ∉ x.refusing env).map fun i => (i, chunkCreateList env.mem a.atoms) := by
  rw [mail, step_sends h hsmall hs, List.filter_append, List.map_append]
  congr 1
  rw [List.filter_map, List.filter_filter, List.map_map, List.filter_map, List.map_map]
  congr 1
  apply List.filter_congr
  intro p hp
  have hrefused : p.1.id ∈ x.refusing env ↔ env.result p.1 < 0 :=
    refused_iff h (List.mem_of_getElem? (mem_recipients h a hp))
  by_cases hneg : env.result p.1 < 0
  · simp [hrefused, hneg]
  · simp [hrefused, hneg, result_nonneg_hasSender hneg, Int.not_lt.1 hneg]

/-! ## Regular steps -/

/-- The steps that have a meaning: descriptors fit a float, no audience is chosen by a
descriptor, no client with descriptor 0 is chosen, and no new client is given the number of
a chosen one that has left. -/
def Regular (w : Watched) (e : Env × Input) : Prop :=
  SmallFd w.server e ∧
    match e.2 with
    | .targetsocket _ => False
    | .defaulttarget f =>
        ∀ k y, f.toInt.natAbs = k + 1 → w.server.slot k = some y → y.fd ≠ 0
    | .incoming _ o =>
        (∃ id, w.selection = .only id ∨ w.selection = .allBut id) → w.server.Admits o →
          w.server.defaulttarget = 0 ∨ o.fd ≠ w.server.defaulttarget.natAbs
    | _ => True

/-- What regular steps keep. -/
structure Steady (w : Watched) (l : List SocketReceiver) : Prop where
  inv : w.server.Inv l
  small : Small l
  aimed : w.server.Aimed l w.selection
  plain : w.selection ≠ .socket

variable {w : Watched}

/-- The default target follows the selection through a list as well. -/
theorem aimed_regular (h : Steady w l) (hok : Regular w (env, a))
    (hs : w.server.step emit env a = some x') :
    ∃ l', x'.Inv l' ∧ x'.Aimed l' (w.server.select w.selection a) := by
  cases a with
  | defaultsend argv =>
      cases hs
      rw [defaultsend_eq h.inv]
      exact offers_induct (P := fun x l => x.Aimed l w.selection) env _ w.server.targets
        (h.inv.retarget w.server.settledTarget) (h.aimed.settled h.inv)
        (fun x x₁ l _ ha hq => ha.mono hq.defaulttarget hq.issued.ge)
        fun x l i y p hinv ha _ _ hi => ha.dropped hinv hi
  | incoming fd o => exact aimed_step h.inv h.aimed hok.2 hs
  | defaulttarget f => exact aimed_step h.inv h.aimed hok.2 hs
  | targetsocket f => exact hok.2.elim
  | received | disconnectClient | disconnectSocket | disconnectAll | sendSocket | sendClient
  | broadcast | serialize | accept | maxconnections | port | info =>
      exact aimed_step h.inv h.aimed trivial hs

/-- Only one message chooses a client by its descriptor. -/
theorem select_ne_socket (hs : s ≠ .socket) (hnot : ∀ f, a ≠ .targetsocket f) :
    x.select s a ≠ .socket := by
  cases a with
  | targetsocket f => exact absurd rfl (hnot f)
  | defaulttarget f =>
      simp only [select]
      split
      · exact hs
      · split
        · exact Selection.noConfusion
        · split
          · exact hs
          · split <;> exact Selection.noConfusion
  | incoming | received | disconnectClient | disconnectSocket | disconnectAll | sendSocket
  | sendClient | broadcast | defaultsend | serialize | accept | maxconnections | port | info =>
      exact hs

/-- Every regular input keeps server and selection steady. -/
theorem Steady.step (h : Steady w l) (hok : Regular w (env, a))
    (hs : w.server.step emit env a = some x') :
    Steady ⟨x', w.server.select w.selection a⟩ (nextClients w.server env l a) := by
  have hnext := step_nextClients h.inv h.small hs
  rcases aimed_regular h hok hs with ⟨l', hinv', haimed⟩
  have hsame : l' = nextClients w.server env l a :=
    hinv'.clients_eq.symm.trans hnext.clients_eq
  refine ⟨hnext, h.small.next hok.1, hsame ▸ haimed, select_ne_socket h.plain ?_⟩
  intro f hf
  subst hf
  exact hok.2

/-! ## The simulation -/

/-- The group says what the server keeps. -/
structure Refines (w : Watched) (g : Group Nat (Option Chunk)) : Prop where
  members : g.members = w.server.clients.map SocketReceiver.id
  audience : g.audience = w.selection.audience
  mail : g.mail = w.server.mail
  gone_lt : ∀ i ∈ g.gone, i < w.server.os.issued

variable {g : Group Nat (Option Chunk)}

/-- Nothing that concerns the group has changed but the audience. -/
theorem Refines.still (hr : Refines ⟨x, s⟩ g) (hclients : x'.clients = x.clients)
    (hmail : x'.mail = x.mail) (hissued : x.os.issued ≤ x'.os.issued) (s' : Selection) :
    Refines ⟨x', s'⟩ { g with audience := s'.audience } where
  members := hr.members.trans (congrArg _ hclients.symm)
  audience := rfl
  mail := hr.mail.trans hmail.symm
  gone_lt i hi := Nat.lt_of_lt_of_le (hr.gone_lt i hi) hissued

/-- When clients leave the server they leave the group. -/
theorem Refines.leaving (hr : Refines ⟨x, s⟩ g) (h : x.Inv l) (p : SocketReceiver → Bool)
    (hclients : x'.clients = l.filter fun y => !p y) (hmail : x'.mail = x.mail)
    (hissued : x.os.issued ≤ x'.os.issued) :
    ∃ g', (groupMachine Nat (Option Chunk)).run g (x.leaving p) = some g' ∧
      Refines ⟨x', s⟩ g' := by
  have hmembers : g.members = l.map SocketReceiver.id := by
    rw [hr.members, h.clients_eq]
  have hsub : ∀ i ∈ (l.filter p).map SocketReceiver.id, i ∈ g.members := by
    rw [hmembers]
    exact fun i hi => (List.filter_sublist.map SocketReceiver.id).subset hi
  have hrun := Group.run_leave ((l.filter p).map SocketReceiver.id) (g := g)
    (hmembers ▸ h.ids_nodup) hsub (h.ids_nodup.sublist (List.filter_sublist.map _))
  rw [Server.leaving, h.clients_eq]
  refine ⟨_, hrun, ?_, hr.audience, hr.mail.trans hmail.symm, ?_⟩
  · show (g.members.filter _) = x'.clients.map SocketReceiver.id
    rw [hmembers, h.filter_ids, hclients]
  · intro i hi
    refine Nat.lt_of_lt_of_le ?_ hissued
    rcases List.mem_append.1 hi with hold | hnew
    · exact hr.gone_lt i hold
    · rcases List.mem_map.1 hnew with ⟨y, hy, rfl⟩
      exact h.id_lt (List.mem_of_mem_filter hy)

/-- A post reaches the recipients of the input that it stands for. -/
theorem Refines.posted (hr : Refines ⟨x, s⟩ g) (h : x.Inv l) (hsmall : Small l)
    (hs : x.step emit env a = some x') (audience : Option (Audience Nat))
    (hreached : g.reached (audience.getD g.audience) = (x.recipients a).map fun p => p.1.id)
    (hclients : x'.clients = l.filter fun y => y ∉ x.refusers env a) :
    ∃ g', (groupMachine Nat (Option Chunk)).run g
        [.post audience (chunkCreateList env.mem a.atoms) (x.refusing env)] = some g' ∧
      Refines ⟨x', s⟩ g' := by
  have hmem : ∀ p ∈ x.recipients a, p.1 ∈ l := fun p hp =>
    List.mem_of_getElem? (mem_recipients h a hp)
  have hissued := (step_effect h hs).issued_le h
  refine ⟨_, rfl, ?_, hr.audience, ?_, ?_⟩
  · show (g.members.filter _) = x'.clients.map SocketReceiver.id
    rw [hr.members, h.clients_eq, hclients, hreached, List.filter_map]
    congr 1
    apply List.filter_congr
    intro y hy
    have hsought : y.id ∈ (x.recipients a).map (fun p => p.1.id) ↔
        y ∈ (x.recipients a).map Prod.fst := by
      constructor
      · intro hin
        rcases List.mem_map.1 hin with ⟨p, hp, hid⟩
        exact h.eq_of_id (hmem p hp) hy hid ▸ List.mem_map_of_mem hp
      · intro hin
        rcases List.mem_map.1 hin with ⟨p, hp, rfl⟩
        exact List.mem_map_of_mem (f := fun p : SocketReceiver × Nat => p.1.id) hp
    simp only [Function.comp_apply, hsought, refused_iff h hy, refusers, List.mem_filter,
      decide_eq_true_eq]
  · show g.mail ++ _ = x'.mail
    rw [mail_step h hsmall hs, hr.mail, hreached]
  · intro i hi
    refine Nat.lt_of_lt_of_le ?_ hissued
    rcases List.mem_append.1 hi with hold | hnew
    · exact hr.gone_lt i hold
    · have hin := List.mem_of_mem_filter hnew
      rw [hreached] at hin
      rcases List.mem_map.1 hin with ⟨p, hp, rfl⟩
      exact h.id_lt (hmem p hp)

/-- Choosing clients by their serials is choosing serials. -/
theorem map_id_filter (l : List SocketReceiver) (p : Nat → Bool) :
    (l.zipIdx.filter fun q => p q.1.id).map (fun q => q.1.id) =
      (l.map SocketReceiver.id).filter p := by
  have hzip : l.map SocketReceiver.id = l.zipIdx.map fun q => q.1.id := by
    calc l.map SocketReceiver.id = (l.zipIdx.map Prod.fst).map SocketReceiver.id := by
          rw [List.zipIdx_map_fst]
      _ = l.zipIdx.map fun q => q.1.id := List.map_map
  rw [hzip, List.filter_map]
  rfl

/-- The members whom the chosen audience means are those whom a list should be sent to. -/
theorem reached_expected (h : x.Inv l) (hmembers : g.members = l.map SocketReceiver.id) :
    g.reached s.audience = (x.expected s).map fun p => p.1.id := by
  have hall : x.everyone.map (fun p => p.1.id) = l.map SocketReceiver.id := by
    rw [← everyone_fst h, List.map_map]
    rfl
  cases s with
  | everybody | socket => exact hmembers.trans hall.symm
  | allBut id =>
      show g.members.filter _ = _
      rw [hmembers, expected, everyone, h.clients_eq, map_id_filter l fun i => decide (i ≠ id)]
  | only id =>
      have hiff : (∃ y ∈ x.clients, y.id = id) ↔ id ∈ l.map SocketReceiver.id := by
        rw [h.clients_eq, List.mem_map]
      simp only [Selection.audience, Group.reached, expected, hiff, hmembers]
      split
      · rename_i hin
        rw [everyone, h.clients_eq, map_id_filter l fun i => decide (i = id),
          List.filter_eq, List.count_eq_one_of_mem h.ids_nodup hin]
        rfl
      · exact hall.symm

/-- A number leads to one recipient or none. -/
theorem recipients_sendClient (x : Server) (argv : List Atom) :
    ∃ o, x.recipients (.sendClient argv) = Option.elim o [] x.only := by
  rcases argv with - | ⟨a, - | ⟨b, rest⟩⟩
  · exact ⟨none, rfl⟩
  · exact ⟨none, rfl⟩
  · exact ⟨_, rfl⟩

/-- A descriptor leads to one recipient or none. -/
theorem recipients_sendSocket (x : Server) (argv : List Atom) :
    ∃ o, x.recipients (.sendSocket argv) = Option.elim o [] x.only := by
  cases argv with
  | nil => exact ⟨none, rfl⟩
  | cons a rest =>
      rw [recipients]
      split
      · exact ⟨_, rfl⟩
      · exact ⟨none, rfl⟩

/-- At most one client is the only one. -/
theorem length_elim_only (x : Server) (o : Option Nat) : (o.elim [] x.only).length ≤ 1 := by
  cases o with
  | none => exact Nat.zero_le 1
  | some i =>
      show (x.only i).length ≤ 1
      rw [only, List.length_map]
      cases x.clients[i]? <;> simp

/-- A post to one client. -/
theorem Refines.posted_only (hr : Refines ⟨x, s⟩ g) (h : x.Inv l) (hsmall : Small l)
    (hs : x.step emit env a = some x') {o : Option Nat}
    (ho : x.recipients a = o.elim [] x.only)
    (hclients : x'.clients = l.filter fun y => y ∉ x.refusers env a) :
    ∃ g', (groupMachine Nat (Option Chunk)).run g ((x.recipients a).map fun p =>
        .post (some (.only p.1.id)) (chunkCreateList env.mem a.atoms) (x.refusing env)) = some g' ∧
      Refines ⟨x', s⟩ g' := by
  cases hrecipients : x.recipients a with
  | nil =>
      have hnobody : x.refusers env a = [] := by rw [refusers, hrecipients]; rfl
      have hmail : x'.mail = x.mail := by
        rw [mail_step h hsmall hs, hrecipients]
        exact List.append_nil _
      refine ⟨g, rfl, ?_⟩
      have hstill : Refines ⟨x', s⟩ _ := hr.still (by
        rw [hclients, filter_notMem_nil l hnobody, h.clients_eq]) hmail
        ((step_effect h hs).issued_le h) s
      rwa [← hr.audience] at hstill
  | cons p ps =>
      have hone : ps = [] := by
        have hlength := length_elim_only x o
        rw [← ho, hrecipients, List.length_cons] at hlength
        exact List.eq_nil_of_length_eq_zero (by omega)
      subst hone
      have hp : p.1 ∈ l :=
        List.mem_of_getElem? (mem_recipients h a (hrecipients ▸ List.mem_cons_self))
      refine hr.posted h hsmall hs (some (.only p.1.id)) ?_ hclients
      rw [hrecipients]
      refine if_pos ?_
      rw [hr.members, h.clients_eq]
      exact List.mem_map_of_mem hp

/-- One input of the server is its meaning for the group. -/
theorem Refines.step (hr : Refines w g) (h : Steady w l) (hok : Regular w (env, a))
    (hs : w.server.step emit env a = some x') :
    ∃ g', (groupMachine Nat (Option Chunk)).run g (w.server.meaning w.selection env a) = some g' ∧
      Refines ⟨x', w.server.select w.selection a⟩ g' := by
  rcases w with ⟨x, s⟩
  have hinv := h.inv
  have hclients := (step_nextClients hinv h.small hs).clients_eq
  have hissued := (step_effect hinv hs).issued_le hinv
  have hmail := mail_step hinv h.small hs
  have hquiet : x.recipients a = [] → x'.mail = x.mail := by
    intro hnobody
    rw [hmail, hnobody]
    exact List.append_nil _
  have hstill : x.recipients a = [] → nextClients x env l a = l →
      Refines ⟨x', s⟩ g := by
    intro hnobody hsame
    have hstill : Refines ⟨x', s⟩ _ := hr.still (by rw [hclients, hsame, hinv.clients_eq])
      (hquiet hnobody) hissued s
    rwa [← hr.audience] at hstill
  have hnone : x.recipients a = [] → (l.filter fun y => y ∉ x.refusers env a) = l := by
    intro hnobody
    exact filter_notMem_nil l (by rw [refusers, hnobody]; rfl)
  cases a with
  | incoming fd o =>
      by_cases hin : x.Admits o
      · have hnew : x'.clients = l ++ [x.newClient o] := hclients.trans (if_pos hin)
        have hmembers : g.members = l.map SocketReceiver.id := by
          rw [hr.members, hinv.clients_eq]
        have hfresh : ¬ (x.os.issued ∈ g.members ∨ x.os.issued ∈ g.gone) := by
          rw [not_or, hmembers]
          refine ⟨fun hold => ?_, fun hold => Nat.lt_irrefl _ (hr.gone_lt _ hold)⟩
          rcases List.mem_map.1 hold with ⟨y, hy, hid⟩
          exact Nat.ne_of_lt (hinv.id_lt hy) hid
        refine ⟨{ g with members := g.members ++ [x.os.issued] }, ?_, ?_⟩
        · have hjoin : (groupMachine Nat (Option Chunk)).step g (.join x.os.issued) =
              some { g with members := g.members ++ [x.os.issued] } := if_neg hfresh
          rw [meaning, if_pos hin, Machine.run_cons, hjoin]
          rfl
        · refine ⟨?_, hr.audience, hr.mail.trans (hquiet rfl).symm, ?_⟩
          · rw [hmembers, hnew, List.map_append]
            rfl
          · exact fun i hi => Nat.lt_of_lt_of_le (hr.gone_lt i hi) hissued
      · refine ⟨g, ?_, hstill rfl (if_neg hin)⟩
        rw [meaning, if_neg hin]
        rfl
  | received fd c =>
      cases c with
      | none =>
          refine hr.leaving hinv _ ?_ (hquiet rfl) hissued
          rw [hclients, nextClients, eraseP_fd_eq_filter hinv.fds_nodup]
          simp only [decide_not]
      | some c => exact ⟨g, rfl, hstill rfl (hnone rfl)⟩
  | disconnectClient f =>
      rw [meaning]
      split
      · rename_i hpos
        refine hr.leaving hinv _ ?_ (hquiet rfl) hissued
        rw [hclients, nextClients, if_pos hpos, eraseIdx_eq_filter_get hinv.nodup,
          hinv.clients_eq]
        simp only [decide_not]
      · rename_i hpos
        exact ⟨g, rfl, hstill rfl (if_neg hpos)⟩
  | disconnectSocket f =>
      refine hr.leaving hinv _ ?_ (hquiet rfl) hissued
      rw [hclients, nextClients, eraseP_fd_eq_filter hinv.fds_nodup]
      simp only [decide_not]
  | disconnectAll =>
      refine hr.leaving hinv _ ?_ (hquiet rfl) hissued
      rw [hclients, hinv.clients_eq]
      refine (spared_eq_filter hinv.nodup).trans ?_
      simp only [decide_not]
  | broadcast argv =>
      refine hr.posted hinv h.small hs (some .everybody) ?_ hclients
      show g.members = _
      rw [hr.members, hinv.clients_eq, ← everyone_fst hinv, List.map_map]
      rfl
  | defaultsend argv =>
      refine hr.posted hinv h.small hs none ?_ hclients
      have htargets : x.recipients (.defaultsend argv) = x.expected s :=
        targets_eq_expected hinv h.aimed h.plain
      rw [htargets, Option.getD_none, hr.audience]
      exact reached_expected hinv (by rw [hr.members, hinv.clients_eq])
  | sendClient argv =>
      rcases recipients_sendClient x argv with ⟨o, ho⟩
      exact hr.posted_only hinv h.small hs ho hclients
  | sendSocket argv =>
      rcases recipients_sendSocket x argv with ⟨o, ho⟩
      exact hr.posted_only hinv h.small hs ho hclients
  | defaulttarget f =>
      exact ⟨_, rfl, hr.still (by rw [hclients, hinv.clients_eq]; exact hnone rfl) (hquiet rfl)
        hissued _⟩
  | targetsocket f => exact hok.2.elim
  | serialize | accept | maxconnections | port | info =>
      exact ⟨g, rfl, hstill rfl (hnone rfl)⟩

/-- An input posts its own chunk at most once. -/
theorem message_meaning (x : Server) (s : Selection) (env : Env) (a : Input) :
    ((x.meaning s env a).filterMap Event.message).Sublist (a.posted env) := by
  have hone : ∀ (o : Option Nat) (chunk : Option Chunk), (((o.elim [] x.only).map fun p =>
      Event.post (some (Audience.only p.1.id)) chunk (x.refusing env)).filterMap
        Event.message).Sublist [chunk] := by
    intro o chunk
    have hlength := length_elim_only x o
    generalize o.elim [] x.only = r at hlength ⊢
    rcases r with - | ⟨p, - | ⟨q, ps⟩⟩
    · exact List.nil_sublist _
    · exact List.Sublist.refl _
    · simp at hlength
  have hleave : ∀ p : SocketReceiver → Bool, (x.leaving p).filterMap Event.message = [] := by
    intro p
    rw [leaving, List.filterMap_map, List.filterMap_eq_nil_iff]
    exact fun _ _ => rfl
  cases a with
  | sendClient argv =>
      rcases recipients_sendClient x argv with ⟨o, ho⟩
      rw [meaning, ho]
      exact hone o _
  | sendSocket argv =>
      rcases recipients_sendSocket x argv with ⟨o, ho⟩
      rw [meaning, ho]
      exact hone o _
  | incoming fd o =>
      rw [meaning]
      split <;> exact List.Sublist.refl _
  | received fd c =>
      cases c with
      | none => exact (hleave _).symm ▸ List.Sublist.refl _
      | some c => exact List.Sublist.refl _
  | disconnectClient f =>
      rw [meaning]
      split
      · exact (hleave _).symm ▸ List.Sublist.refl _
      · exact List.Sublist.refl _
  | disconnectSocket f | disconnectAll => exact (hleave _).symm ▸ List.Sublist.refl _
  | broadcast | defaultsend | defaulttarget | targetsocket | serialize | accept
  | maxconnections | port | info => exact List.Sublist.refl _

/-! ## Whole runs -/

/-- In every state reached by regular steps there is such a group. -/
theorem reach_refines (h : watchedMachine.Reach Regular w) :
    ∃ l, Steady w l ∧ ∃ g, (groupMachine Nat (Option Chunk)).Reachable g ∧ Refines w g := by
  apply h.invariant (I := fun w => ∃ l, Steady w l ∧
    ∃ g, (groupMachine Nat (Option Chunk)).Reachable g ∧ Refines w g)
  · intro w hw
    rcases w with ⟨x, s⟩
    rcases hw with ⟨⟨abi, env, f, o, ho, rfl⟩, rfl⟩
    have hs : (blank abi env).step emit env (.port f o) = some (new emit abi env f o) := by
      simp only [Server.step, ho, if_true]
      rfl
    have hblank : Steady ⟨blank abi env, .everybody⟩ [] :=
      ⟨inv_blank abi env, fun y hy => absurd hy List.not_mem_nil, rfl, Selection.noConfusion⟩
    have hempty : Refines ⟨blank abi env, .everybody⟩ (Group.empty Nat (Option Chunk)) := by
      refine ⟨?_, rfl, rfl, fun i hi => absurd hi List.not_mem_nil⟩
      rw [(inv_blank abi env).clients_eq]
      rfl
    have hok : Regular ⟨blank abi env, .everybody⟩ (env, .port f o) :=
      ⟨fun _ _ heq => (by cases heq), trivial⟩
    rcases hempty.step hblank hok hs with ⟨g, hrun, hrefines⟩
    exact ⟨_, hblank.step hok hs, g, Machine.reach_of_run rfl hrun, hrefines⟩
  · intro w e w' _ hw hok hs
    rcases hw with ⟨l, hsteady, g, hreach, hrefines⟩
    rcases Option.map_eq_some_iff.1 hs with ⟨x', hx', rfl⟩
    rcases hrefines.step hsteady hok hx' with ⟨g', hrun, hrefines'⟩
    exact ⟨_, hsteady.step hok hx', g', hreach.run (Machine.runMeets_true g _) hrun, hrefines'⟩

/-- A regular run of the server is a run of the group. -/
theorem Refines.run (hr : Refines w g) (h : Steady w l) {es : List (Env × Input)} {w' : Watched}
    (hmeets : watchedMachine.RunMeets Regular w es) (hrun : watchedMachine.run w es = some w') :
    ∃ events g', (groupMachine Nat (Option Chunk)).run g events = some g' ∧ Refines w' g' ∧
      (events.filterMap Event.message).Sublist (es.flatMap fun e => e.2.posted e.1) := by
  induction es generalizing w l g with
  | nil =>
      rw [Machine.run_nil, Option.some.injEq] at hrun
      exact ⟨[], g, rfl, hrun ▸ hr, List.Sublist.refl _⟩
  | cons e es ih =>
      rw [Machine.run_cons, Option.bind_eq_some_iff] at hrun
      rcases hrun with ⟨w₁, hs, hrest⟩
      rcases Option.map_eq_some_iff.1 hs with ⟨x', hx', rfl⟩
      rcases hr.step h hmeets.1 hx' with ⟨g₁, hfirst, hr₁⟩
      rcases ih hr₁ (h.step hmeets.1 hx') (hmeets.2 _ hs) hrest with
        ⟨events, g', hlater, hr', hsub⟩
      refine ⟨_, g', Machine.run_append hfirst hlater, hr', ?_⟩
      rw [List.filterMap_append, List.flatMap_cons]
      exact (message_meaning w.server w.selection e.1 e.2).append hsub

/-- The same group, in which every serial that is not a member's has left. -/
theorem Refines.closed (hr : Refines w g) (h : g.WellFormed) :
    ∃ g', g'.WellFormed ∧ Refines w g' ∧
      ∀ i < w.server.os.issued, i ∉ g'.members → i ∈ g'.gone := by
  have hgone : ∀ i, i ∈ (List.range w.server.os.issued).filter (fun i => i ∉ g.members) ↔
      i < w.server.os.issued ∧ i ∉ g.members := by
    intro i
    rw [List.mem_filter, List.mem_range, decide_eq_true_eq]
  refine ⟨{ g with gone := (List.range w.server.os.issued).filter fun i => i ∉ g.members },
    ⟨h.members_nodup, fun i hi hin => ((hgone i).1 hin).2 hi, fun p hp => ?_⟩,
    ⟨hr.members, hr.audience, hr.mail, fun i hi => ((hgone i).1 hi).1⟩,
    fun i hlt hnot => (hgone i).2 ⟨hlt, hnot⟩⟩
  by_cases hmember : p.1 ∈ g.members
  · exact Or.inl hmember
  · have hlt := hr.gone_lt p.1 ((h.addressees p hp).resolve_left hmember)
    exact Or.inr ((hgone p.1).2 ⟨hlt, hmember⟩)

/-- While nobody is chosen, every input but a choice by descriptor is regular. -/
theorem runMeets_regular {es : List (Env × Input)} (hsel : w.selection = .everybody)
    (hsmall : ∀ e ∈ es, ∀ fd o, e.2 = .incoming fd o → o.fd < 2 ^ 24)
    (hnot : ∀ e ∈ es, ¬ e.2.Targets) : watchedMachine.RunMeets Regular w es := by
  induction es generalizing w with
  | nil => trivial
  | cons e es ih =>
      rw [List.forall_mem_cons] at hsmall hnot
      rcases e with ⟨env, a⟩
      refine ⟨⟨hsmall.1, ?_⟩, ?_⟩
      · cases a with
        | incoming fd o =>
            intro hchosen
            rcases hchosen with ⟨id, honly | hbut⟩
            · exact absurd (hsel.symm.trans honly) Selection.noConfusion
            · exact absurd (hsel.symm.trans hbut) Selection.noConfusion
        | defaulttarget f | targetsocket f => exact absurd trivial hnot.1
        | _ => trivial
      · intro w' hs
        rcases Option.map_eq_some_iff.1 hs with ⟨x', -, rfl⟩
        exact ih ((select_of_not_targets hnot.1).trans hsel) hsmall.2 hnot.2

end Server

/-- In every state reached by regular steps the server keeps a group that was made by what
its inputs mean, and every further regular step is what its input means for the group. -/
theorem service_refined {w : Watched} (h : watchedMachine.Reach Server.Regular w) :
    ∃ g, (groupMachine Nat (Option Chunk)).Reachable g ∧ Server.Refines w g ∧
      ∀ env a w', Server.Regular w (env, a) → watchedMachine.step w (env, a) = some w' →
        ∃ g', (groupMachine Nat (Option Chunk)).run g
            (w.server.meaning w.selection env a) = some g' ∧ Server.Refines w' g' := by
  rcases Server.reach_refines h with ⟨l, hsteady, g, hreach, hrefines⟩
  refine ⟨g, hreach, hrefines, ?_⟩
  intro env a w' hok hs
  rcases Option.map_eq_some_iff.1 hs with ⟨x', hx', rfl⟩
  exact hrefines.step hsteady hok hx'

/-- Two clients get a list; then one leaves, and the other one gets a second list. -/
def listBetween : List (Env × Input) :=
  [(Server.plainEnv [], .incoming 3 (Server.caller 5)),
    (Server.plainEnv [], .incoming 3 (Server.caller 6)),
    (Server.plainEnv [], .defaultsend [setFloat 7]),
    (Server.plainEnv [], .disconnectClient ⟨1, 0#32⟩),
    (Server.plainEnv [], .broadcast [setFloat 8])]

/-- Every input of the run is regular. -/
theorem regular_listBetween :
    watchedMachine.RunMeets Server.Regular watchedStart listBetween := by
  apply Server.runMeets_regular rfl
  · intro e he fd o heq
    simp only [listBetween, List.mem_cons, List.not_mem_nil, or_false] at he
    rcases he with rfl | rfl | rfl | rfl | rfl <;> cases heq <;> decide
  · intro e he
    simp only [listBetween, List.mem_cons, List.not_mem_nil, or_false] at he
    rcases he with rfl | rfl | rfl | rfl | rfl <;> exact id

/-- A client leaves between two lists, and the group is that of the other one. -/
theorem service_refined_run :
    ∃ w, watchedMachine.run watchedStart listBetween = some w ∧
      ∃ g, Server.Refines w g ∧ g.members = [2] ∧ g.mail.map Prod.fst = [1, 2, 2] := by
  have hrun : ∃ w, watchedMachine.run watchedStart listBetween = some w ∧
      w.server.clients.map SocketReceiver.id = [2] ∧ w.server.mail.map Prod.fst = [1, 2, 2] :=
    ⟨_, rfl, by decide +kernel, by decide +kernel⟩
  rcases hrun with ⟨w, hrun, hclients, hmail⟩
  have hreach := Machine.Reach.run (.start init_watchedStart) regular_listBetween hrun
  rcases service_refined hreach with ⟨g, -, hrefines, -⟩
  exact ⟨w, hrun, g, hrefines, hrefines.members.trans hclients, hrefines.mail ▸ hmail⟩

/-- Along any regular run, what the sender of a client takes is some of the chunks that are
sent, each at most once and in the order of the messages; and nothing if the client has left
before. -/
theorem mail_in_order {w w' : Watched} (h : watchedMachine.Reach Server.Regular w)
    {es : List (Env × Input)} (hmeets : watchedMachine.RunMeets Server.Regular w es)
    (hrun : watchedMachine.run w es = some w') (id : Nat) :
    ∃ got, w'.server.mailbox id = w.server.mailbox id ++ got ∧
      got.Sublist (es.flatMap fun e => e.2.posted e.1) ∧
      (id < w.server.os.issued → (∀ y ∈ w.server.clients, y.id ≠ id) → got = []) := by
  rcases Server.reach_refines h with ⟨l, hsteady, g₀, hreach, hrefines₀⟩
  rcases hrefines₀.closed (Group.wellFormed hreach) with ⟨g, hwell, hrefines, hgone⟩
  rcases hrefines.run hsteady hmeets hrun with ⟨events, g', hevents, hrefines', hsub⟩
  have hmailbox : w'.server.mailbox id = w.server.mailbox id ++ Group.handed id g events := by
    rw [Server.mailbox, Server.mailbox, ← hrefines'.mail, ← hrefines.mail]
    exact Group.mailbox_run hwell hevents id
  refine ⟨_, hmailbox, (Group.handed_sublist id g events).trans hsub, ?_⟩
  intro hlt hleft
  refine Group.handed_of_gone hwell (hgone id hlt ?_) events
  rw [hrefines.members]
  intro hmember
  rcases List.mem_map.1 hmember with ⟨y, hy, hid⟩
  exact hleft y hy hid

/-- The client that stays has got both lists. -/
theorem mail_in_order_run :
    ∃ w, watchedMachine.run watchedStart listBetween = some w ∧
      ∃ got, w.server.mailbox 2 = got ∧ got.length = 2 ∧
        got.Sublist (listBetween.flatMap fun e => e.2.posted e.1) := by
  have hrun : ∃ w, watchedMachine.run watchedStart listBetween = some w ∧
      (w.server.mailbox 2).length = 2 := ⟨_, rfl, by decide +kernel⟩
  rcases hrun with ⟨w, hrun, htwo⟩
  rcases mail_in_order (.start init_watchedStart) regular_listBetween hrun 2 with
    ⟨got, hgot, hsub, -⟩
  have hnone : watchedStart.server.mailbox 2 = [] := by decide +kernel
  rw [hnone, List.nil_append] at hgot
  exact ⟨w, hrun, got, hgot, hgot ▸ htwo, hsub⟩

end Iemnet.TcpServer
