import Iemnet.TcpServer.Refinement

/-!
# Whom a plain list is sent to

The default target is kept as a signed descriptor.  It is not cleared when the
client leaves, and the number may come back with another client before the next
list.  {lit}`Selection` records beside the server whom the last {lit}`target`
message has selected, by the serial of the connection.

Main results:

- Theorem {lit}`targets_eq_expected`: as long as the default target and the selection
  agree, a list is sent to whom it should be.
- Theorem {lit}`target_keeps_identity`: they agree in every run in which no new
  client is given the number of a selected client that has left.
- Theorem {lit}`misdirected`: a new client that is given this number gets every list.
-/

namespace Iemnet.TcpServer

open Pd Foundations

/-- Whom the last {lit}`target` or {lit}`targetsocket` message has selected. -/
inductive Selection
  | everybody
  | only (id : Nat)
  | allBut (id : Nat)
  | socket
deriving DecidableEq, Repr

/-- The server with the selection. -/
structure Watched where
  server : Server
  selection : Selection

namespace Server

variable {x x' : Server} {l : List SocketReceiver} {y : SocketReceiver} {env : Env}
  {a : Input} {s : Selection}

/-- The selection after an input: client numbers mean the clients that have them
now. -/
def select (x : Server) (s : Selection) : Input → Selection
  | .targetsocket _ => .socket
  | .defaulttarget f =>
      if x.nconnections < f.toInt.natAbs then s
      else
        match f.toInt.natAbs with
        | 0 => .everybody
        | k + 1 =>
            match x.slot k with
            | none => s
            | some y => if f.toInt < 0 then .allBut y.id else .only y.id
  | _ => s

/-- Whom a list should be sent to. -/
def expected (x : Server) : Selection → List (SocketReceiver × Nat)
  | .only id =>
      if ∃ y ∈ x.clients, y.id = id then x.everyone.filter fun p => p.1.id = id
      else x.everyone
  | .allBut id => x.everyone.filter fun p => p.1.id ≠ id
  | _ => x.everyone

/-! ## The default target and the selection -/

/-- The default target is the descriptor of the client {lit}`id`, or that client has
left and no other client has its descriptor. -/
def Tracks (x : Server) (l : List SocketReceiver) (id : Nat) (sign : Int) : Prop :=
  id < x.os.issued ∧
    ((∃ y ∈ l, y.id = id ∧ 0 < y.fd ∧ x.defaulttarget = sign * y.fd) ∨
      ((∀ y ∈ l, y.id ≠ id) ∧
        (x.defaulttarget = 0 ∨ ∀ y ∈ l, y.fd ≠ x.defaulttarget.natAbs)))

/-- The default target agrees with the selection. -/
def Aimed (x : Server) (l : List SocketReceiver) : Selection → Prop
  | .everybody => x.defaulttarget = 0
  | .only id => x.Tracks l id 1
  | .allBut id => x.Tracks l id (-1)
  | .socket => True

/-- Two of the selections follow a client, and what keeps {lit}`Tracks` keeps
{lit}`Aimed`. -/
theorem Aimed.map {l' : List SocketReceiver} (ha : x.Aimed l s)
    (hzero : x.defaulttarget = 0 → x'.defaulttarget = 0)
    (htracks : ∀ id sign, s = .only id ∨ s = .allBut id → sign.natAbs = 1 →
      x.Tracks l id sign → x'.Tracks l' id sign) : x'.Aimed l' s := by
  cases s with
  | everybody => exact hzero ha
  | only id => exact htracks id 1 (Or.inl rfl) rfl ha
  | allBut id => exact htracks id (-1) (Or.inr rfl) rfl ha
  | socket => trivial

theorem Tracks.mono {id : Nat} {sign : Int} (ht : x.Tracks l id sign)
    (htarget : x'.defaulttarget = x.defaulttarget) (hissued : x.os.issued ≤ x'.os.issued) :
    x'.Tracks l id sign := by
  unfold Tracks
  rw [htarget]
  exact ⟨Nat.lt_of_lt_of_le ht.1 hissued, ht.2⟩

theorem Aimed.mono (ha : x.Aimed l s) (htarget : x'.defaulttarget = x.defaulttarget)
    (hissued : x.os.issued ≤ x'.os.issued) : x'.Aimed l s :=
  ha.map (fun hzero => htarget.trans hzero) fun _ _ _ _ ht => ht.mono htarget hissued

/-- A target number of either sign names the descriptor it was made from. -/
theorem natAbs_signed {sign fd : Int} (hsign : sign.natAbs = 1) (hfd : 0 ≤ fd) :
    ((sign * fd).natAbs : Int) = fd := by
  rw [Int.natAbs_mul, hsign, Nat.one_mul, Int.natAbs_of_nonneg hfd]

/-- When a client leaves, the default target still means the client that has been
selected, or nobody. -/
theorem Tracks.eraseIdx (h : x.Inv l) {i id : Nat} {sign : Int} (hi : l[i]? = some y)
    (hsign : sign.natAbs = 1) (ht : x.Tracks l id sign) : x.Tracks (l.eraseIdx i) id sign := by
  refine ⟨ht.1, ?_⟩
  rcases ht.2 with ⟨z, hz, hid, hfd, htarget⟩ | ⟨hgone, hnobody⟩
  · rcases List.mem_cons.1 ((perm_eraseIdx hi).mem_iff.1 hz) with rfl | hrest
    · refine Or.inr ⟨fun q hq => hid ▸ h.tabled.ids_ne hi hq, Or.inr fun q hq => ?_⟩
      rw [htarget, natAbs_signed hsign hfd.le]
      exact h.tabled.fds_ne hi hq
    · exact Or.inl ⟨z, hrest, hid, hfd, htarget⟩
  · have hsub : ∀ q ∈ l.eraseIdx i, q ∈ l := fun q hq => List.mem_of_mem_eraseIdx hq
    exact Or.inr ⟨fun q hq => hgone q (hsub q hq),
      hnobody.imp_right fun hother q hq => hother q (hsub q hq)⟩

/-- A client that leaves takes no other client's place as the target. -/
theorem Aimed.dropped (h : x.Inv l) {i : Nat} (hi : l[i]? = some y) (ha : x.Aimed l s) :
    (x.dropped l i y).Aimed (l.eraseIdx i) s := by
  have hissued : x.os.issued ≤ (x.dropped l i y).os.issued :=
    (Descriptors.issued_close x.os y.fd).ge
  exact ha.map id fun _ _ _ hsign ht => (ht.eraseIdx h hi hsign).mono rfl hissued

/-- A new client must not be given the number of a selected client that has left. -/
theorem Tracks.append {id : Nat} {sign : Int} (ht : x.Tracks l id sign)
    (hid : x.os.issued ≤ y.id)
    (hfd : x.defaulttarget = 0 ∨ y.fd ≠ x.defaulttarget.natAbs) :
    x.Tracks (l ++ [y]) id sign := by
  have hlt := ht.1
  refine ⟨hlt, ?_⟩
  rcases ht.2 with ⟨z, hz, hrest⟩ | ⟨hgone, hnobody⟩
  · exact Or.inl ⟨z, List.mem_append_left _ hz, hrest⟩
  · have hall : ∀ P : SocketReceiver → Prop, (∀ z ∈ l, P z) → P y → ∀ z ∈ l ++ [y], P z := by
      intro P hold hnew z hz
      cases List.mem_append.1 hz with
      | inl hin => exact hold z hin
      | inr hin => exact List.mem_singleton.1 hin ▸ hnew
    refine Or.inr ⟨hall _ hgone (by omega), ?_⟩
    rcases hnobody with hzero | hother
    · exact Or.inl hzero
    · exact hfd.imp_right fun hnew => hall _ hother hnew

/-- The lookup of the target finds the client whose descriptor was stored. -/
theorem findIdx_target (h : x.Inv l) {i : Nat} {sign : Int} (hi : l[i]? = some y)
    (hsign : sign.natAbs = 1) (hfd : 0 < y.fd) (htarget : x.defaulttarget = sign * y.fd) :
    x.targetIndex = some i := by
  rw [targetIndex, h.clients_eq, htarget, natAbs_signed hsign hfd.le]
  exact h.tabled.findIdx_fd hi

/-- Storing the target that a list was sent to keeps the selection. -/
theorem Aimed.settled (h : x.Inv l) (ha : x.Aimed l s) :
    { x with defaulttarget := x.settledTarget }.Aimed l s := by
  apply ha.map
  · intro hzero
    show x.settledTarget = 0
    unfold settledTarget
    split
    · exact hzero
    · rfl
  · intro id sign _ hsign ht
    unfold settledTarget
    by_cases hfound : x.targetIndex.isSome
    · rw [if_pos hfound]
      exact ht
    · rw [if_neg hfound]
      refine ⟨ht.1, ?_⟩
      rcases ht.2 with ⟨z, hz, _, hfd, htarget⟩ | ⟨hgone, _⟩
      · rcases List.getElem?_of_mem hz with ⟨i, hi⟩
        rw [findIdx_target h hi hsign hfd htarget] at hfound
        exact absurd rfl hfound
      · exact Or.inr ⟨hgone, Or.inl rfl⟩

/-! ## Who gets a list -/

/-- Sending to one client reaches the client with that serial number. -/
theorem only_eq_filter (h : x.Inv l) {i : Nat} (hi : l[i]? = some y) :
    x.only i = x.everyone.filter fun p => p.1.id = y.id := by
  have hsame : x.everyone.filter (fun p => p.1.id = y.id) =
      x.everyone.filter fun p => p.2 = i := by
    apply List.filter_congr
    intro p hp
    rw [decide_eq_decide]
    exact h.tabled.id_eq_iff ((mem_everyone h).1 hp) hi
  have hone := SlotTable.filter_zipIdx l 0 hi
  simp only [Nat.add_zero] at hone
  rw [hsame, everyone, h.clients_eq, only, h.clients_eq, hi, hone]
  rfl

/-- Sending to all but one leaves out the client with that serial number. -/
theorem others_eq_filter (h : x.Inv l) {i : Nat} (hi : l[i]? = some y) :
    x.others i = x.everyone.filter fun p => p.1.id ≠ y.id := by
  apply List.filter_congr
  intro p hp
  rw [decide_eq_decide]
  exact not_congr (h.tabled.id_eq_iff ((mem_everyone h).1 hp) hi).symm

/-- The default target means the selected client, or that client has left and
everybody is meant. -/
theorem Tracks.targets (h : x.Inv l) {id : Nat} {sign : Int} (hsign : sign.natAbs = 1)
    (ht : x.Tracks l id sign) :
    (∃ i y, l[i]? = some y ∧ y.id = id ∧ 0 < y.fd ∧ x.defaulttarget = sign * y.fd ∧
        x.targetIndex = some i) ∨
      ((∀ y ∈ l, y.id ≠ id) ∧ x.targets = x.everyone) := by
  rcases ht.2 with ⟨y, hy, hid, hfd, htarget⟩ | ⟨hgone, hnobody⟩
  · rcases List.getElem?_of_mem hy with ⟨i, hi⟩
    exact Or.inl ⟨i, y, hi, hid, hfd, htarget, findIdx_target h hi hsign hfd htarget⟩
  · refine Or.inr ⟨hgone, ?_⟩
    unfold Server.targets
    cases hindex : x.targetIndex with
    | none => rfl
    | some i =>
        rcases hnobody with hzero | hother
        · simp only [hzero, Int.lt_irrefl, if_false]
        · rw [targetIndex, h.clients_eq] at hindex
          have hlt := findIdx_lt hindex
          have hfd := (List.findIdx?_eq_some_iff_getElem.1 hindex).2.1
          exact absurd (by simpa using hfd) (hother l[i] (List.getElem_mem hlt))

/-- A list is sent to whom it should be. -/
theorem targets_eq_expected (h : x.Inv l) (ha : x.Aimed l s) (hs : s ≠ .socket) :
    x.targets = x.expected s := by
  cases s with
  | socket => exact absurd rfl hs
  | everybody =>
      have hzero : x.defaulttarget = 0 := ha
      unfold targets
      cases x.targetIndex with
      | none => rfl
      | some i => simp only [hzero, Int.lt_irrefl, if_false, expected]
  | only id =>
      have ht : x.Tracks l id 1 := ha
      simp only [expected, h.clients_eq]
      rcases ht.targets h rfl with ⟨i, y, hi, rfl, hfd, htarget, hindex⟩ | ⟨hgone, hall⟩
      · rw [if_pos ⟨y, List.mem_of_getElem? hi, rfl⟩, ← only_eq_filter h hi, targets, hindex]
        exact if_pos (by omega)
      · rw [if_neg (by simpa using hgone)]
        exact hall
  | allBut id =>
      have ht : x.Tracks l id (-1) := ha
      simp only [expected]
      rcases ht.targets h rfl with ⟨i, y, hi, rfl, hfd, htarget, hindex⟩ | ⟨hgone, hall⟩
      · have hneg : x.defaulttarget < 0 := by omega
        rw [← others_eq_filter h hi, targets, hindex]
        simp only [hneg, if_true, if_neg (not_lt.2 hneg.le)]
      · rw [hall, eq_comm, List.filter_eq_self]
        intro p hp
        have hmem := List.mem_of_getElem? ((mem_everyone h).1 hp)
        simpa using hgone p.1 hmem

/-! ## One step -/

/-- What keeps the default target in agreement with the selection: no client with
descriptor 0 is selected, no new client is given the number of a selected client that
has left, and a list finds senders, each of which answers for its own client. -/
def Kept (w : Watched) (e : Env × Input) : Prop :=
  match e.2 with
  | .defaulttarget f =>
      ∀ k y, f.toInt.natAbs = k + 1 → w.server.slot k = some y → y.fd ≠ 0
  | .incoming _ o =>
      (∃ id, w.selection = .only id ∨ w.selection = .allBut id) → w.server.Admits o →
        w.server.defaulttarget = 0 ∨ o.fd ≠ w.server.defaulttarget.natAbs
  | .defaultsend _ =>
      w.selection ≠ .socket → ∀ p ∈ w.server.expected w.selection,
        p.1.hasSender = true ∧ Own w.server.clients e.1 p.1
  | _ => True

theorem select_of_not_targets (ha : ¬ a.Targets) : x.select s a = s := by
  cases a with
  | defaulttarget f => exact absurd trivial ha
  | targetsocket f => exact absurd trivial ha
  | _ => rfl

/-- A {lit}`target` message selects the client whose descriptor it keeps. -/
theorem aimed_setDefaulttarget (h : x.Inv l) (ha : x.Aimed l s) (f : FloatArg)
    (hzero : ∀ k y, f.toInt.natAbs = k + 1 → x.slot k = some y → y.fd ≠ 0) :
    ∃ sockfd, setDefaulttarget x f = { x with defaulttarget := sockfd } ∧
      { x with defaulttarget := sockfd }.Aimed l (x.select s (.defaulttarget f)) := by
  simp only [setDefaulttarget, select]
  by_cases hrange : x.nconnections < f.toInt.natAbs
  · rw [if_pos hrange, if_pos hrange]
    exact ⟨x.defaulttarget, rfl, ha⟩
  · rw [if_neg hrange, if_neg hrange]
    cases hclient : f.toInt.natAbs with
    | zero => exact ⟨0, rfl, rfl⟩
    | succ k =>
        have hk : k < l.length := by
          rw [h.nconnections_eq] at hrange
          omega
        have hget := List.getElem?_eq_getElem hk
        have hmem := List.getElem_mem hk
        have hfree := h.notFreed _ hmem
        have hne := hzero k l[k] hclient (by rw [h.slot_eq, hget])
        have hpos : 0 < l[k].fd := lt_of_le_of_ne (h.range _ hmem).1 hne.symm
        simp only [Nat.add_sub_cancel, Nat.succ_ne_zero, if_false, h.touch_eq hk, h.slot_eq, hget,
          access_of_notMem hfree, current_of_notMem hfree]
        refine ⟨_, rfl, ?_⟩
        by_cases hneg : f.toInt < 0
        · rw [if_pos hneg, if_pos hneg]
          exact ⟨h.id_lt hmem, Or.inl ⟨_, hmem, rfl, hpos, (Int.neg_one_mul _).symm⟩⟩
        · rw [if_neg hneg, if_neg hneg]
          exact ⟨h.id_lt hmem, Or.inl ⟨_, hmem, rfl, hpos, (Int.one_mul _).symm⟩⟩

/-- A message that sets the target selects the client that is there at that time. -/
theorem Aimed.retargeted (h : x.Inv l) (ha : x.Aimed l s) (a : Input) :
    (x.retargeted a).Aimed l s := by
  cases a with
  | defaultsend argv => exact ha.settled h
  | _ => exact ha

/-- A kept step keeps the agreement. -/
theorem aimed_step (h : x.Inv l) (ha : x.Aimed l s) (hok : Kept ⟨x, s⟩ (env, a))
    (hs : x.step emit env a = some x') : ∃ l', x'.Inv l' ∧ x'.Aimed l' (x.select s a) := by
  by_cases htargets : a.Targets
  · rcases (step_effect h hs).inv h with ⟨l', h'⟩
    cases a with
    | defaulttarget f =>
        simp only [step, Option.some.injEq] at hs
        subst hs
        rcases aimed_setDefaulttarget h ha f hok with ⟨sockfd, heq, haimed⟩
        rw [heq]
        exact ⟨l, h.retarget sockfd, haimed⟩
    | targetsocket f => exact ⟨l', h', trivial⟩
    | _ => exact htargets.elim
  · rw [select_of_not_targets htargets]
    cases step_effect h hs with
    | settled serialize accepting port defaulttarget floatlist faults outputs _ _ _ htarget =>
        exact ⟨l, (h.settings _ _ _ _ _ _).logged outputs,
          ha.mono (htarget htargets) (Nat.le_refl _)⟩
    | resized n _ hle hlt => exact ⟨l, h.resized hle hlt, ha.mono rfl (Nat.le_refl _)⟩
    | unbound before =>
        exact ⟨l, h.closePort_logged before,
          ha.mono (closePort_frame (x.logged before) _).1
            (closePort_frame (x.logged before) _).2.ge⟩
    | failed fd before after _ _ _ hfresh =>
        have hfresh' := FreshFd.logged hfresh before
        have hissued := (closePort_frame (x.logged before) x.connectsocket).2
        refine ⟨l, ((h.closePort_logged before).passing hfresh'.2.2 (by simp)).logged after,
          ha.mono (closePort_frame (x.logged before) x.connectsocket).1 ?_⟩
        exact hissued.ge.trans (passed_issued _ fd [])
    | bound fd port before after _ _ _ hfresh =>
        have hclosed := closePort_connectsocket (x.logged before)
        have hfresh' := FreshFd.logged hfresh before
        have hissued := (closePort_frame (x.logged before) x.connectsocket).2
        refine ⟨l, ((h.closePort_logged before).listening hclosed hfresh'.1 hfresh'.2.2
          port).logged after, ha.mono (closePort_frame (x.logged before) x.connectsocket).1 ?_⟩
        exact hissued.ge.trans (Nat.le_succ _)
    | refused fd o outputs _ _ hfresh =>
        exact ⟨l, ((h.logged _).passing hfresh.2.2 (by simp [Server.logged])).logged outputs,
          ha.mono rfl (passed_issued x o.fd [(o.fd, x.os.issued)])⟩
    | registered fd o heq hin hfresh =>
        subst heq
        refine ⟨_, ((h.logged _).registered hin hfresh.2.1 hfresh.2.2).logged _, ?_⟩
        have happend : x.Aimed (l ++ [x.newClient o]) s := ha.map id fun id _ hfollows _ ht =>
          ht.append (Nat.le_refl _) (hok ⟨id, hfollows⟩ hin)
        exact happend.mono rfl (Nat.le_succ _)
    | dropped i y hi => exact ⟨_, h.dropped hi, ha.dropped h hi⟩
    | droppedAll =>
        exact disconnectAllFrom_induct (P := fun x l => x.Aimed l s) (2 ^ 32) 0 h ha
          fun x l i y h ha hi => ha.dropped h hi
    | offered =>
        exact offers_induct (P := fun x l => x.Aimed l s) env _ (x.recipients a) (h.retargeted a)
          (ha.retargeted h a)
          (fun x x₁ l _ ha hq => ha.mono hq.defaulttarget hq.issued.ge)
          fun x l i y p h ha _ _ hi => ha.dropped h hi

/-- A list reaches whom the default target means. -/
theorem defaultsend_sends (h : x.Inv l) {argv : List Atom}
    (hsend : ∀ p ∈ x.targets, p.1.hasSender = true ∧ Own l env p.1) :
    (defaultsend emit env x argv).sends = x.sends ++
      x.targets.map fun p => (p.1, chunkCreateList env.mem argv, env.result p.1) := by
  have hmem : ∀ p ∈ x.targets, p.1 ∈ l := fun p hp => List.mem_of_getElem? (mem_targets h hp)
  have hexact := @offers_exact _ l env (chunkCreateList env.mem argv) x.targets
    (h.retarget x.settledTarget) hmem (targets_nodup h) fun p hp => (hsend p hp).2
  have hall : (x.targets.filter fun p => p.1.hasSender) = x.targets :=
    List.filter_eq_self.2 fun p hp => (hsend p hp).1
  rw [hall] at hexact
  rw [defaultsend_eq h]
  exact hexact.2

/-- What a selected client leaves behind: a new client with its number gets every
list, whoever else is connected. -/
theorem misdirected (h : x.Inv l) {o : Incoming} (hin : x.Admits o) (hfresh : FreshFd x o.fd)
    (hpos : 0 < x.defaulttarget) (hsame : o.fd = x.defaulttarget) {fd : Int}
    (hs : x.step emit env (.incoming fd o) = some x') :
    x'.targets = [(x.newClient o, l.length)] := by
  have hnew : x'.Inv (l ++ [x.newClient o]) ∧ x'.defaulttarget = x.defaulttarget := by
    simp only [step, Option.ite_none_right_eq_some, Option.some.injEq] at hs
    rcases hs with ⟨⟨hpoll, _⟩, rfl⟩
    have hopen : ¬ o.fd < 0 := not_lt.2 hfresh.1
    rw [connectpoll, if_neg (not_not.2 (h.of_pollfn_none hpoll)), if_neg hopen,
      infoEvent_emit, register_admitted h hin]
    exact ⟨((h.logged _).registered hin hfresh.2.1 hfresh.2.2).logged _, rfl⟩
  rcases hnew with ⟨h', htarget⟩
  have hget : (l ++ [x.newClient o])[l.length]? = some (x.newClient o) := by simp
  have hindex := findIdx_target h' hget (rfl : (1 : Int).natAbs = 1) (by
    show 0 < o.fd
    omega) (by rw [htarget, Int.one_mul]; exact hsame.symm)
  rw [targets, hindex, htarget]
  simp only [hpos, if_true, only, h'.clients_eq, hget]
  rfl

end Server

/-- The server together with the selection. -/
def watchedMachine : Foundations.Machine Watched (Env × Input) where
  init w := tcpserverMachine.init w.server ∧ w.selection = .everybody
  step w a := (tcpserverMachine.step w.server a).map fun x =>
    ⟨x, w.server.select w.selection a.2⟩

/-- A step of the watched server is a step of the server. -/
theorem watched_step (w : Watched) (a : Env × Input) :
    watchedMachine.step w a = (tcpserverMachine.step w.server a).map fun x =>
      ⟨x, w.server.select w.selection a.2⟩ :=
  rfl

/-- The agreement holds in every state that is reached by kept steps. -/
theorem reach_aimed {w : Watched} (h : watchedMachine.Reach Server.Kept w) :
    ∃ l, w.server.Inv l ∧ w.server.Aimed l w.selection := by
  apply h.invariant (I := fun w => ∃ l, w.server.Inv l ∧ w.server.Aimed l w.selection)
  · rintro ⟨x, s⟩ ⟨⟨abi, env, f, o, ho, rfl⟩, rfl⟩
    have hs : (Server.blank abi env).step emit env (.port f o) =
        some (Server.new emit abi env f o) := by
      simp only [Server.step, ho, if_true]
      rfl
    have hzero : (Server.blank abi env).Aimed [] .everybody := rfl
    exact Server.aimed_step (a := .port f o) (Server.inv_blank abi env) hzero trivial hs
  · rintro ⟨x, s⟩ ⟨env, a⟩ w' _ ⟨l, hl, haimed⟩ hok hs
    rcases Option.map_eq_some_iff.1 hs with ⟨x', hx', rfl⟩
    exact Server.aimed_step hl haimed hok hx'

/-- In every run whose steps are kept, each list goes exactly to whom the last
{lit}`target` message has selected: the client alone or all others while it is
connected, everybody once it has left. -/
theorem target_keeps_identity {w : Watched} (h : watchedMachine.Reach Server.Kept w)
    {env : Env} {argv : List Atom} {w' : Watched}
    (hs : watchedMachine.step w (env, .defaultsend argv) = some w')
    (hok : Server.Kept w (env, .defaultsend argv)) (hsel : w.selection ≠ .socket) :
    w'.server.sends = w.server.sends ++ (w.server.expected w.selection).map
      fun p => (p.1, chunkCreateList env.mem argv, env.result p.1) := by
  rcases reach_aimed h with ⟨l, hl, haimed⟩
  rw [watched_step, Option.map_eq_some_iff] at hs
  rcases hs with ⟨x', hx', rfl⟩
  have hx : x' = Server.defaultsend emit env w.server argv := (Option.some.inj hx').symm
  have htargets := Server.targets_eq_expected hl haimed hsel
  have hsend := hok hsel
  rw [← htargets, hl.clients_eq] at hsend
  rw [← htargets, hx]
  exact Server.defaultsend_sends hl hsend

/-- A new server, before any {lit}`target` message. -/
def watchedStart : Watched :=
  ⟨Server.started, .everybody⟩

theorem init_watchedStart : watchedMachine.init watchedStart :=
  ⟨Server.init_started, rfl⟩

/-- The first of two clients is selected and leaves; a third one connects with
descriptor {lit}`fd`. -/
def selectedLeaves (fd : Int) : List (Env × Input) :=
  [(Server.plainEnv [], .incoming 3 (Server.caller 5)),
    (Server.plainEnv [], .incoming 3 (Server.caller 6)),
    (Server.plainEnv [], .defaulttarget ⟨1, 0#32⟩),
    (Server.plainEnv [], .disconnectClient ⟨1, 0#32⟩),
    (Server.plainEnv [], .incoming 3 (Server.caller fd))]

/-- The message that follows. -/
def plainList : Env × Input :=
  (Server.plainEnv [], .defaultsend [setFloat 7])

theorem kept_selectedLeaves :
    watchedMachine.RunMeets Server.Kept watchedStart (selectedLeaves 7) := by
  refine ⟨fun _ _ => Or.inl (by decide +kernel), fun w₁ h₁ => ?_⟩
  cases h₁
  refine ⟨fun _ _ => Or.inl (by decide +kernel), fun w₂ h₂ => ?_⟩
  cases h₂
  refine ⟨?_, fun w₃ h₃ => ?_⟩
  · intro k y hk hy
    have hzero : k = 0 := Nat.succ.inj (hk.symm.trans (by decide +kernel : _ = 1))
    subst hzero
    have hfd := congrArg (Option.map SocketReceiver.fd) hy
    rw [show Option.map SocketReceiver.fd _ = some 5 by decide +kernel] at hfd
    simp only [Option.map_some, Option.some.injEq] at hfd
    omega
  · cases h₃
    refine ⟨trivial, fun w₄ h₄ => ?_⟩
    cases h₄
    exact ⟨fun _ _ => Or.inr (by decide +kernel), fun _ _ => trivial⟩

/-- The selected client has left and its number is not in use again: everybody gets
the list. -/
theorem target_keeps_identity_run :
    ∃ w w', watchedMachine.run watchedStart (selectedLeaves 7) = some w ∧
      watchedMachine.step w plainList = some w' ∧ w.selection = .only 1 ∧
      (w.server.clients.map SocketReceiver.id = [2, 3]) ∧
      w'.server.sends = w.server.sends ++ (w.server.expected (.only 1)).map
        fun p => (p.1, chunkCreateList true [setFloat 7], (Server.plainEnv []).result p.1) := by
  have hrun : watchedMachine.run watchedStart (selectedLeaves 7) = some _ := rfl
  have hreach := Foundations.Machine.Reach.run (.start init_watchedStart) kept_selectedLeaves hrun
  refine ⟨_, _, hrun, rfl, by decide +kernel, by decide +kernel, ?_⟩
  refine target_keeps_identity hreach rfl ?_ (by decide +kernel)
  intro _ p hp
  have hall : ∀ p ∈ (watchedMachine.run watchedStart (selectedLeaves 7)).elim []
      (fun w => w.server.expected w.selection),
      p.1.hasSender = true ∧ ¬ (Server.plainEnv []).result p.1 < 0 := by
    decide +kernel
  rcases hall p hp with ⟨hs, hresult⟩
  exact ⟨hs, fun hfail => absurd hfail hresult⟩

/-- The third client is given the number of the selected one: it alone gets the
list. -/
theorem target_moves_on :
    ∃ w w', watchedMachine.Reachable w ∧ watchedMachine.step w plainList = some w' ∧
      w.selection = .only 1 ∧ w.server.clients.map SocketReceiver.id = [2, 3] ∧
      (w.server.expected w.selection).map (fun p => p.1.id) = [2, 3] ∧
      w'.server.sends.map (fun p => p.1.id) = [3] := by
  have hrun : watchedMachine.run watchedStart (selectedLeaves 5) = some _ := rfl
  exact ⟨_, _, Foundations.Machine.reach_of_run init_watchedStart hrun, rfl, by decide +kernel,
    by decide +kernel, by decide +kernel, by decide +kernel⟩

end Iemnet.TcpServer
