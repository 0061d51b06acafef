import Iemnet.UdpServer.Frame
import Iemnet.UdpServer.Rebinding

/-!
# The accept flag of the UDP server

{lit}`udpserver_sender_add` looks at {lit}`x_accept` before it looks for the address, so
that the flag decides about known clients, too.

Main results:

- Theorem {lit}`heeded_iff`: a datagram from a registered address.
- Theorem {lit}`accept_spares_known`: both, and what follows for expiry over runs.
-/

namespace Iemnet.UdpServer

open Pd Foundations

namespace Server

variable {x x' : Server} {env : Env} {l : List UdpSender} {y : UdpSender}

/-- Whatever has happened, a float list that is there is well typed. -/
theorem reach_wellTyped {ok : Server → Env × Input → Prop} (h : udpserverMachine.Reach ok x) :
    ∀ cl ∈ x.floatlist, cl.WellTyped := by
  apply h.invariant (I := fun x => ∀ cl ∈ x.floatlist, cl.WellTyped)
  · rintro x ⟨abi, env, k, f, o, -, rfl⟩
    have hsame := kept_of_unbound (unbound_setPort (blank abi env (toInt32 (1000 + k))) env f o)
    have hlist : (new abi env (toInt32 (1000 + k)) f o).floatlist =
        floatlistCreate env.mem env.raw 1024 := congrArg (fun k => k.1.2) hsame
    intro cl hcl
    rw [hlist] at hcl
    rcases floatlistCreate_wellTyped env.raw 1024 with ⟨cl', hcreate, hwell⟩
    cases hmem : env.mem with
    | false =>
        rw [hmem] at hcl
        cases hcl
    | true =>
        rw [hmem, hcreate, Option.mem_some_iff] at hcl
        exact hcl ▸ hwell
  · rintro x ⟨env, a⟩ x' hreach hwell _ hs
    rcases (frame_step (reach_sound hreach).sized hs).2.1 with hsame | ⟨fd, c, -, hlist⟩
    · rw [hsame]
      exact hwell
    · rw [hlist]
      exact chunk2list_wellTyped env.raw hwell c

/-! ## The client of an address -/

/-- The address of a datagram as {lit}`udpserver_sender_add` gets it. -/
def source (x : Server) (c : Chunk) : Nat × BitVec 16 :=
  (x.abi.toULong c.addr, c.port)

/-- The first client with the address. -/
def clientAt (x : Server) (k : Nat × BitVec 16) : Option UdpSender :=
  x.clients.find? fun y => y.key x.abi = k

/-- What the lookup finds is the client at that address. -/
theorem clientAt_of_findSender (h : x.Holds l) {host : Nat} {port : BitVec 16} {id : Nat}
    (hfind : x.findSender host port = (x, some id)) (hid : l[id]? = some y) :
    x.clientAt (host, port) = some y := by
  rw [findSender_eq h, Prod.mk.injEq] at hfind
  rcases List.findIdx?_eq_some_iff_getElem.1 hfind.2 with ⟨hlt, hkey, hfirst⟩
  rw [List.getElem?_eq_getElem hlt, Option.some_inj] at hid
  subst hid
  rw [clientAt, h.clients_eq, List.find?_eq_some_iff_getElem]
  exact ⟨hkey, id, hlt, rfl, by simpa using hfirst⟩

/-! ## A datagram from a registered address -/

/-- The payload of the datagram has been put out once, and the first client with its address
has been heard from; the table has not changed otherwise. -/
structure Heeded (env : Env) (c : Chunk) (x x' : Server) : Prop where
  refreshed : ∃ id y, x.slot id = some y ∧ x.clientAt (x.source c) = some y ∧
    x'.sr = x.sr.set id (some (seenNow env y))
  count : x'.nconnections = x.nconnections
  max : x'.maxconnections = x.maxconnections
  output : ∃ outputs, x'.log = x.log ++ outputs ∧
    (outputs.filter fun o => o.outlet = .msgout) = [.plain .msgout "list" (byteAtoms c.data)]

/-- With accept off nothing happens. -/
theorem receiveCallback_of_closed (haccept : x.accept = 0) (c : Chunk) :
    x.receiveCallback env (some c) = x := by
  unfold receiveCallback senderAdd
  dsimp only
  rw [if_pos haccept]

/-- A known client that is let in. -/
theorem receiveCallback_known (env : Env) (h : x.Holds l) (haccept : x.accept ≠ 0) {c : Chunk}
    {id : Nat} (hid : l[id]? = some y)
    (hfind : x.findSender (x.abi.toULong c.addr) c.port = (x, some id)) :
    x.receiveCallback env (some c) =
      match chunk2list env.mem env.raw (some c) x.floatlist with
      | none => { (x.heard env id y).logged (addressOutputs (seenNow env y)) with
          floatlist := none }.fault .nullList
      | some cl =>
          { (x.heard env id y).logged (addressOutputs (seenNow env y) ++
              [.plain .msgout "list" (cl.argv.take cl.argc)]) with floatlist := some cl } := by
  have hconns : x.nconnections = (x.heard env id y).nconnections := rfl
  unfold receiveCallback
  dsimp only
  rw [senderAdd_known h haccept hid hfind]
  dsimp only
  rw [infoConnection_eq, if_neg fun hne => hne hconns]
  have hlist : ((x.heard env id y).logged (addressOutputs (seenNow env y))).floatlist =
      x.floatlist := rfl
  rw [hlist]
  cases chunk2list env.mem env.raw (some c) x.floatlist with
  | none => rfl
  | some cl =>
      dsimp only
      rw [emit_eq]
      simp only [logged, List.append_assoc]

/-- Where nothing is put out, the datagram has not been heeded. -/
theorem not_heeded_of_silent {c : Chunk} {outputs : List Output}
    (hlog : x'.log = x.log ++ outputs)
    (hsilent : (outputs.filter fun o => o.outlet = .msgout) = []) : ¬ Heeded env c x x' := by
  rintro ⟨-, -, -, outputs', hlog', hmsg⟩
  rw [hlog] at hlog'
  rw [← List.append_cancel_left hlog', hsilent] at hmsg
  cases hmsg

/-- With {lit}`accept 0` no datagram is heeded. -/
theorem not_heeded_of_closed (haccept : x.accept = 0) (c : Chunk) :
    ¬ Heeded env c x (x.receiveCallback env (some c)) := by
  rw [receiveCallback_of_closed haccept]
  exact not_heeded_of_silent (List.append_nil _).symm rfl

/-- A datagram from a registered address is heeded exactly if accept is on and there is a
list to put it out. -/
theorem heeded_iff (h : x.Holds l) (hwell : ∀ cl ∈ x.floatlist, cl.WellTyped) {c : Chunk}
    (hc : c.data ≠ []) (hknown : (x.clientAt (x.source c)).isSome) :
    Heeded env c x (x.receiveCallback env (some c)) ↔
      x.accept ≠ 0 ∧ ListAvailable env.mem x.floatlist c.size := by
  by_cases haccept : x.accept = 0
  · exact iff_of_false (not_heeded_of_closed haccept c) fun hok => hok.1 haccept
  rcases findSender_cases h (x.abi.toULong c.addr) c.port with ⟨-, hnew⟩ | ⟨id, y, hid, -, hfind⟩
  · have hnone : x.clientAt (x.source c) = none := by
      rw [clientAt, h.clients_eq, List.find?_eq_none]
      intro y hy
      rw [decide_eq_true_eq]
      exact hnew y hy
    rw [hnone] at hknown
    cases hknown
  have hcallback := receiveCallback_known env h haccept hid hfind
  have hsilent : ((addressOutputs (seenNow env y)).filter fun o => o.outlet = .msgout) = [] := rfl
  by_cases havailable : ListAvailable env.mem x.floatlist c.size
  · refine iff_of_true ?_ ⟨haccept, havailable⟩
    rcases chunk2list_sound env.raw hwell hc with ⟨cl, hlist, -, htake⟩
    rw [chunk2list_available env.raw havailable, hlist] at hcallback
    rw [hcallback]
    refine ⟨⟨id, y, (h.slot_eq id).trans hid, clientAt_of_findSender h hfind hid, rfl⟩, rfl, rfl,
      _, rfl, ?_⟩
    rw [List.filter_append, hsilent, htake]
    rfl
  · refine iff_of_false ?_ fun hok => havailable hok.2
    rw [chunk2list_unavailable env.raw havailable] at hcallback
    rw [hcallback]
    exact not_heeded_of_silent rfl hsilent

/-! ## A client over one input -/

/-- The first element with a property stays the first one in a part of the list. -/
theorem find?_of_sublist {α : Type*} {p : α → Bool} {l l' : List α} {a : α}
    (hsub : l'.Sublist l) (hnodup : l.Nodup) (hfind : l.find? p = some a) (ha : a ∈ l') :
    l'.find? p = some a := by
  induction hsub with
  | slnil => exact hfind
  | cons b hsub ih =>
      have hother : b ≠ a := fun hba => (List.nodup_cons.1 hnodup).1 (hba ▸ hsub.subset ha)
      rw [List.find?_cons] at hfind
      split at hfind
      · exact absurd (Option.some.inj hfind) hother
      · exact ih (List.nodup_cons.1 hnodup).2 hfind ha
  | cons_cons b hsub ih =>
      rw [List.find?_cons] at hfind ⊢
      split at hfind
      · exact hfind
      · rename_i hpb
        have hpa : p a = true := List.find?_some hfind
        have hother : a ≠ b := fun hab => by rw [hab, hpb] at hpa; cases hpa
        exact ih (List.nodup_cons.1 hnodup).2 hfind ((List.mem_cons.1 ha).resolve_left hother)

/-- Replacing an element by one of which the property says the same. -/
theorem find?_set {α : Type*} {p : α → Bool} {l : List α} {i : Nat} {a b : α}
    (hget : l[i]? = some a) (hp : p b = p a) :
    (l.set i b).find? p = if l.findIdx? p = some i then some b else l.find? p := by
  induction l generalizing i with
  | nil => simp at hget
  | cons c l ih =>
      cases i with
      | zero =>
          have hca : c = a := by simpa using hget
          subst hca
          rw [List.set_cons_zero, List.find?_cons, List.findIdx?_cons, List.find?_cons, hp]
          cases hpc : p c with
          | false => simp
          | true => simp
      | succ i =>
          rw [List.getElem?_cons_succ] at hget
          rw [List.set_cons_succ, List.find?_cons, List.findIdx?_cons, List.find?_cons]
          cases hpc : p c with
          | false => simp [ih hget]
          | true => simp

/-- An address that an input hands over is heard if accept is on. -/
def hears (x : Server) (env : Env) (a : Input) (k : Nat × BitVec 16) : Prop :=
  x.accept ≠ 0 ∧ x.asked env a = some k

instance (x : Server) (env : Env) (a : Input) (k : Nat × BitVec 16) :
    Decidable (x.hears env a k) :=
  inferInstanceAs (Decidable (_ ∧ _))

/-- The client at an address can be read off any list that the table holds. -/
theorem clientAt_congr {k : Nat × BitVec 16} (habi : x'.abi = x.abi) (h : x'.Holds l) :
    x'.clientAt k = l.find? fun y => y.key x.abi = k := by
  rw [clientAt, h.clients_eq, habi]

/-- {lit}`udpserver_sender_add` refreshes the client of the address it is given and leaves the
others. -/
theorem clientAt_added {l' : List UdpSender} {k q : Nat × BitVec 16} (h : x.Holds l)
    (hadded : x.Added env q.1 q.2 l l')
    (hy : x.clientAt k = some y) (hx' : x'.Holds l') (habi : x'.abi = x.abi) :
    ∃ y', x'.clientAt k = some y' ∧ y'.id = y.id ∧
      y'.lastseen = if x.accept ≠ 0 ∧ q = k then env.now else y.lastseen := by
  rw [clientAt_congr habi hx']
  have hold : (l.find? fun y => y.key x.abi = k) = some y := by rw [← hy, clientAt, h.clients_eq]
  have hmem : y ∈ l := List.mem_of_find?_eq_some hold
  have hkey : y.key x.abi = k := by simpa using List.find?_some hold
  cases hadded with
  | refused hrefused =>
      refine ⟨y, hold, rfl, ?_⟩
      rw [if_neg]
      rintro ⟨haccept, rfl⟩
      rcases hrefused with hoff | hnone
      · exact haccept hoff
      · rcases findSender_cases h q.1 q.2 with ⟨-, hnew⟩ | ⟨id, z, -, -, hfound⟩
        · exact hnew y hmem hkey
        · rw [hnone] at hfound
          cases hfound
  | @heard id z haccept hid hfind =>
      rw [findSender_eq h, Prod.mk.injEq] at hfind
      rw [find?_set (b := seenNow env z) hid rfl]
      by_cases hqk : q = k
      · subst hqk
        have hfirst := clientAt_of_findSender h (by rw [findSender_eq h, hfind.2]) hid
        rw [hy, Option.some_inj] at hfirst
        subst hfirst
        rw [if_pos hfind.2, if_pos ⟨haccept, rfl⟩]
        exact ⟨_, rfl, rfl, rfl⟩
      · have hnot : l.findIdx? (fun y => y.key x.abi = k) ≠ some id := by
          intro hk
          rcases List.findIdx?_eq_some_iff_getElem.1 hk with ⟨_, hkeyk, -⟩
          rcases List.findIdx?_eq_some_iff_getElem.1 hfind.2 with ⟨_, hkeyq, -⟩
          rw [decide_eq_true_eq] at hkeyk hkeyq
          exact hqk (hkeyq.symm.trans hkeyk)
        rw [if_neg hnot, if_neg fun hboth => hqk hboth.2]
        exact ⟨y, hold, rfl, rfl⟩
  | entered hfind =>
      refine ⟨y, ?_, rfl, ?_⟩
      · rw [List.find?_append, hold, Option.some_or]
      · rw [if_neg]
        rintro ⟨-, rfl⟩
        rcases findSender_cases h q.1 q.2 with ⟨-, hnew⟩ | ⟨id, z, -, -, hfound⟩
        · exact hnew y hmem hkey
        · rw [hfind] at hfound
          cases hfound

/-- A client that the input spares and that is in time stays, and is refreshed just by its
own address. -/
theorem clientAt_step (h : x.Holds l) (hnodup : l.Nodup) {k : Nat × BitVec 16} {a : Input}
    (hclient : env.client = true) (hlast : x.DisconnectsOnly Last env a)
    (hstep : x.step env a = some x') (hy : x.clientAt k = some y) (hspared : x.Spares env y a)
    (htime : a.Checks → x.Due env.now → x.inTime env.now y = true) :
    (∃ l', x'.Holds l') ∧ ∃ y', x'.clientAt k = some y' ∧ y'.id = y.id ∧
      y'.lastseen = if x.hears env a k then env.now else y.lastseen := by
  have habi := (frame_step h.sized hstep).1
  rcases h.step hclient hlast hstep with ⟨l', hl', hcourse⟩
  refine ⟨⟨l', hl'⟩, ?_⟩
  cases hcourse with
  | thin hasked hsub hkept =>
      have hold : (l.find? fun y => y.key x.abi = k) = some y := by
        rw [← hy, clientAt, h.clients_eq]
      have hstays := hkept y (List.mem_of_find?_eq_some hold) hspared htime
      refine ⟨y, ?_, rfl, ?_⟩
      · rw [clientAt_congr habi hl']
        exact find?_of_sublist hsub hnodup hold hstays
      · rw [if_neg]
        rintro ⟨-, hk⟩
        rw [hasked] at hk
        cases hk
  | @added q l' hasked hadded =>
      have hiff : x.hears env a k ↔ x.accept ≠ 0 ∧ q = k := by
        rw [hears, hasked, Option.some_inj]
      simp only [hiff]
      exact clientAt_added h hadded hy hl' habi

/-- The input is a datagram from the address. -/
def comesFrom (x : Server) (a : Input) (k : Nat × BitVec 16) : Bool :=
  match a with
  | .received _ (some c) => x.source c = k
  | _ => false

/-- With {lit}`accept 1` the server hears every datagram from the address. -/
theorem hears_of_comesFrom {a : Input} {k : Nat × BitVec 16} (hfrom : x.comesFrom a k = true)
    (haccept : x.accept ≠ 0) : x.hears env a k := by
  refine ⟨haccept, ?_⟩
  unfold comesFrom at hfrom
  split at hfrom
  · exact congrArg some (of_decide_eq_true hfrom)
  · cases hfrom

end Server

/-! ## A client that keeps sending -/

/-- The server, and the time of the last datagram (or admitted {lit}`addclient` message) from
the address that is watched. -/
structure Watch where
  server : Server
  heard : ℚ

/-- The server {lit}`x` while address {lit}`k` is watched, whose client is {lit}`y` at
first. -/
def watchMachine (k : Nat × BitVec 16) (x : Server) (y : UdpSender) :
    Machine Watch (Env × Input) where
  init s := s = ⟨x, y.lastseen⟩
  step s a := (s.server.step a.1 a.2).map fun x' =>
    ⟨x', if s.server.comesFrom a.2 k ∨ s.server.hears a.1 a.2 k then a.1.now else s.heard⟩

/-- The clients that are disconnected by their index are the last of the table and not the
one that is watched, which sends within the timeout and finds accept on. -/
structure Attended (k : Nat × BitVec 16) (s : Watch) (a : Env × Input) : Prop where
  leaves : s.server.LastLeave a
  spared : ∀ y ∈ s.server.clientAt k, s.server.Spares a.1 y a.2
  inTime : a.2.Checks → s.server.Due a.1.now →
    clockGettimesince a.1.now s.heard ≤ s.server.timeout
  admitted : s.server.comesFrom a.2 k = true → s.server.accept ≠ 0

/-- A client whose datagrams all find accept on is never expired while it sends within the
timeout. -/
theorem watch_kept {k : Nat × BitVec 16} {x : Server} {y : UdpSender}
    (hx : udpserverMachine.Reachable x) (hused : ∀ i, i < x.nconnections → x.slot i ≠ none)
    (hy : x.clientAt k = some y) {s : Watch} (h : (watchMachine k x y).Reach (Attended k) s) :
    ∃ y', s.server.clientAt k = some y' ∧ y'.id = y.id ∧ y'.lastseen = s.heard := by
  have hall : (udpserverMachine.Reachable s.server ∧ ∃ l, s.server.Holds l) ∧
      ∃ y', s.server.clientAt k = some y' ∧ y'.id = y.id ∧ y'.lastseen = s.heard := by
    apply h.invariant (I := fun s =>
      (udpserverMachine.Reachable s.server ∧ ∃ l, s.server.Holds l) ∧
        ∃ y', s.server.clientAt k = some y' ∧ y'.id = y.id ∧ y'.lastseen = s.heard)
    · rintro _ rfl
      exact ⟨⟨hx, _, Server.holds_of_sound (Server.reach_sound hx) hused⟩, y, hy, rfl, rfl⟩
    · rintro ⟨x₁, seen⟩ ⟨env, a⟩ s' - ⟨⟨hreach, l, hl⟩, y₁, hy₁, hid, hseen⟩ hok hs
      rcases Option.map_eq_some_iff.1 hs with ⟨x₂, hstep, rfl⟩
      have hnodup : l.Nodup := by
        have hids := (Server.reach_sound hreach).ids_nodup
        have hclients : x₁.books.clients = l := hl.clients_eq
        rw [hclients] at hids
        exact List.Nodup.of_map _ hids
      have htime : a.Checks → x₁.Due env.now → x₁.inTime env.now y₁ = true := by
        intro hchecks hdue
        rw [Server.inTime, hseen]
        exact decide_eq_true (hok.inTime hchecks hdue)
      rcases Server.clientAt_step hl hnodup hok.leaves.1 hok.leaves.2 hstep hy₁
        (hok.spared y₁ hy₁) htime with ⟨hholds, y₂, hy₂, hid₂, hseen₂⟩
      refine ⟨⟨.next hreach trivial hstep, hholds⟩, y₂, hy₂, hid₂.trans hid, ?_⟩
      have hiff : (x₁.comesFrom a k = true ∨ x₁.hears env a k) ↔ x₁.hears env a k :=
        or_iff_right_of_imp fun hfrom => Server.hears_of_comesFrom hfrom (hok.admitted hfrom)
      rw [hseen₂]
      simp only [hiff, hseen]
  exact hall.2

/-- In a reachable state whose counted slots are all used a datagram from a registered address
is put out once and refreshes its client, and nothing else, exactly if accept is on (and there
is a list to put it out); with accept off a datagram does nothing; and in every run in which
its datagrams find accept on, a client that keeps sending within the timeout stays. -/
theorem accept_spares_known {x : Server} (hx : udpserverMachine.Reachable x)
    (hused : ∀ i, i < x.nconnections → x.slot i ≠ none) :
    (∀ env c, c.data ≠ [] → (x.clientAt (x.source c)).isSome →
        (Server.Heeded env c x (x.receiveCallback env (some c)) ↔
          x.accept ≠ 0 ∧ ListAvailable env.mem x.floatlist c.size)) ∧
      (∀ env c, x.clientAt (x.source c) = none → x.accept = 0 →
        x.receiveCallback env (some c) = x) ∧
      ∀ k y, x.clientAt k = some y → ∀ s, (watchMachine k x y).Reach (Attended k) s →
        ∃ y', s.server.clientAt k = some y' ∧ y'.id = y.id ∧ y'.lastseen = s.heard := by
  refine ⟨fun env c hc hknown => ?_, fun env c _ hclosed => ?_, fun k y hy s hs => ?_⟩
  · exact Server.heeded_iff (Server.holds_of_sound (Server.reach_sound hx) hused)
      (Server.reach_wellTyped hx) hc hknown
  · exact Server.receiveCallback_of_closed hclosed c
  · exact watch_kept hx hused hy hs

/-- A datagram arrives, or the patch asks for the state. -/
def Input.listens : Input → Bool
  | .received .. => true
  | .info => true
  | _ => false

/-- A step at which nobody is asked to leave, within the timeout and with accept on. -/
def InTouch (s : Watch) (a : Env × Input) : Prop :=
  a.1.client = true ∧ a.2.listens = true ∧
    clockGettimesince a.1.now s.heard ≤ s.server.timeout ∧ s.server.accept ≠ 0

instance (s : Watch) (a : Env × Input) : Decidable (InTouch s a) :=
  inferInstanceAs (Decidable (_ ∧ _ ∧ _ ∧ _))

/-- While nobody is asked to leave, the client that is watched is attended to. -/
theorem attended_of_inTouch {k : Nat × BitVec 16} {s : Watch} {a : Env × Input}
    (h : InTouch s a) : Attended k s a := by
  rcases h with ⟨hclient, hlistens, htime, haccept⟩
  constructor
  case leaves =>
    refine ⟨hclient, ?_⟩
    rcases a with ⟨env, a⟩
    cases a <;> trivial
  case spared =>
    intro y _
    rcases a with ⟨env, a⟩
    cases a <;> trivial
  case inTime => exact fun _ _ => htime
  case admitted => exact fun _ => haccept

/-- The server when a peer has written; the timeout is one second. -/
def called : Server :=
  (started.receiveCallback (plainEnv 0 []) (some (datagram 5000#16))).setTimeout ⟨1000, 0#32⟩

theorem called_reachable : udpserverMachine.Reachable called := by
  have hrun : udpserverMachine.run started
      (onePeer ++ [(plainEnv 0 [], .timeout ⟨1000, 0#32⟩)]) = some called := rfl
  exact Machine.reach_of_run init_started hrun

/-- The peer's client. -/
def caller : UdpSender :=
  (called.clientAt (called.source (datagram 5000#16))).get (by decide +kernel)

/-- The peer writes again after 900 ms, another one after 950 ms, and after 1400 ms the
clients are checked. -/
def writesAgain : List (Env × Input) :=
  [(plainEnv (900 * timeunitpermsec) [], .received 3 (some (datagram 5000#16))),
    (plainEnv (950 * timeunitpermsec) [], .received 3 (some (datagram 5001#16))),
    (plainEnv (1400 * timeunitpermsec) [], .info)]

/-- A second datagram from the same peer is put out; and as the peer keeps writing, its client
stays, also when the clients are checked. -/
theorem accept_spares_known_one :
    Server.Heeded (plainEnv 14112 []) (datagram 5000#16) called
        (called.receiveCallback (plainEnv 14112 []) (some (datagram 5000#16))) ∧
      ∃ s y, (watchMachine (called.source (datagram 5000#16)) called caller).run
          ⟨called, caller.lastseen⟩ writesAgain = some s ∧
        s.server.nconnections = 2 ∧ s.server.lastchecked = 1400 * timeunitpermsec ∧
        s.heard = 900 * timeunitpermsec ∧
        s.server.clientAt (called.source (datagram 5000#16)) = some y ∧ y.id = caller.id ∧
        y.lastseen = s.heard := by
  have hknown := accept_spares_known called_reachable (by decide +kernel)
  refine ⟨(hknown.1 (plainEnv 14112 []) (datagram 5000#16) (by decide)
    (by decide +kernel)).2 ⟨by decide +kernel, Or.inl rfl⟩, ?_⟩
  have hcaller : called.clientAt (called.source (datagram 5000#16)) = some caller :=
    (Option.some_get _).symm
  have hmeets : (watchMachine (called.source (datagram 5000#16)) called caller).RunMeets
      (Attended (called.source (datagram 5000#16))) ⟨called, caller.lastseen⟩ writesAgain :=
    (Machine.runMeets_of_meets (by decide +kernel)).mono fun s a => attended_of_inTouch
  have hrun : (watchMachine (called.source (datagram 5000#16)) called caller).run
      ⟨called, caller.lastseen⟩ writesAgain = some _ := rfl
  rcases hknown.2.2 _ caller hcaller _ (.run (.start rfl) hmeets hrun) with
    ⟨y, hy, hid, hseen⟩
  exact ⟨_, y, hrun, by decide +kernel, by decide +kernel, by decide +kernel, hy, hid, hseen⟩

/-- A registered peer writes while accept is off: its datagram does nothing, and half a
second later it has expired, although it has never been silent for a second. -/
theorem accept_off_mutes :
    ∃ x, udpserverMachine.Reachable x ∧ (∀ i, i < x.nconnections → x.slot i ≠ none) ∧
      (x.clientAt (x.source (datagram 5000#16))).isSome ∧ x.timeout = 1000 ∧
      (∀ env, ¬ Server.Heeded env (datagram 5000#16) x
        (x.receiveCallback env (some (datagram 5000#16)))) ∧
      ∃ x', udpserverMachine.run x
          [(plainEnv (900 * timeunitpermsec) [], .received 3 (some (datagram 5000#16))),
            (plainEnv (1400 * timeunitpermsec) [], .info)] = some x' ∧ x'.nconnections = 0 := by
  have hrun : udpserverMachine.run started (onePeer ++
      [(plainEnv 0 [], .timeout ⟨1000, 0#32⟩), (plainEnv 0 [], .accept ⟨0, 0#32⟩)]) =
      some _ := rfl
  refine ⟨_, Machine.reach_of_run init_started hrun, by decide +kernel, by decide +kernel,
    by decide +kernel, fun env => Server.not_heeded_of_closed (by decide +kernel) _, _, rfl,
    by decide +kernel⟩

end Iemnet.UdpServer
