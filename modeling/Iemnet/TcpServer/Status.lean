import Iemnet.TcpServer.Effects

/-!
# The client numbers in status messages

A client is given its number when it connects, and {lit}`sr_client` is never set
again, while the positions move whenever an earlier client leaves.  A broadcast
numbers its messages by a snapshot.  Both agree with the table exactly as long as
clients leave from its end.

Main results:

- Theorem {lit}`offers_numbered`: a sequence of offers of which only the last one
  drops a client.
- Theorem {lit}`ids_current`: in every run in which only last clients are dropped,
  each message about a client carries the position of this client.
- Theorem {lit}`stale_number`: a client that has moved is announced by a number that
  is not its position.
-/

namespace Iemnet.TcpServer

open Pd Foundations

/-- The number in a message about a client is the position that this client has in
the table, counted from one, when the message is sent. -/
def LogEntry.Current (e : LogEntry) : Prop :=
  ∀ id ∈ e.output.about, ∃ k < e.nconnections,
    (SlotTable.get e.sr k).map SocketReceiver.id = some id ∧
      e.output.argv.head? = some (setFloat ((k + 1 : Nat) : ℚ))

instance : DecidablePred LogEntry.Current :=
  fun e => inferInstanceAs (Decidable (∀ id ∈ e.output.about, _))

namespace Server

variable {x x' : Server} {l : List SocketReceiver} {y : SocketReceiver} {env : Env}
  {a : Input}

/-- An input that drops clients drops the last one only, and that for itself; and
client numbers fit a float. -/
def LastOnly (x : Server) (e : Env × Input) : Prop :=
  (∀ p ∈ x.drops e.1 e.2, p.2 + 1 = x.nconnections ∧ x.slot p.2 = some p.1) ∧
    ∀ fd o, e.2 = .incoming fd o → x.Admits o → x.nconnections < 2 ^ 24

/-- Every client is numbered by its position. -/
def Cached (l : List SocketReceiver) : Prop :=
  ∀ i y, l[i]? = some y → y.client = i ∧ i < 2 ^ 24

/-- Every message so far was current. -/
def Truthful (x : Server) : Prop :=
  ∀ e ∈ x.log, e.Current

/-! ## Messages over the table -/

/-- When the last client leaves, the numbers of the others stay right. -/
theorem Cached.eraseIdx_last {i : Nat} (hc : Cached l) (hlast : i + 1 = l.length) :
    Cached (l.eraseIdx i) := by
  intro k z hk
  have hlt : k < (l.eraseIdx i).length := (List.getElem?_eq_some_iff.1 hk).1
  rw [List.length_eraseIdx_of_lt (by omega)] at hlt
  rw [List.getElem?_eraseIdx_of_lt (by omega)] at hk
  exact hc k z hk

/-- The number of a new client is right. -/
theorem Cached.append (hc : Cached l) (hy : y.client = l.length) (hlen : l.length < 2 ^ 24) :
    Cached (l ++ [y]) := by
  intro k z hk
  by_cases hold : k < l.length
  · rw [List.getElem?_append_left hold] at hk
    exact hc k z hk
  · have hlt := (List.getElem?_eq_some_iff.1 hk).1
    rw [List.length_append, List.length_singleton] at hlt
    have heq : k = l.length := by omega
    subst heq
    have hyz : y = z := by simpa using hk
    rw [← hyz]
    exact ⟨hy, hlen⟩

/-- Client numbers up to 2^24 are exact. -/
theorem clientNumber_eq {i : Nat} (hi : i < 2 ^ 24) :
    clientNumber i = setFloat ((i + 1 : Nat) : ℚ) := by
  rw [clientNumber, Nat.mod_eq_of_lt (by omega)]
  exact setInt_natCast (by omega)

/-- Messages that carry current or cached numbers are current over this table. -/
theorem Truthful.logged (ht : x.Truthful) (h : x.Inv l) (hc : Cached l) {outputs : List Output}
    (hnamed : Named l outputs) : (x.logged outputs).Truthful := by
  intro e he
  cases List.mem_append.1 he with
  | inl hold => exact ht e hold
  | inr hnew =>
      rcases List.mem_map.1 hnew with ⟨o, ho, rfl⟩
      intro id hid
      rcases hnamed o ho id hid with ⟨i, y, hi, hy, hnumber⟩
      rcases hc i y hi with ⟨hclient, hfits⟩
      rw [hclient, or_self, clientNumber_eq hfits] at hnumber
      refine ⟨i, ?_, ?_, hnumber⟩
      · show i < x.nconnections
        rw [h.nconnections_eq]
        exact (List.getElem?_eq_some_iff.1 hi).1
      · show (x.slot i).map SocketReceiver.id = some id
        rw [h.slot_eq, hi, Option.map_some, hy]

/-- The output of a send names its client. -/
theorem named_sendOutputs {i : Nat} (hi : l[i]? = some y) (size : Int) :
    Named l (sendOutputs i size y) := by
  intro o ho id hid
  cases List.mem_append.1 ho with
  | inl hevent =>
      rw [eventOutputs_about .send o hevent] at hid
      contradiction
  | inr hrest =>
      rw [List.mem_singleton] at hrest
      subst hrest
      exact ⟨i, y, hi, Option.some.inj hid, Or.inl rfl⟩

/-- Dropping the last client is announced by its position, and moves nobody. -/
theorem Truthful.dropped {i : Nat} (ht : x.Truthful) (h : x.Inv l) (hc : Cached l)
    (hi : l[i]? = some y) : (x.dropped l i y).Truthful := by
  have hfirst := ht.logged h hc (named_connectionOutputs hi .disconnect)
  intro e he
  cases List.mem_append.1 he with
  | inl hold => exact hfirst e hold
  | inr hnew =>
      rcases List.mem_map.1 hnew with ⟨o, ho, rfl⟩
      intro id hid
      rw [anonymous_numconnOutputs _ o ho] at hid
      contradiction

/-! ## Sequences of offers -/

/-- The indices of a list rise. -/
theorem zipIdx_sorted {α : Type*} (l : List α) (k : Nat) :
    (l.zipIdx k).Pairwise fun p q => p.2 < q.2 := by
  induction l generalizing k with
  | nil => exact List.Pairwise.nil
  | cons b l ih =>
      rw [List.zipIdx_cons, List.pairwise_cons]
      refine ⟨fun p hp => ?_, ih (k + 1)⟩
      have := List.le_snd_of_mem_zipIdx hp
      show k < p.2
      omega

/-- Everyone comes in the order of the table. -/
theorem everyone_sorted (x : Server) : x.everyone.Pairwise fun p q => p.2 < q.2 :=
  zipIdx_sorted x.clients 0

/-- The only one comes in the order of the table. -/
theorem only_sorted (x : Server) (i : Nat) : (x.only i).Pairwise fun p q => p.2 < q.2 := by
  unfold only
  cases x.clients[i]? <;> simp

/-- The targets come in the order of the table. -/
theorem targets_sorted (x : Server) : x.targets.Pairwise fun p q => p.2 < q.2 := by
  unfold targets
  cases x.targetIndex with
  | none => exact x.everyone_sorted
  | some i =>
      simp only
      split
      · exact x.only_sorted i
      · split
        · exact x.everyone_sorted.sublist List.filter_sublist
        · exact x.everyone_sorted

/-- Clients are served in the order of the table. -/
theorem recipients_sorted (x : Server) (a : Input) :
    (x.recipients a).Pairwise fun p q => p.2 < q.2 := by
  have honly : ∀ o : Option Nat, (o.elim [] x.only).Pairwise fun p q => p.2 < q.2 := by
    intro o
    cases o with
    | none => exact List.Pairwise.nil
    | some i => exact x.only_sorted i
  cases a with
  | broadcast argv => exact x.everyone_sorted
  | defaultsend argv => exact x.targets_sorted
  | sendClient argv =>
      cases argv with
      | nil => exact List.Pairwise.nil
      | cons a rest =>
          cases rest with
          | nil => exact List.Pairwise.nil
          | cons b rest => exact honly _
  | sendSocket argv =>
      cases argv with
      | nil => exact List.Pairwise.nil
      | cons a rest =>
          simp only [recipients]
          split
          · exact honly _
          · exact List.Pairwise.nil
  | incoming | received | disconnectClient | disconnectSocket | disconnectAll | defaulttarget
  | targetsocket | serialize | accept | maxconnections | port | info => exact List.Pairwise.nil

/-- An attempt to send puts out the right number. -/
theorem Truthful.attempted (env : Env) (chunk : Option Chunk) {p : SocketReceiver × Nat}
    (ht : x.Truthful) (h : x.Inv l) (hc : Cached l) (hp : l[p.2]? = some p.1) :
    (x.attempted env chunk p).Truthful :=
  Truthful.logged ht (h.quiet ⟨_, _, _, _, rfl, fun _ => Iff.rfl⟩) hc (named_sendOutputs hp _)

/-- Offers on account of which at most the last client is dropped. -/
theorem offers_numbered {chunk : Option Chunk} (ps : List (SocketReceiver × Nat))
    (h : x.Inv l) (ht : x.Truthful) (hc : Cached l) (hps : ∀ p ∈ ps, l[p.2]? = some p.1)
    (hsorted : ps.Pairwise fun p q => p.2 < q.2)
    (hdrops : ∀ p ∈ ps, ∀ i ∈ x.dropFor env p.1, i + 1 = l.length ∧ l[i]? = some p.1) :
    ∃ l', (ps.foldl (offer env chunk) x).Inv l' ∧ (ps.foldl (offer env chunk) x).Truthful ∧
      Cached l' := by
  induction ps generalizing x with
  | nil => exact ⟨l, h, ht, hc⟩
  | cons p ps ih =>
      have hp := hps p List.mem_cons_self
      have hq := quiet_attempted env chunk x p
      have h₁ := h.quiet hq
      have ht₁ := ht.attempted env chunk h hc hp
      rw [List.pairwise_cons] at hsorted
      rw [List.foldl_cons, offer_of_notMem h.tabled (h.notFreed p.1 (List.mem_of_getElem? hp))]
      cases hdrop : x.dropFor env p.1 with
      | none =>
          apply ih h₁ ht₁ (fun q hq' => hps q (List.mem_cons_of_mem p hq')) hsorted.2
          intro q hq' i hi
          rw [hq.dropFor] at hi
          exact hdrops q (List.mem_cons_of_mem p hq') i hi
      | some i =>
          rcases hdrops p List.mem_cons_self i hdrop with ⟨hlast, hi⟩
          have hpi : p.2 = i := (h.tabled.id_eq_iff hp hi).1 rfl
          -- whoever comes later in the snapshot would sit behind the last client
          have hnil : ps = [] := by
            cases ps with
            | nil => rfl
            | cons q ps =>
                have hlt := hsorted.1 q List.mem_cons_self
                have hq' := hps q (List.mem_cons_of_mem p List.mem_cons_self)
                have := (List.getElem?_eq_some_iff.1 hq').1
                omega
          subst hnil
          simp only [List.foldl_nil, disconnect_eq h₁.tabled hi]
          exact ⟨_, h₁.dropped hi, ht₁.dropped h₁ hc hi, hc.eraseIdx_last hlast⟩

/-! ## One step -/

/-- Output about nobody says nothing wrong. -/
theorem Truthful.anonymous (ht : x.Truthful) (hlog : ∀ e ∈ x'.log,
    e ∈ x.log ∨ e.output.about = none) : x'.Truthful := by
  intro e he
  cases hlog e he with
  | inl hold => exact ht e hold
  | inr hnone =>
      intro id hid
      rw [hnone] at hid
      contradiction

/-- What is added to the log is about nobody. -/
theorem Anonymous.log {outputs : List Output} (h : Anonymous outputs) {e : LogEntry}
    (he : e ∈ (x.logged outputs).log) : e ∈ x.log ∨ e.output.about = none := by
  cases List.mem_append.1 he with
  | inl hold => exact Or.inl hold
  | inr hnew =>
      rcases List.mem_map.1 hnew with ⟨o, ho, rfl⟩
      exact Or.inr (h o ho)

/-- Closing the port puts out nothing. -/
theorem closePort_log (x : Server) (fd : Int) : (x.closePort fd).log = x.log := by
  unfold Server.closePort closesocket
  by_cases hfd : 0 ≤ fd
  · rw [if_pos hfd, if_pos hfd]
    rfl
  · rw [if_neg hfd]

/-- Messages without a client before and after the port is closed. -/
theorem Truthful.port (ht : x.Truthful) {before after : List Output} (hbefore : Anonymous before)
    (hafter : Anonymous after) {fd : Int} {x₁ : Server}
    (hlog : x₁.log = ((x.logged before).closePort fd).log) : (x₁.logged after).Truthful := by
  apply ht.anonymous
  intro e he
  cases hafter.log he with
  | inr hnone => exact Or.inr hnone
  | inl hold =>
      rw [hlog, closePort_log] at hold
      exact hbefore.log hold

/-- A step that drops no client but the last keeps the numbers. -/
theorem truthful_step (h : x.Inv l) (ht : x.Truthful) (hc : Cached l)
    (hok : LastOnly x (env, a)) (hs : x.step emit env a = some x') :
    ∃ l', x'.Inv l' ∧ x'.Truthful ∧ Cached l' := by
  cases step_effect h hs with
  | settled serialize accepting port defaulttarget floatlist faults outputs _ _ houtputs =>
      have h₁ := h.settings serialize accepting port defaulttarget floatlist (x.faults ++ faults)
      refine ⟨l, h₁.logged outputs, ?_, hc⟩
      generalize hx₁ : ({ x with
        serialize := serialize
        accepting := accepting
        port := port
        defaulttarget := defaulttarget
        floatlist := floatlist
        faults := x.faults ++ faults } : Server) = x₁ at h₁
      have ht₁ : x₁.Truthful := hx₁ ▸ ht
      exact ht₁.logged h₁ hc houtputs
  | resized n _ hle hlt => exact ⟨l, h.resized hle hlt, ht, hc⟩
  | unbound before _ hbefore =>
      refine ⟨l, h.closePort_logged before, ?_, hc⟩
      have hport : (((x.logged before).closePort x.connectsocket).logged []).Truthful :=
        ht.port hbefore anonymous_nil rfl
      rwa [logged_nil] at hport
  | failed fd before after _ hbefore hafter hfresh =>
      have hfresh' := FreshFd.logged hfresh before
      exact ⟨l, ((h.closePort_logged before).passing hfresh'.2.2 (by simp)).logged after,
        ht.port hbefore hafter rfl, hc⟩
  | bound fd port before after _ hbefore hafter hfresh =>
      have hclosed := closePort_connectsocket (x.logged before)
      have hfresh' := FreshFd.logged hfresh before
      exact ⟨l, ((h.closePort_logged before).listening hclosed hfresh'.1 hfresh'.2.2
        port).logged after, ht.port hbefore hafter rfl, hc⟩
  | refused fd o outputs _ _ hfresh houtputs =>
      refine ⟨l, ((h.logged _).passing hfresh.2.2 (by simp [Server.logged])).logged outputs,
        ht.anonymous fun e he => ?_, hc⟩
      cases houtputs.log he with
      | inr hnone => exact Or.inr hnone
      | inl hold => exact (anonymous_eventOutputs .connect).log hold
  | registered fd o heq hin hfresh =>
      have hroom := hok.2 fd o heq hin
      rw [h.nconnections_eq] at hroom
      have h₁ := (h.logged (eventOutputs .connect)).registered hin hfresh.2.1 hfresh.2.2
      have hc₁ : Cached (l ++ [x.newClient o]) := hc.append h.nconnections_eq hroom
      have ht₁ : ((x.logged (eventOutputs .connect)).registered l o).Truthful :=
        ht.anonymous fun e he => (anonymous_eventOutputs .connect).log he
      have hnew : (l ++ [x.newClient o])[l.length]? = some (x.newClient o) := by simp
      exact ⟨_, h₁.logged _, ht₁.logged h₁ hc₁ ((named_connectionOutputs hnew .illegal).append
        (anonymous_numconnOutputs _).named), hc₁⟩
  | dropped i y hi _ ha =>
      have hlast := (hok.1 (y, i) (by rw [ha]; exact List.mem_cons_self)).1
      rw [h.nconnections_eq] at hlast
      exact ⟨_, h.dropped hi, ht.dropped h hc hi, hc.eraseIdx_last hlast⟩
  | droppedAll ha =>
      subst ha
      rw [disconnectAll_eq h]
      cases hget : l[0]? with
      | none => exact ⟨l, h, ht, hc⟩
      | some y =>
          have hfirst := (hok.1 (y, 0) ((mem_everyone h).2 hget)).1
          rw [h.nconnections_eq] at hfirst
          have h₁ := h.dropped hget
          have hdone : (l.eraseIdx 0).length ≤ 1 := by
            have := List.length_eraseIdx_le l 0
            omega
          simp only [disconnectAllFrom_done h₁ _ hdone]
          exact ⟨_, h₁, ht.dropped h hc hget, hc.eraseIdx_last hfirst⟩
  | offered _ ha =>
      rcases retargeted_eq x a with ⟨sockfd, heq⟩
      rw [heq]
      have hps : ∀ p ∈ x.recipients a, l[p.2]? = some p.1 := fun p hp => mem_recipients h a hp
      refine offers_numbered (x := { x with defaulttarget := sockfd }) (x.recipients a)
        (h.retarget sockfd) ht hc hps (recipients_sorted x a) ?_
      intro p hp i hi
      have hmem : (p.1, i) ∈ x.drops env a := by
        rw [ha, List.mem_filterMap]
        exact ⟨p, hp, by
          rw [show x.dropFor env p.1 = some i from hi]
          rfl⟩
      rcases hok.1 _ hmem with ⟨hlast, hslot⟩
      rw [h.nconnections_eq] at hlast
      rw [h.slot_eq] at hslot
      exact ⟨hlast, hslot⟩

/-- The number of a client that has moved is announced all the same. -/
theorem stale_number (hc : Cached l) {i k : Nat} (hi : i < k) {z : SocketReceiver}
    (hz : l[k]? = some z) :
    (l.eraseIdx i)[k - 1]? = some z ∧ z.client = k ∧
      ∀ event, ∀ o ∈ connectionOutputs z event, ∀ id ∈ o.about,
        o.argv.head? ≠ some (clientNumber (k - 1)) := by
  rcases hc k z hz with ⟨hclient, hfits⟩
  refine ⟨?_, hclient, ?_⟩
  · rw [List.getElem?_eraseIdx_of_ge (by omega)]
    rwa [Nat.sub_add_cancel (by omega)]
  · intro event o ho id hid heq
    have hnumber := (connectionOutputs_about ho hid).2
    rw [hclient, clientNumber_eq hfits] at hnumber
    rw [hnumber, clientNumber_eq (by omega), Option.some.injEq] at heq
    simp only [setFloat, Atom.mk.injEq, true_and, Word.float.injEq, Nat.cast_inj] at heq
    omega

end Server

/-- In every run that drops last clients only, the number in each message about a
client is its position at that moment. -/
theorem ids_current {x : Server} (h : tcpserverMachine.Reach Server.LastOnly x) :
    ∀ e ∈ x.log, e.Current := by
  have hinv : ∃ l, x.Inv l ∧ x.Truthful ∧ Server.Cached l := by
    apply h.invariant (I := fun x => ∃ l, x.Inv l ∧ x.Truthful ∧ Server.Cached l)
    · rintro x ⟨abi, env, f, o, ho, rfl⟩
      have hs : (Server.blank abi env).step emit env (.port f o) =
          some (Server.new emit abi env f o) := by
        simp only [Server.step, ho, if_true]
        rfl
      exact Server.truthful_step (a := .port f o) (Server.inv_blank abi env)
        (fun e he => absurd he List.not_mem_nil) (by simp [Server.Cached])
        ⟨fun p hp => absurd hp List.not_mem_nil, by rintro _ _ ⟨⟩⟩ hs
    · rintro x ⟨env, a⟩ x' _ ⟨l, hl, ht, hc⟩ hok hs
      exact Server.truthful_step hl ht hc hok hs
  rcases hinv with ⟨_, _, ht, _⟩
  exact ht

/-- Two clients connect, and the one with number {lit}`f` leaves; then the other one
sends something. -/
def oneLeaves (f : ℚ) (fd : Int) : List (Env × Input) :=
  [(Server.plainEnv [], .incoming 3 (Server.caller 5)),
    (Server.plainEnv [], .incoming 3 (Server.caller 6)),
    (Server.plainEnv [], .disconnectClient ⟨f, 0#32⟩),
    (Server.plainEnv [], .received fd (chunkCreateList true [setFloat 7]))]

/-- In the run only the last client leaves. -/
theorem lastOnly_oneLeaves :
    tcpserverMachine.RunMeets Server.LastOnly Server.started (oneLeaves 2 5) := by
  refine ⟨⟨fun p hp => absurd hp List.not_mem_nil, fun _ _ _ _ => by decide +kernel⟩,
    fun x₁ h₁ => ?_⟩
  cases h₁
  refine ⟨⟨fun p hp => absurd hp List.not_mem_nil, fun _ _ _ _ => by decide +kernel⟩,
    fun x₂ h₂ => ?_⟩
  cases h₂
  refine ⟨⟨by decide +kernel, by rintro _ _ ⟨⟩⟩, fun x₃ h₃ => ?_⟩
  cases h₃
  exact ⟨⟨by decide +kernel, by rintro _ _ ⟨⟩⟩, fun _ _ => trivial⟩

/-- The last of two clients leaves, and every number in the log was right. -/
theorem ids_current_run :
    ∃ x, tcpserverMachine.run Server.started (oneLeaves 2 5) = some x ∧
      (x.log.filter fun e => e.output.about = some 1).length = 2 ∧ ∀ e ∈ x.log, e.Current := by
  have hrun : tcpserverMachine.run Server.started (oneLeaves 2 5) = some _ := rfl
  have hreach := Foundations.Machine.Reach.run (.start Server.init_started) lastOnly_oneLeaves hrun
  exact ⟨_, hrun, by decide +kernel, ids_current hreach⟩

/-- The first client leaves, and the message about the other one, now the first,
carries number 2. -/
theorem ids_stale :
    ∃ x, tcpserverMachine.Reachable x ∧
      ∃ e ∈ x.log, e.output.about = some 2 ∧ e.nconnections = 1 ∧
        (SlotTable.get e.sr 0).map SocketReceiver.id = some 2 ∧
        e.output.argv.head? = some (setFloat 2) ∧ ¬ e.Current := by
  have hrun : tcpserverMachine.run Server.started (oneLeaves 1 6) = some _ := rfl
  exact ⟨_, Foundations.Machine.reach_of_run Server.init_started hrun, by decide +kernel⟩

end Iemnet.TcpServer
