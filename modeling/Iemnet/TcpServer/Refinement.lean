import Iemnet.TcpServer.Effects

/-!
# The TCP server's table refines a list

The abstract state is the ordered list of clients alone.  {lit}`Server.nextClients`
says what an input makes of that list: connections are appended, a disconnect erases
one entry, failed sends erase those they failed for.  As long as descriptors fit a
float, the table follows it through every run.

Main results:

- Theorem {lit}`offers_exact`: a sequence of offers reaches everybody and drops
  exactly those that could not be sent to.
- Theorem {lit}`step_nextClients`: one step of the table is one step of the list.
- Theorem {lit}`table_refines_list`: the refinement over whole runs, with the account
  of every accepted descriptor.
-/

namespace Iemnet.TcpServer

open Pd Foundations

namespace Server

variable {x x' : Server} {l : List SocketReceiver} {y : SocketReceiver} {env : Env}
  {a : Input}

/-! ## The list model -/

/-- What {lit}`tcpserver_disconnect_all` leaves: while its index moves up, the clients
move down. -/
def spared : List SocketReceiver → List SocketReceiver
  | [] => []
  | [_] => []
  | _ :: y :: l => y :: spared l

/-- The clients that a chunk could not be sent to. -/
def refusers (x : Server) (env : Env) (a : Input) : List SocketReceiver :=
  ((x.recipients a).map Prod.fst).filter fun y => env.result y < 0

/-- The list of clients after an input. -/
def nextClients (x : Server) (env : Env) (l : List SocketReceiver) :
    Input → List SocketReceiver
  | .incoming _ o => if x.Admits o then l ++ [x.newClient o] else l
  | .received fd none => l.eraseP fun y => y.fd = fd
  | .disconnectClient f => if 0 < f.toInt then l.eraseIdx (f.toInt - 1).toNat else l
  | .disconnectSocket f => l.eraseP fun y => y.fd = f.toInt
  | .disconnectAll => spared l
  | a => l.filter fun y => y ∉ x.refusers env a

/-! ## Exact drops -/

/-- No client is in the table twice. -/
theorem Inv.nodup (h : x.Inv l) : l.Nodup :=
  List.Nodup.of_map _ h.ids_nodup

/-- All descriptors of clients fit a float. -/
def Small (l : List SocketReceiver) : Prop :=
  ∀ y ∈ l, y.fd < 2 ^ 24

/-- A small descriptor survives the way through a float. -/
theorem Small.fits (hsmall : Small l) (h : x.Inv l) (hy : y ∈ l) :
    (FloatArg.ofInt y.fd).toInt = y.fd := by
  apply FloatArg.toInt_ofInt
  have := hsmall y hy
  have := (h.range y hy).1
  omega

/-- There are no more clients than small descriptors. -/
theorem Small.length_le (hsmall : Small l) (h : x.Inv l) : l.length ≤ 2 ^ 24 := by
  rw [← List.length_map (f := SocketReceiver.fd)]
  apply length_le_of_nodup h.fds_nodup
  intro fd hfd
  rcases List.mem_map.1 hfd with ⟨y, hy, rfl⟩
  exact ⟨(h.range y hy).1, by exact_mod_cast hsmall y hy⟩

/-- The index found for a descriptor number among small ones. -/
theorem dropIndex_eq (h : x.Inv l) (hlen : l.length ≤ 2 ^ 24) (f : FloatArg) :
    x.dropIndex f = l.findIdx? fun y => y.fd = f.toInt := by
  rw [dropIndex, h.clients_eq]
  cases hfind : l.findIdx? fun y => y.fd = f.toInt with
  | none => rfl
  | some i =>
      have hlt := findIdx_lt hfind
      have hnumber : (FloatArg.ofInt ((i : Int) + 1)).toInt = i + 1 :=
        FloatArg.toInt_ofInt (by omega)
      rw [Option.bind_some, hnumber, fixindex_eq_some, h.nconnections_eq]
      exact ⟨rfl, hlt⟩

/-! ## Sequences of offers -/

/-- A send that fails for a client is held against nobody but this client. -/
def Own (l : List SocketReceiver) (env : Env) (y : SocketReceiver) : Prop :=
  env.result y < 0 →
    l.length ≤ 2 ^ 24 ∧ ∀ z ∈ l, z.fd = (FloatArg.ofInt y.fd).toInt → z = y

/-- The client is dropped when something is sent to it: the send fails, and the
descriptor survives as a float. -/
def Lost (env : Env) (y : SocketReceiver) : Prop :=
  env.result y < 0 ∧ (FloatArg.ofInt y.fd).toInt = y.fd

instance (env : Env) : DecidablePred (Lost env) :=
  fun _ => inferInstanceAs (Decidable (_ ∧ _))

/-- A client goes on finding itself when others leave. -/
theorem Own.erase {l' : List SocketReceiver} (h : Own l env y) (hsub : l'.Sublist l) :
    Own l' env y := by
  intro hfail
  rcases h hfail with ⟨hlen, hown⟩
  exact ⟨hsub.length_le.trans hlen, fun z hz => hown z (hsub.subset hz)⟩

/-- With small descriptors every client finds itself. -/
theorem Small.own (hsmall : Small l) (h : x.Inv l) (hy : y ∈ l) : Own l env y := by
  intro _
  refine ⟨hsmall.length_le h, fun z hz hfd => ?_⟩
  rw [hsmall.fits h hy] at hfd
  exact List.inj_on_of_nodup_map h.fds_nodup hz hy hfd

/-- The numbers of at most 2^24 clients survive as floats. -/
theorem number_fits {i : Nat} (hi : l[i]? = some y) (hlen : l.length ≤ 2 ^ 24) :
    (FloatArg.ofInt ((i : Int) + 1)).toInt = i + 1 := by
  have hlt : i < l.length := (List.getElem?_eq_some_iff.1 hi).1
  exact FloatArg.toInt_ofInt (by omega)

/-- Who is dropped on account of a failed send. -/
theorem dropFor_own (h : x.Inv l) {i : Nat} (hi : l[i]? = some y) (hown : Own l env y) :
    x.dropFor env y = if Lost env y then some i else none := by
  unfold dropFor
  by_cases hfail : env.result y < 0
  · rcases hown hfail with ⟨hlen, hself⟩
    rw [if_pos hfail]
    by_cases hfits : (FloatArg.ofInt y.fd).toInt = y.fd
    · rw [if_pos ⟨hfail, hfits⟩, dropIndex_of_fits h.tabled hi hfits (number_fits hi hlen)]
    · rw [if_neg fun hlost => hfits hlost.2, dropIndex_eq h hlen, List.findIdx?_eq_none_iff]
      intro z hz
      rw [decide_eq_false_iff_not]
      intro hfd
      exact hfits (hself z hz hfd ▸ hfd.symm)
  · rw [if_neg hfail, if_neg fun hlost => hfail hlost.1]

/-- Offering to one client after the other reaches each of them, and drops exactly
those who are lost. -/
theorem offers_exact {chunk : Option Chunk} (ps : List (SocketReceiver × Nat))
    (h : x.Inv l) (hps : ∀ p ∈ ps, p.1 ∈ l) (hnodup : (ps.map Prod.fst).Nodup)
    (hown : ∀ p ∈ ps, Own l env p.1) :
    (ps.foldl (offer env chunk) x).Inv
        (l.filter fun y => y ∉ (ps.map Prod.fst).filter fun y => Lost env y) ∧
      (ps.foldl (offer env chunk) x).sends =
        x.sends ++ (ps.filter fun p => p.1.hasSender).map
          fun p => (p.1, chunk, env.result p.1) := by
  induction ps generalizing x l with
  | nil =>
      refine ⟨?_, by simp⟩
      simpa using h
  | cons p ps ih =>
      have hp := hps p List.mem_cons_self
      rw [List.map_cons, List.nodup_cons] at hnodup
      rcases List.getElem?_of_mem hp with ⟨i, hi⟩
      have h₁ := h.quiet (quiet_attempted env chunk x p)
      have hsends : (x.attempted env chunk p).sends ++ (ps.filter fun p => p.1.hasSender).map
          (fun p => (p.1, chunk, env.result p.1)) =
          x.sends ++ ((p :: ps).filter fun p => p.1.hasSender).map
            fun p => (p.1, chunk, env.result p.1) := by
        by_cases hs : p.1.hasSender = true
        · simp [attempted, logged, hs]
        · simp [attempted, logged, hs]
      rw [List.foldl_cons, offer_of_notMem h.tabled (h.notFreed p.1 hp),
        dropFor_own h hi (hown p List.mem_cons_self)]
      by_cases hlost : Lost env p.1
      · simp only [hlost, if_true, disconnect_eq h₁.tabled hi]
        have hrest : ∀ q ∈ ps, q.1 ∈ l.eraseIdx i := fun q hq' => by
          rw [SlotTable.eraseIdx_eq_filter h.nodup hi, List.mem_filter]
          refine ⟨hps q (List.mem_cons_of_mem p hq'), ?_⟩
          have hne : q.1 ≠ p.1 := fun heq => hnodup.1 (heq ▸ List.mem_map_of_mem hq')
          simpa using hne
        rcases ih (h₁.dropped hi) hrest hnodup.2 (fun q hq' =>
          (hown q (List.mem_cons_of_mem p hq')).erase (List.eraseIdx_sublist l i)) with ⟨hinv, hs⟩
        refine ⟨?_, hs.trans hsends⟩
        rw [SlotTable.eraseIdx_eq_filter h.nodup hi, List.filter_filter] at hinv
        have hkeep : ((p :: ps).map Prod.fst).filter (fun y => Lost env y) =
            p.1 :: (ps.map Prod.fst).filter fun y => Lost env y := by
          rw [List.map_cons, List.filter_cons_of_pos (by simpa using hlost)]
        have hsame : (l.filter fun z => z ∉ p.1 ::
            (ps.map Prod.fst).filter fun y => Lost env y) =
            l.filter fun z => (z ∉ (ps.map Prod.fst).filter fun y => Lost env y) &&
              decide (z ≠ p.1) := by
          apply List.filter_congr
          intro z _
          rw [← Bool.decide_and, decide_eq_decide, List.mem_cons, not_or]
          exact and_comm
        rw [hkeep, hsame]
        exact hinv
      · simp only [hlost, if_false]
        rcases ih h₁ (fun q hq' => hps q (List.mem_cons_of_mem p hq')) hnodup.2
          (fun q hq' => hown q (List.mem_cons_of_mem p hq')) with ⟨hinv, hs⟩
        refine ⟨?_, hs.trans hsends⟩
        have hskip : ((p :: ps).map Prod.fst).filter (fun y => Lost env y) =
            (ps.map Prod.fst).filter fun y => Lost env y := by
          rw [List.map_cons, List.filter_cons_of_neg (by simpa using hlost)]
        rw [hskip]
        exact hinv

/-- Everyone is the list of the clients. -/
theorem everyone_fst (h : x.Inv l) : x.everyone.map Prod.fst = l := by
  rw [everyone, h.clients_eq, List.zipIdx_map_fst]

/-- No client is among the others twice. -/
theorem others_nodup (h : x.Inv l) (i : Nat) : ((x.others i).map Prod.fst).Nodup := by
  have hall : (x.everyone.map Prod.fst).Nodup := by
    rw [everyone_fst h]
    exact h.nodup
  exact hall.sublist (List.filter_sublist.map Prod.fst)

/-- The only one is not there twice. -/
theorem only_nodup (x : Server) (i : Nat) : ((x.only i).map Prod.fst).Nodup := by
  unfold only
  cases x.clients[i]? <;> simp

/-- No client is among the targets twice. -/
theorem targets_nodup (h : x.Inv l) : (x.targets.map Prod.fst).Nodup := by
  have hall : (x.everyone.map Prod.fst).Nodup := by
    rw [everyone_fst h]
    exact h.nodup
  unfold targets
  cases x.targetIndex with
  | none => exact hall
  | some i =>
      simp only
      split
      · exact only_nodup x i
      · split
        · exact others_nodup h i
        · exact hall

/-- Nobody is offered a chunk twice. -/
theorem recipients_nodup (h : x.Inv l) (a : Input) :
    ((x.recipients a).map Prod.fst).Nodup := by
  have honly : ∀ o : Option Nat, ((o.elim [] x.only).map Prod.fst).Nodup := fun o => by
    cases o with
    | none => exact List.nodup_nil
    | some i => exact only_nodup x i
  cases a with
  | broadcast argv =>
      show (x.everyone.map Prod.fst).Nodup
      rw [everyone_fst h]
      exact h.nodup
  | defaultsend argv => exact targets_nodup h
  | sendClient argv =>
      cases argv with
      | nil => exact List.nodup_nil
      | cons a rest =>
          cases rest with
          | nil => exact List.nodup_nil
          | cons b rest => exact honly _
  | sendSocket argv =>
      cases argv with
      | nil => exact List.nodup_nil
      | cons a rest =>
          simp only [recipients]
          split
          · exact honly _
          · exact List.nodup_nil
  | incoming | received | disconnectClient | disconnectSocket | disconnectAll | defaulttarget
  | targetsocket | serialize | accept | maxconnections | port | info => exact List.nodup_nil

/-! ## Dropping everybody -/

/-- The loop spares every second client behind the index. -/
theorem disconnectAllFrom_spared (pre rest : List SocketReceiver) (fuel : Nat)
    (h : x.Inv (pre ++ rest)) (hfuel : rest.length ≤ fuel) :
    (disconnectAllFrom emit x fuel pre.length).Inv (pre ++ spared rest) := by
  induction fuel generalizing x pre rest with
  | zero =>
      have hnil : rest = [] := List.length_eq_zero_iff.1 (by omega)
      subst hnil
      exact h
  | succ fuel ih =>
      cases rest with
      | nil =>
          rw [disconnectAllFrom_done h (fuel + 1) (by simp)]
          exact h
      | cons y rest =>
          have hget : (pre ++ y :: rest)[pre.length]? = some y := by simp
          have herase : (pre ++ y :: rest).eraseIdx pre.length = pre ++ rest := by
            rw [List.eraseIdx_append_of_length_le (Nat.le_refl _), Nat.sub_self,
              List.eraseIdx_cons_zero]
          have h₁ := h.dropped hget
          rw [herase] at h₁
          have hid : pre.length < x.nconnections := by
            rw [h.nconnections_eq]
            simp
          rw [disconnectAllFrom, if_pos hid, disconnect_eq h.tabled hget]
          cases rest with
          | nil =>
              rw [disconnectAllFrom_done h₁ fuel (by simp)]
              exact h₁
          | cons z rest =>
              have hassoc : pre ++ z :: rest = (pre ++ [z]) ++ rest := List.append_cons ..
              generalize x.dropped (pre ++ y :: z :: rest) pre.length y = x₁ at h₁
              have h₂ : x₁.Inv ((pre ++ [z]) ++ rest) := hassoc ▸ h₁
              have hlen : pre.length + 1 = (pre ++ [z]).length := by simp
              have hnext := ih (pre ++ [z]) rest h₂ (by simp at hfuel; omega)
              rw [hlen, spared, List.append_cons pre z (spared rest)]
              exact hnext

/-! ## One step -/

/-- Erasing by the descriptor is erasing at the index found. -/
theorem eraseP_fd (l : List SocketReceiver) (sockfd : Int) :
    (l.eraseP fun y => y.fd = sockfd) =
      match l.findIdx? fun y => y.fd = sockfd with
      | none => l
      | some i => l.eraseIdx i :=
  List.eraseP_eq_eraseIdx

/-- Who is nobody was not found. -/
theorem elim_only_eq_nil (h : x.Inv l) {o : Option Nat} (ho : ∀ i ∈ o, i < l.length)
    (hnil : o.elim [] x.only = []) : o = none := by
  cases o with
  | none => rfl
  | some i =>
      have hi := ho i rfl
      simp [only, h.clients_eq, hi] at hnil

/-- Who is the only one was found at its index. -/
theorem elim_only_eq_singleton {o : Option Nat} {i : Nat}
    (hone : o.elim [] x.only = [(y, i)]) : o = some i := by
  cases o with
  | none => contradiction
  | some j =>
      have hmem : (y, i) ∈ x.only j := by
        rw [show x.only j = [(y, i)] from hone]
        exact List.mem_cons_self
      rcases List.mem_map.1 hmem with ⟨z, _, hz⟩
      rw [(Prod.mk.inj hz).2]

/-- Leaving nobody out leaves everybody. -/
theorem filter_notMem_nil (l : List SocketReceiver) {ys : List SocketReceiver} (h : ys = []) :
    (l.filter fun y => y ∉ ys) = l := by
  subst h
  simp

/-- An input that neither drops nor accepts leaves the list alone. -/
theorem nextClients_still (h : x.Inv l) (hsmall : Small l) (hs : x.step emit env a = some x')
    (hstill : x.Still env a) : nextClients x env l a = l := by
  have hrest : x.drops env a = ((x.recipients a).filterMap fun p =>
      (x.dropFor env p.1).map fun i => (p.1, i)) →
      (l.filter fun y => y ∉ x.refusers env a) = l := by
    intro hdrops
    apply filter_notMem_nil
    rw [hstill.1, eq_comm, List.filterMap_eq_nil_iff] at hdrops
    unfold refusers
    rw [List.filter_eq_nil_iff]
    intro y hy
    rcases List.mem_map.1 hy with ⟨p, hp, rfl⟩
    have hget := mem_recipients h a hp
    have hmem := List.mem_of_getElem? hget
    have hnone := Option.map_eq_none_iff.1 (hdrops p hp)
    by_contra hfail
    have hneg : env.result p.1 < 0 := by simpa using hfail
    rw [dropFor, if_pos hneg, dropIndex_of_fits h.tabled hget (hsmall.fits h hmem)
      (number_fits hget (hsmall.length_le h))] at hnone
    contradiction
  cases a with
  | incoming fd o =>
      have hfd := hstill.2 fd o rfl
      exact if_neg fun hin => absurd hin.1 (by omega)
  | received fd c =>
      cases c with
      | some c => exact hrest rfl
      | none =>
          simp only [step] at hs
          cases hpoll : x.pollfn fd with
          | none => simp [hpoll] at hs
          | some f =>
              cases f with
              | none => simp [hpoll] at hs
              | some y =>
                  rcases h.of_pollfn hpoll with ⟨hy, hfd, _⟩
                  have hdrops := hstill.1
                  simp only [drops, hpoll] at hdrops
                  have hnone := elim_only_eq_nil h (fun i hi => dropIndex_lt h.tabled hi) hdrops
                  rw [dropIndex_eq h (hsmall.length_le h), hsmall.fits h hy, hfd] at hnone
                  rw [nextClients, eraseP_fd, hnone]
  | disconnectClient f =>
      have hnone := elim_only_eq_nil h
        (fun i hi => h.nconnections_eq ▸ (fixindex_eq_some.1 hi).2) hstill.1
      rw [nextClients]
      split
      · rename_i hpos
        apply List.eraseIdx_of_length_le
        by_contra hlt
        have hsome : x.fixindex f.toInt = some (f.toInt - 1).toNat := by
          rw [fixindex_eq_some, h.nconnections_eq]
          omega
        rw [hnone] at hsome
        contradiction
      · rfl
  | disconnectSocket f =>
      have hnone := elim_only_eq_nil h (fun i hi => dropIndex_lt h.tabled hi) hstill.1
      rw [dropIndex_eq h (hsmall.length_le h)] at hnone
      rw [nextClients, eraseP_fd, hnone]
  | disconnectAll =>
      have hnil : l = [] := by
        have heveryone : x.everyone = [] := hstill.1
        rw [← everyone_fst h, heveryone]
        rfl
      subst hnil
      rfl
  | sendSocket | sendClient | broadcast | defaultsend | defaulttarget | targetsocket
  | serialize | accept | maxconnections | port | info => exact hrest rfl

/-- A disconnect erases the one entry it is about. -/
theorem nextClients_dropped (h : x.Inv l) (hsmall : Small l)
    (hs : x.step emit env a = some x') (hkind : a.Disconnects) {i : Nat}
    (ha : x.drops env a = [(y, i)]) : nextClients x env l a = l.eraseIdx i := by
  cases a with
  | received fd c =>
      cases c with
      | some c => exact hkind.elim
      | none =>
          simp only [drops] at ha
          simp only [step] at hs
          cases hpoll : x.pollfn fd with
          | none => simp [hpoll] at hs
          | some f =>
              cases f with
              | none => simp [hpoll] at hs
              | some z =>
                  rcases h.of_pollfn hpoll with ⟨hz, hfd, _⟩
                  simp only [hpoll] at ha
                  have hsome := elim_only_eq_singleton ha
                  rw [dropIndex_eq h (hsmall.length_le h), hsmall.fits h hz, hfd] at hsome
                  rw [nextClients, eraseP_fd, hsome]
  | disconnectClient f =>
      have hsome := elim_only_eq_singleton ha
      rcases fixindex_eq_some.1 hsome with ⟨hnumber, _⟩
      rw [nextClients, if_pos (by omega)]
      congr 1
      omega
  | disconnectSocket f =>
      have hsome := elim_only_eq_singleton ha
      rw [dropIndex_eq h (hsmall.length_le h)] at hsome
      rw [nextClients, eraseP_fd, hsome]
  | incoming | disconnectAll | sendSocket | sendClient | broadcast | defaultsend
  | defaulttarget | targetsocket | serialize | accept | maxconnections | port | info =>
      exact hkind.elim

/-- One step of the table is one step of the list. -/
theorem step_nextClients (h : x.Inv l) (hsmall : Small l) (hs : x.step emit env a = some x') :
    x'.Inv (nextClients x env l a) := by
  have hsame := fun hstill => nextClients_still h hsmall hs hstill
  cases step_effect h hs with
  | settled serialize accepting port defaulttarget floatlist faults outputs hstill =>
      rw [hsame hstill]
      exact (h.settings _ _ _ _ _ _).logged outputs
  | resized n hstill hle hlt =>
      rw [hsame hstill]
      exact h.resized hle hlt
  | unbound before hstill =>
      rw [hsame hstill]
      exact h.closePort_logged before
  | failed fd before after hstill _ _ hfresh =>
      rw [hsame hstill]
      have hfresh' := FreshFd.logged hfresh before
      exact ((h.closePort_logged before).passing hfresh'.2.2 (by simp)).logged after
  | bound fd port before after hstill _ _ hfresh =>
      rw [hsame hstill]
      have hclosed := closePort_connectsocket (x.logged before)
      have hfresh' := FreshFd.logged hfresh before
      exact ((h.closePort_logged before).listening hclosed hfresh'.1 hfresh'.2.2 port).logged
        after
  | refused fd o outputs ha hout hfresh =>
      subst ha
      rw [nextClients, if_neg hout]
      exact ((h.logged _).passing hfresh.2.2 (by simp [Server.logged])).logged outputs
  | registered fd o ha hin hfresh =>
      subst ha
      rw [nextClients, if_pos hin]
      exact ((h.logged _).registered hin hfresh.2.1 hfresh.2.2).logged _
  | dropped i y hi hkind ha =>
      rw [nextClients_dropped h hsmall hs hkind ha]
      exact h.dropped hi
  | droppedAll ha =>
      subst ha
      have hfuel : l.length ≤ 2 ^ 32 := h.tabled.length_le_int.trans (by norm_num)
      exact disconnectAllFrom_spared [] l (2 ^ 32) h hfuel
  | offered hkind =>
      have hmem : ∀ p ∈ x.recipients a, p.1 ∈ l := fun p hp =>
        List.mem_of_getElem? (mem_recipients h a hp)
      have hown : ∀ p ∈ x.recipients a, Own l env p.1 := fun p hp => hsmall.own h (hmem p hp)
      have hexact := @offers_exact _ _ env (chunkCreateList env.mem a.atoms) (x.recipients a)
        (h.retargeted a) hmem (recipients_nodup h a) hown
      have hrefused : ((x.recipients a).map Prod.fst).filter (fun y => Lost env y) =
          x.refusers env a := by
        apply List.filter_congr
        intro y hy
        rcases List.mem_map.1 hy with ⟨p, hp, rfl⟩
        rw [decide_eq_decide]
        exact and_iff_left (hsmall.fits h (hmem p hp))
      rw [hrefused] at hexact
      cases a with
      | broadcast | defaultsend | sendClient | sendSocket => exact hexact.1
      | incoming | received | disconnectClient | disconnectSocket | disconnectAll
      | defaulttarget | targetsocket | serialize | accept | maxconnections | port | info =>
          exact hkind.elim

/-! ## Runs -/

/-- The table holds the clients {lit}`l`: its first slots are their entries, all
further ones are {lit}`NULL`, and no two clients share a descriptor. -/
structure Holds (x : Server) (l : List SocketReceiver) : Prop where
  slot_eq : ∀ i, x.slot i = l[i]?
  nconnections_eq : x.nconnections = l.length
  length_le : l.length ≤ x.maxconnections
  fds_nodup : (l.map SocketReceiver.fd).Nodup

/-- A table in order holds its clients. -/
theorem Inv.holds (h : x.Inv l) : x.Holds l :=
  ⟨h.slot_eq, h.nconnections_eq, h.length_le, h.fds_nodup⟩

/-- The descriptor of an accepted connection belongs to one client, or it has been
closed, once. -/
def Settled (x : Server) (l : List SocketReceiver) (p : Int × Nat) : Prop :=
  ((l.map SocketReceiver.entry).count p = 1 ∧ x.os.closed.count p.2 = 0) ∨
    ((l.map SocketReceiver.entry).count p = 0 ∧ x.os.closed.count p.2 = 1)

/-- No connection is entered twice. -/
theorem Inv.entries_nodup (h : x.Inv l) : (l.map SocketReceiver.entry).Nodup := by
  apply List.Nodup.of_map Prod.fst
  rw [List.map_map]
  exact h.fds_nodup

/-- An accepted descriptor that is open is a client's. -/
theorem Inv.mem_entries (h : x.Inv l) {p : Int × Nat} (hp : p ∈ x.accepted) {fd : Int}
    (hlive : (fd, p.2) ∈ x.os.live) : p ∈ l.map SocketReceiver.entry := by
  have hfd := h.accepted_fd p hp fd hlive
  rcases h.live with ⟨ports, hperm, hports⟩
  rw [hfd] at hlive
  cases List.mem_append.1 (hperm.mem_iff.1 hlive) with
  | inl hclient => exact hclient
  | inr hport =>
      cases hports with
      | inl hclosed =>
          rw [hclosed.2] at hport
          contradiction
      | inr hopened =>
          rcases hopened with ⟨_, k, hk, rfl⟩
          have heq : p.2 = k := (Prod.mk.inj (List.mem_singleton.1 hport)).2
          exact absurd (List.mem_map_of_mem hp) (heq ▸ hk)

/-- Every accepted connection is open as a client or closed. -/
theorem Inv.settled (h : x.Inv l) {p : Int × Nat} (hp : p ∈ x.accepted) : x.Settled l p := by
  cases h.accounted.open_or_closed (h.accepted_lt p hp) with
  | inl hopen =>
      rcases hopen with ⟨⟨fd, hlive⟩, hcount⟩
      exact Or.inl ⟨List.count_eq_one_of_mem h.entries_nodup (h.mem_entries hp hlive), hcount⟩
  | inr hclosed =>
      refine Or.inr ⟨List.count_eq_zero_of_not_mem fun hentry => ?_, hclosed.2⟩
      rcases List.mem_map.1 hentry with ⟨y, hy, rfl⟩
      exact hclosed.1 y.fd (h.mem_live hy)

/-- Who is spared was there before. -/
theorem mem_spared {l : List SocketReceiver} (hy : y ∈ spared l) : y ∈ l := by
  induction l using spared.induct with
  | case1 => exact hy
  | case2 => contradiction
  | case3 z w l ih =>
      cases List.mem_cons.1 hy with
      | inl heq => exact heq ▸ List.mem_cons_of_mem z List.mem_cons_self
      | inr hrest => exact List.mem_cons_of_mem z (List.mem_cons_of_mem w (ih hrest))

/-- Only a connection adds a client. -/
theorem mem_nextClients (hy : y ∈ nextClients x env l a) :
    y ∈ l ∨ ∃ fd o, a = .incoming fd o ∧ y = x.newClient o := by
  cases a with
  | incoming fd o =>
      simp only [nextClients] at hy
      split at hy
      · cases List.mem_append.1 hy with
        | inl hold => exact Or.inl hold
        | inr hnew => exact Or.inr ⟨fd, o, rfl, List.mem_singleton.1 hnew⟩
      · exact Or.inl hy
  | received fd c =>
      cases c with
      | none => exact Or.inl (List.mem_of_mem_eraseP hy)
      | some c => exact Or.inl (List.mem_of_mem_filter hy)
  | disconnectClient f =>
      simp only [nextClients] at hy
      split at hy
      · exact Or.inl (List.mem_of_mem_eraseIdx hy)
      · exact Or.inl hy
  | disconnectSocket f => exact Or.inl (List.mem_of_mem_eraseP hy)
  | disconnectAll => exact Or.inl (mem_spared hy)
  | sendSocket | sendClient | broadcast | defaultsend | defaulttarget | targetsocket
  | serialize | accept | maxconnections | port | info =>
      exact Or.inl (List.mem_of_mem_filter hy)

/-- The descriptors of new connections fit a float. -/
def SmallFd (_ : Server) (e : Env × Input) : Prop :=
  ∀ fd o, e.2 = .incoming fd o → o.fd < 2 ^ 24

/-- The descriptors stay small as long as the new ones are. -/
theorem Small.next (hsmall : Small l) (hok : SmallFd x (env, a)) :
    Small (nextClients x env l a) := by
  intro y hy
  cases mem_nextClients hy with
  | inl hold => exact hsmall y hold
  | inr hnew =>
      rcases hnew with ⟨fd, o, ha, rfl⟩
      exact hok fd o ha

/-- The table of a reachable server holds small descriptors only. -/
theorem reach_small (h : tcpserverMachine.Reach SmallFd x) : ∃ l, x.Inv l ∧ Small l := by
  apply h.invariant (I := fun x => ∃ l, x.Inv l ∧ Small l)
  · rintro x ⟨abi, env, f, o, ho, rfl⟩
    have hs : (blank abi env).step emit env (.port f o) = some (new emit abi env f o) := by
      simp only [step, ho, if_true]
      rfl
    have hnone : Small [] := fun _ hy => absurd hy List.not_mem_nil
    exact ⟨_, step_nextClients (inv_blank abi env) hnone hs, hnone.next (by rintro _ _ ⟨⟩)⟩
  · rintro x ⟨env, a⟩ x' _ ⟨l, hl, hsmall⟩ hok hs
    exact ⟨_, step_nextClients hl hsmall hs, hsmall.next hok⟩

end Server

/-- In every run with descriptors below 2^24 the table holds a list of clients, every
accepted descriptor is accounted for, and each step acts on the list. -/
theorem table_refines_list {x : Server} (h : tcpserverMachine.Reach Server.SmallFd x) :
    ∃ l, x.Holds l ∧ (∀ p ∈ x.accepted, x.Settled l p) ∧
      ∀ env a x', tcpserverMachine.step x (env, a) = some x' →
        x'.Holds (x.nextClients env l a) := by
  rcases Server.reach_small h with ⟨l, hl, hsmall⟩
  exact ⟨l, hl.holds, fun p hp => hl.settled hp, fun env a x' hs =>
    (Server.step_nextClients hl hsmall hs).holds⟩

/-- Two clients connect, and the first one leaves. -/
def firstLeaves : List (Env × Input) :=
  [(Server.plainEnv [], .incoming 3 (Server.caller 5)),
    (Server.plainEnv [], .incoming 3 (Server.caller 6)),
    (Server.plainEnv [], .disconnectClient ⟨1, 0#32⟩)]

/-- Two clients connect and the first one leaves; the list holds the second one. -/
theorem table_refines_list_run :
    ∃ x, tcpserverMachine.run Server.started firstLeaves = some x ∧
      x.accepted = [(5, 1), (6, 2)] ∧ x.os.closed = [1] ∧
      ∃ l, x.Holds l ∧ ∀ p ∈ x.accepted, x.Settled l p := by
  have hrun : tcpserverMachine.run Server.started firstLeaves = some _ := rfl
  have hsmall : tcpserverMachine.RunMeets Server.SmallFd Server.started firstLeaves := by
    apply Foundations.Machine.runMeets_of_forall
      (p := fun e : Env × Input => ∀ fd o, e.2 = .incoming fd o → o.fd < 2 ^ 24)
    intro e he fd o heq
    simp only [firstLeaves, List.mem_cons, List.not_mem_nil, or_false] at he
    rcases he with rfl | rfl | rfl
    · cases heq
      decide
    · cases heq
      decide
    · contradiction
  have hreach := Foundations.Machine.Reach.run (.start Server.init_started) hsmall hrun
  rcases table_refines_list hreach with ⟨l, hholds, hsettled, _⟩
  exact ⟨_, hrun, by decide +kernel, by decide +kernel, l, hholds, hsettled⟩

end Iemnet.TcpServer
