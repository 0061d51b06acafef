import Iemnet.TcpServer.Refinement

/-!
# A broadcast with failing clients

{lit}`tcpserver_broadcast` walks a snapshot of the table, while every failed send looks
the client up again and takes it out of the table.  The descriptor and the client number
are passed on as floats.

Main results:

- Theorem {lit}`exactlyOnce_offers_iff`: a walk over some of the clients serves each of
  them once and drops those that failed exactly if every failed client is looked up as
  itself.
- Theorem {lit}`broadcast_exactly_once_iff`: the same for the two messages.
-/

namespace Iemnet.TcpServer

open Pd Foundations

namespace Server

variable {x x' : Server} {l : List SocketReceiver} {y : SocketReceiver} {env : Env}
  {chunk : Option Chunk} {sought : SocketReceiver × Nat → Bool}

/-- The clients that stay, where those that are {lit}`sought` are sent something. -/
def kept (env : Env) (sought : SocketReceiver × Nat → Bool) (ps : List (SocketReceiver × Nat)) :
    List SocketReceiver :=
  (ps.filter fun p => ¬ (sought p ∧ env.result p.1 < 0)).map Prod.fst

/-- No freed socketreceiver has been read on the way from {lit}`x` to {lit}`x'`. -/
def Unharmed (x x' : Server) : Prop :=
  ∃ faults, x'.faults = x.faults ++ faults ∧ ∀ id, Fault.useAfterFree id ∉ faults

/-- Each client that is {lit}`sought` has been given the chunk once and in the order of
the table, and the table holds the others and those that took it. -/
structure ExactlyOnce (env : Env) (chunk : Option Chunk)
    (sought : SocketReceiver × Nat → Bool) (x x' : Server) : Prop where
  sends : x'.sends = x.sends ++
    (x.everyone.filter sought).map fun p => (p.1, chunk, env.result p.1)
  unharmed : x.Unharmed x'
  nconnections : x'.nconnections = (kept env sought x.everyone).length
  slots : ∀ i, x'.slot i = (kept env sought x.everyone)[i]?

/-- The number that {lit}`tcpserver_disconnect_socket` makes of the descriptor of
{lit}`y`, both having gone through a float, is that of index {lit}`i`. -/
def LeadsTo (l : List SocketReceiver) (y : SocketReceiver) (i : Nat) : Prop :=
  (l.findIdx? fun z => z.fd = (FloatArg.ofInt y.fd).toInt).map
    (fun id : Nat => (FloatArg.ofInt ((id : Int) + 1)).toInt) = some ((i : Int) + 1)

instance (l : List SocketReceiver) (y : SocketReceiver) (i : Nat) :
    Decidable (LeadsTo l y i) :=
  inferInstanceAs (Decidable (_ = _))

/-- Every client that is {lit}`sought` has a sender.  If the send fails, its descriptor
leads to itself in the table of that moment, in which {lit}`kept` of the clients in front
of it are left. -/
def LedBack (env : Env) (sought : SocketReceiver × Nat → Bool)
    (ps : List (SocketReceiver × Nat)) : Prop :=
  ∀ p ∈ ps, sought p → p.1.hasSender ∧ (env.sent p.1.id < 0 →
    LeadsTo (kept env sought (ps.take p.2) ++ (ps.drop p.2).map Prod.fst) p.1
      (kept env sought (ps.take p.2)).length)

instance (env : Env) (sought : SocketReceiver × Nat → Bool)
    (ps : List (SocketReceiver × Nat)) : Decidable (LedBack env sought ps) :=
  inferInstanceAs (Decidable (∀ p ∈ ps, _))

/-! ## The clients that stay -/

/-- Who stays is found out one after the other. -/
theorem kept_append (env : Env) (sought : SocketReceiver × Nat → Bool)
    (ps qs : List (SocketReceiver × Nat)) :
    kept env sought (ps ++ qs) = kept env sought ps ++ kept env sought qs := by
  simp [kept]

/-- A client stays unless the send to it fails. -/
theorem kept_singleton (p : SocketReceiver × Nat) :
    kept env sought [p] = if sought p ∧ env.result p.1 < 0 then [] else [p.1] := by
  by_cases hp : sought p ∧ env.result p.1 < 0
  · simp [kept, hp]
  · rw [if_neg hp, kept, List.filter_singleton, decide_eq_true hp]
    rfl

/-- Who does not fail stays. -/
theorem mem_kept {ps : List (SocketReceiver × Nat)} {p : SocketReceiver × Nat} (hp : p ∈ ps)
    (hstays : ¬ (sought p ∧ env.result p.1 < 0)) : p.1 ∈ kept env sought ps :=
  List.mem_map_of_mem (List.mem_filter.2 ⟨hp, decide_eq_true hstays⟩)

/-- The clients whose send failed are those that do not stay. -/
theorem length_kept (env : Env) (sought : SocketReceiver × Nat → Bool)
    (ps : List (SocketReceiver × Nat)) :
    (kept env sought ps).length +
      ((ps.filter sought).filter fun p => env.result p.1 < 0).length = ps.length := by
  induction ps with
  | nil => rfl
  | cons p ps ih =>
      have hsplit := kept_append env sought [p] ps
      rw [List.singleton_append] at hsplit
      rw [hsplit, kept_singleton, List.length_append, List.length_cons, ← ih]
      by_cases hs : sought p
      · by_cases hfail : env.result p.1 < 0
        · simp [hs, hfail]
          omega
        · simp [hs, hfail]
          omega
      · simp [hs]
        omega

/-! ## Unharmed servers -/

/-- Where nothing happens nobody is harmed. -/
theorem Unharmed.refl (x : Server) : x.Unharmed x :=
  ⟨[], (List.append_nil _).symm, fun _ hid => absurd hid (List.not_mem_nil)⟩

/-- Who does no harm twice does none. -/
theorem Unharmed.trans {x₁ x₂ x₃ : Server} (h : x₁.Unharmed x₂) (h' : x₂.Unharmed x₃) :
    x₁.Unharmed x₃ := by
  rcases h with ⟨faults, hfaults, hnone⟩
  rcases h' with ⟨faults', hfaults', hnone'⟩
  refine ⟨faults ++ faults', by rw [hfaults', hfaults, List.append_assoc], fun id hid => ?_⟩
  cases List.mem_append.1 hid with
  | inl hin => exact hnone id hin
  | inr hin => exact hnone' id hin

/-- Removing a client reads no freed client. -/
theorem unharmed_dropped (x : Server) (l : List SocketReceiver) (i : Nat)
    (y : SocketReceiver) : x.Unharmed (x.dropped l i y) := by
  refine ⟨x.overrun, rfl, fun id hid => ?_⟩
  unfold overrun at hid
  cases List.mem_append.1 hid with
  | inl hin =>
      split at hin
      · cases List.mem_singleton.1 hin
      · contradiction
  | inr hin =>
      split at hin
      · cases List.mem_singleton.1 hin
      · contradiction

/-! ## One offer -/

/-- A client is found under its descriptor exactly if the float leads to its slot. -/
theorem leadsTo_iff (h : x.Tabled l) {i : Nat} (hi : i < l.length) :
    LeadsTo l y i ↔ x.dropIndex (FloatArg.ofInt y.fd) = some i := by
  rw [LeadsTo, dropIndex, h.clients_eq, Option.map_eq_some_iff, Option.bind_eq_some_iff]
  apply exists_congr
  intro id
  rw [fixindex_eq_some, h.nconnections_eq]
  exact and_congr_right fun _ => ⟨fun heq => ⟨heq, hi⟩, fun heq => heq.1⟩

/-- A client that is still there is offered the chunk. -/
theorem offer_present (env : Env) (chunk : Option Chunk) (h : x.Tabled l)
    {p : SocketReceiver × Nat} (hp : p.1.id ∉ x.freed) :
    x.offer env chunk p =
      match x.dropFor env p.1 with
      | none => x.attempted env chunk p
      | some i =>
          match l[i]? with
          | none => x.attempted env chunk p
          | some z => (x.attempted env chunk p).dropped l i z := by
  rw [offer_of_notMem h hp]
  cases hdrop : x.dropFor env p.1 with
  | none => rfl
  | some i =>
      have hget := List.getElem?_eq_getElem (dropFor_lt h hdrop)
      have h₁ := h.quiet (quiet_attempted env chunk x p)
      simp only [hget, disconnect_eq h₁ hget]

/-- The offer that is made to a client with a sender, which is dropped if the send fails
and its descriptor leads back to it. -/
theorem offer_ledBack (env : Env) (chunk : Option Chunk) {pre post : List SocketReceiver}
    {p : SocketReceiver × Nat}
    (h : x.Tabled (pre ++ p.1 :: post)) (hsender : p.1.hasSender)
    (hback : env.result p.1 < 0 → LeadsTo (pre ++ p.1 :: post) p.1 pre.length) :
    (x.offer env chunk p).Tabled
        (pre ++ if env.result p.1 < 0 then post else p.1 :: post) ∧
      (x.offer env chunk p).sends = x.sends ++ [(p.1, chunk, env.result p.1)] ∧
      x.Unharmed (x.offer env chunk p) := by
  have hmem : p.1 ∈ pre ++ p.1 :: post := by simp
  have hq := quiet_attempted env chunk x p
  have hsends : (x.attempted env chunk p).sends = x.sends ++ [(p.1, chunk, env.result p.1)] :=
    if_pos hsender
  rw [offer_present env chunk h (h.notFreed p.1 hmem), dropFor]
  by_cases hfail : env.result p.1 < 0
  · have hget : (pre ++ p.1 :: post)[pre.length]? = some p.1 := by simp
    have hlt : pre.length < (pre ++ p.1 :: post).length := by simp
    have herase : (pre ++ p.1 :: post).eraseIdx pre.length = pre ++ post := by
      rw [List.eraseIdx_append_of_length_le (Nat.le_refl _), Nat.sub_self,
        List.eraseIdx_cons_zero]
    have hindex := (leadsTo_iff h hlt).1 (hback hfail)
    simp only [if_pos hfail, hindex, hget]
    have hdropped := (h.quiet hq).dropped hget
    rw [herase] at hdropped
    exact ⟨hdropped, hsends, unharmed_dropped _ _ _ _⟩
  · simp only [if_neg hfail]
    exact ⟨h.quiet hq, hsends, Unharmed.refl x⟩

/-! ## Any offers -/

/-- What holds of any offers: nobody comes back, a failed send takes out one client at
most, and offering to a freed client is recorded. -/
structure Thinned (env : Env) (ps : List (SocketReceiver × Nat)) (l : List SocketReceiver)
    (x x' : Server) (l' : List SocketReceiver) : Prop where
  tabled : x'.Tabled l'
  length_le : l.length ≤ l'.length + (ps.filter fun p => env.result p.1 < 0).length
  sends_le : x'.sends.length ≤ x.sends.length + (ps.filter fun p => p.1.hasSender).length
  freed : x.freed ⊆ x'.freed
  faults : x.faults <+: x'.faults
  harmed : x.Unharmed x' → ∀ p ∈ ps, p.1.id ∉ x.freed

/-- If nothing goes wrong in the whole, it does not in the parts. -/
theorem Unharmed.split {x₁ x₂ x₃ : Server} (h : x₁.Unharmed x₃)
    (h₁ : x₁.faults <+: x₂.faults) (h₂ : x₂.faults <+: x₃.faults) :
    x₁.Unharmed x₂ ∧ x₂.Unharmed x₃ := by
  rcases h with ⟨faults, hfaults, hnone⟩
  rcases h₁ with ⟨before, hbefore⟩
  rcases h₂ with ⟨after, hafter⟩
  have hsplit : before ++ after = faults := by
    rw [← hafter, ← hbefore, List.append_assoc] at hfaults
    exact List.append_cancel_left hfaults
  subst hsplit
  exact ⟨⟨before, hbefore.symm, fun id hid => hnone id (List.mem_append_left _ hid)⟩,
    ⟨after, hafter.symm, fun id hid => hnone id (List.mem_append_right _ hid)⟩⟩

/-- Offering to a freed client is recorded. -/
theorem harmed_offer (env : Env) (chunk : Option Chunk) (h : x.Tabled l)
    {p : SocketReceiver × Nat} (hp : p.1.id ∈ x.freed) :
    (x.offer env chunk p).faults = x.faults ++ [.useAfterFree p.1.id] ∧
      (x.offer env chunk p).sends = x.sends := by
  have hnone : (x.current p.1).hasSender = false := by
    rw [current, if_pos hp]
  have haccess : x.access p.1 = x.fault (.useAfterFree p.1.id) := if_pos hp
  rw [offer_freed h hp, haccess]
  refine ⟨rfl, ?_⟩
  show (if (x.current p.1).hasSender then _ else x.sends) = x.sends
  rw [hnone]
  rfl

/-- An attempt is one send, if there is a sender. -/
theorem length_sends_attempted (env : Env) (chunk : Option Chunk) (x : Server)
    (p : SocketReceiver × Nat) :
    (x.attempted env chunk p).sends.length =
      x.sends.length + ([p].filter fun p => p.1.hasSender).length := by
  by_cases hsender : p.1.hasSender <;> simp [attempted, logged, hsender]

/-- Offering a chunk to a client removes this client at most. -/
theorem thinned_offer (env : Env) (chunk : Option Chunk) (h : x.Tabled l)
    (p : SocketReceiver × Nat) :
    ∃ l', Thinned env [p] l x (x.offer env chunk p) l' := by
  by_cases hp : p.1.id ∈ x.freed
  · rcases harmed_offer env chunk h hp with ⟨hfaults, hsends⟩
    have hq := (quiet_access x p.1).trans
      (quiet_attempted env chunk (x.access p.1) (x.current p.1, p.2))
    rw [← offer_freed h hp] at hq
    refine ⟨l, h.quiet hq, Nat.le_add_right _ _, ?_, ?_, ⟨_, hfaults.symm⟩, ?_⟩
    · rw [hsends]
      exact Nat.le_add_right _ _
    · obtain ⟨log, faults, sends, floatlist, heq, _⟩ := hq
      rw [heq]
      exact List.Subset.refl _
    · rintro ⟨faults, heq, hnone⟩
      rw [hfaults, List.append_cancel_left_eq] at heq
      exact absurd (heq ▸ List.mem_singleton_self _) (hnone p.1.id)
  · have hq := quiet_attempted env chunk x p
    have hsends := length_sends_attempted env chunk x p
    have hharmed : ∀ q ∈ [p], q.1.id ∉ x.freed := fun q hq => List.mem_singleton.1 hq ▸ hp
    have hsame : Thinned env [p] l x (x.attempted env chunk p) l :=
      ⟨h.quiet hq, Nat.le_add_right _ _, hsends.le, List.Subset.refl _, List.prefix_rfl,
        fun _ => hharmed⟩
    rw [offer_present env chunk h hp]
    cases hdrop : x.dropFor env p.1 with
    | none => exact ⟨l, hsame⟩
    | some i =>
        have hi := dropFor_lt h hdrop
        have hget := List.getElem?_eq_getElem hi
        have hfail : env.result p.1 < 0 := by
          by_contra hok
          rw [dropFor, if_neg hok] at hdrop
          contradiction
        simp only [hget]
        refine ⟨l.eraseIdx i, (h.quiet hq).dropped hget, ?_, hsends.le,
          List.subset_append_left _ _, List.prefix_append _ _, fun _ => hharmed⟩
        rw [List.length_eraseIdx_of_lt hi]
        simp [hfail]
        omega

/-- Offering a chunk to many removes some of them at most. -/
theorem thinned_offers (env : Env) (chunk : Option Chunk)
    (ps : List (SocketReceiver × Nat)) (h : x.Tabled l) :
    ∃ l', Thinned env ps l x (ps.foldl (offer env chunk) x) l' := by
  induction ps generalizing x l with
  | nil =>
      exact ⟨l, h, Nat.le_refl _, Nat.le_refl _, List.Subset.refl _, List.prefix_rfl,
        fun _ p hp => absurd hp List.not_mem_nil⟩
  | cons p ps ih =>
      rcases thinned_offer env chunk h p with ⟨l₁, h₁⟩
      rcases ih h₁.tabled with ⟨l', h'⟩
      have hlength := h₁.length_le
      have hlength' := h'.length_le
      have hsends := h₁.sends_le
      have hsends' := h'.sends_le
      refine ⟨l', h'.tabled, ?_, ?_, List.Subset.trans h₁.freed h'.freed,
        h₁.faults.trans h'.faults, ?_⟩
      · rw [← List.singleton_append, List.filter_append, List.length_append]
        omega
      · rw [← List.singleton_append, List.filter_append, List.length_append]
        rw [List.singleton_append, List.foldl_cons]
        omega
      · intro hun q hq
        rcases hun.split h₁.faults h'.faults with ⟨hun₁, hun'⟩
        rcases List.mem_cons.1 hq with rfl | hrest
        · exact h₁.harmed hun₁ q List.mem_cons_self
        · exact fun hfreed => h'.harmed hun' q hrest (h₁.freed hfreed)

/-! ## Walking over the snapshot -/

/-- The condition for one client, with the clients {lit}`done` in front of it and
{lit}`rest` behind it in the snapshot. -/
def Served (env : Env) (sought : SocketReceiver × Nat → Bool)
    (done : List (SocketReceiver × Nat)) (p : SocketReceiver × Nat)
    (rest : List (SocketReceiver × Nat)) : Prop :=
  sought p → p.1.hasSender ∧ (env.result p.1 < 0 →
    LeadsTo (kept env sought done ++ p.1 :: rest.map Prod.fst) p.1 (kept env sought done).length)

/-- Another client in line stays or goes. -/
theorem kept_concat (done : List (SocketReceiver × Nat)) (p : SocketReceiver × Nat)
    (rest : List SocketReceiver) :
    kept env sought (done ++ [p]) ++ rest =
      kept env sought done ++
        if sought p ∧ env.result p.1 < 0 then rest else p.1 :: rest := by
  rw [kept_append, kept_singleton, List.append_assoc]
  split <;> rfl

/-- The first client of a walk has been offered the chunk, if it is sought. -/
theorem walk_step (chunk : Option Chunk) {done rest : List (SocketReceiver × Nat)}
    {p : SocketReceiver × Nat}
    (h : x.Tabled (kept env sought done ++ (p :: rest).map Prod.fst))
    (hserved : Served env sought done p rest) :
    ∃ x₁, ((p :: rest).filter sought).foldl (offer env chunk) x =
        (rest.filter sought).foldl (offer env chunk) x₁ ∧
      x₁.Tabled (kept env sought (done ++ [p]) ++ rest.map Prod.fst) ∧
      x₁.sends = x.sends ++ ([p].filter sought).map (fun p => (p.1, chunk, env.result p.1)) ∧
      x.Unharmed x₁ := by
  rw [List.map_cons] at h
  by_cases hs : sought p
  · rcases hserved hs with ⟨hsender, hback⟩
    have hoffer := offer_ledBack env chunk h hsender hback
    refine ⟨x.offer env chunk p, by rw [List.filter_cons_of_pos hs, List.foldl_cons], ?_⟩
    rw [kept_concat, List.filter_cons_of_pos hs]
    simpa [hs] using hoffer
  · refine ⟨x, by rw [List.filter_cons_of_neg hs], ?_⟩
    rw [kept_concat, if_neg fun hboth => hs hboth.1, List.filter_cons_of_neg hs]
    exact ⟨h, (List.append_nil _).symm, Unharmed.refl x⟩

/-- If the condition holds for each client of a walk, all are served. -/
theorem walk_exact (chunk : Option Chunk) (done rest : List (SocketReceiver × Nat))
    (h : x.Tabled (kept env sought done ++ rest.map Prod.fst))
    (hserved : ∀ mid p post, rest = mid ++ p :: post → Served env sought (done ++ mid) p post) :
    ((rest.filter sought).foldl (offer env chunk) x).Tabled (kept env sought (done ++ rest)) ∧
      ((rest.filter sought).foldl (offer env chunk) x).sends =
        x.sends ++ (rest.filter sought).map (fun p => (p.1, chunk, env.result p.1)) ∧
      x.Unharmed ((rest.filter sought).foldl (offer env chunk) x) := by
  induction rest generalizing x done with
  | nil =>
      rw [List.map_nil, List.append_nil] at h
      rw [List.append_nil]
      exact ⟨h, (List.append_nil _).symm, Unharmed.refl x⟩
  | cons p rest ih =>
      have hfirst := hserved [] p rest rfl
      rw [List.append_nil] at hfirst
      rcases walk_step chunk h hfirst with ⟨x₁, heq, h₁, hsends, hun⟩
      rcases ih (done ++ [p]) h₁ fun mid q post hrest => by
        have hq := hserved (p :: mid) q post (by rw [hrest, List.cons_append])
        rwa [List.append_cons] at hq with ⟨htabled, hsends', hun'⟩
      rw [heq, List.append_cons]
      refine ⟨htabled, ?_, hun.trans hun'⟩
      rw [hsends', hsends, List.append_assoc, ← List.map_append, ← List.filter_append,
        List.singleton_append]

/-- A walk that ends as it should has looked up its first client as itself. -/
theorem served_of_walk {done rest : List (SocketReceiver × Nat)} {p : SocketReceiver × Nat}
    (h : x.Tabled (kept env sought done ++ (p :: rest).map Prod.fst))
    (hsenders : ∀ q ∈ (p :: rest).filter sought, q.1.hasSender)
    (hend : (((p :: rest).filter sought).foldl (offer env chunk) x).Tabled
      (kept env sought (done ++ p :: rest)))
    (hun : x.Unharmed (((p :: rest).filter sought).foldl (offer env chunk) x)) :
    Served env sought done p rest := by
  intro hs
  refine ⟨hsenders p (List.mem_filter.2 ⟨List.mem_cons_self, hs⟩), fun hfail => ?_⟩
  rw [List.map_cons] at h
  have hlt : (kept env sought done).length <
      (kept env sought done ++ p.1 :: rest.map Prod.fst).length := by simp
  have hgone : kept env sought (done ++ p :: rest) =
      kept env sought done ++ kept env sought rest := by
    rw [List.append_cons, kept_append, kept_append, kept_singleton, if_pos ⟨hs, hfail⟩,
      List.append_nil]
  rw [hgone, List.filter_cons_of_pos hs, List.foldl_cons] at hend
  rw [List.filter_cons_of_pos hs, List.foldl_cons] at hun
  have hoffer := offer_present env chunk h (h.notFreed p.1 (by simp))
  rw [dropFor, if_pos hfail] at hoffer
  rw [leadsTo_iff h hlt]
  cases hdrop : x.dropIndex (FloatArg.ofInt p.1.fd) with
  | none =>
      -- nobody has been dropped, so one client too many is left
      simp only [hdrop] at hoffer
      have h₁ := h.quiet (quiet_attempted env chunk x p)
      rw [← hoffer] at h₁
      rcases thinned_offers env chunk (rest.filter sought) h₁ with ⟨l', h'⟩
      have hlength := h'.length_le
      have hcount := length_kept env sought rest
      rw [← h'.tabled.clients_eq, hend.clients_eq] at hlength
      simp only [List.length_append, List.length_cons, List.length_map] at hlength
      omega
  | some i =>
      by_contra hother
      have hne : i ≠ (kept env sought done).length := fun heq => hother (congrArg some heq)
      have hi := dropIndex_lt h hdrop
      have hget := List.getElem?_eq_getElem hi
      generalize (kept env sought done ++ p.1 :: rest.map Prod.fst)[i] = z at hget
      simp only [hdrop, hget] at hoffer
      have h₁ := (h.quiet (quiet_attempted env chunk x p)).dropped hget
      rw [← hoffer] at h₁
      have hz : z.id ∈ (x.offer env chunk p).freed := by
        rw [hoffer]
        exact List.mem_append_right _ (List.mem_singleton_self _)
      rcases thinned_offers env chunk (rest.filter sought) h₁ with ⟨l', h'⟩
      have hgrown : x.faults <+: (x.offer env chunk p).faults := by
        rw [hoffer]
        exact List.prefix_append _ _
      have hout : z ∉ kept env sought done ++ kept env sought rest := fun hmem =>
        hend.notFreed z hmem (h'.freed hz)
      rcases Nat.lt_or_ge i (kept env sought done).length with hbefore | hafter
      · rw [List.getElem?_append_left hbefore] at hget
        exact hout (List.mem_append_left _ (List.mem_of_getElem? hget))
      · have hrest : z ∈ rest.map Prod.fst := by
          rw [List.getElem?_append_right hafter] at hget
          obtain ⟨j, hj⟩ : ∃ j, i - (kept env sought done).length = j + 1 :=
            ⟨i - (kept env sought done).length - 1, by omega⟩
          rw [hj, List.getElem?_cons_succ] at hget
          exact List.mem_of_getElem? hget
        rcases List.mem_map.1 hrest with ⟨q, hq, rfl⟩
        by_cases hstays : sought q ∧ env.result q.1 < 0
        · exact h'.harmed (hun.split hgrown h'.faults).2 q
            (List.mem_filter.2 ⟨hq, hstays.1⟩) hz
        · exact hout (List.mem_append_right _ (mem_kept hq hstays))

/-- If the walk ends with the right table, every client of it was served. -/
theorem walk_served (done rest : List (SocketReceiver × Nat))
    (h : x.Tabled (kept env sought done ++ rest.map Prod.fst))
    (hsenders : ∀ q ∈ rest.filter sought, q.1.hasSender)
    (hend : ((rest.filter sought).foldl (offer env chunk) x).Tabled
      (kept env sought (done ++ rest)))
    (hun : x.Unharmed ((rest.filter sought).foldl (offer env chunk) x)) :
    ∀ mid p post, rest = mid ++ p :: post → Served env sought (done ++ mid) p post := by
  induction rest generalizing x done with
  | nil =>
      intro mid p post hrest
      simp at hrest
  | cons q rest ih =>
      have hfirst := served_of_walk h hsenders hend hun
      intro mid p post hrest
      cases mid with
      | nil =>
          obtain ⟨rfl, rfl⟩ := List.cons.inj hrest
          rwa [List.append_nil]
      | cons r mid =>
          obtain ⟨rfl, hpost⟩ := List.cons.inj hrest
          rcases walk_step chunk h hfirst with ⟨x₁, heq, h₁, _, hun₁⟩
          rw [heq] at hend hun
          rw [List.append_cons] at hend ⊢
          rcases thinned_offers env chunk (rest.filter sought) h₁ with
            ⟨l', h'⟩
          have hgrown : x.faults <+: x₁.faults := hun₁.imp fun _ hf => hf.1.symm
          refine ih (done ++ [q]) h₁ (fun p hp => hsenders p ?_) hend
            (hun.split hgrown h'.faults).2 mid p post hpost
          rw [List.mem_filter] at hp ⊢
          exact ⟨List.mem_cons_of_mem _ hp.1, hp.2⟩

/-! ## The whole snapshot -/

/-- With a sender the result is that of the send. -/
theorem result_of_hasSender (hsender : y.hasSender) : env.result y = env.sent y.id :=
  if_pos hsender

/-- Everybody is led back exactly if everybody is served. -/
theorem ledBack_iff (l : List SocketReceiver) :
    LedBack env sought l.zipIdx ↔
      ∀ done p rest, l.zipIdx = done ++ p :: rest → Served env sought done p rest := by
  have hsplit : ∀ done p rest, l.zipIdx = done ++ p :: rest → p ∈ l.zipIdx ∧
      l.zipIdx.take p.2 = done ∧ l.zipIdx.drop p.2 = p :: rest := by
    intro done p rest hl
    have hget : l.zipIdx[done.length]? = some p := by rw [hl]; simp
    rw [List.getElem?_zipIdx, Option.map_eq_some_iff] at hget
    rcases hget with ⟨y, _, rfl⟩
    simp [hl]
  have hiff : ∀ done p rest, l.zipIdx = done ++ p :: rest →
      ((sought p → p.1.hasSender ∧ (env.sent p.1.id < 0 →
        LeadsTo (kept env sought (l.zipIdx.take p.2) ++ (l.zipIdx.drop p.2).map Prod.fst) p.1
          (kept env sought (l.zipIdx.take p.2)).length)) ↔ Served env sought done p rest) := by
    intro done p rest hl
    rcases hsplit done p rest hl with ⟨_, htake, hdrop⟩
    rw [htake, hdrop, List.map_cons]
    refine imp_congr_right fun _ => and_congr_right fun hsender => ?_
    rw [result_of_hasSender hsender]
  constructor
  · intro hback done p rest hl
    exact (hiff done p rest hl).1 (hback p (hsplit done p rest hl).1)
  · intro hserved p hp
    rcases List.append_of_mem hp with ⟨done, rest, hl⟩
    exact (hiff done p rest hl).2 (hserved done p rest hl)

/-- A walk over the clients that are {lit}`sought` serves each of them once, reads no
freed socketreceiver and drops those that failed, exactly if every client that failed is
looked up as itself. -/
theorem exactlyOnce_offers_iff (env : Env) (chunk : Option Chunk)
    (sought : SocketReceiver × Nat → Bool) (h : x.Tabled l) :
    x.ExactlyOnce env chunk sought ((x.everyone.filter sought).foldl (offer env chunk) x) ↔
      LedBack env sought x.everyone := by
  have hwhole : x.Tabled (kept env sought [] ++ l.zipIdx.map Prod.fst) := by
    rw [List.zipIdx_map_fst]
    exact h
  rw [everyone, h.clients_eq, ledBack_iff]
  constructor
  · rintro ⟨hsends, hun, _, hslots⟩
    rw [everyone, h.clients_eq] at hsends hslots
    rcases thinned_offers env chunk (l.zipIdx.filter sought) h with
      ⟨l', h'⟩
    have hend : l' = kept env sought l.zipIdx := by
      ext i : 1
      rw [← hslots, h'.tabled.slot_eq]
    have hall : ((l.zipIdx.filter sought).filter fun p => p.1.hasSender) =
        l.zipIdx.filter sought := by
      apply List.filter_sublist.eq_of_length_le
      have hle := h'.sends_le
      rw [hsends, List.length_append, List.length_map] at hle
      omega
    exact walk_served [] l.zipIdx hwhole (fun p hp => List.filter_eq_self.1 hall p hp)
      (hend ▸ h'.tabled) hun
  · intro hserved
    rcases walk_exact chunk [] l.zipIdx hwhole hserved with ⟨hend, hsends, hun⟩
    constructor
    case sends =>
      rw [everyone, h.clients_eq]
      exact hsends
    case unharmed => exact hun
    case nconnections =>
      rw [everyone, h.clients_eq]
      exact hend.nconnections_eq
    case slots =>
      rw [everyone, h.clients_eq]
      exact hend.slot_eq

/-! ## Small descriptors -/

/-- A descriptor and an index that fit a float lead to their client. -/
theorem leadsTo_of_fits {i : Nat} (hnodup : (l.map SocketReceiver.fd).Nodup)
    (hi : l[i]? = some y) (hfd : (FloatArg.ofInt y.fd).toInt = y.fd)
    (hnumber : (FloatArg.ofInt ((i : Int) + 1)).toInt = i + 1) : LeadsTo l y i := by
  rw [LeadsTo, hfd, SocketReceiver.findIdx_fd hnodup hi, Option.map_some, hnumber]

/-- With descriptors that fit a float and no more clients than a float can count, every
client is looked up as itself. -/
theorem ledBack_of_small (h : x.Tabled l) (hsenders : ∀ y ∈ l, y.hasSender)
    (hsmall : Small l) (hlen : l.length ≤ 2 ^ 24) : LedBack env sought x.everyone := by
  rw [everyone, h.clients_eq]
  intro p hp _
  have hmem : p.1 ∈ l := List.fst_mem_of_mem_zipIdx hp
  refine ⟨hsenders p.1 hmem, fun _ => ?_⟩
  rcases List.mem_iff_getElem?.1 hp with ⟨i, hi⟩
  have hindex : p.2 = i := by
    rw [List.getElem?_zipIdx, Option.map_eq_some_iff] at hi
    rcases hi with ⟨y, _, rfl⟩
    exact Nat.zero_add i
  have hdrop : l.zipIdx.drop i = p :: l.zipIdx.drop (i + 1) := by
    rcases List.getElem?_eq_some_iff.1 hi with ⟨hlt, rfl⟩
    exact List.drop_eq_getElem_cons hlt
  have hsub : (kept env sought (l.zipIdx.take i) ++ (l.zipIdx.drop i).map Prod.fst).Sublist l := by
    have hfront : (kept env sought (l.zipIdx.take i)).Sublist
        ((l.zipIdx.take i).map Prod.fst) := List.filter_sublist.map Prod.fst
    have hparts := hfront.append_right ((l.zipIdx.drop i).map Prod.fst)
    rwa [← List.map_append, List.take_append_drop, List.zipIdx_map_fst] at hparts
  have hget : (kept env sought (l.zipIdx.take i) ++ (l.zipIdx.drop i).map Prod.fst)[
      (kept env sought (l.zipIdx.take i)).length]? = some p.1 := by
    rw [hdrop]
    simp
  have hfd := h.range p.1 hmem
  have hsmallfd := hsmall p.1 hmem
  rw [hindex]
  exact leadsTo_of_fits (h.fds_nodup.sublist (hsub.map _)) hget
    (FloatArg.toInt_ofInt (by omega)) (number_fits hget (hsub.length_le.trans hlen))

end Server

/-- In every state with a table of clients of their own descriptors, and whatever sends
fail, {lit}`broadcast` and {lit}`tcpserver_send_butclient` hand the chunk once to each
client they are for, in the order of the table, read no freed socketreceiver and leave the
others and those that took it, exactly if every such client has a sender and the
descriptor of each that failed leads back to it. -/
theorem broadcast_exactly_once_iff {x : Server} {l : List SocketReceiver} (h : x.Tabled l)
    (env : Env) (argv : List Atom) :
    (x.ExactlyOnce env (chunkCreateList env.mem argv) (fun _ => true)
        (x.broadcast emit env argv) ↔ Server.LedBack env (fun _ => true) x.everyone) ∧
      ∀ but, x.ExactlyOnce env (chunkCreateList env.mem argv) (fun p => p.2 ≠ but)
        (x.sendButclient emit env but argv) ↔
          Server.LedBack env (fun p => p.2 ≠ but) x.everyone := by
  constructor
  · have hall : x.everyone.filter (fun _ => true) = x.everyone := List.filter_true _
    rw [Server.broadcast_eq h]
    have hiff := Server.exactlyOnce_offers_iff env (chunkCreateList env.mem argv)
      (fun _ => true) h
    rwa [hall] at hiff
  · intro but
    rw [Server.sendButclient_eq h]
    exact Server.exactlyOnce_offers_iff env _ _ h

/-- Three callers connect. -/
def threeCallers : List (Env × Input) :=
  [5, 6, 7].map fun fd => (Server.plainEnv [], .incoming 3 (Server.caller fd))

/-- The second of three clients fails: all three are served, and two stay. -/
theorem broadcast_exactly_once_three :
    ∃ x, tcpserverMachine.Reachable x ∧ x.clients.map SocketReceiver.id = [1, 2, 3] ∧
      x.ExactlyOnce (Server.plainEnv [2]) (chunkCreateList true [setFloat 7]) (fun _ => true)
        (x.broadcast emit (Server.plainEnv [2]) [setFloat 7]) ∧
      (x.broadcast emit (Server.plainEnv [2]) [setFloat 7]).clients.map SocketReceiver.id =
        [1, 3] := by
  have hrun : tcpserverMachine.run Server.started threeCallers = some _ := rfl
  have hreach := Machine.reach_of_run Server.init_started hrun
  rcases Server.reach_inv hreach with ⟨l, hl⟩
  have hiff := (broadcast_exactly_once_iff hl.tabled (Server.plainEnv [2]) [setFloat 7]).1
  exact ⟨_, hreach, by decide +kernel, hiff.2 (by decide +kernel), by decide +kernel⟩

/-- Two clients, the second of which has a descriptor that no float stores: its send
fails, and the first one is dropped. -/
theorem broadcast_drops_other :
    ∃ x l, tcpserverMachine.Reachable x ∧ x.Tabled l ∧
      l.map SocketReceiver.fd = [2 ^ 24, 2 ^ 24 + 1] ∧
      ¬ x.ExactlyOnce (Server.plainEnv [2]) (chunkCreateList true [setFloat 7])
        (fun _ => true) (x.broadcast emit (Server.plainEnv [2]) [setFloat 7]) ∧
      (x.broadcast emit (Server.plainEnv [2]) [setFloat 7]).clients.map SocketReceiver.id =
        [2] := by
  have hrun : tcpserverMachine.run Server.started
      [(Server.plainEnv [], .incoming 3 (Server.caller (2 ^ 24))),
        (Server.plainEnv [], .incoming 3 (Server.caller (2 ^ 24 + 1)))] = some _ := rfl
  have hreach := Machine.reach_of_run Server.init_started hrun
  rcases Server.reach_inv hreach with ⟨l, hl⟩
  refine ⟨_, l, hreach, hl.tabled, ?_, fun honce => ?_, by decide +kernel⟩
  · rw [← hl.clients_eq]
    decide +kernel
  · have hslot := honce.slots 0
    exact absurd hslot (by decide +kernel)

end Iemnet.TcpServer
