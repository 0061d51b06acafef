import Iemnet.TcpServer.Effects

/-!
# Bounds of the client table

{lit}`tcpserver_disconnect` reads one slot beyond the used ones and clears the slot
behind that, so dropping a client is in bounds only while two slots are spare.
Nothing else leaves the table.

Main results:

- Theorem {lit}`inBounds_iff`: exactly the steps that drop a client from a table
  with fewer than two spare slots index it out of bounds.
- Theorem {lit}`table_in_bounds`: runs without such a step stay in bounds.
-/

namespace Iemnet.TcpServer

open Pd Foundations

namespace Server

variable {x x' : Server} {l : List SocketReceiver} {y : SocketReceiver} {env : Env}
  {a : Input}

/-- No index of {lit}`x_sr` has been out of bounds. -/
def InBounds (x : Server) : Prop :=
  ∀ i, .outOfBounds i ∉ x.faults

/-- An input that drops a client finds two spare slots behind the clients. -/
def Roomy (x : Server) (e : Env × Input) : Prop :=
  x.drops e.1 e.2 ≠ [] → x.nconnections + 1 < x.maxconnections

/-- Whatever leaves table and faults alone stays within bounds. -/
theorem Quiet.inBounds (hq : x.Quiet x') : x'.InBounds ↔ x.InBounds := by
  obtain ⟨log, faults, sends, floatlist, rfl, hfaults⟩ := hq
  exact forall_congr' fun i => not_congr (hfaults i)

/-- The accesses of a removal that lie behind the table. -/
theorem mem_overrun {f : Fault} :
    f ∈ x.overrun ↔
      (x.maxconnections ≤ x.nconnections ∧ f = .outOfBounds x.nconnections) ∨
        (x.maxconnections ≤ x.nconnections + 1 ∧ f = .outOfBounds (x.nconnections + 1)) := by
  unfold overrun
  rw [List.mem_append]
  split <;> split <;> simp [*]

/-- A removal accesses what lies behind the table, and nothing else goes wrong. -/
theorem dropped_faults (x : Server) (l : List SocketReceiver) (i : Nat) (y : SocketReceiver) :
    (x.dropped l i y).faults = x.faults ++ x.overrun :=
  rfl

/-- A drop is in bounds when two slots are spare. -/
theorem dropped_inBounds (i : Nat) :
    (x.dropped l i y).InBounds ↔ x.InBounds ∧ x.nconnections + 1 < x.maxconnections := by
  unfold InBounds
  simp only [dropped_faults, List.mem_append, not_or, mem_overrun]
  constructor
  · intro h
    refine ⟨fun k => (h k).1, ?_⟩
    by_contra hfull
    exact (h (x.nconnections + 1)).2.2 ⟨by omega, rfl⟩
  · rintro ⟨hold, hroom⟩ k
    refine ⟨hold k, ?_, ?_⟩
    · rintro ⟨hfull, _⟩
      omega
    · rintro ⟨hfull, _⟩
      omega

/-- A removal leaves the size of the table alone. -/
theorem dropped_maxconnections (x : Server) (l : List SocketReceiver) (i : Nat)
    (y : SocketReceiver) : (x.dropped l i y).maxconnections = x.maxconnections :=
  rfl

/-- Output leaves the size of the table alone. -/
theorem Quiet.maxconnections (hq : x.Quiet x') : x'.maxconnections = x.maxconnections := by
  obtain ⟨log, faults, sends, floatlist, rfl, _⟩ := hq
  rfl

/-- Output frees nobody. -/
theorem Quiet.freed (hq : x.Quiet x') : x'.freed = x.freed := by
  obtain ⟨log, faults, sends, floatlist, rfl, _⟩ := hq
  rfl

/-! ## Sequences of offers -/

section Offers

variable {chunk : Option Chunk} (ps : List (SocketReceiver × Nat))

/-- Nothing that is offered repairs an index that was out of bounds. -/
theorem offers_overrun (h : x.Inv l) (hover : ¬ x.InBounds) :
    ¬ (ps.foldl (offer env chunk) x).InBounds := by
  rcases offers_induct (P := fun x _ => ¬ x.InBounds) env chunk ps h hover
    (fun x x₁ l _ hover hq => fun hin => hover (hq.inBounds.1 hin))
    (fun x l i y p _ hover _ _ _ => fun hin => hover ((dropped_inBounds i).1 hin).1) with
    ⟨_, _, hresult⟩
  exact hresult

/-- With two spare slots every sequence of offers stays in bounds. -/
theorem offers_inBounds (h : x.Inv l) (hin : x.InBounds)
    (hroom : l.length + 1 < x.maxconnections) :
    (ps.foldl (offer env chunk) x).InBounds := by
  rcases offers_induct (P := fun x l => x.InBounds ∧ l.length + 1 < x.maxconnections)
    env chunk ps h ⟨hin, hroom⟩
    (fun x x₁ l _ hP hq => ⟨hq.inBounds.2 hP.1, hq.maxconnections ▸ hP.2⟩)
    (fun x l i y p hinv hP _ _ _ => by
      refine ⟨(dropped_inBounds i).2 ⟨hP.1, hinv.nconnections_eq ▸ hP.2⟩, ?_⟩
      have := List.length_eraseIdx_le l i
      rw [dropped_maxconnections]
      omega) with ⟨_, _, hresult⟩
  exact hresult.1

/-- Offers on account of which nobody is dropped stay in bounds. -/
theorem offers_quiet (h : x.Inv l) (hnone : ∀ p ∈ ps, x.dropFor env p.1 = none) :
    x.Quiet (ps.foldl (offer env chunk) x) := by
  rcases offers_induct (P := fun x' _ => x.Quiet x') env chunk ps h
    (Quiet.refl x) (fun x' x₁ l _ hP hq => hP.trans hq)
    (fun x' l i y p _ hP hp hdrop _ => by
      rw [hP.dropFor, hnone p hp] at hdrop
      contradiction) with ⟨_, _, hresult⟩
  exact hresult

/-- The first drop from a table with fewer than two spare slots is out of bounds. -/
theorem offers_full (h : x.Inv l) (hfree : ∀ p ∈ ps, p.1.id ∉ x.freed)
    (hfull : x.maxconnections ≤ l.length + 1) (hdrop : ∃ p ∈ ps, x.dropFor env p.1 ≠ none) :
    ¬ (ps.foldl (offer env chunk) x).InBounds := by
  induction ps generalizing x with
  | nil =>
      rcases hdrop with ⟨p, hp, _⟩
      contradiction
  | cons p ps ih =>
      rw [List.foldl_cons, offer_of_notMem h.tabled (hfree p List.mem_cons_self)]
      have hq := quiet_attempted env chunk x p
      cases hfirst : x.dropFor env p.1 with
      | none =>
          apply ih (h.quiet hq) (fun q hq' => hq.freed ▸ hfree q (List.mem_cons_of_mem p hq'))
            (hq.maxconnections ▸ hfull)
          rcases hdrop with ⟨q, hmem, hdropq⟩
          cases List.mem_cons.1 hmem with
          | inl heq => exact absurd (heq ▸ hfirst) hdropq
          | inr hrest => exact ⟨q, hrest, hq.dropFor env q.1 ▸ hdropq⟩
      | some i =>
          have hget := List.getElem?_eq_getElem (dropFor_lt h.tabled hfirst)
          have h₁ := h.quiet hq
          simp only [disconnect_eq h₁.tabled hget]
          apply offers_overrun ps (h₁.dropped hget)
          intro hin
          have hroom := ((dropped_inBounds i).1 hin).2
          rw [h₁.nconnections_eq, hq.maxconnections] at hroom
          omega

end Offers

/-! ## All inputs -/

/-- {lit}`tcpserver_disconnect_all` is out of bounds at its first client or not at
all. -/
theorem disconnectAll_inBounds (h : x.Inv l) :
    (disconnectAll emit x).InBounds ↔
      x.InBounds ∧ (l ≠ [] → l.length + 1 < x.maxconnections) := by
  cases l with
  | nil =>
      rw [disconnectAll_eq h]
      exact ⟨fun hin => ⟨hin, fun hne => absurd rfl hne⟩, fun hin => hin.1⟩
  | cons y l =>
      have hget : (y :: l)[0]? = some y := rfl
      have hroom : (y :: l ≠ [] → (y :: l).length + 1 < x.maxconnections) ↔
          x.nconnections + 1 < x.maxconnections := by
        rw [h.nconnections_eq]
        exact ⟨fun hroom => hroom (by simp), fun hroom _ => hroom⟩
      rw [disconnectAll_eq h, hroom, ← dropped_inBounds (l := y :: l) (y := y) 0]
      simp only [hget]
      have h₁ := h.dropped hget
      constructor
      · intro hin
        by_contra hover
        rcases disconnectAllFrom_induct (P := fun x _ => ¬ x.InBounds) (2 ^ 32 - 1) 1 h₁ hover
          (fun x l i y _ hover _ hin => hover ((dropped_inBounds i).1 hin).1) with
          ⟨_, _, hresult⟩
        exact hresult hin
      · intro hin
        have hfirst := ((dropped_inBounds (l := y :: l) 0).1 hin).2
        rcases disconnectAllFrom_induct
          (P := fun x l => x.InBounds ∧ l.length + 1 < x.maxconnections) (2 ^ 32 - 1) 1 h₁
          ⟨hin, by
            rw [h.nconnections_eq] at hfirst
            rw [dropped_maxconnections, List.eraseIdx_cons_zero]
            exact Nat.lt_of_succ_lt hfirst⟩
          (fun x l i y hinv hP _ => by
            refine ⟨(dropped_inBounds i).2 ⟨hP.1, hinv.nconnections_eq ▸ hP.2⟩, ?_⟩
            have := List.length_eraseIdx_le l i
            rw [dropped_maxconnections]
            omega) with ⟨_, _, hresult⟩
        exact hresult.1

/-- Closing the port goes wrong in no way. -/
theorem closePort_faults (x : Server) (fd : Int) : (x.closePort fd).faults = x.faults := by
  unfold Server.closePort closesocket
  by_cases hfd : 0 ≤ fd
  · rw [if_pos hfd, if_pos hfd]
    rfl
  · rw [if_neg hfd]

/-- The steps that index the table out of bounds. -/
theorem inBounds_iff (h : x.Inv l) (hin : x.InBounds) (hs : x.step emit env a = some x') :
    x'.InBounds ↔ x.Roomy (env, a) := by
  have hstill : x.drops env a = [] → x.Roomy (env, a) := fun hnone hne => absurd hnone hne
  have hroomy : x.drops env a ≠ [] →
      (x.Roomy (env, a) ↔ x.nconnections + 1 < x.maxconnections) := fun hne =>
    ⟨fun hroom => hroom hne, fun hroom _ => hroom⟩
  have hclosed : ∀ outputs : List Output,
      ((x.logged outputs).closePort x.connectsocket).InBounds := fun outputs => by
    unfold InBounds
    rw [closePort_faults]
    exact hin
  cases step_effect h hs with
  | settled serialize accepting port defaulttarget floatlist faults outputs hnone hfaults =>
      apply iff_of_true _ (hstill hnone.1)
      intro i hi
      cases List.mem_append.1 hi with
      | inl hold => exact hin i hold
      | inr hnew => exact absurd (hfaults _ hnew) (by simp)
  | resized n hnone => exact iff_of_true hin (hstill hnone.1)
  | unbound before hnone => exact iff_of_true (hclosed before) (hstill hnone.1)
  | failed fd before after hnone => exact iff_of_true (hclosed before) (hstill hnone.1)
  | bound fd port before after hnone => exact iff_of_true (hclosed before) (hstill hnone.1)
  | refused fd o outputs ha =>
      subst ha
      exact iff_of_true hin (hstill rfl)
  | registered fd o ha =>
      subst ha
      exact iff_of_true hin (hstill rfl)
  | dropped i y hi _ ha =>
      rw [dropped_inBounds, hroomy (by simp [ha]), and_iff_right hin]
  | droppedAll ha =>
      subst ha
      rw [disconnectAll_inBounds h, and_iff_right hin, Roomy, h.nconnections_eq]
      have heveryone : x.drops env .disconnectAll = [] ↔ l = [] := by
        show x.everyone = [] ↔ _
        rw [everyone, h.clients_eq]
        exact List.zipIdx_eq_nil_iff
      rw [heveryone.ne]
  | offered _ ha =>
      rcases retargeted_eq x a with ⟨sockfd, heq⟩
      rw [heq]
      have h₁ := h.retarget sockfd
      by_cases hnone : ∀ p ∈ x.recipients a, x.dropFor env p.1 = none
      · have hempty : x.drops env a = [] := by
          rw [ha, List.filterMap_eq_nil_iff]
          intro p hp
          rw [hnone p hp]
          rfl
        apply iff_of_true _ (hstill hempty)
        rw [(offers_quiet (x.recipients a) h₁ hnone).inBounds]
        exact hin
      · have hsome : ∃ p ∈ x.recipients a, x.dropFor env p.1 ≠ none := by
          simpa only [not_forall, exists_prop] using hnone
        have hne : x.drops env a ≠ [] := by
          intro hempty
          rw [ha, List.filterMap_eq_nil_iff] at hempty
          rcases hsome with ⟨p, hp, hdrop⟩
          exact hdrop (Option.map_eq_none_iff.1 (hempty p hp))
        rw [hroomy hne]
        by_cases hroom : x.nconnections + 1 < x.maxconnections
        · apply iff_of_true _ hroom
          exact offers_inBounds (x.recipients a) h₁ hin (h.nconnections_eq ▸ hroom)
        · apply iff_of_false _ hroom
          have hfree : ∀ p ∈ x.recipients a, p.1.id ∉ x.freed := fun p hp =>
            h.notFreed p.1 (List.mem_of_getElem? (mem_recipients h a hp))
          rw [h.nconnections_eq] at hroom
          exact offers_full (x.recipients a) h₁ hfree (Nat.le_of_not_lt hroom) hsome

/-! ## Runs -/

/-- Freeing a client goes wrong only if it has been freed before. -/
theorem socketreceiverFree_faults (x : Server) (y : SocketReceiver) :
    (x.socketreceiverFree (some y)).faults = (x.access y).faults := by
  simp only [socketreceiverFree, closesocket, rmpollfn]
  split <;> split <;> rfl

/-- Freeing a client leaves the table alone. -/
theorem socketreceiverFree_sr (x : Server) (y : SocketReceiver) :
    (x.socketreceiverFree (some y)).sr = x.sr := by
  have haccess : (x.access y).sr = x.sr := by
    unfold access
    split <;> rfl
  simp only [socketreceiverFree, closesocket, rmpollfn]
  split <;> split <;> exact haccess

/-- {lit}`tcpserver_free` indexes allocated slots only. -/
theorem freeSlots_inBounds (m i : Nat) (h : x.InBounds) (hm : i + m ≤ x.sr.length) :
    (x.freeSlots m i).InBounds := by
  induction m generalizing x i with
  | zero => exact h
  | succ m ih =>
      have hi : i < x.sr.length := by omega
      rw [freeSlots, touch_of_lt hi]
      cases hslot : x.slot i with
      | none =>
          simp only
          exact ih (i + 1) h (by omega)
      | some y =>
          simp only
          have hsr := socketreceiverFree_sr x y
          have hlt : i < (x.socketreceiverFree (some y)).sr.length := by rwa [hsr]
          apply ih (i + 1)
          · rw [setSlot_of_lt hlt]
            show ∀ k, _ ∉ (x.socketreceiverFree (some y)).faults
            rw [socketreceiverFree_faults]
            exact (quiet_access x y).inBounds.2 h
          · rw [setSlot_of_lt hlt, List.length_set, hsr]
            omega

/-- Deleting the object stays within bounds. -/
theorem free_inBounds (h : x.Inv l) (hin : x.InBounds) : x.free.InBounds := by
  have hslots := freeSlots_inBounds x.maxconnections 0 hin (by rw [h.length_sr]; omega)
  simp only [free, rmpollfn, closesocket]
  split <;> exact hslots

/-- A new object stays within bounds. -/
theorem inBounds_new (abi : Abi) (f : FloatArg) {o : PortOutcome}
    (ho : o.Possible (blank abi env)) : (new emit abi env f o).InBounds := by
  have hblank : (blank abi env).InBounds := by
    intro i
    simp [blank]
  have hs : (blank abi env).step emit env (.port f o) = some (new emit abi env f o) := by
    simp only [step, ho, if_true]
    rfl
  exact (inBounds_iff (inv_blank abi env) hblank hs).2 fun hne => absurd rfl hne

end Server

/-- In a run whose drops all find two spare slots behind the clients, no index of
{lit}`x_sr` is out of bounds, nor is one in {lit}`tcpserver_free` afterwards; and
every further step is in bounds exactly if it meets the condition as well. -/
theorem table_in_bounds {x : Server} (h : tcpserverMachine.Reach Server.Roomy x) :
    x.InBounds ∧ x.free.InBounds ∧
      ∀ a x', tcpserverMachine.step x a = some x' → (x'.InBounds ↔ x.Roomy a) := by
  have hin : x.InBounds := by
    apply h.invariant (I := Server.InBounds)
    · rintro x ⟨abi, env, f, o, ho, rfl⟩
      exact Server.inBounds_new abi f ho
    · intro x a x' hreach hin hroomy hs
      rcases Server.reach_inv hreach with ⟨l, hl⟩
      exact (Server.inBounds_iff hl hin hs).2 hroomy
  rcases Server.reach_inv h with ⟨l, hl⟩
  exact ⟨hin, Server.free_inBounds hl hin, fun a x' hs => Server.inBounds_iff hl hin hs⟩

/-- One client connects and leaves again. -/
def comeAndGo : List (Env × Input) :=
  [(Server.plainEnv [], .incoming 3 (Server.caller 5)),
    (Server.plainEnv [], .disconnectClient ⟨1, 0#32⟩)]

/-- At every removal of the run there is room. -/
theorem roomy_comeAndGo : tcpserverMachine.RunMeets Server.Roomy Server.started comeAndGo := by
  refine ⟨fun hne => absurd rfl hne, ?_⟩
  intro x hx
  refine ⟨fun _ => ?_, fun _ _ => trivial⟩
  cases hx
  decide +kernel

/-- A client comes and goes, and nothing is accessed out of bounds. -/
theorem table_in_bounds_run :
    ∃ x, tcpserverMachine.run Server.started comeAndGo = some x ∧ x.freed = [1] ∧
      x.InBounds := by
  have hrun : tcpserverMachine.run Server.started comeAndGo = some _ := rfl
  have hreach := Foundations.Machine.Reach.run
    (.start Server.init_started) roomy_comeAndGo hrun
  exact ⟨_, hrun, by decide +kernel, (table_in_bounds hreach).1⟩

/-- A server that is limited to its one client, which then leaves. -/
def crowded : List (Env × Input) :=
  [(Server.plainEnv [], .incoming 3 (Server.caller 5)),
    (Server.plainEnv [], .maxconnections ⟨1, 0#32⟩),
    (Server.plainEnv [], .disconnectClient ⟨1, 0#32⟩)]

/-- Dropping the only client of a table with one slot reads slot 1 and writes slot
2. -/
theorem table_overrun :
    ∃ x, tcpserverMachine.Reachable x ∧ x.maxconnections = 1 ∧
      x.faults = [.outOfBounds 1, .outOfBounds 2] := by
  have hrun : tcpserverMachine.run Server.started crowded = some _ := rfl
  exact ⟨_, Foundations.Machine.reach_of_run Server.init_started hrun, by decide +kernel,
    by decide +kernel⟩

end Iemnet.TcpServer
