import Iemnet.Channel.Model
import Iemnet.Sender.Progress

/-!
# Everything arrives

A connection on which nothing fails: the kernel takes every chunk whole, memory is there,
and the application does not destroy the sender.  If both threads of the sender and the
reader keep getting their turn, every number that is sent is output in the end.

Main results:

- Theorem {lit}`projection`: a run of the connection is a run of its sender.
- Theorem {lit}`channel_delivers`: every execution that is fair to the two threads and the
  reader.
-/

namespace Iemnet

open Foundations
open Pd
open Sender

namespace Channel

variable {abi : Abi} {s s' : Link}

/-! ## A connection on which nothing fails -/

/-- The answer of the kernel in this state is that everything has been taken. -/
def TakenWhole (t : State) (r : Int) : Prop :=
  match t.thread with
  | .sending c => r = c.chunk.size
  | _ => True

instance (t : State) (r : Int) : Decidable (TakenWhole t r) := by
  unfold TakenWhole
  split <;> infer_instance

/-- The application's thread gets memory and does not destroy the sender, and the kernel
takes what it is offered. -/
def Healthy (s : Link) : Event → Prop
  | .sender (.step .main ch, _) => ch.mem = true
  | .sender (.step .send _, r) => TakenWhole s.stream.sender r
  | .sender (.callDestroy, _) => False
  | _ => True

instance (s : Link) : DecidablePred (Healthy s)
  | .sender (.step .main ch, _) => inferInstanceAs (Decidable (ch.mem = true))
  | .sender (.step .send _, r) => inferInstanceAs (Decidable (TakenWhole s.stream.sender r))
  | .sender (.callDestroy, _) => .isFalse id
  | .sender (.callSend _, _) => .isTrue trivial
  | .sender (.spurious _, _) => .isTrue trivial
  | .send _ => .isTrue trivial
  | .recv _ _ _ => .isTrue trivial
  | .serialize _ => .isTrue trivial

/-- A healthy event gets its memory. -/
theorem Healthy.allocates {e : Event} (h : Healthy s e) : e.Allocates := by
  unfold Event.Allocates
  split
  · exact h
  · trivial

/-- The application is outside of the sender or inside {lit}`iemnet__sender_send`. -/
def active : MainPc → Bool
  | .idle => true
  | .sendCheck _ => true
  | .pushing _ => true
  | _ => false

/-- A main thread that is sending has not begun the teardown. -/
theorem before_of_active {m : MainPc} (h : active m = true) : m.before = true := by
  cases m <;> first | rfl | cases h

/-- While the main thread is sending, nobody else holds the mutex. -/
theorem mtx_of_active {t : State} (hc : Control t) (h : active t.main = true) :
    t.mtx = none := by
  rw [hc.mtx]
  cases hpc : t.main <;> rw [hpc] at h <;> first | rfl | cases h

/-- A destroy has to be called. -/
theorem active_step {t t' : State} {a : Action} (h : active t.main = true)
    (hnot : a ≠ .callDestroy) (hstep : t.step a = some t') : active t'.main = true := by
  cases State.transition hstep with
  | callDestroy => exact absurd rfl hnot
  | callSend | sendRefused | sendNothing | sendCopy | pushReturn => rfl
  | destroyWait hpc | destroyGone hpc | destroyRefused hpc | finishReturn hpc | relockWait hpc
  | relockGone hpc | finish2Return hpc | join hpc | finish3Return hpc | drainEmpty hpc
  | drainChunk k c hpc | drainRelease c hpc =>
      rw [hpc] at h
      cases h
  | _ => exact h

/-- An answer is recorded only when the send thread takes a step. -/
theorem writes_step {t t' : Stream} {a : Action × Int} (h : t.step a = some t') :
    t'.writes = t.writes ∨ ∃ ch c, a.1 = .step .send ch ∧ t.sender.thread = .sending c ∧
      t'.writes = t.writes ++ [(c, a.2)] := by
  rcases a with ⟨act, r⟩
  simp only [Stream.step] at h
  split at h
  · rename_i ch c hpc
    split at h
    · split at h
      · rcases Option.map_eq_some_iff.1 h with ⟨sender, -, rfl⟩
        exact Or.inr ⟨ch, c, rfl, hpc, rfl⟩
      · cases h
    · cases h
  · split at h
    · rcases Option.map_eq_some_iff.1 h with ⟨sender, -, rfl⟩
      exact Or.inl rfl
    · cases h
  · rcases Option.map_eq_some_iff.1 h with ⟨sender, -, rfl⟩
    exact Or.inl rfl

/-- What a connection on which nothing fails keeps. -/
structure Sound (s : Link) : Prop where
  active : active s.stream.sender.main = true
  whole : ∀ w ∈ s.stream.writes, w.2 = w.1.chunk.size

/-- Every healthy event keeps the sender running. -/
theorem Sound.step (h : Sound s) {e : Event} (hok : Healthy s e)
    (hstep : s.step abi e = some s') : Sound s' := by
  cases Link.move hstep with
  | send argv stream hsend =>
      rcases callSend_cases hsend with ⟨-, -, rfl⟩
      exact ⟨rfl, h.whole⟩
  | sender a stream hnot hsend =>
      constructor
      · refine active_step h.active ?_ (step_label hsend)
        intro hdestroy
        rcases label_cases s.stream a with hlabel | ⟨ch, hlabel⟩
        · rcases a with ⟨act, r⟩
          cases hlabel.symm.trans hdestroy
          exact hok
        · cases hlabel.symm.trans hdestroy
      · rcases writes_step hsend with hsame | ⟨ch, c, ha, hpc, hmore⟩
        · intro w hw
          exact h.whole w (hsame ▸ hw)
        · intro w hw
          rw [hmore, List.mem_append, List.mem_singleton] at hw
          rcases hw with hw | rfl
          · exact h.whole w hw
          · rcases a with ⟨act, r⟩
            cases ha
            simpa only [Healthy, TakenWhole, hpc] using hok
  | recv | serialize => exact ⟨h.active, h.whole⟩

/-- In a healthy run the sender keeps running. -/
theorem sound (h : (channelMachine abi).Reach Healthy s) : Sound s := by
  refine Machine.Reach.invariant ?_ ?_ h
  · rintro s ⟨raw, cl, -, rfl⟩
    refine ⟨rfl, ?_⟩
    intro w hw
    cases hw
  · intro s e s' _ hsound hok hstep
    exact hsound.step hok hstep

/-- The account of the bytes holds in every healthy run. -/
theorem carried_of_healthy (h : (channelMachine abi).Reach Healthy s) : Carried s :=
  carried (h.mono fun _ _ hok => hok.allocates)

/-- No send has failed. -/
theorem outcomes_of_healthy (h : (channelMachine abi).Reach Healthy s) :
    false ∉ s.stream.sender.outcomes := by
  intro hmem
  rw [(streamed (reachable_stream h)).outcomes] at hmem
  rcases List.mem_map.1 hmem with ⟨w, hw, hfailed⟩
  have hpos : 0 ≤ w.2 := by
    rw [(sound h).whole w hw, Chunk.size]
    exact Int.natCast_nonneg _
  simp [defaultsendResult, not_lt.2 hpos] at hfailed

/-- The thread of the sender runs. -/
theorem running_of_healthy (h : (channelMachine abi).Reach Healthy s) :
    s.stream.sender.isrunning = true := by
  have hsender := reachable_sender (reachable_stream h)
  rw [(control hsender).running]
  intro hexited
  refine outcomes_of_healthy h ((fed hsender (before_of_active (sound h).active)).broken ?_)
  rw [hexited]
  rfl

/-! ## The sender inside the connection -/

/-- The step of the sender in a step of the connection. -/
def Link.label (s : Link) : Event → Option Action
  | .send argv => some (.callSend (chunkCreateList true argv))
  | .sender a => some (Channel.label s.stream a)
  | .recv _ _ _ => none
  | .serialize _ => none

/-- The channel seen from its sender is the sender. -/
theorem projection :
    (channelMachine abi).Projection senderMachine (fun s => s.stream.sender) Link.label := by
  constructor
  · rintro s ⟨raw, cl, -, rfl⟩
    rfl
  · intro s e s' hstep
    cases Link.move hstep with
    | send argv stream hsend =>
        rcases callSend_cases hsend with ⟨-, hidle, rfl⟩
        exact if_pos hidle
    | sender a stream hnot hsend => exact step_label hsend
    | recv | serialize => rfl

/-- The steps of one thread of the sender. -/
def Event.By (t : Tid) : Event → Prop
  | .sender (a, _) => Steps t a
  | _ => False

/-- The steps of the reader. -/
def Event.Reads : Event → Prop
  | .recv _ _ _ => True
  | _ => False

/-- What a thread does in the channel is a step of the thread. -/
theorem steps_label {t : Tid} (s : Link) {e : Event} (h : e.By t) :
    ∃ a, s.label e = some a ∧ Steps t a := by
  cases e with
  | sender a =>
      rcases a with ⟨act, r⟩
      refine ⟨_, rfl, ?_⟩
      unfold label
      split
      · rename_i ch c hact hpc
        cases hact
        exact h
      · exact h
  | send | recv | serialize => exact h.elim

/-- The chunks of a stream carry no port. -/
def Portless (t : State) : Prop :=
  (∀ src ∈ t.submitted, src.port = 0#16) ∧ ∀ src, t.main = .sendCheck (some src) → src.port = 0#16

/-- A sender that has got chunks of a stream only goes on so. -/
theorem Portless.step {t t' : State} (h : Portless t) {a : Action}
    (hnew : ∀ c, a = .callSend c → portless c) (hstep : t.step a = some t') : Portless t' := by
  cases State.transition hstep with
  | callSend c =>
      refine ⟨h.1, fun src hsrc => hnew c rfl src ?_⟩
      simpa using hsrc
  | sendCopy src chunk hpc =>
      refine ⟨fun src' hsrc' => ?_, by simp⟩
      rcases List.mem_append.1 hsrc' with hold | hlast
      · exact h.1 src' hold
      · rw [List.mem_singleton.1 hlast]
        exact h.2 src hpc
  | queueSection | spurious | loopEnter | loopExit | popNothing | popChunk | passChunk
  | sendReturns | release | brokenExit => exact ⟨h.1, h.2⟩
  | _ => exact ⟨h.1, by simp⟩

/-- The sender of a stream has chunks without a port only. -/
theorem portless_of_reachable {t : Stream} (h : streamMachine.Reachable t) :
    Portless t.sender := by
  refine Machine.Reach.invariant (I := fun t : Stream => Portless t.sender) ?_ ?_ h
  · rintro t rfl
    refine ⟨?_, by simp [Stream.create, create]⟩
    intro src hsrc
    cases hsrc
  · intro t a t' _ hportless _ hstep
    refine hportless.step ?_ (step_label hstep)
    intro c hc
    rcases a with ⟨act, r⟩
    unfold label at hc
    split at hc
    · cases hc
    · rename_i hact
      have hcall : act = .callSend c := hc
      subst hcall
      exact (callSend_cases (r := r) hstep).1

/-- The kernel can always answer. -/
theorem isSome_answer {t : Stream} (h : streamMachine.Reachable t) {c : Copy}
    (hpc : t.sender.thread = .sending c) (ch : Choice) :
    (t.step (.step .send ch, 0)).isSome := by
  have hreach := reachable_sender h
  have hport : c.chunk.port = 0#16 := by
    have hmem := (delivery hreach).1.threadCopy c (by rw [hpc]; rfl)
    simp only [copiesOf, List.mem_mapIdx] at hmem
    rcases hmem with ⟨i, hi, rfl⟩
    exact (portless_of_reachable h).1 t.sender.submitted[i] (List.getElem_mem hi)
  have hrequest : defaultsendRequest c.chunk = .send c.chunk.data := by
    simp [defaultsendRequest, hport]
  have hthread := (control hreach).thread
  rw [hpc] at hthread
  have hcall := hthread.eq_none
  simp [Stream.step, hpc, hrequest, State.step, State.advance, hcall, State.threadLocal]

/-- What the sender can do is not blocked by the connection. -/
theorem enabled_of_sender {ok : Link → Event → Prop} (h : (channelMachine abi).Reach ok s)
    {t : Tid} (henabled : senderMachine.Enabled (Steps t) s.stream.sender) :
    (channelMachine abi).Enabled (Event.By t) s := by
  rcases (enabled_iff _ _).1 henabled with ⟨ch, hsome⟩
  refine ⟨.sender (.step t ch, 0), rfl, ?_⟩
  suffices hstream : (s.stream.step (.step t ch, 0)).isSome by
    show (Option.map _ _).isSome = true
    rw [Option.isSome_map]
    exact hstream
  by_cases hpc : t = .send ∧ ∃ c, s.stream.sender.thread = .sending c
  · rcases hpc with ⟨rfl, c, hpc⟩
    exact isSome_answer (reachable_stream h) hpc ch
  · have hstep : s.stream.step (.step t ch, 0) =
        (s.stream.sender.step (.step t ch)).map fun sender =>
          { s.stream with sender := sender } := by
      simp only [Stream.step]
      split
      · rename_i ch' c hact hthread
        cases hact
        exact absurd ⟨rfl, c, hthread⟩ hpc
      · rename_i hact
        cases hact
      · rfl
    rw [hstep, Option.isSome_map]
    exact hsome

/-! ## What is sent is submitted -/

variable {x : (channelMachine abi).Execution} {A : List (List Atom)}

/-- These lists have been sent. -/
def Asked (A : List (List Atom)) (s : Link) : Prop :=
  A <+: s.asked

/-- What was asked for stays asked for. -/
theorem asked_step {e : Event} (h : Asked A s) (hstep : s.step abi e = some s') : Asked A s' := by
  cases Link.move hstep with
  | send argv stream hsend => exact h.trans (List.prefix_append _ _)
  | sender | recv | serialize => exact h

/-- The first of the lists have the first of the bytes. -/
theorem wire_prefix {A B : List (List Atom)} (h : A <+: B) : wire A <+: wire B := by
  rcases h with ⟨more, rfl⟩
  simp [wire]

/-- Only the call that is under way can keep a list from being submitted. -/
theorem sendCheck_of_not_sent (h : (channelMachine abi).Reach Healthy s) (hasked : Asked A s)
    (hnot : ¬ wire A <+: sentBytes s.stream.sender) :
    ∃ c, s.stream.sender.main = .sendCheck c := by
  rcases (carried_of_healthy h).sent with ⟨rest, hrest, hrunning⟩
  have hprefix := wire_prefix hasked
  rw [hrest, hrunning (running_of_healthy h)] at hprefix
  cases hpc : s.stream.sender.main with
  | sendCheck c => exact ⟨c, rfl⟩
  | _ =>
      simp only [hpc, handBytes, List.append_nil] at hprefix
      exact absurd hprefix hnot

/-- The next step of the main thread ends the test of {lit}`isrunning`. -/
theorem main_of_sendCheck {t t' : State} (hc : Control t) {c c' : Option Chunk} {ch : Choice}
    (hpc : t.main = .sendCheck c) (hstep : t.step (.step .main ch) = some t') :
    t'.main ≠ .sendCheck c' := by
  have hmain := hc.main
  rw [hpc] at hmain
  have hcall := hmain.eq_none
  cases State.transition hstep with
  | queueSection t ch c next hsome =>
      rw [hcall] at hsome
      cases hsome
  | _ => simp

/-- The main thread submits what it was asked for with its next step. -/
theorem variant_submit :
    (channelMachine abi).Variant Healthy (Event.By .main) (Asked A)
      (fun s => wire A <+: sentBytes s.stream.sender) fun _ => 0 := by
  intro s e s' hreach hasked hnot hok hstep
  have hlater := asked_step hasked hstep
  by_cases he : e.By .main
  · left
    by_contra hnot'
    rcases sendCheck_of_not_sent hreach hasked hnot with ⟨c, hpc⟩
    rcases sendCheck_of_not_sent (hreach.next hok hstep) hlater hnot' with ⟨c', hpc'⟩
    cases Link.move hstep with
    | sender a stream hother hsend =>
        rcases a with ⟨act, r⟩
        cases act with
        | step t ch =>
            cases he
            have hlabel := step_label hsend
            exact main_of_sendCheck (control (reachable_sender (reachable_stream hreach))) hpc
              hlabel hpc'
        | callSend | callDestroy | spurious => exact he.elim
    | send | recv | serialize => exact he.elim
  · exact Or.inr ⟨hlater, le_refl _, fun h => absurd h he⟩

/-- A main thread that was asked for more can go on. -/
theorem enabled_submit (h : (channelMachine abi).Reach Healthy s) (hasked : Asked A s)
    (hnot : ¬ wire A <+: sentBytes s.stream.sender) :
    (channelMachine abi).Enabled (Event.By .main) s := by
  have hc := control (reachable_sender (reachable_stream h))
  rcases sendCheck_of_not_sent h hasked hnot with ⟨c, hpc⟩
  have hmain := hc.main
  rw [hpc] at hmain
  have hcall := hmain.eq_none
  refine enabled_of_sender h ((enabled_iff _ _).2 ⟨⟨true, 0, none, true⟩, ?_⟩)
  simp only [State.advance, hcall, State.mainLocal, hpc, mtx_of_active hc (sound h).active,
    running_of_healthy h, Option.isSome_none, Bool.false_eq_true, if_false, if_true]
  split <;> exact State.isSome_enter hcall

/-! ## What is accepted is output -/

/-- The reader gets what the kernel holds. -/
theorem variant_recv (n : Nat) :
    (channelMachine abi).Variant Healthy Event.Reads
      (fun s => n ≤ s.stream.accepted.length) (fun s => n ≤ s.arrived)
      fun s => n - s.arrived := by
  intro s e s' _ hn hnot _ hstep
  right
  cases Link.move hstep with
  | send argv stream hsend =>
      exact ⟨hn.trans (accepted_grows hsend).length_le, le_refl _, False.elim⟩
  | sender a stream hother hsend =>
      exact ⟨hn.trans (accepted_grows hsend).length_le, le_refl _, False.elim⟩
  | recv k source raw r hpos =>
      refine ⟨hn, ?_, fun _ => ?_⟩ <;> dsimp only <;> omega
  | serialize doit => exact ⟨hn, le_refl _, False.elim⟩

/-- A receiver that has not got everything can receive. -/
theorem enabled_recv (h : (channelMachine abi).Reach Healthy s) {n : Nat}
    (hn : n ≤ s.stream.accepted.length) (hnot : ¬ n ≤ s.arrived) :
    (channelMachine abi).Enabled Event.Reads s := by
  have hahead : 1 ≤ s.ahead.length := by
    rw [Link.ahead, List.length_drop]
    omega
  rcases exists_recv abi (carried_of_healthy h) ⟨2, 0#32, 0#16⟩ (fun _ => setFloat 0)
    Nat.one_pos (by decide) hahead with ⟨s', hstep, -⟩
  refine ⟨.recv 1 ⟨2, 0#32, 0#16⟩ fun _ => setFloat 0, trivial, ?_⟩
  exact Option.isSome_iff_exists.2 ⟨s', hstep⟩

/-! ## Everything arrives -/

/-- Fairness to a thread is fairness to it inside the sender. -/
theorem weaklyFair_sender (hx : x.Meets Healthy) {t : Tid} (h : x.WeaklyFair (Event.By t)) :
    (projection.execution x).WeaklyFair (Steps t) :=
  projection.weaklyFair hx (fun _ hreach => enabled_of_sender hreach)
    (fun s _ he => steps_label s he) h

/-- What is submitted stays. -/
theorem submitted_grows (x : (channelMachine abi).Execution) {n m : Nat} (hnm : n ≤ m) :
    (x.state n).stream.sender.submitted <+: (x.state m).stream.sender.submitted := by
  have hlasts := (projection.execution x).meets_true.lasts
    (P := fun t : State => (x.state n).stream.sender.submitted <+: t.submitted)
    (fun t a t' _ _ ht hstep => ht.trans (State.transition hstep).grows.1) hnm
  exact hlasts (List.prefix_refl _)

/-- The chunks submitted at a moment are offered to the kernel in the end. -/
theorem exists_offered (hx : x.Meets Healthy) (hmain : x.WeaklyFair (Event.By .main))
    (hsend : x.WeaklyFair (Event.By .send)) (n : Nat) :
    ∃ m, n ≤ m ∧
      (x.state n).stream.sender.submitted.length ≤ (x.state m).stream.writes.length := by
  have hsendFair := weaklyFair_sender hx hsend
  cases hlength : (x.state n).stream.sender.submitted.length with
  | zero => exact ⟨n, le_refl n, Nat.zero_le _⟩
  | succ k =>
      -- it is enough to follow the last of them
      have hlast : ((projection.execution x).state n).Submitted k _ :=
        List.getElem?_eq_getElem (hlength ▸ Nat.lt_succ_self k)
      rcases exists_passed (weaklyFair_sender hx hmain) hsendFair hlast with ⟨i, hni, hpassed⟩
      rcases exists_answered hsendFair hpassed with ⟨m, him, hanswered⟩
      have hreach := hx.reach m
      refine ⟨m, hni.trans him, ?_⟩
      rcases hanswered with hanswered | hfailed | hdestroyed
      · have houtcomes := congrArg List.length (streamed (reachable_stream hreach)).outcomes
        rw [List.length_map] at houtcomes
        exact houtcomes ▸ hanswered
      · exact absurd hfailed (outcomes_of_healthy hreach)
      · exact absurd (before_of_active (sound hreach).active) (by
          rw [Bool.not_eq_true]
          exact hdestroyed)

/-- In every execution of a connection on which nothing fails, fair to the application's
thread, to the send thread and to the reader: the numbers of the lists sent so far are
output in the end, in their order and before any others. -/
theorem channel_delivers {x : (channelMachine abi).Execution} (hx : x.Meets Healthy)
    (hmain : x.WeaklyFair (Event.By .main)) (hsend : x.WeaklyFair (Event.By .send))
    (hrecv : x.WeaklyFair Event.Reads) (n : Nat) :
    ∃ m, n ≤ m ∧ numbers (x.state n).asked <+: (x.state m).output.flatMap Message.argv := by
  generalize hA : (x.state n).asked = A
  have hasked : Asked A (x.state n) := hA ▸ List.prefix_refl _
  rcases variant_submit.of_weaklyFair hx hmain
    (fun s hreach hs hnot => enabled_submit hreach hs hnot) hasked with ⟨i, hni, hsent⟩
  rcases exists_offered hx hmain hsend i with ⟨j, hij, hoffered⟩
  have hbytes : ∀ k, (x.state k).stream.accepted.map (fun b => b.2.2) =
      (((x.state k).stream.sender.submitted.take (x.state k).stream.writes.length).map
        Chunk.data).flatten := fun k =>
    have hstream := reachable_stream (hx.reach k)
    accepted_of_whole (streamed hstream) (delivery (reachable_sender hstream)).1
      (sound (hx.reach k)).whole
  have haccepted : (wire A).length ≤ (x.state j).stream.accepted.length := by
    have htake : (x.state i).stream.sender.submitted <+:
        (x.state j).stream.sender.submitted.take (x.state j).stream.writes.length :=
      List.prefix_take_iff.2 ⟨submitted_grows x hij, hoffered⟩
    have hlength := (hsent.trans (htake.map Chunk.data).flatten).length_le
    rwa [← hbytes, List.length_map] at hlength
  rcases (variant_recv (wire A).length).of_weaklyFair hx hrecv
    (fun s hreach hs hnot => enabled_recv hreach hs hnot) haccepted with ⟨m, hjm, harrived⟩
  refine ⟨m, hni.trans (hij.trans hjm), ?_⟩
  have hcarried := carried_of_healthy (hx.reach m)
  have hgot : (x.state m).got <+: sentBytes (x.state m).stream.sender := by
    have htaken :=
      (List.take_prefix (x.state m).arrived (x.state m).stream.accepted).map fun b : Placed => b.2.2
    exact htaken.trans (hbytes m ▸ ((List.take_prefix _ _).map _).flatten)
  have hall : wire A <+: sentBytes (x.state m).stream.sender :=
    hsent.trans ((submitted_grows x (hij.trans hjm)).map Chunk.data).flatten
  have hlength : (wire A).length ≤ (x.state m).got.length := by
    rw [Link.got, List.length_map, List.length_take]
    exact le_min harrived (harrived.trans hcarried.arrived)
  rw [hcarried.output, ← byteAtoms_wire]
  exact (List.prefix_of_prefix_length_le hall hgot hlength).map _

/-- What is not enabled inside the sender is not enabled in the connection. -/
theorem not_enabled_of_sender {t : Tid} (h : ¬ s.stream.sender.Ready t) :
    ¬ (channelMachine abi).Enabled (Event.By t) s := by
  rintro ⟨e, he, hsome⟩
  rcases Option.isSome_iff_exists.1 hsome with ⟨s', hstep⟩
  rcases steps_label s he with ⟨a, ha, hsteps⟩
  have hmove := projection.step s e s' hstep
  rw [ha] at hmove
  exact h ((enabled_iff _ _).1 ⟨a, hsteps, Option.isSome_iff_exists.2 ⟨_, hmove⟩⟩)

/-- One list goes all the way; then both threads wait. -/
def sendThenRest (argv : List Atom) (r : Int) : List Event :=
  .send argv :: ((quietSteps .main 5 ++ quietSteps .send 12).map fun a => .sender (a, r))

/-- A list of two numbers is sent and received in one piece. -/
theorem channel_delivers_run :
    ∃ x : (channelMachine ⟨true, 64⟩).Execution, x.Meets Healthy ∧
      (x.state 1).asked = [[setFloat (1 : Nat), setFloat (300 : Nat)]] ∧
      ∃ m, 1 ≤ m ∧ numbers (x.state 1).asked <+: (x.state m).output.flatMap Message.argv := by
  rcases floatlistCreate_wellTyped (fun _ => setSymbol "junk") 1024 with ⟨cl, hcreate, hwell⟩
  have hsent : ∃ s, (channelMachine ⟨true, 64⟩).run ⟨Stream.create, [], 0, cl, 1, []⟩
      (sendThenRest [setFloat (1 : Nat), setFloat (300 : Nat)] 2) = some s ∧
      s.arrived = 0 ∧ s.stream.accepted.length = 2 ∧ ∀ t, ¬ s.stream.sender.Ready t := by
    refine ⟨_, rfl, rfl, rfl, fun t => ?_⟩
    rintro ⟨ch, hsome⟩
    cases t <;> cases hsome
  rcases hsent with ⟨s, hsent, hnone, htwo, hnotReady⟩
  have hmeets : (channelMachine ⟨true, 64⟩).RunMeets Healthy ⟨Stream.create, [], 0, cl, 1, []⟩
      (sendThenRest [setFloat (1 : Nat), setFloat (300 : Nat)] 2) :=
    Machine.runMeets_of_meets rfl
  have hinit : (channelMachine ⟨true, 64⟩).init ⟨Stream.create, [], 0, cl, 1, []⟩ :=
    ⟨_, cl, hcreate, rfl⟩
  have hreach : (channelMachine ⟨true, 64⟩).Reach Healthy s :=
    Machine.Reach.run (.start hinit) hmeets hsent
  have hahead : s.ahead.length = 2 := by simp [Link.ahead, hnone, htwo]
  rcases exists_recv ⟨true, 64⟩ (carried_of_healthy hreach) ⟨2, 0#32, 0#16⟩
    (fun _ => setFloat 0) Nat.two_pos (by decide) hahead.ge with
    ⟨s', hstep, hstream, hsame, harrived⟩
  have hlast : (channelMachine ⟨true, 64⟩).run s
      [.recv 2 ⟨2, 0#32, 0#16⟩ fun _ => setFloat 0] = some s' := by
    rw [Machine.run_cons]
    exact Option.bind_eq_some_iff.2 ⟨s', hstep, rfl⟩
  have hrun := Machine.run_append hsent hlast
  have hx : (Machine.Execution.ofRun hinit hrun).Meets Healthy :=
    Machine.Execution.meets_ofRun (hmeets.append hsent ⟨trivial, fun _ _ => trivial⟩)
  have hthread : ∀ t, (Machine.Execution.ofRun hinit hrun).WeaklyFair (Event.By t) := fun t =>
    Machine.Execution.weaklyFair_ofRun (not_enabled_of_sender (hstream ▸ hnotReady t))
  have hread : (Machine.Execution.ofRun hinit hrun).WeaklyFair Event.Reads := by
    apply Machine.Execution.weaklyFair_ofRun
    rintro ⟨e, he, hsome⟩
    rcases Option.isSome_iff_exists.1 hsome with ⟨t, ht⟩
    cases Link.move ht with
    | recv k source raw r hpos hbuf hk =>
        rw [Link.ahead, List.length_drop, harrived, hstream, hnone, htwo] at hk
        omega
    | send | sender | serialize => exact he.elim
  exact ⟨_, hx, rfl, channel_delivers hx (hthread .main) (hthread .send) hread 1⟩

end Channel

end Iemnet
