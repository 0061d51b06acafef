import Iemnet.Queue.Waiting

/-!
# Wake-ups

Whether the signals of the queue reach the threads that wait for them.  A push
signals once, and a woken thread may find that another one took the chunk; finishing
signals once as well, whoever waits.

Main results:

- Theorem {lit}`Call.flow`: what a section means for those who wait.
- Theorem {lit}`no_lost_wakeup`: as long as nobody finishes the queue, waiting threads
  face at most as many chunks as threads have been woken.
- Theorem {lit}`finish_releases`: finishing leaves nobody waiting in exactly the runs in
  which it finds at most one waiting thread and nobody starts to wait later.
-/

namespace Iemnet

open Foundations

variable {τ χ : Type}

/-! ## One section -/

section Flow

variable [DecidableEq τ] [Payload χ]
variable {q : Queue τ χ} {c : Call χ} {t : τ} {addr : Nat} {wake : Option τ}
variable {next : Queue τ χ × Call χ}

/-- What a section of thread {lit}`t` can do to the waiting threads and to the number
of chunks. -/
inductive Call.Flow (t : τ) (wake : Option τ) (q : Queue τ χ) (c : Call χ)
    (q' : Queue τ χ) : Prop
  | quiet (hcond : q'.cond = q.cond) (hdone : q'.done = q.done)
      (hpushed : q'.pushed = q.pushed) (hpopped : q'.popped = q.popped)
  | link (d : χ) (hcond : q.cond.signal wake = some q'.cond) (hdone : q'.done = q.done)
      (hpushed : q'.pushed = q.pushed ++ [d]) (hpopped : q'.popped = q.popped)
  | detach (hcond : q'.cond = q.cond) (hdone : q'.done = q.done)
      (hpushed : q'.pushed = q.pushed) (hpopped : q'.popped = q.popped + 1)
  /-- The list is empty, and the thread starts to wait. -/
  | wait (hc : c = .popBlockLock) (hhead : q.head = none)
      (hcond : q'.cond = q.cond.wait t) (hdone : q'.done = q.done)
      (hpushed : q'.pushed = q.pushed) (hpopped : q'.popped = q.popped)
  /-- A woken thread finds a chunk. -/
  | serve (hcond : q.cond.resume t = some q'.cond) (hnot : q.done = false)
      (hdone : q'.done = q.done) (hpushed : q'.pushed = q.pushed)
      (hpopped : q'.popped = q.popped + 1)
  /-- A woken thread finds nothing, and waits again. -/
  | rewait (cond : CondVar τ) (hresume : q.cond.resume t = some cond) (hnot : q.done = false)
      (hhead : q.head = none) (hcond : q'.cond = cond.wait t) (hdone : q'.done = q.done)
      (hpushed : q'.pushed = q.pushed) (hpopped : q'.popped = q.popped)
  /-- A woken thread sees that the queue is finished. -/
  | giveUp (hcond : q.cond.resume t = some q'.cond) (hset : q.done = true)
      (hdone : q'.done = q.done) (hpushed : q'.pushed = q.pushed)
      (hpopped : q'.popped = q.popped)
  | finish (hc : c = .finish) (hcond : q.cond.signal wake = some q'.cond)
      (hdone : q'.done = true) (hpushed : q'.pushed = q.pushed)
      (hpopped : q'.popped = q.popped)

omit [DecidableEq τ] in
/-- Linking adds the chunk to those that were pushed and pops nothing. -/
theorem NodeList.link_history {q q' : NodeList χ} {n : Nat} {d : χ}
    (h : q.link n d = some q') : q'.pushed = q.pushed ++ [d] ∧ q'.popped = q.popped := by
  unfold NodeList.link at h
  split at h
  · cases h
    exact ⟨rfl, rfl⟩
  · rcases Option.map_eq_some_iff.1 h with ⟨node, -, rfl⟩
    exact ⟨rfl, rfl⟩

omit [DecidableEq τ] in
/-- Unlinking counts one chunk more as popped and pushes nothing. -/
theorem NodeList.unlink_history {q q' : NodeList χ} {head : Nat}
    (h : q.unlink head = some q') : q'.pushed = q.pushed ∧ q'.popped = q.popped + 1 := by
  rcases Option.map_eq_some_iff.1 h with ⟨node, -, rfl⟩
  exact ⟨rfl, rfl⟩

/-- Every step of a call is one of the kinds that matter for the waiting threads. -/
theorem Call.flow (hstep : c.step t addr wake q = some next) :
    Call.Flow t wake q c next.1 := by
  cases c with
  | push data => cases data <;> cases hstep <;> exact .quiet rfl rfl rfl rfl
  | pushAlloc data =>
      simp only [Call.step] at hstep
      split at hstep
      · cases hstep
        exact .quiet rfl rfl rfl rfl
      · contradiction
  | pushLink n data =>
      rcases Option.bind_eq_some_iff.1 hstep with ⟨nodes, hlink, hrest⟩
      rcases Option.map_eq_some_iff.1 hrest with ⟨cond, hcond, rfl⟩
      have hhistory := NodeList.link_history hlink
      exact .link data hcond rfl hhistory.1 hhistory.2
  | popBlockLock =>
      rcases Queue.popTest_cases hstep with ⟨hhead, rfl⟩ | ⟨head, nodes, -, hunlink, rfl⟩
      · exact .wait rfl hhead rfl rfl rfl rfl
      · have hhistory := NodeList.unlink_history hunlink
        exact .detach rfl rfl hhistory.1 hhistory.2
  | popBlockWait =>
      rcases Option.bind_eq_some_iff.1 hstep with ⟨cond, hcond, hrest⟩
      split at hrest
      · rename_i hdone
        cases hrest
        exact .giveUp hcond hdone rfl rfl rfl
      · rename_i hdone
        have hnot : q.done = false := by simpa using hdone
        rcases Queue.popTest_cases hrest with ⟨hhead, rfl⟩ | ⟨head, nodes, -, hunlink, rfl⟩
        · exact .rewait cond hcond hnot hhead rfl rfl rfl rfl
        · have hhistory := NodeList.unlink_history hunlink
          exact .serve hcond hnot rfl hhistory.1 hhistory.2
  | popNoblockLock =>
      simp only [Call.step] at hstep
      split at hstep
      · cases hstep
        exact .quiet rfl rfl rfl rfl
      · rcases Option.map_eq_some_iff.1 hstep with ⟨nodes, hunlink, rfl⟩
        have hhistory := NodeList.unlink_history hunlink
        exact .detach rfl rfl hhistory.1 hhistory.2
  | popFree head ticket =>
      rcases Option.map_eq_some_iff.1 hstep with ⟨node, -, rfl⟩
      exact .quiet rfl rfl rfl rfl
  | popDone data =>
      rcases Option.map_eq_some_iff.1 hstep with ⟨q', hq', rfl⟩
      rcases Option.map_eq_some_iff.1 hq' with ⟨usedcond, -, rfl⟩
      exact .quiet rfl rfl rfl rfl
  | finish =>
      rcases Option.map_eq_some_iff.1 hstep with ⟨cond, hcond, rfl⟩
      exact .finish rfl hcond rfl rfl rfl
  | finishTest =>
      rcases Queue.finishLoop_cases t q with ⟨-, hloop⟩ | ⟨-, hloop⟩ <;>
        · simp only [Call.step, hloop] at hstep
          cases hstep
          exact .quiet rfl rfl rfl rfl
  | finishWait =>
      rcases Option.map_eq_some_iff.1 hstep with ⟨usedcond, -, rfl⟩
      rcases Queue.finishLoop_cases t { q with usedcond := usedcond } with
        ⟨-, hloop⟩ | ⟨-, hloop⟩ <;> rw [hloop] <;> exact .quiet rfl rfl rfl rfl
  | popBlock | popNoblock | getsize =>
      cases hstep
      exact .quiet rfl rfl rfl rfl
  | retSize _ | retChunk _ | retVoid => cases hstep

end Flow

/-! ## Pushing -/

section Pushing

variable [DecidableEq τ] [Payload χ] {s s' : Pool τ χ} {l : List (Nat × χ)}

/-- The number of chunks in the list. -/
def NodeList.backlog (q : NodeList χ) : Nat :=
  q.pushed.length - q.popped

omit [DecidableEq τ] in
/-- The backlog is the number of chunks in the list. -/
theorem NodeList.Shape.backlog_eq {q : NodeList χ} (h : q.Shape l) : q.backlog = l.length := by
  rw [NodeList.backlog, ← List.length_drop, h.content, List.length_map]

/-- While somebody waits, every chunk has a woken thread that is still to look at the
list. -/
def Queue.Served (q : Queue τ χ) : Prop :=
  q.cond.waiting ≠ [] → q.backlog ≤ q.cond.woken.length

/-- Nobody calls {lit}`queue_finish`. -/
def Unfinished (_ : Pool τ χ) (a : PoolAction τ χ) : Prop :=
  ∀ t, a ≠ .enter t .finish

/-- Every section of an unfinished queue keeps the count. -/
theorem Queue.Served.section {q q' : Queue τ χ} {c : Call χ} {t : τ} {wake : Option τ}
    (h : q.Served) (hshape : q.Shape l) (hdone : q.done = false) (hc : c ≠ .finish)
    (hflow : Call.Flow t wake q c q') : q'.Served := by
  have hle := hshape.popped_le
  cases hflow with
  | quiet hcond _ hpushed hpopped =>
      unfold Queue.Served NodeList.backlog
      rw [hcond, hpushed, hpopped]
      exact h
  | link d hcond _ hpushed hpopped =>
      have hmore : q'.backlog = q.backlog + 1 := by
        unfold NodeList.backlog
        rw [hpushed, hpopped, List.length_append, List.length_singleton]
        omega
      unfold Queue.Served
      rw [hmore]
      exact CondVar.signal_serves hcond h
  | detach hcond _ hpushed hpopped =>
      intro hwaiting
      rw [hcond] at hwaiting ⊢
      have := h hwaiting
      unfold NodeList.backlog at this ⊢
      rw [hpushed, hpopped]
      omega
  | wait _ hhead hcond _ hpushed hpopped =>
      intro _
      have hempty := hshape.backlog_eq
      rw [hshape.head_eq_none_iff.1 hhead, List.length_nil] at hempty
      unfold NodeList.backlog at hempty ⊢
      rw [hpushed, hpopped, hempty]
      exact Nat.zero_le _
  | serve hcond _ _ hpushed hpopped =>
      intro hwaiting
      rcases CondVar.resume_counts hcond with ⟨hsame, hless⟩
      rw [hsame] at hwaiting
      have := h hwaiting
      unfold NodeList.backlog at this ⊢
      rw [hpushed, hpopped]
      omega
  | rewait cond _ _ hhead hcond _ hpushed hpopped =>
      intro _
      have hempty := hshape.backlog_eq
      rw [hshape.head_eq_none_iff.1 hhead, List.length_nil] at hempty
      unfold NodeList.backlog at hempty ⊢
      rw [hpushed, hpopped, hempty]
      exact Nat.zero_le _
  | giveUp _ hset =>
      rw [hdone] at hset
      contradiction
  | finish hfinish => exact absurd hfinish hc

/-- No thread is about to finish the queue, and the count holds. -/
structure Pool.Supplied (s : Pool τ χ) : Prop where
  served : s.queue.Served
  done : s.queue.done = false
  calls : ∀ t, s.call t ≠ some .finish

omit [DecidableEq τ] [Payload χ] in
/-- At a new queue the count holds. -/
theorem Pool.supplied_create : (Pool.create τ χ).Supplied :=
  ⟨fun hne => absurd rfl hne, rfl, fun t h => absurd h (by simp [Pool.create])⟩

/-- Only a call leads to the beginning of {lit}`queue_finish`. -/
theorem Call.step_ne_finish {q : Queue τ χ} {c : Call χ} {t : τ} {addr : Nat} {wake : Option τ}
    {next : Queue τ χ × Call χ} (hstep : c.step t addr wake q = some next) :
    next.2 ≠ .finish := by
  intro heq
  rcases c.exists_covers with ⟨op, hop⟩
  have hnext := hop.step hstep
  rw [heq] at hnext
  cases op with
  | finish =>
      rcases Call.step_finishing hop hstep (by rw [heq]; rfl) with
        ⟨-, htest, -⟩ | ⟨-, hwait, -⟩
      · rw [htest] at heq
        contradiction
      · rw [hwait] at heq
        contradiction
  | push | popBlock | popNoblock | getsize => exact hnext.elim

/-- Every step of an unfinished queue keeps the count. -/
theorem Pool.Supplied.step (h : s.Supplied) (hinv : s.Inv l) {a : PoolAction τ χ}
    (hok : Unfinished s a) (hstep : s.step a = some s') : s'.Supplied := by
  have hcalls : ∀ (t : τ) (o : Option (Call χ)), o ≠ some .finish → ∀ u,
      Function.update s.call t o u ≠ some .finish := by
    intro t o ho u
    by_cases hut : u = t
    · subst hut
      rw [Function.update_self]
      exact ho
    · rw [Function.update_of_ne hut]
      exact h.calls u
  cases a with
  | enter t op =>
      simp only [Pool.step] at hstep
      split at hstep
      · cases hstep
        refine ⟨h.served, h.done, hcalls t _ ?_⟩
        intro heq
        cases op with
        | finish => exact hok t rfl
        | push | popBlock | popNoblock | getsize => cases heq
      · contradiction
  | step t addr wake =>
      rcases Option.bind_eq_some_iff.1 hstep with ⟨c, hcall, hrest⟩
      rcases Option.map_eq_some_iff.1 hrest with ⟨next, hnext, rfl⟩
      have hc : c ≠ .finish := fun heq => h.calls t (heq ▸ hcall)
      have hflow := Call.flow hnext
      refine ⟨h.served.section hinv.shape h.done hc hflow, ?_, hcalls t _ ?_⟩
      · cases hflow with
        | finish hfinish => exact absurd hfinish hc
        | quiet _ hdone | link _ _ hdone | detach _ hdone | wait _ _ _ hdone
        | serve _ _ hdone | rewait _ _ _ _ _ hdone | giveUp _ _ hdone => exact hdone.trans h.done
      · intro heq
        exact Call.step_ne_finish hnext (Option.some.inj heq)
  | spurious t =>
      rcases Option.bind_eq_some_iff.1 hstep with ⟨c, hcall, hrest⟩
      rcases Option.map_eq_some_iff.1 hrest with ⟨q, hq, rfl⟩
      cases c <;> simp only [Queue.spurious, reduceCtorEq] at hq
      all_goals rcases Option.map_eq_some_iff.1 hq with ⟨cond, hcond, rfl⟩
      · refine ⟨fun hwaiting => ?_, h.done, h.calls⟩
        have hmore := CondVar.signal_serves hcond h.served hwaiting
        exact Nat.le_of_succ_le hmore
      · exact ⟨h.served, h.done, h.calls⟩
  | leave t =>
      rcases Option.bind_eq_some_iff.1 hstep with ⟨c, hcall, hrest⟩
      split at hrest
      · cases hrest
        exact ⟨h.served, h.done, hcalls t none (by simp)⟩
      · contradiction

/-- As long as nothing is finished, the count holds. -/
theorem Pool.supplied (h : (queueMachine τ χ).Reach Unfinished s) : s.Supplied := by
  apply h.invariant (I := Pool.Supplied)
  · rintro s rfl
    exact Pool.supplied_create
  · intro s a s' hreach hsupplied hok hstep
    rcases Pool.exists_inv hreach.reachable with ⟨l, hl⟩
    exact hsupplied.step hl hok hstep

/-- In every state reached without {lit}`queue_finish`, spurious wake-ups included: the
threads at the wait of {lit}`queue_pop_block` are those that wait and those that have
been woken and are still to look at the list; and while one of them waits, the list
holds at most as many chunks as threads have been woken. -/
theorem no_lost_wakeup (h : (queueMachine τ χ).Reach Unfinished s) :
    (∀ t, s.call t = some .popBlockWait ↔
        t ∈ s.queue.cond.waiting ∨ t ∈ s.queue.cond.woken) ∧
      ∃ l, s.queue.Shape l ∧
        (s.queue.cond.waiting ≠ [] → l.length ≤ s.queue.cond.woken.length) := by
  have hwaits := Pool.waits h.reachable
  rcases Pool.exists_inv h.reachable with ⟨l, hl⟩
  refine ⟨fun t => ?_, l, hl.shape, ?_⟩
  · rw [← List.mem_append]
    constructor
    · intro hcall
      exact (hwaits.cond t).2 ⟨_, hcall, rfl⟩
    · intro hinside
      rcases (hwaits.cond t).1 hinside with ⟨c, hcall, hc⟩
      cases c with
      | popBlockWait => exact hcall
      | _ => contradiction
  · rw [← hl.shape.backlog_eq]
    exact (Pool.supplied h).served

/-- Two threads wait, and one chunk is pushed. -/
def oneChunkForTwo : List (PoolAction (Fin 3) Chunk) :=
  [.enter 0 .popBlock, .step 0 0 none, .step 0 0 none,
    .enter 1 .popBlock, .step 1 0 none, .step 1 0 none,
    .enter 2 (.push (some ⟨[1#8], 0, 0#16, 2⟩)), .step 2 0 none, .step 2 7 none,
    .step 2 0 (some 1)]

/-- Of two waiting pops one is woken by the only chunk, and the other one goes on waiting. -/
theorem no_lost_wakeup_run :
    ∃ s, (queueMachine (Fin 3) Chunk).run (Pool.create (Fin 3) Chunk) oneChunkForTwo = some s ∧
      s.queue.cond.waiting = [0] ∧
      ∃ l, s.queue.Shape l ∧
        (s.queue.cond.waiting ≠ [] → l.length ≤ s.queue.cond.woken.length) := by
  have hrun : (queueMachine (Fin 3) Chunk).run (Pool.create (Fin 3) Chunk) oneChunkForTwo =
      some _ := rfl
  have hmeets : (queueMachine (Fin 3) Chunk).RunMeets Unfinished (Pool.create (Fin 3) Chunk)
      oneChunkForTwo := by
    apply Machine.runMeets_of_forall
      (p := fun a : PoolAction (Fin 3) Chunk => ∀ t, a ≠ .enter t .finish)
    intro a ha t heq
    subst heq
    simp [oneChunkForTwo] at ha
  rcases no_lost_wakeup (Machine.Reach.run (.start rfl) hmeets hrun) with ⟨-, l, hl, hcount⟩
  exact ⟨_, hrun, rfl, l, hl, hcount⟩

end Pushing

/-! ## Finishing -/

section Finishing

variable [DecidableEq τ] [Payload χ] {s s' : Pool τ χ}

/-- The queue is finished while at most one thread waits, and nobody starts to wait on
a finished queue. -/
def Prompt (s : Pool τ χ) : PoolAction τ χ → Prop
  | .step t _ _ =>
      (s.call t = some .finish → s.queue.cond.waiting.length ≤ 1) ∧
        (s.call t = some .popBlockLock → s.queue.head = none → s.queue.done = false)
  | _ => True

/-- Nobody is left waiting on a finished queue. -/
def Pool.Released (s : Pool τ χ) : Prop :=
  s.queue.done = true → s.queue.cond.waiting = []

omit [Payload χ] in
/-- A signal leaves nobody waiting exactly if at most one was. -/
theorem CondVar.waiting_of_signal {c c' : CondVar τ} {w : Option τ} (h : c.signal w = some c') :
    c'.waiting = [] ↔ c.waiting.length ≤ 1 := by
  rcases CondVar.signal_cases h with ⟨-, hnil, rfl⟩ | ⟨t, -, ht, rfl⟩
  · rw [hnil]
    exact iff_of_true rfl (Nat.zero_le 1)
  · have hpos := List.length_pos_of_mem ht
    rw [← List.length_eq_zero_iff, List.length_erase_of_mem ht]
    omega

omit [Payload χ] in
/-- A signal does not start a wait. -/
theorem CondVar.waiting_nil {c c' : CondVar τ} {w : Option τ} (h : c.signal w = some c')
    (hnil : c.waiting = []) : c'.waiting = [] := by
  rw [CondVar.waiting_of_signal h, hnil]
  exact Nat.zero_le 1

omit [Payload χ] in
/-- Sections other than these two leave nobody waiting on a finished queue. -/
theorem Pool.Released.section (h : s.Released) {c : Call χ} {t : τ} {wake : Option τ}
    {q : Queue τ χ} {call : τ → Option (Call χ)} (hflow : Call.Flow t wake s.queue c q)
    (hfinish : c ≠ .finish) (hlock : c ≠ .popBlockLock) : Pool.Released ⟨q, call⟩ := by
  intro hdone'
  change q.done = true at hdone'
  show q.cond.waiting = []
  cases hflow with
  | quiet hcond hdone | detach hcond hdone =>
      rw [hdone] at hdone'
      rw [hcond]
      exact h hdone'
  | link d hcond hdone =>
      rw [hdone] at hdone'
      exact CondVar.waiting_nil hcond (h hdone')
  | wait hc => exact absurd hc hlock
  | serve _ hnot hdone | rewait _ _ hnot _ _ hdone =>
      rw [hdone, hnot] at hdone'
      contradiction
  | giveUp hcond hset =>
      rw [(CondVar.resume_counts hcond).1]
      exact h hset
  | finish hc => exact absurd hc hfinish

/-- The steps after which nobody waits on a finished queue. -/
theorem Pool.Released.step_iff (h : s.Released) {a : PoolAction τ χ}
    (hstep : s.step a = some s') : s'.Released ↔ Prompt s a := by
  cases a with
  | enter t op =>
      simp only [Pool.step] at hstep
      split at hstep
      · cases hstep
        exact iff_of_true h trivial
      · contradiction
  | step t addr wake =>
      rcases Option.bind_eq_some_iff.1 hstep with ⟨c, hcall, hrest⟩
      rcases Option.map_eq_some_iff.1 hrest with ⟨next, hnext, rfl⟩
      have hprompt : Prompt s (.step t addr wake) ↔
          (c = .finish → s.queue.cond.waiting.length ≤ 1) ∧
            (c = .popBlockLock → s.queue.head = none → s.queue.done = false) := by
        simp only [Prompt, hcall, Option.some.injEq]
      rw [hprompt]
      by_cases hfinish : c = .finish
      · subst hfinish
        rcases Option.map_eq_some_iff.1 hnext with ⟨cond, hcond, rfl⟩
        have hcount := CondVar.waiting_of_signal hcond
        constructor
        · intro hreleased
          exact ⟨fun _ => hcount.1 (hreleased rfl), fun heq => by contradiction⟩
        · intro hok _
          exact hcount.2 (hok.1 rfl)
      · by_cases hlock : c = .popBlockLock
        · subst hlock
          rcases Queue.popTest_cases hnext with ⟨hhead, rfl⟩ | ⟨head, nodes, hhead, -, rfl⟩
          · constructor
            · intro hreleased
              refine ⟨fun heq => by contradiction, fun _ _ => ?_⟩
              by_contra hdone
              have hnil := hreleased (by simpa using hdone)
              simp [CondVar.wait] at hnil
            · intro hok hdone
              have hnot := hok.2 rfl hhead
              change s.queue.done = true at hdone
              rw [hnot] at hdone
              contradiction
          · apply iff_of_true h
            refine ⟨fun heq => by contradiction, fun _ hnone => ?_⟩
            rw [hhead] at hnone
            contradiction
        · apply iff_of_true (h.section (Call.flow hnext) hfinish hlock)
          exact ⟨fun heq => absurd heq hfinish, fun heq => absurd heq hlock⟩
  | spurious t =>
      rcases Option.bind_eq_some_iff.1 hstep with ⟨c, hcall, hrest⟩
      rcases Option.map_eq_some_iff.1 hrest with ⟨q, hq, rfl⟩
      cases c <;> simp only [Queue.spurious, reduceCtorEq] at hq
      all_goals rcases Option.map_eq_some_iff.1 hq with ⟨cond, hcond, rfl⟩
      · exact iff_of_true (fun hdone => CondVar.waiting_nil hcond (h hdone)) trivial
      · exact iff_of_true h trivial
  | leave t =>
      rcases Option.bind_eq_some_iff.1 hstep with ⟨c, hcall, hrest⟩
      split at hrest
      · cases hrest
        exact iff_of_true h trivial
      · contradiction

/-- In every run in which the queue is finished while at most one thread waits and no
thread starts to wait afterwards, no thread is left at the wait of
{lit}`queue_pop_block` on a finished queue without a wake-up pending for it; and after
every further step this holds exactly if the step meets the condition as well. -/
theorem finish_releases (h : (queueMachine τ χ).Reach Prompt s) :
    (s.queue.done = true → ∀ t, s.call t = some .popBlockWait → t ∈ s.queue.cond.woken) ∧
      ∀ a s', (queueMachine τ χ).step s a = some s' →
        ((s'.queue.done = true → s'.queue.cond.waiting = []) ↔ Prompt s a) := by
  have hreleased : s.Released := by
    apply h.invariant (I := Pool.Released)
    · rintro s rfl
      exact fun hdone => absurd hdone (by simp [Pool.create, queueCreate])
    · intro s a s' _ hreleased hok hstep
      exact (hreleased.step_iff hstep).2 hok
  refine ⟨fun hdone t hcall => ?_, fun a s' hstep => hreleased.step_iff hstep⟩
  have hinside := ((Pool.waits h.reachable).cond t).2 ⟨_, hcall, rfl⟩
  rw [CondVar.inside, hreleased hdone] at hinside
  exact hinside

/-- One thread waits, and another one finishes the queue. -/
def finishForOne : List (PoolAction (Fin 3) Chunk) :=
  [.enter 0 .popBlock, .step 0 0 none, .step 0 0 none, .enter 2 .finish, .step 2 0 (some 0)]

/-- With a single waiting pop the run meets the condition. -/
theorem prompt_finishForOne : (queueMachine (Fin 3) Chunk).RunMeets Prompt
    (Pool.create (Fin 3) Chunk) finishForOne := by
  refine ⟨trivial, fun s₁ h₁ => ?_⟩
  cases h₁
  refine ⟨⟨fun _ => Nat.zero_le 1, fun _ _ => rfl⟩, fun s₂ h₂ => ?_⟩
  cases h₂
  refine ⟨⟨fun _ => Nat.zero_le 1, fun _ _ => rfl⟩, fun s₃ h₃ => ?_⟩
  cases h₃
  refine ⟨trivial, fun s₄ h₄ => ?_⟩
  cases h₄
  exact ⟨⟨fun _ => Nat.le_refl 1, fun _ _ => rfl⟩, fun _ _ => trivial⟩

/-- The only waiting pop is woken by the finish. -/
theorem finish_releases_run :
    ∃ s, (queueMachine (Fin 3) Chunk).run (Pool.create (Fin 3) Chunk) finishForOne = some s ∧
      s.queue.done = true ∧
      ∀ t, s.call t = some .popBlockWait → t ∈ s.queue.cond.woken := by
  have hrun : (queueMachine (Fin 3) Chunk).run (Pool.create (Fin 3) Chunk) finishForOne =
      some _ := rfl
  have hreach := Machine.Reach.run (.start rfl) prompt_finishForOne hrun
  exact ⟨_, hrun, rfl, (finish_releases hreach).1 rfl⟩

/-- What threads do that only pop and finish, without spurious wake-ups. -/
def PoolAction.Consuming : PoolAction τ χ → Prop
  | .enter _ op => op = .popBlock ∨ op = .finish
  | .spurious _ => False
  | _ => True

/-- Two threads wait, and the queue is finished. -/
def finishForTwo : List (PoolAction (Fin 3) Chunk) :=
  [.enter 0 .popBlock, .step 0 0 none, .step 0 0 none,
    .enter 1 .popBlock, .step 1 0 none, .step 1 0 none, .enter 2 .finish, .step 2 0 (some 1)]

/-- A queue is finished while nobody uses it, and a thread pops later. -/
def popAfterFinish : List (PoolAction (Fin 3) Chunk) :=
  [.enter 2 .finish, .step 2 0 none, .enter 0 .popBlock, .step 0 0 none, .step 0 0 none]

/-- The signal wakes one of two threads; a later pop waits although the queue is
finished. -/
theorem finish_leaves_waiting :
    (∃ s, (queueMachine (Fin 3) Chunk).Reach (fun _ a => a.Consuming) s ∧
        s.queue.done = true ∧ s.call 0 = some .popBlockWait ∧
        s.queue.cond.waiting = [0] ∧ s.queue.cond.woken = [1]) ∧
      ∃ s, (queueMachine (Fin 3) Chunk).Reach (fun _ a => a.Consuming) s ∧
        s.queue.done = true ∧ s.call 0 = some .popBlockWait ∧
        s.queue.cond.waiting = [0] ∧ s.queue.cond.woken = [] := by
  have htwo : (queueMachine (Fin 3) Chunk).run (Pool.create (Fin 3) Chunk) finishForTwo =
      some _ := rfl
  have hlate : (queueMachine (Fin 3) Chunk).run (Pool.create (Fin 3) Chunk) popAfterFinish =
      some _ := rfl
  have hmeets : ∀ as : List (PoolAction (Fin 3) Chunk), (∀ a ∈ as, a.Consuming) →
      (queueMachine (Fin 3) Chunk).RunMeets (fun _ a => a.Consuming)
        (Pool.create (Fin 3) Chunk) as := fun as h => Machine.runMeets_of_forall _ h
  have hfirst := Machine.Reach.run (.start rfl) (hmeets finishForTwo (by
    simp [finishForTwo, PoolAction.Consuming])) htwo
  have hsecond := Machine.Reach.run (.start rfl) (hmeets popAfterFinish (by
    simp [popAfterFinish, PoolAction.Consuming])) hlate
  constructor
  · exact ⟨_, hfirst, rfl, rfl, rfl, rfl⟩
  · exact ⟨_, hsecond, rfl, rfl, rfl, rfl⟩

end Finishing

end Iemnet
