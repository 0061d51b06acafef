import Iemnet.Queue.Calls
import Iemnet.Sender.Model

/-!
# The transitions of the sender

Everything one step of the sender can do, with its guard, said once; every
invariant is proved by cases on {lit}`Transition` and never unfolds the step
function again.

Main results:

- Theorem {lit}`State.transition`: a step is one of the listed transitions.
- Theorem {lit}`reachable_pool`: the queue inside a reachable sender is a
  reachable queue.
-/

namespace Iemnet

open Foundations

namespace Sender

namespace State

/-- Only a thread that is in no call enters one. -/
theorem enter_eq_some {s s' : State} {t : Tid} {op : QueueOp Copy} :
    s.enter t op = some s' ↔
      s.pool.call t = none ∧ s' = { s with pool := s.pool.entered t op } := by
  unfold State.enter
  rw [Option.map_eq_some_iff]
  constructor
  · rintro ⟨pool, hpool, rfl⟩
    rcases Pool.step_enter.1 hpool with ⟨hcall, rfl⟩
    exact ⟨hcall, rfl⟩
  · rintro ⟨hcall, rfl⟩
    exact ⟨_, Pool.step_enter.2 ⟨hcall, rfl⟩, rfl⟩

/-- Only a finished call is left. -/
theorem leave_eq_some {s s' : State} {t : Tid} :
    s.leave t = some s' ↔
      (∃ c, s.pool.call t = some c ∧ c.finished = true) ∧
        s' = { s with pool := s.pool.left t } := by
  unfold State.leave
  rw [Option.map_eq_some_iff]
  constructor
  · rintro ⟨pool, hpool, rfl⟩
    rcases Pool.step_leave.1 hpool with ⟨hcall, rfl⟩
    exact ⟨hcall, rfl⟩
  · rintro ⟨hcall, rfl⟩
    exact ⟨_, Pool.step_leave.2 ⟨hcall, rfl⟩, rfl⟩

/-- Work on the queue is a step of the thread's call. -/
theorem queueSection_eq_some {s s' : State} {t : Tid} {ch : Choice} :
    s.queueSection t ch = some s' ↔
      ∃ c next, s.pool.call t = some c ∧ c.step t ch.addr ch.wake s.pool.queue = some next ∧
        s' = { s with pool := s.pool.moved t next } := by
  unfold State.queueSection
  rw [Option.map_eq_some_iff]
  constructor
  · rintro ⟨pool, hpool, rfl⟩
    rcases Pool.step_step.1 hpool with ⟨c, next, hcall, hnext, rfl⟩
    exact ⟨c, next, hcall, hnext, rfl⟩
  · rintro ⟨c, next, hcall, hnext, rfl⟩
    exact ⟨_, Pool.step_step.2 ⟨c, next, hcall, hnext, rfl⟩, rfl⟩

end State

/-- The transitions of the sender. -/
inductive Transition (s : State) : Action → State → Prop
  | callSend (c : Option Chunk) (hpc : s.main = .idle) :
      Transition s (.callSend c) { s with main := .sendCheck c }
  | callDestroy
      (hpc : s.main = .idle) : Transition s .callDestroy { s with main := .destroyLock }
  | queueSection (t : Tid) (ch : Choice) (c : Call Copy)
      (next : Queue Tid Copy × Call Copy) (hcall : s.pool.call t = some c)
      (hstep : c.step t ch.addr ch.wake s.pool.queue = some next) :
      Transition s (.step t ch) { s with pool := s.pool.moved t next }
  | spurious (t : Tid) (c : Call Copy) (q : Queue Tid Copy) (hcall : s.pool.call t = some c)
      (hwake : s.pool.queue.spurious t c = some q) :
      Transition s (.spurious t) { s with pool := { s.pool with queue := q } }
  | loopEnter {ch : Choice} (hpc : s.thread = .loopTest) (hmtx : s.mtx = none)
      (hkeep : s.keepsending = true) (hcall : s.pool.call .send = none) :
      Transition s (.step .send ch) { s with
        thread := .inPop, pool := s.pool.entered .send .popBlock }
  | loopExit {ch : Choice} (hpc : s.thread = .loopTest) (hmtx : s.mtx = none)
      (hkeep : s.keepsending = false) (hcall : s.pool.call .send = none) :
      Transition s (.step .send ch) { s with isrunning := false, thread := .exited }
  | popNothing {ch : Choice} (hcall : s.pool.call .send = some (.retChunk none)) :
      Transition s (.step .send ch) { s with thread := .loopTest, pool := s.pool.left .send }
  | popChunk {ch : Choice} (k : Nat) (c : Copy)
      (hcall : s.pool.call .send = some (.retChunk (some (k, c)))) :
      Transition s (.step .send ch) { s with thread := .got c, pool := s.pool.left .send }
  | passChunk {ch : Choice} (c : Copy) (hpc : s.thread = .got c)
      (hcall : s.pool.call .send = none) :
      Transition s (.step .send ch) { s with passed := s.passed ++ [c], thread := .sending c }
  | sendReturns {ch : Choice} (ok : Bool) (c : Copy) (hpc : s.thread = .sending c)
      (hcall : s.pool.call .send = none) :
      Transition s (.step .send ch) { s with
        outcomes := s.outcomes ++ [ok], thread := .sent ok c }
  | release {ch : Choice} (ok : Bool) (c : Copy) (hpc : s.thread = .sent ok c)
      (hcall : s.pool.call .send = none) :
      Transition s (.step .send ch) { s with
        released := s.released ++ [c]
        thread := if ok then .loopTest else .brokenLock }
  | brokenExit {ch : Choice} (hpc : s.thread = .brokenLock) (hmtx : s.mtx = none)
      (hcall : s.pool.call .send = none) :
      Transition s (.step .send ch) { s with isrunning := false, thread := .exited }
  | sendRefused {ch : Choice} (c : Option Chunk) (hpc : s.main = .sendCheck c)
      (hmtx : s.mtx = none)
      (hrun : s.isrunning = false) (hcall : s.pool.call .main = none) :
      Transition s (.step .main ch) { s with results := s.results ++ [-1#32], main := .idle }
  | sendNothing {ch : Choice} (c : Option Chunk) (hpc : s.main = .sendCheck c)
      (hmtx : s.mtx = none)
      (hrun : s.isrunning = true) (hcall : s.pool.call .main = none)
      (hnothing : chunkCreateChunk ch.mem c = none) :
      Transition s (.step .main ch) { s with
        main := .pushing none, pool := s.pool.entered .main (.push none) }
  | sendCopy {ch : Choice} (src chunk : Chunk)
      (hpc : s.main = .sendCheck (some src))
      (hmtx : s.mtx = none) (hrun : s.isrunning = true)
      (hcopy : chunkCreateChunk ch.mem (some src) = some chunk)
      (hcall : s.pool.call .main = none) :
      Transition s (.step .main ch) { s with
        submitted := s.submitted ++ [src]
        main := .pushing (some ⟨s.submitted.length, chunk⟩)
        pool := s.pool.entered .main (.push (some ⟨s.submitted.length, chunk⟩)) }
  | pushReturn {ch : Choice} (data : Option Copy) (size : BitVec 32)
      (hpc : s.main = .pushing data)
      (hcall : s.pool.call .main = some (.retSize size)) :
      Transition s (.step .main ch) { s with
        results := s.results ++ [size], main := .idle, pool := s.pool.left .main }
  | destroyWait {ch : Choice} (hpc : s.main = .destroyLock) (hmtx : s.mtx = none)
      (hkeep : s.keepsending = true) (hrun : s.isrunning = true)
      (hcall : s.pool.call .main = none) :
      Transition s (.step .main ch) { s with
        keepsending := false, clearedAt := some s.passed.length, mtx := some .main
        main := .finishing, pool := s.pool.entered .main .finish }
  | destroyGone {ch : Choice} (hpc : s.main = .destroyLock) (hmtx : s.mtx = none)
      (hkeep : s.keepsending = true) (hrun : s.isrunning = false)
      (hcall : s.pool.call .main = none) :
      Transition s (.step .main ch) { s with
        keepsending := false, clearedAt := some s.passed.length
        main := .finishing2, pool := s.pool.entered .main .finish }
  | destroyRefused {ch : Choice} (hpc : s.main = .destroyLock) (hmtx : s.mtx = none)
      (hkeep : s.keepsending = false) (hcall : s.pool.call .main = none) :
      Transition s (.step .main ch) { s with main := .refused }
  | finishReturn {ch : Choice} (hpc : s.main = .finishing)
      (hcall : s.pool.call .main = some .retVoid) :
      Transition s (.step .main ch) { s with
        mtx := none, main := .relock, pool := s.pool.left .main }
  | relockWait {ch : Choice} (hpc : s.main = .relock) (hmtx : s.mtx = none)
      (hrun : s.isrunning = true)
      (hcall : s.pool.call .main = none) :
      Transition s (.step .main ch) { s with
        keepsending := false, mtx := some .main
        main := .finishing, pool := s.pool.entered .main .finish }
  | relockGone {ch : Choice} (hpc : s.main = .relock) (hmtx : s.mtx = none)
      (hrun : s.isrunning = false)
      (hcall : s.pool.call .main = none) :
      Transition s (.step .main ch) { s with
        main := .finishing2, pool := s.pool.entered .main .finish }
  | finish2Return {ch : Choice} (hpc : s.main = .finishing2)
      (hcall : s.pool.call .main = some .retVoid) :
      Transition s (.step .main ch) { s with main := .joining, pool := s.pool.left .main }
  | join {ch : Choice} (hpc : s.main = .joining) (hexited : s.thread = .exited)
      (hcall : s.pool.call .main = none) :
      Transition s (.step .main ch) { s with
        main := .finishing3, pool := s.pool.entered .main .finish }
  | finish3Return {ch : Choice} (hpc : s.main = .finishing3)
      (hcall : s.pool.call .main = some .retVoid) :
      Transition s (.step .main ch) { s with
        main := .draining, pool := (s.pool.left .main).entered .main .popNoblock }
  | drainEmpty {ch : Choice} (hpc : s.main = .draining)
      (hcall : s.pool.call .main = some (.retChunk none)) :
      Transition s (.step .main ch) { s with main := .destroyed, pool := s.pool.left .main }
  | drainChunk {ch : Choice} (k : Nat) (c : Copy) (hpc : s.main = .draining)
      (hcall : s.pool.call .main = some (.retChunk (some (k, c)))) :
      Transition s (.step .main ch) { s with
        main := .drainRelease c, pool := s.pool.left .main }
  | drainRelease {ch : Choice} (c : Copy) (hpc : s.main = .drainRelease c)
      (hcall : s.pool.call .main = none) :
      Transition s (.step .main ch) { s with
        released := s.released ++ [c], main := .draining
        pool := s.pool.entered .main .popNoblock }

namespace State

variable {s s' : State} {ch : Choice}

/-- What the send thread does by itself is one of the transitions. -/
theorem transition_threadLocal (hcall : s.pool.call .send = none)
    (h : s.threadLocal ch = some s') : Transition s (.step .send ch) s' := by
  unfold State.threadLocal at h
  split at h
  · rename_i hpc
    split at h
    · contradiction
    · rename_i hmtx
      have hmtx : s.mtx = none := by simpa using hmtx
      split at h
      · rename_i hkeep
        rcases State.enter_eq_some.1 h with ⟨-, rfl⟩
        exact .loopEnter hpc hmtx hkeep hcall
      · rename_i hkeep
        cases h
        exact .loopExit hpc hmtx (by simpa using hkeep) hcall
  · contradiction
  · rename_i c hpc
    cases h
    exact .passChunk c hpc hcall
  · rename_i c hpc
    cases h
    exact .sendReturns ch.ok c hpc hcall
  · rename_i ok c hpc
    cases h
    exact .release ok c hpc hcall
  · rename_i hpc
    split at h
    · contradiction
    · rename_i hmtx
      cases h
      exact .brokenExit hpc (by simpa using hmtx) hcall
  · contradiction

/-- What the send thread does with a result is one of the transitions. -/
theorem transition_threadReturn {c : Call Copy} (hcall : s.pool.call .send = some c)
    (h : s.threadReturn c = some s') : Transition s (.step .send ch) s' := by
  unfold State.threadReturn at h
  split at h
  · rcases State.leave_eq_some.1 h with ⟨-, rfl⟩
    exact .popNothing hcall
  · rename_i k c
    rcases State.leave_eq_some.1 h with ⟨-, rfl⟩
    exact .popChunk k c hcall
  · contradiction

/-- What the main thread does by itself is one of the transitions. -/
theorem transition_mainLocal (hcall : s.pool.call .main = none)
    (h : s.mainLocal ch = some s') : Transition s (.step .main ch) s' := by
  unfold State.mainLocal at h
  split at h
  · contradiction
  · rename_i c hpc
    split at h
    · contradiction
    · rename_i hmtx
      have hmtx : s.mtx = none := by simpa using hmtx
      split at h
      · rename_i hrun
        split at h
        · rename_i src chunk hcopy
          rcases State.enter_eq_some.1 h with ⟨-, rfl⟩
          exact .sendCopy src chunk hpc hmtx hrun hcopy hcall
        · rename_i hnot
          rcases State.enter_eq_some.1 h with ⟨-, rfl⟩
          refine .sendNothing _ hpc hmtx hrun hcall (Option.eq_none_iff_forall_not_mem.2 ?_)
          intro chunk hchunk
          rcases chunkCreateChunk_some hchunk with ⟨src, rfl, -⟩
          exact hnot src chunk rfl hchunk
      · rename_i hrun
        cases h
        exact .sendRefused c hpc hmtx (by simpa using hrun) hcall
  · contradiction
  · rename_i hpc
    split at h
    · contradiction
    · rename_i hmtx
      have hmtx : s.mtx = none := by simpa using hmtx
      split at h
      · rename_i hkeep
        unfold State.destroyLoop at h
        split at h
        · rename_i hrun
          rcases State.enter_eq_some.1 h with ⟨-, rfl⟩
          exact .destroyWait hpc hmtx hkeep hrun hcall
        · rename_i hrun
          rcases State.enter_eq_some.1 h with ⟨-, rfl⟩
          exact .destroyGone hpc hmtx hkeep (by simpa using hrun) hcall
      · rename_i hkeep
        cases h
        exact .destroyRefused hpc hmtx (by simpa using hkeep) hcall
  · contradiction
  · rename_i hpc
    split at h
    · contradiction
    · rename_i hmtx
      have hmtx : s.mtx = none := by simpa using hmtx
      unfold State.destroyLoop at h
      split at h
      · rename_i hrun
        rcases State.enter_eq_some.1 h with ⟨-, rfl⟩
        exact .relockWait hpc hmtx hrun hcall
      · rename_i hrun
        rcases State.enter_eq_some.1 h with ⟨-, rfl⟩
        exact .relockGone hpc hmtx (by simpa using hrun) hcall
  · contradiction
  · rename_i hpc
    split at h
    · rename_i hexited
      rcases State.enter_eq_some.1 h with ⟨-, rfl⟩
      exact .join hpc hexited hcall
    · contradiction
  · contradiction
  · contradiction
  · rename_i c hpc
    rcases State.enter_eq_some.1 h with ⟨-, rfl⟩
    exact .drainRelease c hpc hcall
  · contradiction
  · contradiction

/-- What the main thread does with a result is one of the transitions. -/
theorem transition_mainReturn {c : Call Copy} (hcall : s.pool.call .main = some c)
    (h : s.mainReturn c = some s') : Transition s (.step .main ch) s' := by
  unfold State.mainReturn at h
  split at h
  · rename_i data size hpc
    rcases State.leave_eq_some.1 h with ⟨-, rfl⟩
    exact .pushReturn data size hpc hcall
  · rename_i hpc
    rcases State.leave_eq_some.1 h with ⟨-, rfl⟩
    exact .finishReturn hpc hcall
  · rename_i hpc
    rcases State.leave_eq_some.1 h with ⟨-, rfl⟩
    exact .finish2Return hpc hcall
  · rename_i hpc
    rcases Option.bind_eq_some_iff.1 h with ⟨s₁, hleave, henter⟩
    rcases State.leave_eq_some.1 hleave with ⟨-, rfl⟩
    rcases State.enter_eq_some.1 henter with ⟨-, rfl⟩
    exact .finish3Return hpc hcall
  · rename_i hpc
    rcases State.leave_eq_some.1 h with ⟨-, rfl⟩
    exact .drainEmpty hpc hcall
  · rename_i k d hpc
    rcases State.leave_eq_some.1 h with ⟨-, rfl⟩
    exact .drainChunk k d hpc hcall
  · contradiction

/-- Work on the queue is one of the transitions. -/
theorem transition_queueSection {t : Tid} (h : s.queueSection t ch = some s') :
    Transition s (.step t ch) s' := by
  rcases State.queueSection_eq_some.1 h with ⟨c, next, hcall, hstep, rfl⟩
  exact .queueSection t ch c next hcall hstep

/-- Every step of the sender is one of the transitions. -/
theorem transition {a : Action} (h : s.step a = some s') : Transition s a s' := by
  cases a with
  | callSend c =>
      simp only [State.step] at h
      split at h
      · rename_i hpc
        cases h
        exact .callSend c hpc
      · contradiction
  | callDestroy =>
      simp only [State.step] at h
      split at h
      · rename_i hpc
        cases h
        exact .callDestroy hpc
      · contradiction
  | step t ch =>
      simp only [State.step, State.advance] at h
      split at h
      · rename_i hcall
        exact transition_threadLocal hcall h
      · rename_i hcall
        exact transition_mainLocal hcall h
      · rename_i c hcall
        split at h
        · exact transition_threadReturn hcall h
        · exact transition_queueSection h
      · rename_i c hcall
        split at h
        · exact transition_mainReturn hcall h
        · exact transition_queueSection h
  | spurious t =>
      rcases Option.map_eq_some_iff.1 h with ⟨pool, hpool, rfl⟩
      rcases Option.bind_eq_some_iff.1 hpool with ⟨c, hcall, hrest⟩
      rcases Option.map_eq_some_iff.1 hrest with ⟨q, hwake, rfl⟩
      exact .spurious t c q hcall hwake

end State

/-! ## The queue inside the sender -/

section Inside

variable {τ χ : Type} [DecidableEq τ] [Payload χ] {p : Pool τ χ} {t : τ}

/-- Entering a call is a step of the queue. -/
theorem reachable_entered (h : (queueMachine τ χ).Reachable p) (hcall : p.call t = none)
    (op : QueueOp χ) : (queueMachine τ χ).Reachable (p.entered t op) :=
  h.next (a := .enter t op) trivial (Pool.step_enter.2 ⟨hcall, rfl⟩)

/-- Leaving a call is a step of the queue. -/
theorem reachable_left (h : (queueMachine τ χ).Reachable p) {c : Call χ}
    (hcall : p.call t = some c) (hfinished : c.finished = true) :
    (queueMachine τ χ).Reachable (p.left t) :=
  h.next (a := .leave t) trivial (Pool.step_leave.2 ⟨⟨c, hcall, hfinished⟩, rfl⟩)

/-- Work on the queue is a step of the queue. -/
theorem reachable_moved (h : (queueMachine τ χ).Reachable p) {addr : Nat} {wake : Option τ}
    {c : Call χ} {next : Queue τ χ × Call χ} (hcall : p.call t = some c)
    (hstep : c.step t addr wake p.queue = some next) :
    (queueMachine τ χ).Reachable (p.moved t next) :=
  h.next (a := .step t addr wake) trivial
    (Pool.step_step.2 ⟨c, next, hcall, hstep, rfl⟩)

/-- Waking up for no reason is a step of the queue. -/
theorem reachable_spurious (h : (queueMachine τ χ).Reachable p) {c : Call χ} {q : Queue τ χ}
    (hcall : p.call t = some c) (hwake : p.queue.spurious t c = some q) :
    (queueMachine τ χ).Reachable { p with queue := q } :=
  h.next (a := .spurious t) trivial
    (Option.bind_eq_some_iff.2 ⟨c, hcall, Option.map_eq_some_iff.2 ⟨q, hwake, rfl⟩⟩)

end Inside

/-- A transition of the sender is made of transitions of its queue. -/
theorem Transition.pool_reachable {s s' : State} {a : Action} (h : Transition s a s')
    (hpool : (queueMachine Tid Copy).Reachable s.pool) :
    (queueMachine Tid Copy).Reachable s'.pool := by
  cases h with
  | queueSection t ch c next hcall hstep => exact reachable_moved hpool hcall hstep
  | spurious t c q hcall hwake => exact reachable_spurious hpool hcall hwake
  | loopEnter _ _ _ hcall => exact reachable_entered hpool hcall _
  | sendNothing _ _ _ _ hcall => exact reachable_entered hpool hcall _
  | sendCopy _ _ _ _ _ _ hcall => exact reachable_entered hpool hcall _
  | destroyWait _ _ _ _ hcall => exact reachable_entered hpool hcall _
  | destroyGone _ _ _ _ hcall => exact reachable_entered hpool hcall _
  | relockWait _ _ _ hcall => exact reachable_entered hpool hcall _
  | relockGone _ _ _ hcall => exact reachable_entered hpool hcall _
  | join _ _ hcall => exact reachable_entered hpool hcall _
  | drainRelease _ _ hcall => exact reachable_entered hpool hcall _
  | popNothing hcall => exact reachable_left hpool hcall rfl
  | popChunk _ _ hcall => exact reachable_left hpool hcall rfl
  | pushReturn _ _ _ hcall => exact reachable_left hpool hcall rfl
  | finishReturn _ hcall => exact reachable_left hpool hcall rfl
  | finish2Return _ hcall => exact reachable_left hpool hcall rfl
  | drainEmpty _ hcall => exact reachable_left hpool hcall rfl
  | drainChunk _ _ _ hcall => exact reachable_left hpool hcall rfl
  | finish3Return _ hcall =>
      exact reachable_entered (reachable_left hpool hcall rfl) (Function.update_self ..) _
  | _ => exact hpool

variable {ok : State → Action → Prop}

/-- The queue inside a reachable sender is a reachable queue. -/
theorem reachable_pool {s : State} (h : senderMachine.Reach ok s) :
    (queueMachine Tid Copy).Reachable s.pool := by
  refine Machine.Reach.invariant
    (I := fun s : State => (queueMachine Tid Copy).Reachable s.pool) ?_ ?_ h
  · rintro s rfl
    exact .start rfl
  · intro s a s' _ hpool _ hstep
    exact (State.transition hstep).pool_reachable hpool

end Sender
end Iemnet
