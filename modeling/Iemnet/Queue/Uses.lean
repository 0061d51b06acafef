import Iemnet.Queue.Waiting

/-!
# The use counter

{lit}`queue_finish` waits until the use counter is zero, and {lit}`queue_destroy` frees the
queue on the strength of it.

Main results:

- Theorem {lit}`Pool.counted`: the counter counts the pops between their increment and
  their decrement, however many threads there are.
- Theorem {lit}`used_counts_pops`: the same together with what the end of
  {lit}`queue_finish` means.
-/

namespace Iemnet

open Foundations

variable {τ χ : Type}

/-- The threads between {lit}`queue_use_increment` and {lit}`queue_use_decrement`. -/
def Pool.users (s : Pool τ χ) : Set τ :=
  threadsIn s.call Call.inUse

/-- The use counter counts the threads that use the queue. -/
structure Pool.Counted (s : Pool τ χ) : Prop where
  finite : s.users.Finite
  used : s.queue.used = s.users.ncard

/-- Nobody uses a new queue. -/
theorem Pool.users_create : (Pool.create τ χ).users = ∅ := by
  ext t
  simp [users, threadsIn, Pool.create]

/-- Nobody is counted in a new queue. -/
theorem Pool.counted_create : (Pool.create τ χ).Counted := by
  constructor
  · rw [users_create]
    exact Set.finite_empty
  · rw [users_create, Set.ncard_empty]
    rfl

/-- A counter of zero means that nobody uses the queue. -/
theorem Pool.Counted.users_eq_empty {s : Pool τ χ} (h : s.Counted) (hzero : s.queue.used = 0) :
    s.users = ∅ := by
  rw [← Set.ncard_eq_zero h.finite]
  have hused := h.used
  omega

section Counting

variable [DecidableEq τ] {s s' : Pool τ χ} {t : τ}

/-- The count of a pool in which one thread has moved on, if the counter moves with it. -/
theorem Pool.Counted.update (h : s.Counted) {q : Queue τ χ} {o : Option (Call χ)}
    (hused : q.used + ((s.call t).any Call.inUse).toNat =
      s.queue.used + (o.any Call.inUse).toNat) :
    Pool.Counted ⟨q, Function.update s.call t o⟩ := by
  have hcount := ncard_threadsIn_update h.finite t o
  have hold := h.used
  refine ⟨finite_threadsIn_update h.finite t o, ?_⟩
  show q.used = (threadsIn (Function.update s.call t o) Call.inUse).ncard
  unfold users at hold
  omega

variable [Payload χ]

/-- Every step keeps the count. -/
theorem Pool.Counted.step (h : s.Counted) {a : PoolAction τ χ} (hstep : s.step a = some s') :
    s'.Counted := by
  cases a with
  | enter t op =>
      simp only [Pool.step] at hstep
      split at hstep
      · rename_i hcall
        cases hstep
        rw [Option.isNone_iff_eq_none] at hcall
        apply h.update
        simp [hcall]
      · contradiction
  | step t addr wake =>
      rcases Option.bind_eq_some_iff.1 hstep with ⟨c, hcall, hrest⟩
      rcases Option.map_eq_some_iff.1 hrest with ⟨next, hnext, rfl⟩
      apply h.update
      rw [hcall]
      exact (Call.sync hnext).used
  | spurious t =>
      rcases Option.bind_eq_some_iff.1 hstep with ⟨c, hcall, hrest⟩
      rcases Option.map_eq_some_iff.1 hrest with ⟨q, hq, rfl⟩
      cases c <;> simp only [Queue.spurious, reduceCtorEq] at hq
      all_goals
        rcases Option.map_eq_some_iff.1 hq with ⟨cond, -, rfl⟩
        exact ⟨h.finite, h.used⟩
  | leave t =>
      rcases Option.bind_eq_some_iff.1 hstep with ⟨c, hcall, hrest⟩
      split at hrest
      · rename_i hfinished
        cases hrest
        apply h.update
        simp [hcall, Call.inUse_of_finished hfinished]
      · contradiction

/-- The count, in every reachable state. -/
theorem Pool.counted (h : (queueMachine τ χ).Reachable s) : s.Counted := by
  apply h.invariant (I := Pool.Counted)
  · rintro s rfl
    exact Pool.counted_create
  · exact fun s a s' _ hcounted _ hstep => hcounted.step hstep

/-! ## The end of {lit}`queue_finish` -/

/-- {lit}`queue_finish` leaves its loop on a counter of zero, and leaves it alone. -/
theorem Call.step_retVoid {q : Queue τ χ} {c : Call χ} {addr : Nat} {wake : Option τ}
    {next : Queue τ χ × Call χ} (hstep : c.step t addr wake q = some next)
    (hnext : next.2 = .retVoid) : q.used = 0 ∧ next.1.used = 0 := by
  rcases c.exists_covers with ⟨op, hop⟩
  have hafter := hop.step hstep
  rw [hnext] at hafter
  cases op with
  | finish =>
      cases c with
      | finish =>
          rcases Option.map_eq_some_iff.1 hstep with ⟨cond, -, rfl⟩
          cases hnext
      | finishTest =>
          rcases Queue.finishLoop_cases t q with ⟨-, hloop⟩ | ⟨hused, hloop⟩ <;>
            simp only [Call.step, hloop] at hstep <;> cases hstep
          · cases hnext
          · exact ⟨hused, hused⟩
      | finishWait =>
          rcases Option.map_eq_some_iff.1 hstep with ⟨usedcond, -, rfl⟩
          rcases Queue.finishLoop_cases t { q with usedcond := usedcond } with
            ⟨-, hloop⟩ | ⟨hused, hloop⟩ <;> rw [hloop] at hnext ⊢
          · cases hnext
          · exact ⟨hused, hused⟩
      | retVoid => cases hstep
      | _ => exact hop.elim
  | _ => exact hafter.elim

/-- A call of {lit}`queue_finish` ends its loop in this step. -/
def Pool.Leaves (s s' : Pool τ χ) (t : τ) : Prop :=
  s.call t ≠ some .retVoid ∧ s'.call t = some .retVoid

/-- When a finish leaves its loop, nobody is counted, before and after. -/
theorem Pool.used_of_leaves {a : PoolAction τ χ} (hstep : s.step a = some s')
    (hleaves : s.Leaves s' t) : s.queue.used = 0 ∧ s'.queue.used = 0 := by
  rcases hleaves with ⟨hbefore, hafter⟩
  cases a with
  | enter u op =>
      simp only [Pool.step] at hstep
      split at hstep
      · cases hstep
        rcases update_eq_some_cases hafter with ⟨-, hentry⟩ | ⟨-, hsame⟩
        · cases op <;> cases hentry
        · exact absurd hsame hbefore
      · contradiction
  | step u addr wake =>
      rcases Option.bind_eq_some_iff.1 hstep with ⟨c, -, hrest⟩
      rcases Option.map_eq_some_iff.1 hrest with ⟨next, hnext, rfl⟩
      rcases update_eq_some_cases hafter with ⟨-, hpoint⟩ | ⟨-, hsame⟩
      · exact Call.step_retVoid hnext (Option.some.inj hpoint)
      · exact absurd hsame hbefore
  | spurious u =>
      rcases Option.bind_eq_some_iff.1 hstep with ⟨c, -, hrest⟩
      rcases Option.map_eq_some_iff.1 hrest with ⟨q, -, rfl⟩
      exact absurd hafter hbefore
  | leave u =>
      rcases Option.bind_eq_some_iff.1 hstep with ⟨c, -, hrest⟩
      split at hrest
      · cases hrest
        rcases update_eq_some_cases hafter with ⟨-, hnone⟩ | ⟨-, hsame⟩
        · cases hnone
        · exact absurd hsame hbefore
      · contradiction

/-- In every reachable state, whatever threads push, pop, ask for the size and finish and
however their sections are interleaved: finitely many threads are between
{lit}`queue_use_increment` and {lit}`queue_use_decrement`, {lit}`used` is their number, and
it is not negative; and {lit}`queue_finish` leaves its waiting loop only in a step before
and after which there is no such thread. -/
theorem used_counts_pops (h : (queueMachine τ χ).Reachable s) :
    s.users.Finite ∧ s.queue.used = s.users.ncard ∧ 0 ≤ s.queue.used ∧
      ∀ a s' t, (queueMachine τ χ).step s a = some s' → s.Leaves s' t →
        s.users = ∅ ∧ s'.users = ∅ := by
  have hcounted := Pool.counted h
  refine ⟨hcounted.finite, hcounted.used, ?_, fun a s' t hstep hleaves => ?_⟩
  · rw [hcounted.used]
    exact Int.natCast_nonneg _
  · rcases Pool.used_of_leaves hstep hleaves with ⟨hbefore, hafter⟩
    exact ⟨hcounted.users_eq_empty hbefore, (hcounted.step hstep).users_eq_empty hafter⟩

/-- A pop waits on an empty queue, another one finds nothing, and {lit}`queue_finish` waits
for both. -/
def finishDuringPops : List (PoolAction Nat Chunk) :=
  [.enter 0 .popBlock, .step 0 0 none, .step 0 0 none,
    .enter 1 .popNoblock, .step 1 0 none, .step 1 0 none,
    .enter 2 .finish, .step 2 0 (some 0), .step 2 0 none]

/-- Both pops return, and {lit}`queue_finish` is woken. -/
def popsReturn : List (PoolAction Nat Chunk) :=
  [.step 0 0 none, .step 1 0 (some 2), .step 0 0 none]

/-- Two pops that wait are counted; once both have returned the finish leaves its loop. -/
theorem used_counts_pops_run :
    ∃ s s' s'' : Pool Nat Chunk,
      (queueMachine Nat Chunk).run (Pool.create Nat Chunk) finishDuringPops = some s ∧
      s.queue.used = 2 ∧ s.users.ncard = 2 ∧
      (queueMachine Nat Chunk).run s popsReturn = some s' ∧
      (queueMachine Nat Chunk).step s' (.step 2 0 none) = some s'' ∧
      s'.Leaves s'' 2 ∧ s'.users = ∅ := by
  have hrun : (queueMachine Nat Chunk).run (Pool.create Nat Chunk) finishDuringPops =
      some _ := rfl
  have hlater : (queueMachine Nat Chunk).run (Pool.create Nat Chunk)
      (finishDuringPops ++ popsReturn) = some _ := rfl
  have hcount := (used_counts_pops (Machine.reach_of_run rfl hrun)).2.1
  have hwaits : (some .finishWait : Option (Call Chunk)) ≠ some .retVoid := by simp
  have hend := (used_counts_pops (Machine.reach_of_run rfl hlater)).2.2.2 (.step 2 0 none) _ 2
    rfl ⟨hwaits, rfl⟩
  exact ⟨_, _, _, hrun, rfl, Int.natCast_inj.1 hcount.symm, rfl, rfl, ⟨hwaits, rfl⟩, hend.1⟩

end Counting

end Iemnet
