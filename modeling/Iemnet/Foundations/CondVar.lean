import Mathlib.Data.List.Basic
import Mathlib.Data.List.Nodup

/-!
# Condition variables

A condition variable seen between critical sections: the threads that wait on
it, and those that have been woken but have not yet re-acquired the mutex.  A
signal wakes one waiting thread of the scheduler's choice and is lost if nobody
waits.

Main results:

- Theorem {lit}`signal_cases`: everything a signal can do.
- Theorem {lit}`Move.inside`: who is inside the wait after a critical section.
- Theorem {lit}`woken_of_signal`: a signal is not lost on the only waiter.
-/

namespace Foundations

/-- The threads inside {lit}`pthread_cond_wait`, split by whether a wake-up has
reached them. -/
structure CondVar (τ : Type*) where
  waiting : List τ
  woken : List τ

namespace CondVar

variable {τ : Type*}

/-- Nobody waits. -/
def idle : CondVar τ :=
  ⟨[], []⟩

/-- Start waiting. -/
def wait (c : CondVar τ) (t : τ) : CondVar τ :=
  { c with waiting := c.waiting ++ [t] }

/-- The threads inside the wait, woken or not. -/
def inside (c : CondVar τ) : List τ :=
  c.waiting ++ c.woken

/-- Whoever waits is inside, together with all the others. -/
theorem mem_wait (c : CondVar τ) (t u : τ) :
    u ∈ (c.wait t).inside ↔ u = t ∨ u ∈ c.inside := by
  simp only [wait, inside, List.mem_append, List.mem_singleton]
  grind

/-- A thread that was outside is inside once when it waits. -/
theorem nodup_wait {c : CondVar τ} {t : τ} (hnodup : c.inside.Nodup) (h : t ∉ c.inside) :
    (c.wait t).inside.Nodup := by
  have hperm : (c.wait t).inside.Perm (t :: c.inside) := by
    simp only [wait, inside, List.append_assoc]
    exact List.perm_middle
  exact hperm.nodup_iff.2 (List.nodup_cons.2 ⟨h, hnodup⟩)

variable [DecidableEq τ]

/-- Wake the chosen thread; choosing nobody is possible only if nobody waits. -/
def signal (c : CondVar τ) : Option τ → Option (CondVar τ)
  | none => if c.waiting = [] then some c else none
  | some t =>
      if t ∈ c.waiting then some ⟨c.waiting.erase t, c.woken ++ [t]⟩ else none

/-- Leave the wait; only a woken thread can. -/
def resume (c : CondVar τ) (t : τ) : Option (CondVar τ) :=
  if t ∈ c.woken then some { c with woken := c.woken.erase t } else none

/-- A signal finds nobody, or moves one waiting thread to the woken ones. -/
theorem signal_cases {c c' : CondVar τ} {w : Option τ} (h : c.signal w = some c') :
    (w = none ∧ c.waiting = [] ∧ c' = c) ∨
      ∃ t, w = some t ∧ t ∈ c.waiting ∧ c' = ⟨c.waiting.erase t, c.woken ++ [t]⟩ := by
  cases w with
  | none =>
      simp only [signal] at h
      split at h
      · rename_i hempty
        exact Or.inl ⟨rfl, hempty, (Option.some.inj h).symm⟩
      · contradiction
  | some t =>
      simp only [signal] at h
      split at h
      · rename_i hmem
        exact Or.inr ⟨t, rfl, hmem, (Option.some.inj h).symm⟩
      · contradiction

/-- Only a woken thread resumes, and it is struck off the woken ones. -/
theorem resume_eq_some {c c' : CondVar τ} {t : τ} :
    c.resume t = some c' ↔ t ∈ c.woken ∧ c' = { c with woken := c.woken.erase t } := by
  unfold resume
  split
  · rename_i h
    simp [h, eq_comm]
  · rename_i h
    simp [h]

/-- Some signal is always possible. -/
theorem exists_signal (c : CondVar τ) : ∃ w c', c.signal w = some c' := by
  cases hw : c.waiting with
  | nil => exact ⟨none, c, by simp [signal, hw]⟩
  | cons t ts => exact ⟨some t, _, by simp [signal, hw]; rfl⟩

/-- Waking a thread keeps it inside the wait. -/
theorem perm_signal {c c' : CondVar τ} {w : Option τ} (h : c.signal w = some c') :
    c'.inside.Perm c.inside := by
  rcases signal_cases h with ⟨-, -, rfl⟩ | ⟨t, -, hmem, rfl⟩
  · exact List.Perm.refl _
  · have hsplit : c.waiting.Perm (t :: c.waiting.erase t) := List.perm_cons_erase hmem
    calc
      (c.waiting.erase t ++ (c.woken ++ [t])).Perm
          ((t :: c.waiting.erase t) ++ c.woken) := by
        rw [← List.append_assoc, List.cons_append]
        exact List.perm_append_singleton _ _
      _ |>.Perm (c.waiting ++ c.woken) := hsplit.symm.append_right _

/-- A signal moves threads about, but nobody leaves. -/
theorem mem_signal {c c' : CondVar τ} {w : Option τ} (h : c.signal w = some c') (t : τ) :
    t ∈ c'.inside ↔ t ∈ c.inside :=
  (perm_signal h).mem_iff

/-- Leaving the wait removes exactly one thread. -/
theorem mem_resume {c c' : CondVar τ} {t : τ} (hnodup : c.inside.Nodup)
    (h : c.resume t = some c') (u : τ) : u ∈ c'.inside ↔ u ≠ t ∧ u ∈ c.inside := by
  rcases resume_eq_some.1 h with ⟨hmem, rfl⟩
  unfold inside at hnodup ⊢
  rw [List.nodup_append] at hnodup
  have herase : u ∈ c.woken.erase t ↔ u ≠ t ∧ u ∈ c.woken := hnodup.2.1.mem_erase_iff
  have hdisjoint : u ∈ c.waiting → u ≠ t := fun hu hut => hnodup.2.2 u hu t hmem hut
  simp only [List.mem_append, herase]
  grind

/-- Nobody is inside twice after a thread has resumed. -/
theorem nodup_resume {c c' : CondVar τ} {t : τ} (hnodup : c.inside.Nodup)
    (h : c.resume t = some c') : c'.inside.Nodup := by
  rcases resume_eq_some.1 h with ⟨-, rfl⟩
  exact hnodup.sublist (List.Sublist.append_left List.erase_sublist _)

/-- What one critical section of thread {lit}`t` can do to a condition variable;
the flags say whether the thread is inside the wait before and after. -/
inductive Move (t : τ) (c : CondVar τ) : Bool → CondVar τ → Bool → Prop
  | stay : Move t c false c false
  | wait : Move t c false (c.wait t) true
  | resume {c' : CondVar τ} (h : c.resume t = some c') : Move t c true c' false
  | rewait {c' : CondVar τ} (h : c.resume t = some c') : Move t c true (c'.wait t) true
  | signal {w : Option τ} {c' : CondVar τ} (h : c.signal w = some c') :
      Move t c false c' false

/-- The threads inside the wait after a section: the mover as its flag says, all
others as before. -/
theorem Move.inside {t : τ} {c c' : CondVar τ} {before after : Bool}
    (h : Move t c before c' after) (hnodup : c.inside.Nodup)
    (hmem : t ∈ c.inside ↔ before = true) :
    c'.inside.Nodup ∧ ∀ u, u ∈ c'.inside ↔ (if u = t then after = true else u ∈ c.inside) := by
  cases h with
  | stay =>
      refine ⟨hnodup, fun u => ?_⟩
      split
      · rename_i hut
        rw [hut, hmem]
      · rfl
  | wait =>
      have hout : t ∉ c.inside := by simp [hmem]
      refine ⟨nodup_wait hnodup hout, fun u => ?_⟩
      rw [mem_wait]
      split <;> simp_all
  | resume hresume =>
      refine ⟨nodup_resume hnodup hresume, fun u => ?_⟩
      rw [mem_resume hnodup hresume]
      split <;> simp_all
  | rewait hresume =>
      have hmem' := mem_resume hnodup hresume
      have hout := (hmem' t).not.2 (by simp)
      refine ⟨nodup_wait (nodup_resume hnodup hresume) hout, fun u => ?_⟩
      rw [mem_wait, hmem']
      split <;> simp_all
  | signal hsignal =>
      refine ⟨(perm_signal hsignal).nodup_iff.2 hnodup, fun u => ?_⟩
      rw [mem_signal hsignal]
      split
      · rename_i hut
        rw [hut, hmem]
      · rfl

/-- A signal reaches the only thread that waits. -/
theorem woken_of_signal {c c' : CondVar τ} {w : Option τ} {t : τ}
    (h : c.signal w = some c') (honly : ∀ u ∈ c.waiting, u = t) (ht : t ∈ c.inside) :
    t ∈ c'.woken := by
  rcases List.mem_append.1 ht with hwaiting | hwoken
  · rcases signal_cases h with ⟨-, hnil, -⟩ | ⟨u, -, hu, rfl⟩
    · simp [hnil] at hwaiting
    · rw [honly u hu]
      simp
  · rcases signal_cases h with ⟨-, -, rfl⟩ | ⟨u, -, -, rfl⟩
    · exact hwoken
    · exact List.mem_append_left _ hwoken

/-- A signal serves one more item: it wakes a thread, or nobody waits. -/
theorem signal_serves {c c' : CondVar τ} {w : Option τ} (h : c.signal w = some c')
    {n : Nat} (hserved : c.waiting ≠ [] → n ≤ c.woken.length) :
    c'.waiting ≠ [] → n + 1 ≤ c'.woken.length := by
  intro hwaiting
  rcases signal_cases h with ⟨-, hnil, rfl⟩ | ⟨t, -, ht, rfl⟩
  · exact absurd hnil hwaiting
  · rw [List.length_append, List.length_singleton]
    exact Nat.succ_le_succ (hserved (List.ne_nil_of_mem ht))

/-- Whoever leaves the wait leaves the others waiting, with one woken thread less. -/
theorem resume_counts {c c' : CondVar τ} {t : τ} (h : c.resume t = some c') :
    c'.waiting = c.waiting ∧ c'.woken.length + 1 = c.woken.length := by
  rcases resume_eq_some.1 h with ⟨hmem, rfl⟩
  refine ⟨rfl, ?_⟩
  have hpos : 0 < c.woken.length := List.length_pos_of_mem hmem
  rw [List.length_erase_of_mem hmem]
  omega

end CondVar
end Foundations
