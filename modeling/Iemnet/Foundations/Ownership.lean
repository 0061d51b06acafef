import Mathlib.Data.Set.Function
import Mathlib.Logic.Function.Basic

/-!
# Owned cells

A heap in which each of a set of owners has a cell of its own.  A program that only writes
cells nobody owns, allocates free cells and lets an owner free its own cell never changes
what somebody else owns.

Main results:

- Theorem {lit}`Owned.write`: writing a cell that nobody owns.
- Theorem {lit}`Owned.alloc`: a free cell gets an owner.
- Theorem {lit}`Owned.free`: an owner frees its cell.
-/

namespace Foundations

variable {ι α β : Type*} {heap : α → Option β} {place : ι → α} {content : ι → β}
  {live live' : Set ι}

/-- Every living owner has a cell of its own with its content. -/
structure Owned (heap : α → Option β) (place : ι → α) (content : ι → β) (live : Set ι) :
    Prop where
  stored : ∀ i ∈ live, heap (place i) = some (content i)
  apart : Set.InjOn place live

namespace Owned

/-- Owning nothing is always possible. -/
theorem empty (heap : α → Option β) (place : ι → α) (content : ι → β) :
    Owned heap place content ∅ :=
  ⟨fun _ hi => hi.elim, Set.injOn_empty place⟩

/-- Owners may go. -/
theorem mono (h : Owned heap place content live) (hsub : live' ⊆ live) :
    Owned heap place content live' :=
  ⟨fun i hi => h.stored i (hsub hi), h.apart.mono hsub⟩

/-- A free cell is nobody's. -/
theorem notMem_of_free (h : Owned heap place content live) {a : α} (ha : heap a = none) :
    a ∉ place '' live := by
  rintro ⟨i, hi, rfl⟩
  have hstored := h.stored i hi
  rw [ha] at hstored
  cases hstored

variable [DecidableEq α]

/-- Whatever is written to a cell that nobody owns, no owner notices. -/
theorem write (h : Owned heap place content live) {a : α} (ha : a ∉ place '' live)
    (v : Option β) : Owned (Function.update heap a v) place content live := by
  refine ⟨fun i hi => ?_, h.apart⟩
  have hne : place i ≠ a := fun heq => ha ⟨i, hi, heq⟩
  rw [Function.update_of_ne hne]
  exact h.stored i hi

/-- An owner frees its cell and is gone. -/
theorem free (h : Owned heap place content live) {i : ι} (hi : i ∈ live) :
    Owned (Function.update heap (place i) none) place content (live \ {i}) := by
  refine (h.mono Set.sdiff_subset).write ?_ none
  rintro ⟨j, ⟨hj, hne⟩, heq⟩
  exact hne (h.apart hj hi heq)

variable [DecidableEq ι]

/-- A free cell gets an owner. -/
theorem alloc (h : Owned heap place content live) {a : α} (ha : heap a = none) (i : ι) :
    Owned (Function.update heap a (some (content i))) (Function.update place i a) content
      (insert i live) := by
  have hfree := h.notMem_of_free ha
  have hplace : ∀ j ∈ insert i live,
      (j = i ∧ Function.update place i a j = a) ∨
        (j ∈ live ∧ Function.update place i a j = place j ∧ place j ≠ a) := by
    intro j hj
    by_cases hji : j = i
    · subst hji
      exact Or.inl ⟨rfl, Function.update_self ..⟩
    · have hlive : j ∈ live := hj.resolve_left hji
      exact Or.inr ⟨hlive, Function.update_of_ne hji .., fun heq => hfree ⟨j, hlive, heq⟩⟩
  constructor
  case stored =>
    intro j hj
    rcases hplace j hj with ⟨rfl, hnew⟩ | ⟨hlive, hold, hne⟩
    · rw [hnew, Function.update_self]
    · rw [hold, Function.update_of_ne hne]
      exact h.stored j hlive
  case apart =>
    intro j hj k hk heq
    rcases hplace j hj with ⟨rfl, hnewj⟩ | ⟨hlivej, holdj, hnej⟩
    · rcases hplace k hk with ⟨rfl, -⟩ | ⟨-, holdk, hnek⟩
      · rfl
      · rw [hnewj, holdk] at heq
        exact absurd heq.symm hnek
    · rcases hplace k hk with ⟨rfl, hnewk⟩ | ⟨hlivek, holdk, -⟩
      · rw [holdj, hnewk] at heq
        exact absurd heq hnej
      · rw [holdj, holdk] at heq
        exact h.apart hlivej hlivek heq

end Owned

end Foundations
