import Mathlib.Logic.Function.Basic
import Mathlib.Data.List.Basic

/-!
# Merged streams

Several sources write to one stream, one item at a time and in any order.

Main results:

- Theorem {lit}`Merges.append`: one source writes several items.
- Theorem {lit}`Merges.sublist`: the items of a source are in the stream, in their order.
-/

namespace Foundations

variable {ι α : Type*} [DecidableEq ι]

/-- The stream {lit}`l` when source {lit}`i` has written {lit}`f i`. -/
inductive Merges : (ι → List α) → List α → Prop
  | nil : Merges (fun _ => []) []
  | next {f : ι → List α} {l : List α} (i : ι) (a : α) (h : Merges f l) :
      Merges (Function.update f i (f i ++ [a])) (l ++ [a])

variable {f : ι → List α} {l : List α}

/-- Adding to one of the lists and to the merge keeps it a merge. -/
theorem Merges.append (h : Merges f l) (i : ι) (d : List α) :
    Merges (Function.update f i (f i ++ d)) (l ++ d) := by
  induction d generalizing f l with
  | nil =>
      rw [List.append_nil, List.append_nil, Function.update_eq_self]
      exact h
  | cons a d ih =>
      have hrest := ih (h.next i a)
      rw [Function.update_self, Function.update_idem, List.append_assoc, List.append_assoc]
        at hrest
      exact hrest

/-- Every one of the lists is in the merge, in its order. -/
theorem Merges.sublist (h : Merges f l) (i : ι) : (f i).Sublist l := by
  induction h with
  | nil => exact List.Sublist.refl _
  | @next f l j a h ih =>
      by_cases hij : i = j
      · subst hij
        rw [Function.update_self]
        exact ih.append (List.Sublist.refl _)
      · rw [Function.update_of_ne hij]
        exact ih.trans (List.sublist_append_left l [a])

end Foundations
