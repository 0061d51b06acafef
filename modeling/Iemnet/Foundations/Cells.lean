import Mathlib.Data.List.Perm.Basic
import Mathlib.Data.List.Nodup

/-!
# Cells

An array of records is seen through a partial function {lit}`f`: a cell shows something or
is blank.  Writing one cell adds or removes what it shows and nothing else, whatever the
order of the cells.

Main results:

- Theorems {lit}`perm_fill` and {lit}`perm_vacate`: what is shown after one cell was
  written.
- Theorem {lit}`shown_unique`: cells that show different things can be told apart by them.
- Theorem {lit}`perm_eraseP_key`: the same for a keyed list that loses one entry.
-/

namespace Foundations
namespace Cells

variable {α β : Type*} {f : α → Option β} {l : List α} {i j : Nat} {a b : α} {v : β}

/-- One cell set apart from the others. -/
theorem perm_filterMap (f : α → Option β) (hi : l[i]? = some a) :
    (l.filterMap f).Perm ((f a).toList ++ (l.eraseIdx i).filterMap f) := by
  rcases List.getElem?_eq_some_iff.1 hi with ⟨hlt, rfl⟩
  have hperm := (List.getElem_cons_eraseIdx_perm hlt).symm.filterMap f
  rw [List.filterMap_cons] at hperm
  cases hf : f l[i] with
  | none =>
      rw [hf] at hperm
      exact hperm
  | some v =>
      rw [hf] at hperm
      exact hperm

/-- Writing a cell. -/
theorem perm_filterMap_set (f : α → Option β) (hi : l[i]? = some a) (b : α) :
    ((l.set i b).filterMap f).Perm ((f b).toList ++ (l.eraseIdx i).filterMap f) := by
  have hlt := (List.getElem?_eq_some_iff.1 hi).1
  have hget : (l.set i b)[i]? = some b := by
    rw [List.getElem?_set_self hlt]
  have hperm := perm_filterMap f hget
  rw [List.eraseIdx_set_eq] at hperm
  exact hperm

/-- A blank cell that comes to show something. -/
theorem perm_fill (hi : l[i]? = some a) (ha : f a = none) (hb : f b = some v) :
    ((l.set i b).filterMap f).Perm (v :: l.filterMap f) := by
  have hset := perm_filterMap_set f hi b
  have hold := perm_filterMap f hi
  rw [hb] at hset
  rw [ha] at hold
  exact hset.trans (hold.symm.cons v)

/-- A cell that becomes blank. -/
theorem perm_vacate (hi : l[i]? = some a) (ha : f a = some v) (hb : f b = none) :
    (l.filterMap f).Perm (v :: (l.set i b).filterMap f) := by
  have hset := perm_filterMap_set f hi b
  have hold := perm_filterMap f hi
  rw [hb] at hset
  rw [ha] at hold
  exact hold.trans (hset.symm.cons v)

/-- A cell after one of them was written. -/
theorem getElem?_set_cases (h : (l.set i b)[j]? = some a) :
    (j = i ∧ a = b) ∨ (j ≠ i ∧ l[j]? = some a) := by
  by_cases hji : j = i
  · subst hji
    have hlt := (List.getElem?_eq_some_iff.1 h).1
    rw [List.length_set] at hlt
    rw [List.getElem?_set_self hlt] at h
    exact Or.inl ⟨rfl, (Option.some.inj h).symm⟩
  · rw [List.getElem?_set_ne (Ne.symm hji)] at h
    exact Or.inr ⟨hji, h⟩

/-- Cells show different things. -/
theorem shown_unique (h : (l.filterMap f).Nodup) (hi : l[i]? = some a) (ha : f a = some v)
    (hj : l[j]? = some b) (hb : f b = some v) : i = j := by
  by_contra hne
  have hsplit := (perm_filterMap f hi).nodup_iff.1 h
  rw [ha] at hsplit
  have hmem : b ∈ l.eraseIdx i := by
    rw [List.mem_eraseIdx_iff_getElem?]
    exact ⟨j, Ne.symm hne, hj⟩
  have hshown : v ∈ (l.eraseIdx i).filterMap f := List.mem_filterMap.2 ⟨b, hmem, hb⟩
  exact (List.nodup_cons.1 hsplit).1 hshown

/-- The first cell with a property is the only one. -/
theorem findIdx?_eq_of_unique {p : α → Bool} (hi : l[i]? = some a) (ha : p a = true)
    (hunique : ∀ j b, l[j]? = some b → p b = true → j = i) : l.findIdx? p = some i := by
  have hlt := (List.getElem?_eq_some_iff.1 hi).1
  rw [List.findIdx?_eq_some_iff_getElem]
  refine ⟨hlt, ?_, ?_⟩
  · rw [(List.getElem?_eq_some_iff.1 hi).2]
    exact ha
  · intro j hj hp
    have := hunique j _ (List.getElem?_eq_getElem (Nat.lt_trans hj hlt)) hp
    omega

/-- At most one element has no order. -/
theorem eq_toList_of_perm {o : Option α} (h : l.Perm o.toList) : l = o.toList := by
  cases o with
  | none => exact h.eq_nil
  | some a => exact List.perm_singleton.1 h

/-- A keyed list without the entry of one key. -/
theorem perm_eraseP_key {κ : Type*} [DecidableEq κ] {l rest : List (κ × β)} {k : κ} {v : β}
    (h : (l.map Prod.fst).Nodup) (hperm : l.Perm ((k, v) :: rest)) :
    (l.eraseP fun p => p.1 = k).Perm rest := by
  have hpair : l.Pairwise fun p q => decide (p.1 = k) → decide (q.1 = k) → False := by
    rw [List.Nodup, List.pairwise_map] at h
    refine h.imp ?_
    intro p q hne hp hq
    exact hne ((of_decide_eq_true hp).trans (of_decide_eq_true hq).symm)
  have herase := List.Perm.eraseP (fun p : κ × β => decide (p.1 = k)) hpair hperm
  rw [List.eraseP_cons_of_pos (by simp)] at herase
  exact herase

end Cells
end Foundations
