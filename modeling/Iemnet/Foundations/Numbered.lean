import Mathlib.Data.List.Basic
import Mathlib.Data.List.Range
import Mathlib.Data.List.Nodup

/-!
# Numbered lists

A list whose members carry their own positions.  What is taken from such a list
in the order of the numbers is one of its prefixes, so a consumer only has to
watch the numbers.

Main results:

- Theorem {lit}`Numbered.eq_take`: members with the numbers {lit}`0, 1, …` are the
  first ones.
- Theorem {lit}`eq_length_of_append_singleton`: the number taken next is how many
  were taken before.
-/

namespace Foundations

variable {α : Type*}

/-- Every member of the list carries its position as its number. -/
def Numbered (number : α → Nat) (l : List α) : Prop :=
  l.map number = List.range l.length

variable {number : α → Nat} {l part : List α}

/-- The number of an element is its index. -/
theorem Numbered.number_getElem (h : Numbered number l) {i : Nat} {a : α}
    (ha : l[i]? = some a) : number a = i := by
  have hlt : i < l.length := (List.getElem?_eq_some_iff.1 ha).1
  have hmap : (l.map number)[i]? = some (number a) := by simp [ha]
  rw [h, List.getElem?_range hlt] at hmap
  exact (Option.some.inj hmap).symm

/-- The element is found under its number. -/
theorem Numbered.getElem_number (h : Numbered number l) {a : α} (ha : a ∈ l) :
    l[number a]? = some a := by
  rcases List.mem_iff_getElem?.1 ha with ⟨i, hi⟩
  rw [h.number_getElem hi, hi]

/-- The numbers identify the members. -/
theorem Numbered.nodup (h : Numbered number l) : (l.map number).Nodup := by
  rw [h]
  exact List.nodup_range

/-- Members taken in the order of their numbers are a prefix. -/
theorem Numbered.eq_take (h : Numbered number l) (hmem : ∀ a ∈ part, a ∈ l)
    (hpart : Numbered number part) : part = l.take part.length := by
  apply List.ext_getElem?
  intro i
  rw [List.getElem?_take]
  split
  · rename_i hlt
    have hget : part[i]? = some part[i] := List.getElem?_eq_getElem hlt
    have hnumber : number part[i] = i := hpart.number_getElem hget
    rw [hget, ← h.getElem_number (hmem _ (List.getElem_mem hlt)), hnumber]
  · rename_i hge
    exact List.getElem?_eq_none (Nat.le_of_not_lt hge)

/-- The next number goes to the end. -/
theorem Numbered.append_singleton (h : Numbered number part) {a : α}
    (ha : number a = part.length) : Numbered number (part ++ [a]) := by
  rw [Numbered, List.map_append, List.map_singleton, h, ha, List.length_append,
    List.length_singleton, List.range_succ]

/-- The number that completes a range is the length of the rest. -/
theorem eq_length_of_append_singleton {ns : List Nat} {k n : Nat}
    (h : ns ++ [k] = List.range n) : k = ns.length ∧ n = ns.length + 1 := by
  have hlength : n = ns.length + 1 := by simpa using (congrArg List.length h).symm
  rw [hlength, List.range_succ] at h
  have hlast := (List.append_inj' h rfl).2
  exact ⟨by simpa using hlast, hlength⟩

end Foundations
