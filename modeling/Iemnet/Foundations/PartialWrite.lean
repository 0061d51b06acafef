import Mathlib.Data.List.Basic
import Mathlib.Data.List.Nodup

/-!
# Partial writes

A writer offers blocks one after the other; of each block the receiver takes a
prefix whose length it announces, and a negative answer refuses the block.  When
the writer goes on to the next block whatever the answer was, what arrives is the
concatenation of the prefixes.

Main results:

- Theorem {lit}`taken_prefix_iff`: if no element occurs twice, the received sequence
  is a prefix of the offered one exactly when nothing is taken after a block that
  was cut short.
-/

namespace Foundations.PartialWrite

variable {α : Type*}

/-- What the receiver holds after a sequence of blocks and answers. -/
def taken (ws : List (List α × Int)) : List α :=
  ws.flatMap fun w => w.1.take w.2.toNat

/-- The block was accepted in part. -/
def Short (w : List α × Int) : Prop :=
  0 ≤ w.2 ∧ w.2 < w.1.length

/-- Without writes nothing is taken. -/
@[simp]
theorem taken_nil : taken ([] : List (List α × Int)) = [] :=
  rfl

/-- The first write comes first, as far as it went. -/
@[simp]
theorem taken_cons (w : List α × Int) (ws : List (List α × Int)) :
    taken (w :: ws) = w.1.take w.2.toNat ++ taken ws :=
  rfl

/-- Writes one after the other are taken one after the other. -/
theorem taken_append (ws ws' : List (List α × Int)) :
    taken (ws ++ ws') = taken ws ++ taken ws' := by
  simp [taken]

/-- Blocks that are all taken whole arrive as they are. -/
theorem taken_of_whole {ws : List (List α × Int)} (h : ∀ w ∈ ws, w.2 = w.1.length) :
    taken ws = (ws.map Prod.fst).flatten := by
  induction ws with
  | nil => rfl
  | cons w ws ih =>
      rw [List.forall_mem_cons] at h
      rw [taken_cons, List.map_cons, List.flatten_cons, ih h.2, h.1, Int.toNat_natCast,
        List.take_length]

/-- What is received has been offered. -/
theorem mem_of_mem_taken {ws : List (List α × Int)} {a : α} (h : a ∈ taken ws) :
    a ∈ (ws.map Prod.fst).flatten := by
  rcases List.mem_flatMap.1 h with ⟨w, hw, ha⟩
  exact List.mem_flatten.2 ⟨w.1, List.mem_map_of_mem hw, List.mem_of_mem_take ha⟩

/-- Nothing arrives exactly when every answer is that nothing was taken. -/
theorem taken_eq_nil_iff {ws : List (List α × Int)} (hle : ∀ w ∈ ws, w.2 ≤ w.1.length) :
    taken ws = [] ↔ ∀ w ∈ ws, w.2 ≤ 0 := by
  rw [taken, List.flatMap_eq_nil_iff]
  refine forall₂_congr fun w hw => ?_
  have := hle w hw
  rw [List.take_eq_nil_iff]
  constructor
  · rintro (hzero | hnil)
    · omega
    · simpa [hnil] using this
  · intro hneg
    exact Or.inl (by omega)

/-- After a cut block the received sequence is a prefix only if it is at its end. -/
theorem taken_eq_nil_of_prefix {ws : List (List α × Int)} {block rest : List α} {n : Nat}
    (hnodup : (block ++ (ws.map Prod.fst).flatten).Nodup) (hn : n < block.length)
    (hbegin : block.take n ++ taken ws <+: block ++ rest) : taken ws = [] := by
  cases htaken : taken ws with
  | nil => rfl
  | cons a as =>
      exfalso
      rw [htaken] at hbegin
      have hlength : (block.take n).length = n := by simp; omega
      -- the element taken next stands where the block was cut
      have hget : (block ++ rest)[n]? = some a := by
        rcases hbegin with ⟨t, ht⟩
        rw [← ht, List.append_assoc, List.getElem?_append_right (by omega), hlength]
        simp
      rw [List.getElem?_append_left hn] at hget
      have hblock : a ∈ block := List.mem_of_getElem? hget
      have hlater : a ∈ (ws.map Prod.fst).flatten :=
        mem_of_mem_taken (by rw [htaken]; exact List.mem_cons_self)
      exact (List.nodup_append.1 hnodup).2.2 a hblock a hlater rfl

/-- Only the last block may be refused; then the received sequence is a prefix of
the offered one exactly when nothing is taken after a short answer. -/
theorem taken_prefix_iff {ws : List (List α × Int)} (rest : List α)
    (hnodup : (ws.map Prod.fst).flatten.Nodup) (hle : ∀ w ∈ ws, w.2 ≤ w.1.length)
    (hrefused : ws.Pairwise fun w _ => 0 ≤ w.2) :
    taken ws <+: (ws.map Prod.fst).flatten ++ rest ↔
      ws.Pairwise fun w w' => Short w → w'.2 ≤ 0 := by
  induction ws with
  | nil => simp
  | cons w ws ih =>
      rw [List.map_cons, List.flatten_cons] at hnodup
      rw [List.pairwise_cons] at hrefused
      have hle' : ∀ w ∈ ws, w.2 ≤ w.1.length := fun w hw => hle w (List.mem_cons_of_mem _ hw)
      have ih := ih (List.nodup_append.1 hnodup).2.1 hle' hrefused.2
      have hw := hle w List.mem_cons_self
      rw [taken_cons, List.map_cons, List.flatten_cons, List.append_assoc, List.pairwise_cons]
      rcases Int.lt_or_le w.2 0 with hneg | hpos
      · -- a refused block is the last one
        have hlast : ws = [] := by
          rcases List.eq_nil_or_concat ws with hnil | ⟨ws', w', rfl⟩
          · exact hnil
          · exact absurd (hrefused.1 w' (by simp)) (by omega)
        subst hlast
        simp [Int.toNat_of_nonpos (Int.le_of_lt hneg)]
      · rcases Int.lt_or_le w.2 w.1.length with hshort | hwhole
        · constructor
          · intro hbegin
            have hnil := taken_eq_nil_of_prefix hnodup (by omega) hbegin
            have hquiet := (taken_eq_nil_iff hle').1 hnil
            exact ⟨fun w' hw' _ => hquiet w' hw',
              List.pairwise_of_forall_mem_list fun _ _ w' hw' _ => hquiet w' hw'⟩
          · rintro ⟨hquiet, -⟩
            have hnil := (taken_eq_nil_iff hle').2 fun w' hw' =>
              hquiet w' hw' ⟨hpos, hshort⟩
            rw [hnil, List.append_nil]
            exact (List.take_prefix _ _).trans (List.prefix_append _ _)
        · -- a block taken whole
          have htake : w.1.take w.2.toNat = w.1 := List.take_of_length_le (by omega)
          have hnotShort : ¬ Short w := fun h => absurd h.2 (by omega)
          rw [htake, List.prefix_append_right_inj, ih]
          simp [hnotShort]

end Foundations.PartialWrite
