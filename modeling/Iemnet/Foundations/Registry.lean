import Mathlib.Data.List.Basic
import Mathlib.Data.List.Nodup

/-!
# Bounded registries with expiry

An ordered set of keys, each with the time it was last seen, that holds at most
{lit}`capacity` keys.  A key that is seen again keeps its place; a new one goes to the
end if there is room; entries leave by expiry only.

Main results:

- Theorems {lit}`add_known`, {lit}`add_new`, {lit}`add_full`: the three cases of seeing a
  key.
- Theorems {lit}`WellFormed.add`, {lit}`WellFormed.keep`, {lit}`WellFormed.resize`: keys
  stay distinct and fit.
-/

namespace Foundations

/-- The entries in the order in which their keys were first seen. -/
structure Registry (κ τ : Type*) where
  entries : List (κ × τ)
  capacity : Nat

namespace Registry

variable {κ τ : Type*}

/-- The registered keys. -/
def keys (r : Registry κ τ) : List κ :=
  r.entries.map Prod.fst

/-- Drop the entries whose time is not to be kept. -/
def keep (r : Registry κ τ) (p : τ → Bool) : Registry κ τ :=
  { r with entries := r.entries.filter fun e => p e.2 }

/-- Change the capacity, unless there are more entries. -/
def resize (r : Registry κ τ) (m : Nat) : Registry κ τ :=
  if r.entries.length ≤ m then { r with capacity := m } else r

/-- Keys are distinct and fit the capacity. -/
structure WellFormed (r : Registry κ τ) : Prop where
  nodup : r.keys.Nodup
  length_le : r.entries.length ≤ r.capacity

variable {r : Registry κ τ} {k : κ}

/-- The key of an entry is one of the keys. -/
theorem mem_keys_of_getElem? {i : Nat} {t : τ} (h : r.entries[i]? = some (k, t)) :
    k ∈ r.keys :=
  List.mem_map_of_mem (f := Prod.fst) (List.mem_of_getElem? h)

/-- Leaving entries out keeps the registry well formed. -/
theorem WellFormed.keep (h : r.WellFormed) (p : τ → Bool) : (r.keep p).WellFormed := by
  constructor
  · exact h.nodup.sublist (List.filter_sublist.map Prod.fst)
  · exact Nat.le_trans (List.length_filter_le _ _) h.length_le

/-- A new capacity keeps the registry well formed. -/
theorem WellFormed.resize (h : r.WellFormed) (m : Nat) : (r.resize m).WellFormed := by
  unfold Registry.resize
  split
  · rename_i hle
    exact ⟨h.nodup, hle⟩
  · exact h

variable [DecidableEq κ]

/-- See the key {lit}`k` at time {lit}`t`. -/
def add (r : Registry κ τ) (k : κ) (t : τ) : Registry κ τ :=
  if k ∈ r.keys then
    { r with entries := r.entries.map fun e => if e.1 = k then (k, t) else e }
  else if r.entries.length < r.capacity then
    { r with entries := r.entries ++ [(k, t)] }
  else r

/-- A registered key is refreshed where it stands. -/
theorem add_known (h : r.keys.Nodup) {i : Nat} {t₀ : τ} (hi : r.entries[i]? = some (k, t₀))
    (t : τ) : r.add k t = { r with entries := r.entries.set i (k, t) } := by
  have hentries : (r.entries.map fun e => if e.1 = k then (k, t) else e) =
      r.entries.set i (k, t) := by
    have hlt : i < r.entries.length := (List.getElem?_eq_some_iff.1 hi).1
    apply List.ext_getElem?
    intro j
    rw [List.getElem?_map, List.getElem?_set]
    by_cases hij : i = j
    · subst hij
      rw [if_pos rfl, if_pos hlt, hi]
      simp
    · rw [if_neg hij]
      cases hj : r.entries[j]? with
      | none => rfl
      | some e =>
          have hkey : e.1 ≠ k := by
            intro heq
            apply hij
            have hlen : i < (r.entries.map Prod.fst).length := by
              rw [List.length_map]
              exact hlt
            apply (List.getElem?_inj hlen h).1
            rw [List.getElem?_map, List.getElem?_map, hi, hj, Option.map_some, Option.map_some,
              heq]
          rw [Option.map_some, if_neg hkey]
  rw [add, if_pos (mem_keys_of_getElem? hi), hentries]

/-- A new key goes to the end as long as there is room. -/
theorem add_new (hk : k ∉ r.keys) (hroom : r.entries.length < r.capacity) (t : τ) :
    r.add k t = { r with entries := r.entries ++ [(k, t)] } := by
  rw [add, if_neg hk, if_pos hroom]

/-- A full registry takes no new key. -/
theorem add_full (hk : k ∉ r.keys) (hfull : r.capacity ≤ r.entries.length) (t : τ) :
    r.add k t = r := by
  rw [add, if_neg hk, if_neg (Nat.not_lt.2 hfull)]

/-- Adding keeps the registry well formed. -/
theorem WellFormed.add (h : r.WellFormed) (k : κ) (t : τ) : (r.add k t).WellFormed := by
  by_cases hk : k ∈ r.keys
  · rcases List.mem_map.1 hk with ⟨⟨k', t₀⟩, hmem, rfl⟩
    rcases List.mem_iff_getElem?.1 hmem with ⟨i, hi⟩
    rw [add_known h.nodup hi]
    constructor
    · show ((r.entries.set i (k', t)).map Prod.fst).Nodup
      have hsame : (r.entries.set i (k', t)).map Prod.fst = r.keys := by
        rw [List.map_set]
        apply List.ext_getElem?
        intro j
        rw [List.getElem?_set]
        by_cases hij : i = j
        · subst hij
          have hlt : i < (r.entries.map Prod.fst).length := by
            rw [List.length_map]
            exact (List.getElem?_eq_some_iff.1 hi).1
          rw [if_pos rfl, if_pos hlt, keys, List.getElem?_map, hi]
          rfl
        · rw [if_neg hij]
          rfl
      rw [hsame]
      exact h.nodup
    · show (r.entries.set i (k', t)).length ≤ r.capacity
      rw [List.length_set]
      exact h.length_le
  · by_cases hroom : r.entries.length < r.capacity
    · rw [add_new hk hroom]
      constructor
      · show ((r.entries ++ [(k, t)]).map Prod.fst).Nodup
        rw [List.map_append, List.nodup_append]
        refine ⟨h.nodup, List.nodup_singleton _, ?_⟩
        intro a ha b hb hab
        have hbk : b = k := by simpa using hb
        exact hk (hbk ▸ hab ▸ ha)
      · show (r.entries ++ [(k, t)]).length ≤ r.capacity
        rw [List.length_append, List.length_singleton]
        omega
    · rw [add_full hk (Nat.not_lt.1 hroom)]
      exact h

end Registry

end Foundations
