import Mathlib.Data.List.Perm.Basic
import Mathlib.Data.List.Range
import Mathlib.Data.List.Nodup

/-!
# Things that are made and destroyed

Every thing made gets a serial that stands for its address.  A thing destroyed twice,
or destroyed without having been made, is recorded as stray, so that "destroyed exactly
once" is a statement about the account of a pool.

Main results:

- Theorems {lit}`Holding.make`, {lit}`Holding.drop`: an owner of at most one thing at a
  time.
- Theorem {lit}`Holding.destroyed_once`: what such an owner does not hold any more has
  been destroyed once.
-/

namespace Foundations

/-- A thing, and what it was made for. -/
structure Item (κ : Type*) where
  serial : Nat
  base : κ
deriving DecidableEq, Repr

/-- The things that exist, and what has been destroyed. -/
structure Pool (κ : Type*) where
  made : Nat
  live : List (Item κ)
  destroyed : List Nat
  stray : List (Item κ)
deriving DecidableEq, Repr

namespace Pool

variable {κ : Type*}

/-- Nothing has been made yet. -/
def empty : Pool κ :=
  ⟨0, [], [], []⟩

/-- The thing that is made next. -/
def next (p : Pool κ) (k : κ) : Item κ :=
  ⟨p.made, k⟩

/-- Make a thing. -/
def make (p : Pool κ) (k : κ) : Pool κ :=
  { p with made := p.made + 1, live := p.live ++ [p.next k] }

/-- Destroy a thing. -/
def drop [DecidableEq κ] (p : Pool κ) (a : Item κ) : Pool κ :=
  if a ∈ p.live then
    { p with live := p.live.erase a, destroyed := p.destroyed ++ [a.serial] }
  else { p with stray := p.stray ++ [a] }

/-- Everything made exists or has been destroyed, once. -/
structure Accounted (p : Pool κ) : Prop where
  serials : (p.live.map Item.serial ++ p.destroyed).Perm (List.range p.made)

/-- Nothing has been made, so nothing is missing. -/
theorem accounted_empty : (empty : Pool κ).Accounted :=
  ⟨List.Perm.refl _⟩

variable {p : Pool κ}

/-- A new item is accounted for. -/
theorem Accounted.make (h : p.Accounted) (k : κ) : (p.make k).Accounted := by
  constructor
  show ((p.live ++ [p.next k]).map Item.serial ++ p.destroyed).Perm (List.range (p.made + 1))
  rw [List.map_append, List.range_succ, List.append_assoc]
  have hswap : ([p.made] ++ p.destroyed).Perm (p.destroyed ++ [p.made]) :=
    List.perm_append_comm
  have hmoved : (p.live.map Item.serial ++ ([p.made] ++ p.destroyed)).Perm
      (p.live.map Item.serial ++ p.destroyed ++ [p.made]) := by
    rw [List.append_assoc]
    exact hswap.append_left _
  exact hmoved.trans (h.serials.append_right _)

/-- Destroying what exists keeps the account. -/
theorem Accounted.drop [DecidableEq κ] (h : p.Accounted) {a : Item κ} (ha : a ∈ p.live) :
    (p.drop a).Accounted := by
  rw [Pool.drop, if_pos ha]
  constructor
  show ((p.live.erase a).map Item.serial ++ (p.destroyed ++ [a.serial])).Perm
    (List.range p.made)
  have hlive : (p.live.map Item.serial).Perm (a.serial :: (p.live.erase a).map Item.serial) :=
    (List.perm_cons_erase ha).map Item.serial
  have hsplit : ((p.live.erase a).map Item.serial ++ (p.destroyed ++ [a.serial])).Perm
      (a.serial :: (p.live.erase a).map Item.serial ++ p.destroyed) := by
    rw [← List.append_assoc]
    exact List.perm_append_singleton _ _
  exact (hsplit.trans (hlive.symm.append_right _)).trans h.serials

/-- What exists after one thing was destroyed. -/
theorem drop_perm [DecidableEq κ] {a : Item κ} {rest : List (Item κ)}
    (h : p.live.Perm (a :: rest)) : (p.drop a).live.Perm rest := by
  have hmem : a ∈ p.live := h.mem_iff.2 List.mem_cons_self
  rw [Pool.drop, if_pos hmem]
  have herase := h.erase a
  rw [List.erase_cons_head] at herase
  exact herase

/-- What has been made exists, or has been destroyed exactly once. -/
theorem Accounted.live_or_destroyed (h : p.Accounted) {n : Nat} (hn : n < p.made) :
    (n ∈ p.live.map Item.serial ∧ p.destroyed.count n = 0) ∨
      (n ∉ p.live.map Item.serial ∧ p.destroyed.count n = 1) := by
  have hmem : n ∈ p.live.map Item.serial ++ p.destroyed :=
    h.serials.mem_iff.2 (List.mem_range.2 hn)
  have hnodup : (p.live.map Item.serial ++ p.destroyed).Nodup :=
    h.serials.nodup_iff.2 List.nodup_range
  rw [List.nodup_append] at hnodup
  rcases List.mem_append.1 hmem with hlive | hdestroyed
  · left
    refine ⟨hlive, List.count_eq_zero_of_not_mem fun hdestroyed => ?_⟩
    exact hnodup.2.2 n hlive n hdestroyed rfl
  · right
    refine ⟨fun hlive => ?_, List.count_eq_one_of_mem hnodup.2.1 hdestroyed⟩
    exact hnodup.2.2 n hlive n hdestroyed rfl

/-! ## One thing at a time -/

/-- The thing {lit}`o` exists and nothing else does; everything else that was made has
been destroyed once, and nothing was destroyed that did not exist. -/
structure Holding (p : Pool κ) (o : Option (Item κ)) : Prop where
  accounted : p.Accounted
  live : p.live = o.toList
  stray : p.stray = []

/-- Nothing is there, and nothing is held. -/
theorem holding_empty : (empty : Pool κ).Holding none :=
  ⟨accounted_empty, rfl, rfl⟩

/-- Who held nothing holds the new item. -/
theorem Holding.make (h : p.Holding none) (k : κ) : (p.make k).Holding (some (p.next k)) := by
  refine ⟨h.accounted.make k, ?_, h.stray⟩
  show p.live ++ [p.next k] = [p.next k]
  rw [h.live]
  rfl

/-- Who drops what it holds holds nothing. -/
theorem Holding.drop [DecidableEq κ] {a : Item κ} (h : p.Holding (some a)) :
    (p.drop a).Holding none := by
  have hlive : p.live = [a] := h.live
  have hmem : a ∈ p.live := by
    rw [hlive]
    exact List.mem_singleton_self a
  refine ⟨h.accounted.drop hmem, ?_, ?_⟩
  · rw [Pool.drop, if_pos hmem, hlive]
    simp
  · rw [Pool.drop, if_pos hmem]
    exact h.stray

/-- What does not exist any more has been destroyed exactly once. -/
theorem Holding.destroyed_once (h : p.Holding none) {n : Nat} (hn : n < p.made) :
    p.destroyed.count n = 1 := by
  rcases h.accounted.live_or_destroyed hn with ⟨hlive, -⟩ | ⟨-, hone⟩
  · rw [h.live] at hlive
    cases hlive
  · exact hone

end Pool

end Foundations
