import Mathlib.Data.List.Basic
import Mathlib.Data.List.Nodup
import Mathlib.Logic.Function.Basic

/-!
# Singly linked lists in a heap

A heap maps addresses to cells; {lit}`Seg h p l q` says that following the links
from {lit}`p` visits exactly the cells of {lit}`l` and arrives at {lit}`q`.  A
segment that ends at {lit}`none` is a finite list, and it is automatically
acyclic: links are functional, so an address met twice would be followed by the
same finite tail twice.

Main results:

- Theorem {lit}`Seg.unique`: a heap and a start pointer determine the list.
- Theorem {lit}`Seg.nodup`: a finite list visits no address twice.
- Theorem {lit}`Seg.update_of_notMem`: writing elsewhere keeps the list.
- Theorem {lit}`Seg.link_last`: appending behind the last cell.
-/

namespace Foundations
namespace LinkedList

/-- A cell: the link to the next cell and the data. -/
structure Cell (α δ : Type*) where
  next : Option α
  data : δ

/-- A heap of cells. -/
abbrev Heap (α δ : Type*) :=
  α → Option (Cell α δ)

variable {α δ : Type*} {h : Heap α δ}

/-- The cells visited from {lit}`p` until {lit}`q` is reached. -/
def Seg (h : Heap α δ) : Option α → List (α × δ) → Option α → Prop
  | p, [], q => p = q
  | p, (a, d) :: rest, q => p = some a ∧ ∃ nx, h a = some ⟨nx, d⟩ ∧ Seg h nx rest q

/-- An empty segment ends where it begins. -/
@[simp]
theorem seg_nil {p q : Option α} : Seg h p [] q ↔ p = q :=
  Iff.rfl

/-- Segments compose. -/
theorem seg_append {p q : Option α} {l₁ l₂ : List (α × δ)} :
    Seg h p (l₁ ++ l₂) q ↔ ∃ m, Seg h p l₁ m ∧ Seg h m l₂ q := by
  induction l₁ generalizing p with
  | nil => simp
  | cons c l₁ ih =>
      rcases c with ⟨a, d⟩
      constructor
      · rintro ⟨hp, nx, hcell, hrest⟩
        rcases ih.1 hrest with ⟨m, h₁, h₂⟩
        exact ⟨m, ⟨hp, nx, hcell, h₁⟩, h₂⟩
      · rintro ⟨m, ⟨hp, nx, hcell, h₁⟩, h₂⟩
        exact ⟨hp, nx, hcell, ih.2 ⟨m, h₁, h₂⟩⟩

/-- An empty list is the null pointer and nothing else. -/
theorem Seg.eq_nil_iff {p : Option α} {l : List (α × δ)} (hl : Seg h p l none) :
    l = [] ↔ p = none := by
  cases l with
  | nil => simpa using hl
  | cons c l =>
      have hp := hl.1
      simp [hp]

/-- The list behind a pointer is determined by the heap. -/
theorem Seg.unique {p : Option α} {l l' : List (α × δ)} (hl : Seg h p l none)
    (hl' : Seg h p l' none) : l = l' := by
  induction l generalizing p l' with
  | nil =>
      have hp : p = none := hl
      exact (hl'.eq_nil_iff.2 hp).symm
  | cons c l ih =>
      rcases c with ⟨a, d⟩
      rcases hl with ⟨rfl, nx, hcell, hrest⟩
      cases l' with
      | nil => exact absurd hl' (by simp)
      | cons c' l' =>
          rcases c' with ⟨a', d'⟩
          rcases hl' with ⟨ha, nx', hcell', hrest'⟩
          cases ha
          rw [hcell] at hcell'
          cases hcell'
          rw [ih hrest hrest']

/-- A finite list is acyclic. -/
theorem Seg.nodup {p : Option α} {l : List (α × δ)} (hl : Seg h p l none) :
    (l.map Prod.fst).Nodup := by
  induction l generalizing p with
  | nil => simp
  | cons c l ih =>
      rcases c with ⟨a, d⟩
      rcases hl with ⟨rfl, nx, hcell, hrest⟩
      rw [List.map_cons, List.nodup_cons]
      refine ⟨?_, ih hrest⟩
      intro ha
      -- the tail met at the second visit of `a` would be the whole list again
      rcases List.mem_map.1 ha with ⟨⟨b, d'⟩, hb, hba⟩
      have hba : b = a := hba
      subst hba
      rcases List.append_of_mem hb with ⟨l₁, l₂, rfl⟩
      rcases seg_append.1 hrest with ⟨m, -, hm⟩
      have hagain : Seg h (some b) ((b, d') :: l₂) none := ⟨rfl, hm.2⟩
      have hwhole : Seg h (some b) ((b, d) :: (l₁ ++ (b, d') :: l₂)) none :=
        ⟨rfl, nx, hcell, hrest⟩
      have hlen := congrArg List.length (hwhole.unique hagain)
      simp at hlen
      omega

/-- Every visited address holds a live cell with the recorded data. -/
theorem Seg.live {p q : Option α} {l : List (α × δ)} (hl : Seg h p l q) {a : α} {d : δ}
    (hmem : (a, d) ∈ l) : ∃ nx, h a = some ⟨nx, d⟩ := by
  induction l generalizing p with
  | nil => simp at hmem
  | cons c l ih =>
      rcases c with ⟨b, e⟩
      rcases hl with ⟨-, nx, hcell, hrest⟩
      rcases List.mem_cons.1 hmem with heq | hmem
      · cases heq
        exact ⟨nx, hcell⟩
      · exact ih hrest hmem

variable [DecidableEq α]

/-- Writing or freeing an address outside the segment keeps it. -/
theorem Seg.update_of_notMem {p q : Option α} {l : List (α × δ)} (hl : Seg h p l q)
    {a : α} (ha : a ∉ l.map Prod.fst) (c : Option (Cell α δ)) :
    Seg (Function.update h a c) p l q := by
  induction l generalizing p with
  | nil => exact hl
  | cons b l ih =>
      rcases b with ⟨b, d⟩
      rcases hl with ⟨hp, nx, hcell, hrest⟩
      rw [List.map_cons, List.mem_cons, not_or] at ha
      refine ⟨hp, nx, ?_, ih hrest ha.2⟩
      rw [Function.update_of_ne (Ne.symm ha.1), hcell]

/-- Linking a fresh cell behind the last one appends it. -/
theorem Seg.link_last {p : Option α} {l : List (α × δ)} {t : α} {d : δ}
    (hl : Seg h p (l ++ [(t, d)]) none) {n : α} {e : δ} (hn : h n = some ⟨none, e⟩)
    (hfresh : n ∉ (l ++ [(t, d)]).map Prod.fst) :
    Seg (Function.update h t (some ⟨some n, d⟩)) p (l ++ [(t, d)] ++ [(n, e)]) none := by
  have hnodup := hl.nodup
  rw [List.map_append, List.nodup_append] at hnodup
  have ht : t ∉ l.map Prod.fst := fun hmem =>
    hnodup.2.2 t hmem t (by simp) rfl
  have hnt : n ≠ t := by
    intro heq
    exact hfresh (by simp [heq])
  rcases seg_append.1 hl with ⟨m, hpre, hlast⟩
  have hm : m = some t := hlast.1
  subst hm
  rw [List.append_assoc]
  refine seg_append.2 ⟨some t, hpre.update_of_notMem ht _, ?_⟩
  refine ⟨rfl, some n, by rw [Function.update_self], rfl, none, ?_, rfl⟩
  rw [Function.update_of_ne hnt, hn]

end LinkedList
end Foundations
