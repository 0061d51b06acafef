import Mathlib.Data.List.Basic

/-!
# Loops that write a buffer

A C loop {lit}`for(i = 0; i < n; i++) v[i] = ..` over a buffer is a fold over
the indices below {lit}`n`.  Its closed form says slot by slot what is left in
the buffer, so that callers never reason about the loop.

Main results:

- Theorem {lit}`getElem?_fill`: the loop changes exactly the slots below its bound,
  each once.
-/

namespace Foundations
namespace Buffer

variable {α : Type*}

/-- Apply {lit}`f i` to every slot {lit}`i` below {lit}`n`, in index order. -/
def fill (f : Nat → α → α) (n : Nat) (v : List α) : List α :=
  (List.range n).foldl (fun w i => w.modify i (f i)) v

/-- A loop of no turns leaves the buffer alone. -/
@[simp]
theorem fill_zero (f : Nat → α → α) (v : List α) : fill f 0 v = v :=
  rfl

/-- The last turn writes behind all the others. -/
theorem fill_succ (f : Nat → α → α) (n : Nat) (v : List α) :
    fill f (n + 1) v = (fill f n v).modify n (f n) := by
  simp [fill, List.range_succ]

/-- The loop keeps the length of the buffer. -/
@[simp]
theorem length_fill (f : Nat → α → α) (n : Nat) (v : List α) :
    (fill f n v).length = v.length := by
  induction n with
  | zero => rfl
  | succ n ih => rw [fill_succ, List.length_modify, ih]

/-- Slot {lit}`i` is rewritten once if the loop reaches it and kept otherwise. -/
theorem getElem?_fill (f : Nat → α → α) (n : Nat) (v : List α) (i : Nat) :
    (fill f n v)[i]? = if i < n then v[i]?.map (f i) else v[i]? := by
  induction n with
  | zero => simp
  | succ n ih =>
      rw [fill_succ, List.getElem?_modify, ih]
      by_cases hin : n = i
      · subst hin
        simp
      · have hiff : i < n + 1 ↔ i < n := by omega
        simp [hin, hiff]

end Buffer
end Foundations
