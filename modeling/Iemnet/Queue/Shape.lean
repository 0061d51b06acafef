import Iemnet.Queue.Model

/-!
# The list inside the queue

{lit}`NodeList.Shape q l` relates the pointers of the queue to the list of its
nodes: head, tail, links and byte counter on one side, the sequence of chunks on
the other.  The two operations on the list, {lit}`link` and {lit}`unlink`, are
specified once here; no later proof looks at pointers.

Main results:

- Theorem {lit}`NodeList.Shape.link`: linking appends, and cannot fail.
- Theorem {lit}`NodeList.Shape.unlink`: detaching removes the first node, and
  cannot fail.
-/

namespace Iemnet

open Foundations
open Foundations.LinkedList

variable {χ : Type}

/-- The addresses of the segment are those of the nodes. -/
theorem map_node_fst (l : List (Nat × χ)) :
    ((l.map fun p => (p.1, some p.2)).map Prod.fst) = l.map Prod.fst := by
  simp

variable [Payload χ]

/-- Total payload of a list of nodes. -/
def nodeBytes (l : List (Nat × χ)) : Nat :=
  (l.map fun p => Payload.size p.2).sum

/-- The queue is the linked list of the nodes {lit}`l`; their chunks are the
pushed ones that have not been popped, oldest first, and the byte counter is
their total as a 32-bit number. -/
structure NodeList.Shape (q : NodeList χ) (l : List (Nat × χ)) : Prop where
  chain : Seg q.heap q.head (l.map fun p => (p.1, some p.2)) none
  tail : q.tail = l.getLast?.map Prod.fst
  popped_le : q.popped ≤ q.pushed.length
  content : q.pushed.drop q.popped = l.map Prod.snd
  size : q.size = BitVec.ofNat 32 (nodeBytes l)

/-- The bytes that are queued: those of the chunks linked and not yet detached. -/
def NodeList.bytes (q : NodeList χ) : Nat :=
  ((q.pushed.drop q.popped).map Payload.size).sum

namespace NodeList.Shape

variable {q : NodeList χ} {l : List (Nat × χ)}

/-- No node is in the list twice. -/
theorem nodup (h : q.Shape l) : (l.map Prod.fst).Nodup := by
  simpa only [map_node_fst] using h.chain.nodup

/-- The byte counter is the number of queued bytes as a 32-bit number. -/
theorem size_eq (h : q.Shape l) : q.size = BitVec.ofNat 32 q.bytes := by
  rw [h.size, NodeList.bytes, h.content, List.map_map]
  rfl

/-- There is no head exactly if the list is empty. -/
theorem head_eq_none_iff (h : q.Shape l) : q.head = none ↔ l = [] := by
  rw [← h.chain.eq_nil_iff, List.map_eq_nil_iff]

/-- There is no tail exactly if the list is empty. -/
theorem tail_eq_none_iff (h : q.Shape l) : q.tail = none ↔ l = [] := by
  rw [h.tail, Option.map_eq_none_iff, List.getLast?_eq_none_iff]

/-- A node of the list is allocated. -/
theorem live (h : q.Shape l) {n : Nat} (hn : n ∈ l.map Prod.fst) : q.heap n ≠ none := by
  rcases List.mem_map.1 hn with ⟨⟨a, d⟩, hmem, rfl⟩
  have hmem' : (a, some d) ∈ l.map fun p => (p.1, some p.2) :=
    List.mem_map.2 ⟨(a, d), hmem, rfl⟩
  rcases h.chain.live hmem' with ⟨nx, hcell⟩
  simp [hcell]

/-- The chunk the next pop takes is the oldest one not yet popped. -/
theorem getElem?_popped (h : q.Shape l) (i : Nat) :
    q.pushed[q.popped + i]? = (l.map Prod.snd)[i]? := by
  rw [← h.content, List.getElem?_drop]

/-- A write outside the list keeps the shape. -/
theorem update_of_notMem (h : q.Shape l) {n : Nat} (hn : n ∉ l.map Prod.fst)
    (c : Option (Node χ)) : NodeList.Shape { q with heap := Function.update q.heap n c } l :=
  { h with chain := h.chain.update_of_notMem (by simpa only [map_node_fst] using hn) c }

/-- Linking an initialised node that is not in the list appends it; nothing but
the previous tail node is written. -/
theorem link (h : q.Shape l) {n : Nat} {d : χ} (hn : q.heap n = some ⟨none, some d⟩)
    (hfresh : n ∉ l.map Prod.fst) :
    ∃ q', q.link n d = some q' ∧ q'.Shape (l ++ [(n, d)]) ∧
      q'.pushed = q.pushed ++ [d] ∧ q'.popped = q.popped ∧ q'.returned = q.returned ∧
      ∀ m, m ∉ l.map Prod.fst → q'.heap m = q.heap m := by
  have hcontent : (q.pushed ++ [d]).drop q.popped = (l ++ [(n, d)]).map Prod.snd := by
    rw [List.drop_append_of_le_length h.popped_le, h.content]
    simp
  have hsize : q.size + BitVec.ofNat 32 (Payload.size d) =
      BitVec.ofNat 32 (nodeBytes (l ++ [(n, d)])) := by
    rw [h.size, ← BitVec.ofNat_add]
    simp [nodeBytes]
  rcases List.eq_nil_or_concat l with rfl | ⟨l₀, ⟨t, e⟩, rfl⟩
  · -- the empty queue: the node becomes head and tail
    have htail : q.tail = none := h.tail
    refine ⟨q.counted q.heap (some n) n d, by simp only [NodeList.link, htail], ?_,
      rfl, rfl, rfl, fun _ _ => rfl⟩
    refine ⟨⟨rfl, none, hn, rfl⟩, rfl, ?_, hcontent, hsize⟩
    simpa [NodeList.counted] using Nat.le_succ_of_le h.popped_le
  · rw [List.concat_eq_append] at *
    have htail : q.tail = some t := by simpa using h.tail
    have hchain : Seg q.heap q.head
        ((l₀.map fun p => (p.1, some p.2)) ++ [(t, some e)]) none := by
      simpa using h.chain
    have hfresh' : n ∉ ((l₀.map fun p => (p.1, some p.2)) ++ [(t, some e)]).map Prod.fst := by
      simpa using hfresh
    rcases hchain.live (a := t) (d := some e) (by simp) with ⟨nx, hlast⟩
    refine ⟨q.counted (Function.update q.heap t (some ⟨some n, some e⟩)) q.head n d,
      by simp only [NodeList.link, htail, hlast, Option.map_some], ?_, rfl, rfl, rfl, ?_⟩
    · refine ⟨?_, by simp [NodeList.counted], ?_, hcontent, hsize⟩
      · simpa [NodeList.counted] using hchain.link_last hn hfresh'
      · simpa [NodeList.counted] using Nat.le_succ_of_le h.popped_le
    · intro m hm
      have hmt : m ≠ t := by
        rintro rfl
        exact hm (by simp)
      exact Function.update_of_ne hmt _ _

/-- Detaching the head takes the oldest chunk; the node itself stays allocated
and is no longer in the list. -/
theorem unlink (h : q.Shape l) {a : Nat} (hhead : q.head = some a) :
    ∃ d rest q', l = (a, d) :: rest ∧ q.unlink a = some q' ∧ q'.Shape rest ∧
      q'.heap = q.heap ∧ q'.pushed = q.pushed ∧ q'.popped = q.popped + 1 ∧
      q'.returned = q.returned ∧ q.pushed[q.popped]? = some d ∧
      ∃ nx, q.heap a = some ⟨nx, some d⟩ := by
  have hne : l ≠ [] := fun hnil => by simp [h.head_eq_none_iff.2 hnil] at hhead
  rcases List.exists_cons_of_ne_nil hne with ⟨⟨b, d⟩, rest, rfl⟩
  rcases h.chain with ⟨hb, nx, hcell, hrest⟩
  have hba : b = a := by
    rw [hhead] at hb
    exact (Option.some.inj hb).symm
  subst hba
  refine ⟨d, rest, q.detached ⟨nx, some d⟩, rfl,
    by simp only [NodeList.unlink, hcell, Option.map_some], ?_, rfl, rfl, rfl, rfl, ?_,
    nx, hcell⟩
  · have hlt : q.popped < q.pushed.length := by
      by_contra hge
      have hnil := h.content
      rw [List.drop_eq_nil_of_le (Nat.le_of_not_lt hge)] at hnil
      simp at hnil
    refine ⟨hrest, ?_, hlt, ?_, ?_⟩
    · cases rest with
      | nil =>
          have hnx : nx = none := hrest
          simp [NodeList.detached, hnx]
      | cons c rest =>
          have hnx : nx = some c.1 := hrest.1
          simp [NodeList.detached, hnx, h.tail]
    · have hdrop := congrArg List.tail h.content
      rw [List.tail_drop] at hdrop
      exact hdrop
    · simp only [NodeList.detached, h.size, nodeBytes, List.map_cons, List.sum_cons]
      rw [BitVec.ofNat_add, BitVec.add_comm, BitVec.add_sub_cancel]
  · have := h.getElem?_popped 0
    simpa using this

end NodeList.Shape

/-- The empty queue. -/
theorem shape_create (τ : Type) : (queueCreate τ χ).Shape [] := by
  refine ⟨rfl, rfl, Nat.le_refl _, rfl, rfl⟩

end Iemnet
