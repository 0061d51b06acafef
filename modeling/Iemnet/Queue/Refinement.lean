import Iemnet.Queue.Shape

/-!
# The linked queue refines a FIFO sequence

The invariant of the threaded queue has a shared part, {lit}`NodeList.Shape`, and
a local assertion {lit}`Call.Ok` for each thread: a node allocated but not yet
linked is private and initialised, a node detached but not yet freed is private
and still holds the chunk of its ticket.  Privacy (no node, no ticket in two
hands) is what makes the step of one thread keep the assertions of all others.

Main results:

- Theorem {lit}`Pool.Inv.step`: one step of any thread keeps the invariant.
- Theorem {lit}`Pool.exists_inv`: every reachable state satisfies the invariant.
- Theorem {lit}`callStep_retSize`: a section that reports a size reports the byte
  counter it leaves behind.
-/

namespace Iemnet

open Foundations
open Foundations.LinkedList

variable {τ χ : Type}

/-! ## What a thread holds -/

/-- The node only this thread can reach. -/
def Call.node : Call χ → Option Nat
  | .pushLink n _ => some n
  | .popFree n _ => some n
  | _ => none

/-- The ticket of a pop that has taken its chunk and not yet returned it. -/
def Call.ticket : Call χ → Option Nat
  | .popFree _ k => some k
  | .popDone (some (k, _)) => some k
  | _ => none

/-- The assertion of a thread about the shared state, the list having the given
nodes. -/
def Call.Ok (q : NodeList χ) (nodes : List Nat) : Call χ → Prop
  | .pushLink n d => n ∉ nodes ∧ q.heap n = some ⟨none, some d⟩
  | .popFree n k =>
      n ∉ nodes ∧ k < q.popped ∧ ∃ nx d, q.heap n = some ⟨nx, some d⟩ ∧ q.pushed[k]? = some d
  | .popDone (some (k, d)) => k < q.popped ∧ q.pushed[k]? = some d
  | .retChunk (some kd) => kd ∈ q.returned
  | _ => True

/-- The node that a call has in its hand is not in the list. -/
theorem Call.Ok.node_notMem {q : NodeList χ} {nodes : List Nat} {c : Call χ}
    (h : c.Ok q nodes) {n : Nat} (hn : c.node = some n) : n ∉ nodes := by
  cases c <;> simp_all [Call.Ok, Call.node]

/-- The node that a call has in its hand is allocated. -/
theorem Call.Ok.node_live {q : NodeList χ} {nodes : List Nat} {c : Call χ}
    (h : c.Ok q nodes) {n : Nat} (hn : c.node = some n) : q.heap n ≠ none := by
  cases c with
  | pushLink m d =>
      cases hn
      rw [h.2]
      simp
  | popFree m k =>
      cases hn
      rcases h.2.2 with ⟨nx, d, hcell, -⟩
      rw [hcell]
      simp
  | _ => simp [Call.node] at hn

/-- What a call has taken out has been counted. -/
theorem Call.Ok.ticket_lt {q : NodeList χ} {nodes : List Nat} {c : Call χ}
    (h : c.Ok q nodes) {k : Nat} (hk : c.ticket = some k) : k < q.popped := by
  cases c with
  | popFree m j =>
      cases hk
      exact h.2.1
  | popDone data =>
      rcases data with - | ⟨j, d⟩
      · simp [Call.ticket] at hk
      · cases hk
        exact h.1
  | _ => simp [Call.ticket] at hk

/-- An assertion survives a change that only extends the history, keeps the cell
of the thread's own node and does not put that node into the list. -/
theorem Call.Ok.stable {q q' : NodeList χ} {nodes nodes' : List Nat} {c : Call χ}
    (h : c.Ok q nodes)
    (hnode : ∀ n, c.node = some n → n ∉ nodes' ∧ q'.heap n = q.heap n)
    (hpushed : ∃ more, q'.pushed = q.pushed ++ more) (hpopped : q.popped ≤ q'.popped)
    (hreturned : ∃ more, q'.returned = q.returned ++ more) : c.Ok q' nodes' := by
  rcases hpushed with ⟨more, hpushed⟩
  rcases hreturned with ⟨more', hreturned⟩
  have hkeep : ∀ (k : Nat) (d : χ), q.pushed[k]? = some d → q'.pushed[k]? = some d := by
    intro k d hk
    have hlt : k < q.pushed.length := (List.getElem?_eq_some_iff.1 hk).1
    rw [hpushed, List.getElem?_append_left hlt, hk]
  cases c with
  | pushLink n d =>
      rcases hnode n rfl with ⟨hout, hcell⟩
      exact ⟨hout, hcell.trans h.2⟩
  | popFree n k =>
      rcases hnode n rfl with ⟨hout, hcell⟩
      rcases h with ⟨-, hlt, nx, d, hd, hk⟩
      exact ⟨hout, Nat.lt_of_lt_of_le hlt hpopped, nx, d, hcell.trans hd, hkeep k d hk⟩
  | popDone data =>
      rcases data with - | ⟨k, d⟩
      · trivial
      · exact ⟨Nat.lt_of_lt_of_le h.1 hpopped, hkeep k d h.2⟩
  | retChunk data =>
      rcases data with - | kd
      · trivial
      · have hmem : kd ∈ q.returned := h
        show kd ∈ q'.returned
        rw [hreturned]
        exact List.mem_append_left _ hmem
  | _ => trivial

/-! ## The invariant -/

section Invariant

variable [Payload χ]

/-- The invariant of the threaded queue whose list has the nodes {lit}`l`. -/
structure Pool.Inv (s : Pool τ χ) (l : List (Nat × χ)) : Prop where
  shape : s.queue.Shape l
  ok : ∀ t c, s.call t = some c → c.Ok s.queue.toNodeList (l.map Prod.fst)
  nodes_apart : ∀ t t' c c' n, t ≠ t' → s.call t = some c → s.call t' = some c' →
    c.node = some n → c'.node ≠ some n
  tickets_apart : ∀ t t' c c' k, t ≠ t' → s.call t = some c → s.call t' = some c' →
    c.ticket = some k → c'.ticket ≠ some k
  tickets_open : ∀ t c k, s.call t = some c → c.ticket = some k →
    k ∉ s.queue.returned.map Prod.fst
  returned_nodup : (s.queue.returned.map Prod.fst).Nodup
  returned_data : ∀ kd ∈ s.queue.returned,
    kd.1 < s.queue.popped ∧ s.queue.pushed[kd.1]? = some kd.2

/-- A new queue is empty and in shape. -/
theorem Pool.inv_create : (Pool.create τ χ).Inv [] := by
  refine ⟨shape_create τ, ?_, ?_, ?_, ?_, ?_, ?_⟩ <;>
    simp [Pool.create, queueCreate]

variable [DecidableEq τ]

/-- A step that leaves the list and its history alone and after which the thread
holds neither node nor ticket. -/
theorem Pool.Inv.setCall {s : Pool τ χ} {l : List (Nat × χ)} (h : s.Inv l) {t : τ}
    {q' : Queue τ χ} (hq : q'.toNodeList = s.queue.toNodeList) {o : Option (Call χ)}
    (ho : ∀ c', o = some c' → c'.node = none ∧ c'.ticket = none ∧
      c'.Ok s.queue.toNodeList (l.map Prod.fst)) :
    Pool.Inv ⟨q', Function.update s.call t o⟩ l := by
  constructor
  · simpa only [hq] using h.shape
  · intro u c hu
    simp only [hq]
    rcases update_eq_some_cases hu with ⟨-, hc⟩ | ⟨-, hc⟩
    · exact (ho c hc).2.2
    · exact h.ok u c hc
  · intro u u' c c' n huu hu hu' hn
    rcases update_eq_some_cases hu with ⟨-, hc⟩ | ⟨-, hc⟩
    · rw [(ho c hc).1] at hn
      contradiction
    · rcases update_eq_some_cases hu' with ⟨-, hc'⟩ | ⟨-, hc'⟩
      · rw [(ho c' hc').1]
        simp
      · exact h.nodes_apart u u' c c' n huu hc hc' hn
  · intro u u' c c' k huu hu hu' hk
    rcases update_eq_some_cases hu with ⟨-, hc⟩ | ⟨-, hc⟩
    · rw [(ho c hc).2.1] at hk
      contradiction
    · rcases update_eq_some_cases hu' with ⟨-, hc'⟩ | ⟨-, hc'⟩
      · rw [(ho c' hc').2.1]
        simp
      · exact h.tickets_apart u u' c c' k huu hc hc' hk
  · intro u c k hu hk
    simp only [hq]
    rcases update_eq_some_cases hu with ⟨-, hc⟩ | ⟨-, hc⟩
    · rw [(ho c hc).2.1] at hk
      contradiction
    · exact h.tickets_open u c k hc hk
  · simpa only [hq] using h.returned_nodup
  · simpa only [hq] using h.returned_data

/-- A step of thread {lit}`t` that changes the list: besides the new shape and the
thread's own new assertion it must keep what the others hold, and may only take a
node that was free or in the list and the ticket that is next. -/
theorem Pool.Inv.advance {s : Pool τ χ} {l l' : List (Nat × χ)} (h : s.Inv l) {t : τ}
    {c c' : Call χ} (hc : s.call t = some c) {q' : Queue τ χ} (hshape : q'.Shape l')
    (hok : c'.Ok q'.toNodeList (l'.map Prod.fst))
    (hothers : ∀ c₂ : Call χ, c₂.Ok s.queue.toNodeList (l.map Prod.fst) →
      (∀ n, c₂.node = some n → c.node ≠ some n) →
      c₂.Ok q'.toNodeList (l'.map Prod.fst))
    (hnode : ∀ n, c'.node = some n →
      c.node = some n ∨ s.queue.heap n = none ∨ n ∈ l.map Prod.fst)
    (hticket : ∀ k, c'.ticket = some k → c.ticket = some k ∨ k = s.queue.popped)
    (hreturned : q'.returned = s.queue.returned ∨
      ∃ k d, c.ticket = some k ∧ c'.ticket = none ∧ k < q'.popped ∧
        q'.pushed[k]? = some d ∧ q'.returned = s.queue.returned ++ [(k, d)])
    (hdata : ∀ kd ∈ s.queue.returned, kd.1 < q'.popped ∧ q'.pushed[kd.1]? = some kd.2) :
    Pool.Inv ⟨q', Function.update s.call t (some c')⟩ l' := by
  -- a node taken by this step differs from the nodes the others hold
  have hapart : ∀ u c₂ n, u ≠ t → s.call u = some c₂ → c₂.node = some n →
      c'.node ≠ some n := by
    intro u c₂ n hut hu hn hn'
    rcases hnode n hn' with hold | hnew | hlist
    · exact h.nodes_apart u t c₂ c n hut hu hc hn hold
    · exact (h.ok u c₂ hu).node_live hn hnew
    · exact (h.ok u c₂ hu).node_notMem hn hlist
  have hticketApart : ∀ u c₂ k, u ≠ t → s.call u = some c₂ → c₂.ticket = some k →
      c'.ticket ≠ some k := by
    intro u c₂ k hut hu hk hk'
    rcases hticket k hk' with hold | rfl
    · exact h.tickets_apart u t c₂ c k hut hu hc hk hold
    · exact Nat.lt_irrefl _ ((h.ok u c₂ hu).ticket_lt hk)
  -- the tickets returned before this step are not the one taken now
  have hclosed : ∀ k, c'.ticket = some k → k ∉ s.queue.returned.map Prod.fst := by
    intro k hk hmem
    rcases hticket k hk with hold | rfl
    · exact h.tickets_open t c k hc hold hmem
    · rcases List.mem_map.1 hmem with ⟨kd, hkd, heq⟩
      have := (h.returned_data kd hkd).1
      omega
  constructor
  · exact hshape
  · intro u c₂ hu
    rcases update_eq_some_cases hu with ⟨rfl, hc'⟩ | ⟨hut, hu⟩
    · cases hc'
      exact hok
    · exact hothers c₂ (h.ok u c₂ hu) fun n hn =>
        h.nodes_apart u t c₂ c n hut hu hc hn
  · intro u u' c₁ c₂ n huu hu hu' hn
    rcases update_eq_some_cases hu with ⟨rfl, hc'⟩ | ⟨hut, hold⟩
    · cases hc'
      rcases update_eq_some_cases hu' with ⟨rfl, -⟩ | ⟨hut', hu'⟩
      · exact absurd rfl huu
      · exact fun hn' => hapart u' c₂ n hut' hu' hn' hn
    · rcases update_eq_some_cases hu' with ⟨rfl, hc'⟩ | ⟨hut', hu'⟩
      · cases hc'
        exact hapart u c₁ n hut hold hn
      · exact h.nodes_apart u u' c₁ c₂ n huu hold hu' hn
  · intro u u' c₁ c₂ k huu hu hu' hk
    rcases update_eq_some_cases hu with ⟨rfl, hc'⟩ | ⟨hut, hold⟩
    · cases hc'
      rcases update_eq_some_cases hu' with ⟨rfl, -⟩ | ⟨hut', hu'⟩
      · exact absurd rfl huu
      · exact fun hk' => hticketApart u' c₂ k hut' hu' hk' hk
    · rcases update_eq_some_cases hu' with ⟨rfl, hc'⟩ | ⟨hut', hu'⟩
      · cases hc'
        exact hticketApart u c₁ k hut hold hk
      · exact h.tickets_apart u u' c₁ c₂ k huu hold hu' hk
  · intro u c₂ k hu hk
    rcases hreturned with hsame | ⟨j, d, hj, hnone, -, -, hmore⟩
    · show k ∉ q'.returned.map Prod.fst
      rw [hsame]
      rcases update_eq_some_cases hu with ⟨rfl, hc'⟩ | ⟨-, hu⟩
      · cases hc'
        exact hclosed k hk
      · exact h.tickets_open u c₂ k hu hk
    · show k ∉ q'.returned.map Prod.fst
      rw [hmore, List.map_append, List.mem_append, not_or]
      rcases update_eq_some_cases hu with ⟨rfl, hc'⟩ | ⟨hut, hu⟩
      · cases hc'
        rw [hnone] at hk
        contradiction
      · refine ⟨h.tickets_open u c₂ k hu hk, ?_⟩
        intro hmem
        have hkj : k = j := by simpa using hmem
        exact h.tickets_apart u t c₂ c k hut hu hc hk (hkj ▸ hj)
  · show (q'.returned.map Prod.fst).Nodup
    rcases hreturned with hsame | ⟨j, d, hj, -, -, -, hmore⟩
    · simpa only [hsame] using h.returned_nodup
    · rw [hmore, List.map_append]
      refine List.nodup_append.2 ⟨h.returned_nodup, by simp, ?_⟩
      intro a ha b hb hab
      have hbj : b = j := by simpa using hb
      exact h.tickets_open t c j hc hj (hbj ▸ hab ▸ ha)
  · intro kd hkd
    have hkd : kd ∈ q'.returned := hkd
    rcases hreturned with hsame | ⟨j, d, -, -, hlt, hd, hmore⟩
    · exact hdata kd (hsame ▸ hkd)
    · rw [hmore, List.mem_append, List.mem_singleton] at hkd
      rcases hkd with hkd | rfl
      · exact hdata kd hkd
      · exact ⟨hlt, hd⟩

/-! ## Every step keeps the invariant -/

variable {s : Pool τ χ} {l : List (Nat × χ)} {t : τ} {c : Call χ}

/-- Allocating a node: the address was free, so it is nobody's and not in the
list. -/
theorem Pool.Inv.alloc (h : s.Inv l) {addr : Nat} {data : χ}
    (hc : s.call t = some (.pushAlloc data)) (hfree : s.queue.heap addr = none) :
    Pool.Inv ⟨{ s.queue with
        heap := Function.update s.queue.heap addr (some ⟨none, some data⟩) },
      Function.update s.call t (some (.pushLink addr data))⟩ l := by
  have hout : addr ∉ l.map Prod.fst := fun hmem => h.shape.live hmem hfree
  refine h.advance hc (h.shape.update_of_notMem hout _) ⟨hout, Function.update_self ..⟩
    ?_ ?_ ?_ (Or.inl rfl) h.returned_data
  · intro c₂ hok _
    refine hok.stable ?_ ⟨[], by simp⟩ (Nat.le_refl _) ⟨[], by simp⟩
    intro n hn
    have hne : n ≠ addr := by
      rintro rfl
      exact hok.node_live hn hfree
    exact ⟨hok.node_notMem hn, Function.update_of_ne hne _ _⟩
  · intro n hn
    cases hn
    exact Or.inr (Or.inl hfree)
  · intro k hk
    simp [Call.ticket] at hk

/-- Linking the node appends its chunk. -/
theorem Pool.Inv.linked (h : s.Inv l) {n : Nat} {data : χ} {q' : Queue τ χ}
    (hc : s.call t = some (.pushLink n data))
    (hlink : s.queue.link n data = some q'.toNodeList) :
    Pool.Inv ⟨q', Function.update s.call t (some (.retSize q'.size))⟩
      (l ++ [(n, data)]) := by
  have hmine : n ∉ l.map Prod.fst ∧ s.queue.heap n = some ⟨none, some data⟩ := h.ok t _ hc
  rcases h.shape.link hmine.2 hmine.1 with
    ⟨nodes, hlink', hshape, hpushed, hpopped, hreturned, hframe⟩
  have hq : q'.toNodeList = nodes := Option.some.inj (hlink.symm.trans hlink')
  subst hq
  refine h.advance hc hshape trivial ?_ ?_ ?_ (Or.inl hreturned) ?_
  · intro c₂ hok happart
    refine hok.stable ?_ ⟨[data], hpushed⟩ (Nat.le_of_eq hpopped.symm)
      ⟨[], by simp [hreturned]⟩
    intro m hm
    refine ⟨?_, hframe m (hok.node_notMem hm)⟩
    have hmn : m ≠ n := by
      rintro rfl
      exact happart m hm rfl
    simpa [hmn] using hok.node_notMem hm
  · intro m hm
    simp [Call.node] at hm
  · intro k hk
    simp [Call.ticket] at hk
  · intro kd hkd
    rcases h.returned_data kd hkd with ⟨hlt, hd⟩
    refine ⟨by simpa only [hpopped] using hlt, ?_⟩
    rw [hpushed, List.getElem?_append_left (List.getElem?_eq_some_iff.1 hd).1, hd]

/-- Detaching the head: the node becomes private to the thread, which draws the
next ticket. -/
theorem Pool.Inv.detached (h : s.Inv l) {head : Nat} {q' : Queue τ χ}
    (hc : s.call t = some c) (hhead : s.queue.head = some head)
    (hunlink : s.queue.unlink head = some q'.toNodeList) :
    ∃ l', Pool.Inv ⟨q',
      Function.update s.call t (some (.popFree head s.queue.popped))⟩ l' := by
  rcases h.shape.unlink hhead with
    ⟨d, rest, nodes, rfl, hunlink', hshape, hheap, hpushed, hpopped, hreturned, hd, nx, hcell⟩
  have hq : q'.toNodeList = nodes := Option.some.inj (hunlink.symm.trans hunlink')
  subst hq
  have hnodup : head ∉ rest.map Prod.fst := by
    have := h.shape.nodup
    rw [List.map_cons, List.nodup_cons] at this
    exact this.1
  refine ⟨rest, h.advance hc hshape ?_ ?_ ?_ ?_ (Or.inl hreturned) ?_⟩
  · refine ⟨hnodup, ?_, nx, d, ?_, ?_⟩
    · show s.queue.popped < q'.popped
      omega
    · simpa only [hheap] using hcell
    · simpa only [hpushed] using hd
  · intro c₂ hok _
    refine hok.stable ?_ ⟨[], by simp [hpushed]⟩ (by simp [hpopped]) ⟨[], by simp [hreturned]⟩
    intro n hn
    have hout := hok.node_notMem hn
    rw [List.map_cons, List.mem_cons, not_or] at hout
    exact ⟨hout.2, by simp only [hheap]⟩
  · intro n hn
    cases hn
    exact Or.inr (Or.inr (by simp))
  · intro k hk
    cases hk
    exact Or.inr rfl
  · intro kd hkd
    rcases h.returned_data kd hkd with ⟨hlt, hdk⟩
    exact ⟨by omega, by simpa only [hpushed] using hdk⟩

/-- Freeing the private node after its chunk has been read. -/
theorem Pool.Inv.freed (h : s.Inv l) {head ticket : Nat} {node : Node χ}
    (hc : s.call t = some (.popFree head ticket)) (hnode : s.queue.heap head = some node) :
    Pool.Inv ⟨{ s.queue with heap := Function.update s.queue.heap head none },
      Function.update s.call t
        (some (.popDone (node.data.map fun data => (ticket, data))))⟩ l := by
  rcases h.ok t _ hc with ⟨hout, hlt, nx, d, hcell, hd⟩
  rw [hnode] at hcell
  cases hcell
  refine h.advance hc (h.shape.update_of_notMem hout _) ⟨hlt, hd⟩ ?_ ?_ ?_ (Or.inl rfl)
    h.returned_data
  · intro c₂ hok happart
    refine hok.stable ?_ ⟨[], by simp⟩ (Nat.le_refl _) ⟨[], by simp⟩
    intro n hn
    have hne : n ≠ head := by
      rintro rfl
      exact happart n hn rfl
    exact ⟨hok.node_notMem hn, Function.update_of_ne hne _ _⟩
  · intro n hn
    simp [Call.node] at hn
  · intro k hk
    exact Or.inl hk

/-- Returning the chunk closes its ticket. -/
theorem Pool.Inv.delivered (h : s.Inv l) {data : Option (Nat × χ)} {q' : Queue τ χ}
    (hc : s.call t = some (.popDone data))
    (hq : q'.toNodeList = { s.queue.toNodeList with
      returned := s.queue.returned ++ data.toList }) :
    Pool.Inv ⟨q', Function.update s.call t (some (.retChunk data))⟩ l := by
  cases data with
  | none =>
      have hsame : q'.toNodeList = s.queue.toNodeList := by
        rw [hq]
        simp
      refine h.setCall hsame ?_
      intro c' hc'
      cases hc'
      exact ⟨rfl, rfl, trivial⟩
  | some kd =>
      rcases kd with ⟨k, d⟩
      have hmine : k < s.queue.popped ∧ s.queue.pushed[k]? = some d := h.ok t _ hc
      refine h.advance hc ?_ ?_ ?_ ?_ ?_ (Or.inr ⟨k, d, rfl, rfl, ?_⟩) ?_
      · rw [hq]
        exact { h.shape with }
      · show (k, d) ∈ q'.returned
        rw [hq]
        simp
      · intro c₂ hok _
        rw [hq]
        exact hok.stable (fun n hn => ⟨hok.node_notMem hn, rfl⟩) ⟨[], by simp⟩
          (Nat.le_refl _) ⟨[(k, d)], rfl⟩
      · intro n hn
        simp [Call.node] at hn
      · intro j hj
        simp [Call.ticket] at hj
      · rw [hq]
        exact ⟨hmine.1, hmine.2, rfl⟩
      · rw [hq]
        exact h.returned_data

/-- From a test of the loop condition of {lit}`queue_pop_block` on. -/
theorem Pool.Inv.popTest (h : s.Inv l) {q₀ : Queue τ χ}
    (hq₀ : q₀.toNodeList = s.queue.toNodeList) (hc : s.call t = some c)
    {next : Queue τ χ × Call χ} (hstep : q₀.popTest t = some next) :
    ∃ l', Pool.Inv ⟨next.1, Function.update s.call t (some next.2)⟩ l' := by
  rcases Queue.popTest_cases hstep with ⟨-, rfl⟩ | ⟨head, nodes, hhead, hunlink, rfl⟩
  · refine ⟨l, h.setCall (by exact hq₀) ?_⟩
    intro c' hc'
    cases hc'
    exact ⟨rfl, rfl, trivial⟩
  · have hpopped : q₀.popped = s.queue.popped := by rw [hq₀]
    rw [hq₀] at hhead hunlink
    rw [hpopped]
    exact h.detached hc hhead hunlink

/-- One section of a thread inside a queue function. -/
theorem Pool.Inv.callStep (h : s.Inv l) (hc : s.call t = some c) {addr : Nat}
    {wake : Option τ} {next : Queue τ χ × Call χ}
    (hstep : c.step t addr wake s.queue = some next) :
    ∃ l', Pool.Inv ⟨next.1, Function.update s.call t (some next.2)⟩ l' := by
  -- the sections that touch neither the list nor a private node
  have hquiet : ∀ (q' : Queue τ χ) (c' : Call χ), q'.toNodeList = s.queue.toNodeList →
      c'.node = none ∧ c'.ticket = none ∧ c'.Ok s.queue.toNodeList (l.map Prod.fst) →
      ∃ l', Pool.Inv ⟨q', Function.update s.call t (some c')⟩ l' := by
    intro q' c' hq hc'
    refine ⟨l, h.setCall hq ?_⟩
    rintro c₂ ⟨⟩
    exact hc'
  cases c with
  | push data =>
      cases data <;> (cases hstep; exact hquiet _ _ rfl ⟨rfl, rfl, trivial⟩)
  | pushAlloc data =>
      simp only [Call.step] at hstep
      split at hstep
      · rename_i hfree
        cases hstep
        exact ⟨l, h.alloc hc (by simpa using hfree)⟩
      · contradiction
  | pushLink n data =>
      rcases Option.bind_eq_some_iff.1 hstep with ⟨nodes, hlink, hrest⟩
      rcases Option.map_eq_some_iff.1 hrest with ⟨cond, -, rfl⟩
      exact ⟨_, h.linked hc hlink⟩
  | popBlock =>
      cases hstep
      exact hquiet _ _ rfl ⟨rfl, rfl, trivial⟩
  | popBlockLock => exact h.popTest rfl hc hstep
  | popBlockWait =>
      rcases Option.bind_eq_some_iff.1 hstep with ⟨cond, -, hrest⟩
      split at hrest
      · cases hrest
        exact hquiet _ _ rfl ⟨rfl, rfl, trivial⟩
      · exact Pool.Inv.popTest h (by rfl) hc hrest
  | popNoblock =>
      cases hstep
      exact hquiet _ _ rfl ⟨rfl, rfl, trivial⟩
  | popNoblockLock =>
      simp only [Call.step] at hstep
      split at hstep
      · cases hstep
        exact hquiet _ _ rfl ⟨rfl, rfl, trivial⟩
      · rename_i head hhead
        rcases Option.map_eq_some_iff.1 hstep with ⟨nodes, hunlink, rfl⟩
        exact h.detached hc hhead hunlink
  | popFree head ticket =>
      rcases Option.map_eq_some_iff.1 hstep with ⟨node, hnode, rfl⟩
      exact ⟨l, h.freed hc hnode⟩
  | popDone data =>
      rcases Option.map_eq_some_iff.1 hstep with ⟨q', hq', rfl⟩
      rcases Option.map_eq_some_iff.1 hq' with ⟨usedcond, -, rfl⟩
      exact ⟨l, h.delivered hc rfl⟩
  | getsize =>
      cases hstep
      exact hquiet _ _ rfl ⟨rfl, rfl, trivial⟩
  | finish =>
      rcases Option.map_eq_some_iff.1 hstep with ⟨cond, -, rfl⟩
      exact hquiet _ _ rfl ⟨rfl, rfl, trivial⟩
  | finishTest =>
      cases hstep
      unfold Queue.finishLoop
      split <;> exact hquiet _ _ rfl ⟨rfl, rfl, trivial⟩
  | finishWait =>
      rcases Option.map_eq_some_iff.1 hstep with ⟨usedcond, -, rfl⟩
      unfold Queue.finishLoop
      split <;> exact hquiet _ _ rfl ⟨rfl, rfl, trivial⟩
  | retSize size => contradiction
  | retChunk data => contradiction
  | retVoid => contradiction

/-- One step of the system keeps the invariant. -/
theorem Pool.Inv.step (h : s.Inv l) {a : PoolAction τ χ} {s' : Pool τ χ}
    (hstep : s.step a = some s') : ∃ l', s'.Inv l' := by
  cases a with
  | enter t op =>
      simp only [Pool.step] at hstep
      split at hstep
      · cases hstep
        refine ⟨l, h.setCall rfl ?_⟩
        rintro c' ⟨⟩
        cases op <;> exact ⟨rfl, rfl, trivial⟩
      · contradiction
  | step t addr wake =>
      rcases Option.bind_eq_some_iff.1 hstep with ⟨c, hc, hrest⟩
      rcases Option.map_eq_some_iff.1 hrest with ⟨next, hnext, rfl⟩
      exact h.callStep hc hnext
  | spurious t =>
      rcases Option.bind_eq_some_iff.1 hstep with ⟨c, hc, hrest⟩
      rcases Option.map_eq_some_iff.1 hrest with ⟨q', hq', rfl⟩
      have hsame : q'.toNodeList = s.queue.toNodeList := by
        cases c <;> simp only [Queue.spurious, reduceCtorEq] at hq'
        all_goals
          rcases Option.map_eq_some_iff.1 hq' with ⟨cond, -, rfl⟩
          rfl
      -- the thread keeps its place inside the wait
      have hsetting := h.setCall (t := t) hsame (o := s.call t) fun c' hc' => by
        rw [hc] at hc'
        cases hc'
        cases c <;> first | exact ⟨rfl, rfl, trivial⟩ | (simp [Queue.spurious] at hq')
      rw [Function.update_eq_self] at hsetting
      exact ⟨l, hsetting⟩
  | leave t =>
      rcases Option.bind_eq_some_iff.1 hstep with ⟨c, hc, hrest⟩
      split at hrest
      · cases hrest
        refine ⟨l, h.setCall rfl ?_⟩
        rintro c' ⟨⟩
      · contradiction

/-- The run lemma: every reachable state satisfies the invariant. -/
theorem Pool.exists_inv {s : Pool τ χ} (h : (queueMachine τ χ).Reachable s) :
    ∃ l, s.Inv l := by
  refine Machine.Reach.invariant (I := fun s : Pool τ χ => ∃ l, s.Inv l) ?_ ?_ h
  · rintro s rfl
    exact ⟨[], Pool.inv_create⟩
  · rintro s a s' - ⟨l, hl⟩ - hstep
    exact hl.step hstep

/-- A section that reports a size reports the byte counter it leaves behind. -/
theorem callStep_retSize {q q' : Queue τ χ} {addr : Nat} {wake : Option τ} {v : BitVec 32}
    (hstep : c.step t addr wake q = some (q', .retSize v)) : v = q'.size := by
  cases c with
  | push data => cases data <;> cases hstep; rfl
  | pushLink n data =>
      rcases Option.bind_eq_some_iff.1 hstep with ⟨nodes, -, hrest⟩
      rcases Option.map_eq_some_iff.1 hrest with ⟨cond, -, heq⟩
      cases heq
      rfl
  | getsize =>
      cases hstep
      rfl
  | pushAlloc data =>
      simp only [Call.step] at hstep
      split at hstep <;> cases hstep
  | popBlockLock =>
      rcases Queue.popTest_cases hstep with ⟨-, h⟩ | ⟨_, _, -, -, h⟩ <;> cases h
  | popBlockWait =>
      rcases Option.bind_eq_some_iff.1 hstep with ⟨cond, -, hrest⟩
      split at hrest
      · cases hrest
      · rcases Queue.popTest_cases hrest with ⟨-, h⟩ | ⟨_, _, -, -, h⟩ <;> cases h
  | popNoblockLock =>
      simp only [Call.step] at hstep
      split at hstep
      · cases hstep
      · rcases Option.map_eq_some_iff.1 hstep with ⟨_, -, heq⟩
        cases heq
  | finishTest =>
      have heq := Option.some.inj hstep
      rcases Queue.finishLoop_cases t q with ⟨-, h⟩ | ⟨-, h⟩ <;> rw [h] at heq <;> cases heq
  | finishWait =>
      rcases Option.map_eq_some_iff.1 hstep with ⟨usedcond, -, heq⟩
      rcases Queue.finishLoop_cases t { q with usedcond := usedcond } with
        ⟨-, h⟩ | ⟨-, h⟩ <;> rw [h] at heq <;> cases heq
  | popFree head ticket | popDone data | finish =>
      rcases Option.map_eq_some_iff.1 hstep with ⟨_, -, heq⟩
      cases heq
  | popBlock | popNoblock | retSize size | retChunk data | retVoid => cases hstep

end Invariant

end Iemnet
