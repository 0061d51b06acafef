import Iemnet.Queue.Waiting

/-!
# The nodes of the queue

{lit}`queue_push` allocates a node before it locks the queue, and a pop frees its node after
it has unlocked it, so nodes live outside of the list as well.  Each of them is in the hand
of one thread, which links or frees it later.

Main results:

- Theorem {lit}`Call.node_step`: where a section leaves the nodes that are allocated.
- Theorem {lit}`nodes_accounted`: in every reachable state an allocated node is in the list
  or in the hand of exactly one thread, and no section needs a node that is not allocated.
-/

namespace Iemnet

open Foundations
open Foundations.LinkedList

variable {τ χ : Type} [Payload χ]

/-! ## One section -/

/-- Pointers and cells determine the list. -/
theorem NodeList.Shape.unique {q : NodeList χ} {l l' : List (Nat × χ)} (h : q.Shape l)
    (h' : q.Shape l') : l = l' := by
  have hinjective : Function.Injective fun p : Nat × χ => (p.1, some p.2) := by
    intro p p' hpp
    simp only [Prod.mk.injEq, Option.some.injEq] at hpp
    exact Prod.ext hpp.1 hpp.2
  exact hinjective.list_map (h.chain.unique h'.chain)

/-- Node {lit}`a` is neither in the list {lit}`l` nor in the hand of {lit}`c`. -/
def Call.Elsewhere (q : NodeList χ) (l : List (Nat × χ)) (c : Call χ) (a : Nat) : Prop :=
  q.heap a ≠ none ∧ a ∉ l.map Prod.fst ∧ c.node ≠ some a

/-- A section that writes neither a pointer nor a cell. -/
theorem Call.node_quiet {q q' : NodeList χ} {l l' : List (Nat × χ)} {c c' : Call χ}
    (hshape : q.Shape l) (hshape' : q'.Shape l') (hheap : q'.heap = q.heap)
    (hhead : q'.head = q.head) (hnode : c.node = none) {a : Nat} (ha : q'.heap a ≠ none) :
    a ∈ l'.map Prod.fst ∨ c'.node = some a ∨ c.Elsewhere q l a := by
  have hchain := hshape'.chain
  rw [hheap, hhead] at hchain
  have hlist : l.map Prod.fst = l'.map Prod.fst := by
    have hmap := congrArg (List.map Prod.fst) (hshape.chain.unique hchain)
    simpa only [map_node_fst] using hmap
  by_cases hmem : a ∈ l'.map Prod.fst
  · exact Or.inl hmem
  · refine Or.inr (Or.inr ⟨hheap ▸ ha, hlist ▸ hmem, ?_⟩)
    rw [hnode]
    exact (Option.some_ne_none a).symm

/-- A section that detaches the head. -/
theorem Call.node_unlink {q q' : NodeList χ} {l l' : List (Nat × χ)} {c : Call χ}
    (hshape : q.Shape l) (hshape' : q'.Shape l') {head ticket : Nat} (hhead : q.head = some head)
    (hunlink : q.unlink head = some q') (hnode : c.node = none) {a : Nat}
    (ha : q'.heap a ≠ none) :
    a ∈ l'.map Prod.fst ∨ (Call.popFree (χ := χ) head ticket).node = some a ∨
      c.Elsewhere q l a := by
  rcases hshape.unlink hhead with
    ⟨d, rest, nodes, rfl, hunlink', hrest, hheap, -⟩
  rw [hunlink] at hunlink'
  cases hunlink'
  have hlist := hrest.unique hshape'
  subst hlist
  by_cases hmine : a = head
  · rw [hmine]
    exact Or.inr (Or.inl rfl)
  · by_cases hmem : a ∈ rest.map Prod.fst
    · exact Or.inl hmem
    · refine Or.inr (Or.inr ⟨hheap ▸ ha, ?_, ?_⟩)
      · simp only [List.map_cons, List.mem_cons, not_or]
        exact ⟨hmine, hmem⟩
      · rw [hnode]
        exact (Option.some_ne_none a).symm

section Threads

variable [DecidableEq τ]

/-- After a section an allocated node is in the list, in the thread's own hand, or it was
somewhere else before. -/
theorem Call.node_step {q : Queue τ χ} {c : Call χ} {t : τ} {addr : Nat} {wake : Option τ}
    {next : Queue τ χ × Call χ} {l l' : List (Nat × χ)} (hshape : q.Shape l)
    (hok : c.Ok q.toNodeList (l.map Prod.fst)) (hstep : c.step t addr wake q = some next)
    (hshape' : next.1.Shape l') {a : Nat} (ha : next.1.heap a ≠ none) :
    a ∈ l'.map Prod.fst ∨ next.2.node = some a ∨ c.Elsewhere q.toNodeList l a := by
  -- from a test of the loop condition of a pop on
  have htest : ∀ q₀ : Queue τ χ, q₀.toNodeList = q.toNodeList → q₀.popTest t = some next →
      c.node = none →
      a ∈ l'.map Prod.fst ∨ next.2.node = some a ∨ c.Elsewhere q.toNodeList l a := by
    intro q₀ hq₀ hpop hnone
    rcases Queue.popTest_cases hpop with ⟨-, rfl⟩ | ⟨head, nodes, hhead, hunlink, rfl⟩
    · refine Call.node_quiet hshape hshape' ?_ ?_ hnone ha
      · exact congrArg NodeList.heap hq₀
      · exact congrArg NodeList.head hq₀
    · rw [hq₀] at hhead hunlink
      exact Call.node_unlink hshape hshape' hhead hunlink hnone ha
  cases c with
  | push data =>
      cases data <;>
        (cases hstep; exact Call.node_quiet hshape hshape' rfl rfl rfl ha)
  | pushAlloc data =>
      simp only [Call.step] at hstep
      split at hstep
      · rename_i hfree
        cases hstep
        have hfresh : addr ∉ l.map Prod.fst := fun hmem =>
          hshape.live hmem (Option.isNone_iff_eq_none.1 hfree)
        cases (hshape.update_of_notMem hfresh _).unique hshape'
        by_cases hmine : a = addr
        · rw [hmine]
          exact Or.inr (Or.inl rfl)
        · by_cases hmem : a ∈ l.map Prod.fst
          · exact Or.inl hmem
          · have hold := Function.update_of_ne hmine
              (some (⟨none, some data⟩ : Node χ)) q.heap
            exact Or.inr (Or.inr ⟨hold ▸ ha, hmem, (Option.some_ne_none a).symm⟩)
      · contradiction
  | pushLink n data =>
      rcases Option.bind_eq_some_iff.1 hstep with ⟨nodes, hlink, hrest⟩
      rcases Option.map_eq_some_iff.1 hrest with ⟨cond, -, rfl⟩
      rcases hshape.link hok.2 hok.1 with ⟨nodes', hlink', hlinked, -, -, -, hframe⟩
      rw [hlink] at hlink'
      cases hlink'
      cases hlinked.unique hshape'
      by_cases hmem : a ∈ (l ++ [(n, data)]).map Prod.fst
      · exact Or.inl hmem
      · simp only [List.map_append, List.mem_append, List.map_cons, List.map_nil,
          List.mem_singleton, not_or] at hmem
        refine Or.inr (Or.inr ⟨hframe a hmem.1 ▸ ha, hmem.1, ?_⟩)
        intro hmine
        exact hmem.2 (Option.some.inj hmine).symm
  | popBlockLock => exact htest q rfl hstep rfl
  | popBlockWait =>
      rcases Option.bind_eq_some_iff.1 hstep with ⟨cond, -, hrest⟩
      split at hrest
      · cases hrest
        exact Call.node_quiet hshape hshape' rfl rfl rfl ha
      · exact htest _ (by rfl) hrest rfl
  | popNoblockLock =>
      simp only [Call.step] at hstep
      split at hstep
      · cases hstep
        exact Call.node_quiet hshape hshape' rfl rfl rfl ha
      · rename_i head hhead
        rcases Option.map_eq_some_iff.1 hstep with ⟨nodes, hunlink, rfl⟩
        exact Call.node_unlink hshape hshape' hhead hunlink rfl ha
  | popFree head ticket =>
      rcases Option.map_eq_some_iff.1 hstep with ⟨node, -, rfl⟩
      cases (hshape.update_of_notMem hok.1 _).unique hshape'
      by_cases hmem : a ∈ l.map Prod.fst
      · exact Or.inl hmem
      · have hne : a ≠ head := fun heq => ha (heq ▸ Function.update_self ..)
        have hold := Function.update_of_ne hne (none : Option (Node χ)) q.heap
        refine Or.inr (Or.inr ⟨hold ▸ ha, hmem, ?_⟩)
        intro hmine
        exact hne (Option.some.inj hmine).symm
  | popDone data =>
      rcases Option.map_eq_some_iff.1 hstep with ⟨q', hq', rfl⟩
      rcases Option.map_eq_some_iff.1 hq' with ⟨usedcond, -, rfl⟩
      exact Call.node_quiet hshape hshape' rfl rfl rfl ha
  | finish =>
      rcases Option.map_eq_some_iff.1 hstep with ⟨cond, -, rfl⟩
      exact Call.node_quiet hshape hshape' rfl rfl rfl ha
  | finishTest =>
      rcases Queue.finishLoop_cases t q with ⟨-, hloop⟩ | ⟨-, hloop⟩
      all_goals
        simp only [Call.step, hloop] at hstep
        cases hstep
        exact Call.node_quiet hshape hshape' rfl rfl rfl ha
  | finishWait =>
      rcases Option.map_eq_some_iff.1 hstep with ⟨usedcond, -, rfl⟩
      rcases Queue.finishLoop_cases t { q with usedcond := usedcond } with
        ⟨-, hloop⟩ | ⟨-, hloop⟩
      all_goals
        rw [hloop] at hshape' ha ⊢
        exact Call.node_quiet hshape hshape' rfl rfl rfl ha
  | popBlock | popNoblock | getsize =>
      cases hstep
      exact Call.node_quiet hshape hshape' rfl rfl rfl ha
  | retSize _ | retChunk _ | retVoid => cases hstep

/-! ## Every run -/

/-- Thread {lit}`t` is about to link or to free node {lit}`a`. -/
def Pool.Holds (s : Pool τ χ) (t : τ) (a : Nat) : Prop :=
  ∃ c, s.call t = some c ∧ c.node = some a

/-- No node is lost. -/
def Pool.Owned (s : Pool τ χ) (l : List (Nat × χ)) : Prop :=
  ∀ a, s.queue.heap a ≠ none → a ∈ l.map Prod.fst ∨ ∃ t, s.Holds t a

variable {s s' : Pool τ χ} {l l' : List (Nat × χ)}

omit [Payload χ] in
/-- A thread goes on holding its node when its call keeps it. -/
theorem Pool.Holds.update {t u : τ} {a : Nat} {q : Queue τ χ} {o : Option (Call χ)}
    (h : s.Holds u a) (hmine : ∀ c, s.call t = some c → c.node = some a →
      ∃ c', o = some c' ∧ c'.node = some a) :
    Pool.Holds ⟨q, Function.update s.call t o⟩ u a := by
  rcases h with ⟨c, hc, hnode⟩
  by_cases hut : u = t
  · subst hut
    rcases hmine c hc hnode with ⟨c', hc', hnode'⟩
    exact ⟨c', (Function.update_self ..).trans hc', hnode'⟩
  · exact ⟨c, (Function.update_of_ne hut ..).trans hc, hnode⟩

/-- A step that leaves the list alone, by a thread that holds no node. -/
theorem Pool.Owned.quiet (h : s.Owned l) (hinv : s.Inv l) {t : τ} {q : Queue τ χ}
    {o : Option (Call χ)} (hq : q.toNodeList = s.queue.toNodeList)
    (hnone : ∀ c, s.call t = some c → c.node = none)
    (hinv' : Pool.Inv ⟨q, Function.update s.call t o⟩ l') :
    Pool.Owned ⟨q, Function.update s.call t o⟩ l' := by
  have hshape := hinv'.shape
  rw [hq] at hshape
  cases hinv.shape.unique hshape
  intro a ha
  have hold : s.queue.heap a ≠ none := by simpa only [hq] using ha
  rcases h a hold with hmem | ⟨u, hu⟩
  · exact Or.inl hmem
  · refine Or.inr ⟨u, hu.update fun c hc hnode => ?_⟩
    rw [hnone c hc] at hnode
    contradiction

/-- Every step keeps the nodes in the list or in a hand. -/
theorem Pool.Owned.step (h : s.Owned l) (hinv : s.Inv l) {a : PoolAction τ χ}
    (hstep : s.step a = some s') (hinv' : s'.Inv l') : s'.Owned l' := by
  cases a with
  | enter t op =>
      simp only [Pool.step] at hstep
      split at hstep
      · rename_i hfree
        cases hstep
        refine h.quiet hinv rfl ?_ hinv'
        intro c hc
        simp [hc] at hfree
      · contradiction
  | step t addr wake =>
      rcases Option.bind_eq_some_iff.1 hstep with ⟨c, hc, hrest⟩
      rcases Option.map_eq_some_iff.1 hrest with ⟨next, hnext, rfl⟩
      intro a ha
      rcases Call.node_step hinv.shape (hinv.ok t c hc) hnext hinv'.shape ha with
        hmem | hmine | ⟨hlive, hout, hnot⟩
      · exact Or.inl hmem
      · exact Or.inr ⟨t, next.2, Function.update_self .., hmine⟩
      · rcases h a hlive with hmem | ⟨u, hu⟩
        · exact absurd hmem hout
        · refine Or.inr ⟨u, hu.update fun c' hc' hnode => ?_⟩
          rw [hc] at hc'
          cases hc'
          exact absurd hnode hnot
  | spurious t =>
      rcases Option.bind_eq_some_iff.1 hstep with ⟨c, hc, hrest⟩
      rcases Option.map_eq_some_iff.1 hrest with ⟨q', hq', rfl⟩
      have hsame : q'.toNodeList = s.queue.toNodeList ∧ c.node = none := by
        cases c <;> simp only [Queue.spurious, reduceCtorEq] at hq'
        all_goals
          rcases Option.map_eq_some_iff.1 hq' with ⟨cond, -, rfl⟩
          exact ⟨rfl, rfl⟩
      have hquiet := h.quiet (o := s.call t) hinv hsame.1 (t := t) (fun c' hc' => by
        rw [hc] at hc'
        cases hc'
        exact hsame.2) (by rwa [Function.update_eq_self])
      rwa [Function.update_eq_self] at hquiet
  | leave t =>
      rcases Option.bind_eq_some_iff.1 hstep with ⟨c, hc, hrest⟩
      split at hrest
      · rename_i hfinished
        cases hrest
        refine h.quiet hinv rfl ?_ hinv'
        intro c' hc'
        rw [hc] at hc'
        cases hc'
        cases c <;> first | rfl | simp [Call.finished] at hfinished
      · contradiction

/-- The run lemma. -/
theorem Pool.owned (h : (queueMachine τ χ).Reachable s) : ∃ l, s.Inv l ∧ s.Owned l := by
  refine Machine.Reach.invariant (I := fun s : Pool τ χ => ∃ l, s.Inv l ∧ s.Owned l) ?_ ?_ h
  · rintro s rfl
    exact ⟨[], Pool.inv_create, fun a ha => absurd rfl ha⟩
  · intro s a s' _ hl _ hstep
    rcases hl with ⟨l, hinv, howned⟩
    rcases hinv.step hstep with ⟨l', hinv'⟩
    exact ⟨l', hinv', howned.step hinv hstep hinv'⟩

/-- The node in a thread's hand is in nobody else's and not in the list. -/
theorem Pool.Inv.hold_unique (h : s.Inv l) {t : τ} {a : Nat} (ht : s.Holds t a) :
    a ∉ l.map Prod.fst ∧ ∃! u, s.Holds u a := by
  rcases ht with ⟨c, hc, hnode⟩
  refine ⟨(h.ok t c hc).node_notMem hnode, t, ⟨c, hc, hnode⟩, ?_⟩
  intro u hu
  rcases hu with ⟨c', hc', hnode'⟩
  by_contra hut
  exact h.nodes_apart u t c' c a hut hc' hc hnode' hnode

/-- A node is allocated exactly if it is in one of these places. -/
theorem Pool.placed (h : (queueMachine τ χ).Reachable s) :
    ∃ l, s.Inv l ∧
      ∀ a, s.queue.heap a ≠ none ↔ Xor (a ∈ l.map Prod.fst) (∃! t, s.Holds t a) := by
  rcases Pool.owned h with ⟨l, hinv, howned⟩
  refine ⟨l, hinv, fun a => ⟨?_, ?_⟩⟩
  · intro ha
    rcases howned a ha with hmem | ⟨t, ht⟩
    · refine Or.inl ⟨hmem, fun hheld => ?_⟩
      rcases hheld.exists with ⟨t, ht⟩
      exact (hinv.hold_unique ht).1 hmem
    · have halone := hinv.hold_unique ht
      exact Or.inr ⟨halone.2, halone.1⟩
  · intro hplace
    rcases hplace with ⟨hmem, -⟩ | ⟨hheld, -⟩
    · exact hinv.shape.live hmem
    · rcases hheld.exists with ⟨t, c, hc, hnode⟩
      exact (hinv.ok t c hc).node_live hnode

/-- In every state reached by any threads that call the queue functions in any order: the
allocated nodes are those of the list and those in the hand of exactly one thread, never
both; and a thread inside a queue function can execute its next section, for which every
node it follows has to be allocated, unless it waits for a signal. -/
theorem nodes_accounted (h : (queueMachine τ χ).Reachable s) :
    ∃ l, s.queue.Shape l ∧
      (∀ a, s.queue.heap a ≠ none ↔ Xor (a ∈ l.map Prod.fst) (∃! t, s.Holds t a)) ∧
      ∀ t c, s.call t = some c → c.finished = false →
        (c = .popBlockWait → t ∈ s.queue.cond.woken) →
        (c = .finishWait → t ∈ s.queue.usedcond.woken) →
        ∃ addr wake, (s.step (.step t addr wake)).isSome := by
  rcases Pool.placed h with ⟨l, hinv, hplaced⟩
  refine ⟨l, hinv.shape, hplaced, ?_⟩
  intro t c hc hrunning hpop hfinish
  rcases hinv.progress (Pool.exists_free h) hc hrunning hpop hfinish with ⟨addr, wake, hnext⟩
  refine ⟨addr, wake, ?_⟩
  simpa [Pool.step, hc] using hnext

/-- A push that has allocated its node, while another thread begins to pop. -/
def allocDuringPop : List (PoolAction Bool Chunk) :=
  [.enter true (.push (some ⟨[1#8, 2#8], 0, 0#16, 2⟩)), .step true 0 none,
    .enter false .popBlock, .step false 0 none, .step true 7 none]

/-- A node that is allocated while a pop is under way is held by just one thread. -/
theorem nodes_accounted_run :
    ∃ s, (queueMachine Bool Chunk).run (Pool.create Bool Chunk) allocDuringPop = some s ∧
      s.queue.heap 7 ≠ none ∧ ∃! t, s.Holds t 7 := by
  have hrun : ∃ s, (queueMachine Bool Chunk).run (Pool.create Bool Chunk) allocDuringPop =
      some s ∧ s.queue.head = none ∧ s.queue.heap 7 ≠ none :=
    ⟨_, rfl, rfl, Option.some_ne_none _⟩
  rcases hrun with ⟨s, hrun, hhead, hlive⟩
  rcases nodes_accounted (Machine.reach_of_run rfl hrun) with ⟨l, hshape, hnodes, -⟩
  have hempty : l = [] := hshape.head_eq_none_iff.1 hhead
  rcases (hnodes 7).1 hlive with ⟨hmem, -⟩ | ⟨hheld, -⟩
  · simp [hempty] at hmem
  · exact ⟨s, hrun, hlive, hheld⟩

end Threads

end Iemnet
