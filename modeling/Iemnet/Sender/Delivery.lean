import Iemnet.Foundations.Numbered
import Iemnet.Sender.Control

/-!
# Delivery

Every copy is numbered when it is made, and the tickets of the queue are these
numbers.  The ledger says that at every moment the numbers released so far,
followed by the one in somebody's hand, are exactly the tickets drawn; with it
each list of copies the sender produces is a prefix of the copies pushed.

Main results:

- Theorem {lit}`Delivery.transition`: every transition keeps the invariant, by one lemma for
  each group of transitions.
- Theorem {lit}`sender_delivery`: in every reachable state the chunks passed to the
  send function are a prefix of the copies pushed, nothing follows a failed call,
  at most one call begins after {lit}`keepsending` was cleared, and a destroyed
  sender has released every copy exactly once.
-/

namespace Iemnet

open Foundations

namespace Sender

/-! ## Copies -/

/-- The copy {lit}`iemnet__sender_send` makes of its {lit}`i`-th chunk. -/
def copyOf (i : Nat) (c : Chunk) : Copy :=
  ⟨i, { c with family := afInet }⟩

/-- The copies of a sequence of submitted chunks. -/
def copiesOf (l : List Chunk) : List Copy :=
  l.mapIdx copyOf

/-- The copies are numbered in the order of the calls. -/
theorem numbered_copiesOf (l : List Chunk) : Numbered Copy.serial (copiesOf l) := by
  apply List.ext_getElem <;> simp [copiesOf, copyOf]

/-- Another chunk makes another copy, with the next number. -/
theorem copiesOf_append_singleton (l : List Chunk) (c : Chunk) :
    copiesOf (l ++ [c]) = copiesOf l ++ [copyOf l.length c] := by
  simp [copiesOf, List.mapIdx_append]

/-- The copy made is the one the specification names. -/
theorem copyOf_of_chunkCreateChunk {mem : Bool} {src chunk : Chunk} {i : Nat}
    (h : chunkCreateChunk mem (some src) = some chunk) : ⟨i, chunk⟩ = copyOf i src := by
  cases mem with
  | false => simp [chunkCreateChunk, chunkCreateData, chunkCreateEmpty] at h
  | true =>
      by_cases hnil : src.data = []
      · simp [chunkCreateChunk, chunkCreateData, chunkCreateEmpty, Chunk.size, hnil] at h
      · rw [chunkCreateChunk_eq hnil, Option.some.injEq] at h
        subst h
        rfl

/-! ## What is in whose hand -/

/-- The copy the send thread works on outside the queue. -/
def ThreadPc.copy : ThreadPc → Option Copy
  | .got c => some c
  | .sending c => some c
  | .sent _ c => some c
  | _ => none

/-- The copy the main thread is about to destroy. -/
def MainPc.copy : MainPc → Option Copy
  | .drainRelease c => some c
  | _ => none

/-- Calls of the send function that have begun and not yet released their
chunk. -/
def ThreadPc.unreleased : ThreadPc → Nat
  | .sending _ => 1
  | .sent _ _ => 1
  | _ => 0

/-- Calls of the send function that have begun and not yet returned. -/
def ThreadPc.unanswered : ThreadPc → Nat
  | .sending _ => 1
  | _ => 0

/-- Calls of the send function the thread can still begin without testing
{lit}`keepsending` again. -/
def ThreadPc.ahead : ThreadPc → Nat
  | .inPop => 1
  | .got _ => 1
  | _ => 0

/-- The thread has seen a failed send. -/
def ThreadPc.broken : ThreadPc → Bool
  | .sent ok _ => !ok
  | .brokenLock => true
  | .exited => true
  | _ => false

/-- The ticket drawn by a call in progress. -/
def ticketOf (c : Option (Call Copy)) : List Nat :=
  (c.bind Call.taken).toList

/-- The number in the hand of the send thread. -/
def State.threadHand (s : State) : List Nat :=
  ticketOf (s.pool.call .send) ++ (s.thread.copy.map Copy.serial).toList

/-- The number in the hand of the main thread. -/
def State.mainHand (s : State) : List Nat :=
  ticketOf (s.pool.call .main) ++ (s.main.copy.map Copy.serial).toList

/-- The copy the main thread has made and not linked yet. -/
def State.pending (s : State) : List Copy :=
  ((s.pool.call .main).bind Call.pending).toList

/-- The delivery invariant. -/
structure Delivery (s : State) : Prop where
  content : s.pool.queue.pushed ++ s.pending = copiesOf s.submitted
  ledger : s.released.map Copy.serial ++ (s.threadHand ++ s.mainHand) =
    List.range s.pool.queue.popped
  threadCopy : ∀ c, s.thread.copy = some c → c ∈ copiesOf s.submitted
  mainCopy : ∀ c, s.main.copy = some c → c ∈ copiesOf s.submitted
  releasedMem : ∀ c ∈ s.released, c ∈ copiesOf s.submitted
  passedMem : ∀ c ∈ s.passed, c ∈ copiesOf s.submitted
  passedNumbered : Numbered Copy.serial s.passed
  passedLe : s.passed.length ≤ s.pool.queue.popped
  passedLength : s.thread ≠ .exited →
    s.passed.length = s.released.length + s.thread.unreleased
  outcomesLength : s.passed.length = s.outcomes.length + s.thread.unanswered
  outcomesOk : false ∉ s.outcomes ∨
    s.thread.broken = true ∧ ∃ l, s.outcomes = l ++ [false] ∧ false ∉ l
  cleared : ∀ m, s.clearedAt = some m → s.passed.length + s.thread.ahead ≤ m + 1

/-- A new sender has nothing to account for. -/
theorem delivery_create : Delivery create := by
  constructor <;>
    simp [create, Pool.create, queueCreate, State.pending, State.threadHand, State.mainHand,
      ticketOf, ThreadPc.copy, MainPc.copy, ThreadPc.unreleased, ThreadPc.unanswered,
      copiesOf, Numbered]

/-! ## Hands -/

/-- Who is in no call has no ticket. -/
@[simp]
theorem ticketOf_none : ticketOf none = [] :=
  rfl

/-- The ticket is what the call has taken out. -/
@[simp]
theorem ticketOf_some (c : Call Copy) : ticketOf (some c) = c.taken.toList :=
  rfl

/-- A call that has just been entered has no ticket. -/
@[simp]
theorem ticketOf_entered (p : Pool Tid Copy) (t : Tid) (op : QueueOp Copy) :
    ticketOf ((p.entered t op).call t) = [] := by
  cases op <;> simp [Pool.entered, ticketOf, QueueOp.entry, Call.taken]

section

variable {s s' : State}

/-- The main thread takes chunks only after the send thread has exited. -/
theorem Control.mainHand_eq_nil (h : Control s) (halive : s.thread ≠ .exited) :
    s.mainHand = [] := by
  have hlate : s.main.late = false := by
    cases hl : s.main.late
    · rfl
    · exact absurd (h.late hl) halive
  have hmain := h.main
  unfold State.mainHand
  cases hcall : s.pool.call .main with
  | none => cases hpc : s.main <;> simp_all [MainPc.copy, MainPc.late]
  | some c =>
      rw [hcall] at hmain
      rcases hmain.op_of_some with ⟨op, hop, hcovers⟩
      cases hpc : s.main <;> simp_all [MainPc.op, MainPc.late]
      · cases hop
        simp [MainPc.copy, hcovers.taken_of_push]
      · cases hop
        simp [MainPc.copy, hcovers.taken_of_finish]

/-- A send thread that has ended holds nothing. -/
theorem Control.threadHand_eq_nil (h : Control s) (hexited : s.thread = .exited) :
    s.threadHand = [] := by
  have hthread := h.thread
  rw [hexited] at hthread
  simp [State.threadHand, hthread.eq_none, hexited, ThreadPc.copy]

/-- A thread that has drawn a ticket inside the queue is popping. -/
theorem Control.hands_of_taken (h : Control s) {t : Tid} {c c' : Call Copy} {k : Nat}
    (hcall : s.pool.call t = some c) (hbefore : c.taken = none) (hafter : c'.taken = some k)
    (hstays : ∀ op : QueueOp Copy, op.Covers c → op.Covers c') :
    s.threadHand = [] ∧ s.mainHand = [] := by
  cases t with
  | send =>
      have hpc := (h.thread_inPop hcall).1
      refine ⟨?_, h.mainHand_eq_nil (by simp [hpc])⟩
      simp [State.threadHand, hcall, ticketOf, hbefore, hpc, ThreadPc.copy]
  | main =>
      have hmain := h.main
      rw [hcall] at hmain
      rcases hmain.op_of_some with ⟨op, hop, hcovers⟩
      have hcovers' := hstays op hcovers
      have hdraining : s.main = .draining := by
        cases hpc : s.main with
        | draining => rfl
        | pushing data =>
            rw [hpc] at hop
            cases hop
            simp [hcovers'.taken_of_push] at hafter
        | finishing | finishing2 | finishing3 =>
            rw [hpc] at hop
            cases hop
            simp [hcovers'.taken_of_finish] at hafter
        | _ => simp [hpc, MainPc.op] at hop
      refine ⟨h.threadHand_eq_nil (h.late (by simp [hdraining, MainPc.late])), ?_⟩
      simp [State.mainHand, hcall, ticketOf, hbefore, hdraining, MainPc.copy]

/-- The chunk a pop returns has the number of its ticket. -/
theorem Delivery.serial_of_returned (h : Delivery s) {l : List (Nat × Copy)}
    (hpool : s.pool.Inv l) {t : Tid} {k : Nat} {c : Copy}
    (hcall : s.pool.call t = some (.retChunk (some (k, c)))) :
    c.serial = k ∧ c ∈ copiesOf s.submitted := by
  have hreturned : (k, c) ∈ s.pool.queue.returned := hpool.ok t _ hcall
  have hget : s.pool.queue.pushed[k]? = some c := (hpool.returned_data _ hreturned).2
  have hlt : k < s.pool.queue.pushed.length := (List.getElem?_eq_some_iff.1 hget).1
  have hcopies : (copiesOf s.submitted)[k]? = some c := by
    rw [← h.content, List.getElem?_append_left hlt, hget]
  exact ⟨(numbered_copiesOf _).number_getElem hcopies, List.mem_of_getElem? hcopies⟩

/-! ## Transitions -/

/-- A move of the main thread that neither makes nor releases a copy. -/
theorem Delivery.mainMove (h : Delivery s) {m : MainPc} {p : Pool Tid Copy} {x : Option Tid}
    {k : Bool} {a : Option Nat} {r : List (BitVec 32)} (hqueue : p.queue = s.pool.queue)
    (hsend : p.call .send = s.pool.call .send)
    (hpending : ((p.call .main).bind Call.pending).toList = s.pending)
    (hhand : ticketOf (p.call .main) ++ (m.copy.map Copy.serial).toList = s.mainHand)
    (hcopy : ∀ c, m.copy = some c → c ∈ copiesOf s.submitted)
    (hcleared : a = s.clearedAt ∨ a = some s.passed.length) :
    Delivery { s with
      main := m, pool := p, mtx := x, keepsending := k, clearedAt := a, results := r } := by
  refine { h with content := ?_, ledger := ?_, mainCopy := hcopy, passedLe := ?_,
                  cleared := ?_ }
  · simpa only [hqueue, State.pending, hpending] using h.content
  · simpa only [hqueue, State.threadHand, hsend, State.mainHand, hhand] using h.ledger
  · simpa only [hqueue] using h.passedLe
  · intro m' hm'
    rcases hcleared with rfl | rfl
    · exact h.cleared m' hm'
    · cases hm'
      have hahead : s.thread.ahead ≤ 1 := by cases s.thread <;> simp [ThreadPc.ahead]
      show s.passed.length + s.thread.ahead ≤ s.passed.length + 1
      omega

/-- A move of the send thread that neither passes nor releases a copy. -/
theorem Delivery.threadMove (h : Delivery s) {m : ThreadPc} {p : Pool Tid Copy} {r : Bool}
    (hqueue : p.queue = s.pool.queue) (hmain : p.call .main = s.pool.call .main)
    (hhand : ticketOf (p.call .send) ++ (m.copy.map Copy.serial).toList = s.threadHand)
    (hcopy : ∀ c, m.copy = some c → c ∈ copiesOf s.submitted)
    (hunreleased : m ≠ .exited → s.thread ≠ .exited ∧ m.unreleased = s.thread.unreleased)
    (hunanswered : m.unanswered = s.thread.unanswered)
    (hbroken : s.thread.broken = true → m.broken = true)
    (hahead : s.clearedAt = none ∨ m.ahead ≤ s.thread.ahead) :
    Delivery { s with thread := m, pool := p, isrunning := r } := by
  refine { h with content := ?_, ledger := ?_, threadCopy := hcopy, passedLe := ?_,
                  passedLength := ?_, outcomesLength := ?_, outcomesOk := ?_, cleared := ?_ }
  · simpa only [hqueue, State.pending, hmain] using h.content
  · simpa only [hqueue, State.mainHand, hmain, State.threadHand, hhand] using h.ledger
  · simpa only [hqueue] using h.passedLe
  · intro halive
    rcases hunreleased halive with ⟨hbefore, hcount⟩
    rw [hcount]
    exact h.passedLength hbefore
  · rw [hunanswered]
    exact h.outcomesLength
  · rcases h.outcomesOk with hall | ⟨hseen, hlast⟩
    · exact Or.inl hall
    · exact Or.inr ⟨hbroken hseen, hlast⟩
  · intro n hn
    rcases hahead with hnone | hle
    · rw [hnone] at hn
      cases hn
    · exact Nat.le_trans (Nat.add_le_add_left hle _) (h.cleared n hn)

/-- A section of a queue function. -/
theorem Delivery.queueSection (h : Delivery s) (hc : Control s) {l : List (Nat × Copy)}
    (hpool : s.pool.Inv l) {t : Tid} {addr : Nat} {wake : Option Tid} {c : Call Copy}
    {next : Queue Tid Copy × Call Copy} (hcall : s.pool.call t = some c)
    (hstep : c.step t addr wake s.pool.queue = some next) :
    Delivery { s with pool := s.pool.moved t next } := by
  have heffect := Call.effect (hpool.ok t c hcall) hstep
  -- what the history lemma says about this thread, seen from both threads
  have hticket : next.2.taken = c.taken → ∀ u,
      ticketOf ((s.pool.moved t next).call u) = ticketOf (s.pool.call u) := by
    intro htaken u
    by_cases hut : u = t
    · subst hut
      simp [Pool.moved, hcall, ticketOf, htaken]
    · simp [Pool.moved, hut]
  have hpending : next.2.pending = c.pending →
      (((s.pool.moved t next).call .main).bind Call.pending).toList = s.pending := by
    intro hsame
    unfold State.pending
    by_cases hmain : Tid.main = t
    · subst hmain
      simp [Pool.moved, hcall, hsame]
    · simp [Pool.moved, hmain]
  cases heffect with
  | quiet hpushed hpopped hsame htaken =>
      refine { h with content := ?_, ledger := ?_, passedLe := ?_ }
      · simpa only [State.pending, hpending hsame, Pool.moved_queue, hpushed] using h.content
      · simpa only [State.threadHand, State.mainHand, hticket htaken, Pool.moved_queue, hpopped]
          using h.ledger
      · simpa only [Pool.moved_queue, hpopped] using h.passedLe
  | link d hpushed hpopped hbefore hafter htaken =>
      have hmain : t = .main := by
        cases t with
        | main => rfl
        | send => simp [(hc.thread_inPop hcall).2.pending_of_popBlock] at hbefore
      subst hmain
      refine { h with content := ?_, ledger := ?_, passedLe := ?_ }
      · have hcontent := h.content
        simp only [State.pending, hcall, Option.bind_some, hbefore, Option.toList_some]
          at hcontent
        simpa [State.pending, Pool.moved, hpushed, hafter] using hcontent
      · simpa only [State.threadHand, State.mainHand, hticket htaken, Pool.moved_queue, hpopped]
          using h.ledger
      · simpa only [Pool.moved_queue, hpopped] using h.passedLe
  | detach hpushed hpopped hsame hbefore hafter =>
      rcases hc.hands_of_taken hcall hbefore hafter (fun _ hop => hop.step hstep) with
        ⟨hthread, hmain⟩
      have hledger := h.ledger
      rw [hthread, hmain] at hledger
      refine { h with content := ?_, ledger := ?_, passedLe := ?_ }
      · simpa only [State.pending, hpending hsame, Pool.moved_queue, hpushed] using h.content
      · -- the only ticket in a hand is the one just drawn
        have hhands : ∀ u, u ≠ t → ticketOf (s.pool.call u) = [] := by
          intro u hut
          cases u <;> simp_all [State.threadHand, State.mainHand]
        have hcopies : (s.thread.copy.map Copy.serial).toList = [] ∧
            (s.main.copy.map Copy.serial).toList = [] := by
          simp only [State.threadHand, State.mainHand, List.append_eq_nil_iff] at hthread hmain
          exact ⟨hthread.2, hmain.2⟩
        have hdrawn : ticketOf ((s.pool.moved t next).call .send) ++
            ticketOf ((s.pool.moved t next).call .main) = [s.pool.queue.popped] := by
          cases t with
          | send =>
              have hother := hhands .main (by simp)
              simpa [Pool.moved, ticketOf, hafter] using hother
          | main =>
              have hother := hhands .send (by simp)
              simpa [Pool.moved, ticketOf, hafter] using hother
        simp only [State.threadHand, State.mainHand, hcopies.1, hcopies.2, List.append_nil,
          hdrawn]
        show s.released.map Copy.serial ++ [s.pool.queue.popped] = List.range next.1.popped
        rw [hpopped, List.range_succ, ← hledger]
        simp
      · show s.passed.length ≤ next.1.popped
        have := h.passedLe
        omega

/-- Waking up for no reason delivers and loses nothing. -/
theorem Delivery.spurious (h : Delivery s) {t : Tid} {c : Call Copy} {q : Queue Tid Copy}
    (hwake : s.pool.queue.spurious t c = some q) :
    Delivery { s with pool := { s.pool with queue := q } } := by
  have hsame : q.toNodeList = s.pool.queue.toNodeList := by
    cases c <;> simp only [Queue.spurious, reduceCtorEq] at hwake
    all_goals
      rcases Option.map_eq_some_iff.1 hwake with ⟨cond, -, rfl⟩
      rfl
  refine { h with content := ?_, ledger := ?_, passedLe := ?_ }
  · show q.pushed ++ s.pending = _
    rw [hsame]
    exact h.content
  · show s.released.map Copy.serial ++ (s.threadHand ++ s.mainHand) = List.range q.popped
    rw [hsame]
    exact h.ledger
  · show s.passed.length ≤ q.popped
    rw [hsame]
    exact h.passedLe

/-- The copy the send thread is about to pass is the next one. -/
theorem Delivery.serial_of_got (h : Delivery s) (hc : Control s) {c : Copy}
    (hpc : s.thread = .got c) :
    c.serial = s.passed.length ∧ s.pool.queue.popped = s.passed.length + 1 := by
  have hcall : s.pool.call .send = none := by
    have hthread := hc.thread
    rw [hpc] at hthread
    exact hthread.eq_none
  have hledger := h.ledger
  rw [hc.mainHand_eq_nil (by simp [hpc])] at hledger
  simp only [State.threadHand, hcall, ticketOf_none, hpc, ThreadPc.copy, Option.map_some,
    Option.toList_some, List.nil_append, List.append_nil] at hledger
  rcases eq_length_of_append_singleton hledger with ⟨hserial, hpopped⟩
  have hlength := h.passedLength (by simp [hpc])
  simp only [hpc, ThreadPc.unreleased, Nat.add_zero] at hlength
  rw [List.length_map] at hserial hpopped
  exact ⟨by omega, by omega⟩

/-! ### The main thread -/

/-- The main thread stays outside the queue. -/
theorem Delivery.mainStays (h : Delivery s) (hpc : s.main.copy = none) {m : MainPc}
    (hm : m.copy = none) (r : List (BitVec 32)) :
    Delivery { s with main := m, results := r } := by
  refine h.mainMove rfl rfl rfl ?_ (by simp [hm]) (Or.inl rfl)
  simp [State.mainHand, hpc, hm]

/-- The main thread calls a queue function that links no copy. -/
theorem Delivery.mainEnters (h : Delivery s) (hcall : s.pool.call .main = none)
    (hpc : s.main.copy = none) {m : MainPc} (hm : m.copy = none) {op : QueueOp Copy}
    (hop : op.entry.pending = none) {x : Option Tid} {k : Bool} {a : Option Nat}
    (hcleared : a = s.clearedAt ∨ a = some s.passed.length) :
    Delivery { s with
      main := m, pool := s.pool.entered .main op, mtx := x, keepsending := k
      clearedAt := a } := by
  refine h.mainMove rfl (by simp) ?_ ?_ (by simp [hm]) hcleared
  · simp [State.pending, hcall, Pool.entered, hop]
  · simp [State.mainHand, hcall, hpc, hm]

/-- A queue function returns to the main thread, without a chunk. -/
theorem Delivery.mainLeaves (h : Delivery s) {c : Call Copy}
    (hcall : s.pool.call .main = some c) (hpending : c.pending = none) (htaken : c.taken = none)
    (hpc : s.main.copy = none) {m : MainPc} (hm : m.copy = none) (x : Option Tid)
    (r : List (BitVec 32)) :
    Delivery { s with main := m, pool := s.pool.left .main, mtx := x, results := r } := by
  refine h.mainMove rfl (by simp) ?_ ?_ (by simp [hm]) (Or.inl rfl)
  · simp [State.pending, hcall, hpending]
  · simp [State.mainHand, hcall, hpc, hm, htaken]

/-- {lit}`queue_pop_noblock` returns a chunk to {lit}`queue_destroy`. -/
theorem Delivery.drainChunk (h : Delivery s) {l : List (Nat × Copy)} (hpool : s.pool.Inv l)
    {k : Nat} {c : Copy} (hpc : s.main = .draining)
    (hcall : s.pool.call .main = some (.retChunk (some (k, c)))) :
    Delivery { s with main := .drainRelease c, pool := s.pool.left .main } := by
  rcases h.serial_of_returned hpool hcall with ⟨hserial, hmem⟩
  refine h.mainMove rfl (by simp) ?_ ?_ ?_ (Or.inl rfl)
  · simp [State.pending, hcall, Call.pending]
  · simp [State.mainHand, hcall, hpc, MainPc.copy, Call.taken, hserial]
  · rintro c' ⟨⟩
    exact hmem

/-- {lit}`iemnet__sender_send` makes a copy. -/
theorem Delivery.sendCopy (h : Delivery s) {src chunk : Chunk} {mem : Bool}
    (hpc : s.main = .sendCheck (some src)) (hcopy : chunkCreateChunk mem (some src) = some chunk)
    (hcall : s.pool.call .main = none) :
    Delivery { s with
      submitted := s.submitted ++ [src]
      main := .pushing (some ⟨s.submitted.length, chunk⟩)
      pool := s.pool.entered .main (.push (some ⟨s.submitted.length, chunk⟩)) } := by
  have hnew : copyOf s.submitted.length src = ⟨s.submitted.length, chunk⟩ :=
    (copyOf_of_chunkCreateChunk hcopy).symm
  have hmore : ∀ c, c ∈ copiesOf s.submitted → c ∈ copiesOf (s.submitted ++ [src]) := by
    intro c hmem
    rw [copiesOf_append_singleton]
    exact List.mem_append_left _ hmem
  refine { h with content := ?_, ledger := ?_, threadCopy := ?_, mainCopy := ?_,
                  releasedMem := ?_, passedMem := ?_ }
  · have hcontent := h.content
    rw [State.pending, hcall] at hcontent
    simpa [State.pending, Pool.entered, QueueOp.entry, Call.pending,
      copiesOf_append_singleton, hnew] using hcontent
  · simpa [State.threadHand, State.mainHand, hcall, hpc, MainPc.copy] using h.ledger
  · exact fun c hcopy => hmore c (h.threadCopy c hcopy)
  · simp [MainPc.copy]
  · exact fun c hmem => hmore c (h.releasedMem c hmem)
  · exact fun c hmem => hmore c (h.passedMem c hmem)

/-- A released copy is one that was made. -/
theorem Delivery.released_append (h : Delivery s) {c : Copy} (hc : c ∈ copiesOf s.submitted) :
    ∀ c' ∈ s.released ++ [c], c' ∈ copiesOf s.submitted := by
  intro c' hc'
  rcases List.mem_append.1 hc' with hold | hnew
  · exact h.releasedMem c' hold
  · rwa [List.mem_singleton.1 hnew]

/-- {lit}`queue_destroy` destroys the chunk it has got. -/
theorem Delivery.drainRelease (h : Delivery s) (hc : Control s) {c : Copy}
    (hpc : s.main = .drainRelease c) (hcall : s.pool.call .main = none) :
    Delivery { s with
      released := s.released ++ [c], main := .draining
      pool := s.pool.entered .main .popNoblock } := by
  have hexited : s.thread = .exited := hc.late (by rw [hpc]; rfl)
  refine { h with content := ?_, ledger := ?_, mainCopy := ?_, releasedMem := ?_,
                  passedLength := ?_ }
  · have hcontent := h.content
    rw [State.pending, hcall] at hcontent
    simpa [State.pending, Pool.entered, QueueOp.entry, Call.pending] using hcontent
  · have hledger := h.ledger
    have hhand : State.threadHand s = [] := hc.threadHand_eq_nil hexited
    rw [hhand] at hledger
    simp only [State.threadHand, List.append_eq_nil_iff] at hhand
    simpa [State.threadHand, State.mainHand, hcall, hpc, MainPc.copy, hhand.1, hhand.2]
      using hledger
  · simp [MainPc.copy]
  · exact h.released_append (h.mainCopy c (by rw [hpc]; rfl))
  · exact fun halive => absurd hexited halive

/-! ### The send thread -/

/-- The send thread calls {lit}`queue_pop_block`. -/
theorem Delivery.threadEnters (h : Delivery s) (hc : Control s) (hpc : s.thread = .loopTest)
    (hkeep : s.keepsending = true) (hcall : s.pool.call .send = none) :
    Delivery { s with thread := .inPop, pool := s.pool.entered .send .popBlock } := by
  have hcleared : s.clearedAt = none := by
    rw [hc.cleared, ← hc.keep, hkeep]
  refine h.threadMove rfl (by simp) ?_ (by simp [ThreadPc.copy]) ?_ ?_ ?_ (Or.inl hcleared)
  · simp [State.threadHand, hcall, hpc, ThreadPc.copy]
  · simp [hpc, ThreadPc.unreleased]
  · simp [hpc, ThreadPc.unanswered]
  · simp [hpc, ThreadPc.broken]

/-- The send thread ends. -/
theorem Delivery.threadExits (h : Delivery s) (hpc : s.thread = .loopTest ∨ s.thread = .brokenLock)
    (hcall : s.pool.call .send = none) :
    Delivery { s with isrunning := false, thread := .exited } := by
  refine h.threadMove rfl rfl ?_ (by simp [ThreadPc.copy]) ?_ ?_ ?_ (Or.inr ?_)
  · rcases hpc with hpc | hpc <;> simp [State.threadHand, hcall, hpc, ThreadPc.copy]
  · exact fun halive => absurd rfl halive
  · rcases hpc with hpc | hpc <;> simp [hpc, ThreadPc.unanswered]
  · simp [ThreadPc.broken]
  · simp [ThreadPc.ahead]

/-- {lit}`queue_pop_block` returns {lit}`NULL`. -/
theorem Delivery.popNothing (h : Delivery s) (hc : Control s)
    (hcall : s.pool.call .send = some (.retChunk none)) :
    Delivery { s with thread := .loopTest, pool := s.pool.left .send } := by
  have hpc := (hc.thread_inPop hcall).1
  refine h.threadMove rfl (by simp) ?_ (by simp [ThreadPc.copy]) ?_ ?_ ?_ (Or.inr ?_)
  · simp [State.threadHand, hcall, hpc, ThreadPc.copy, Call.taken]
  · simp [hpc, ThreadPc.unreleased]
  · simp [hpc, ThreadPc.unanswered]
  · simp [hpc, ThreadPc.broken]
  · simp [ThreadPc.ahead]

/-- {lit}`queue_pop_block` returns a chunk. -/
theorem Delivery.popChunk (h : Delivery s) (hc : Control s) {l : List (Nat × Copy)}
    (hpool : s.pool.Inv l) {k : Nat} {c : Copy}
    (hcall : s.pool.call .send = some (.retChunk (some (k, c)))) :
    Delivery { s with thread := .got c, pool := s.pool.left .send } := by
  have hpc := (hc.thread_inPop hcall).1
  rcases h.serial_of_returned hpool hcall with ⟨hserial, hmem⟩
  refine h.threadMove rfl (by simp) ?_ ?_ ?_ ?_ ?_ (Or.inr ?_)
  · simp [State.threadHand, hcall, hpc, ThreadPc.copy, Call.taken, hserial]
  · rintro c' ⟨⟩
    exact hmem
  · simp [hpc, ThreadPc.unreleased]
  · simp [hpc, ThreadPc.unanswered]
  · simp [hpc, ThreadPc.broken]
  · simp [hpc, ThreadPc.ahead]

/-- The send function is called: its chunk is the next one. -/
theorem Delivery.passChunk (h : Delivery s) (hc : Control s) {c : Copy} (hpc : s.thread = .got c)
    (hcall : s.pool.call .send = none) :
    Delivery { s with passed := s.passed ++ [c], thread := .sending c } := by
  rcases h.serial_of_got hc hpc with ⟨hserial, hpopped⟩
  refine { h with ledger := ?_, threadCopy := ?_, passedMem := ?_, passedNumbered := ?_,
                  passedLe := ?_, passedLength := ?_, outcomesLength := ?_,
                  outcomesOk := ?_, cleared := ?_ }
  · simpa [State.threadHand, State.mainHand, hcall, hpc, ThreadPc.copy] using h.ledger
  · simpa [hpc, ThreadPc.copy] using h.threadCopy
  · intro c' hc'
    rcases List.mem_append.1 hc' with hold | hnew
    · exact h.passedMem c' hold
    · rw [List.mem_singleton.1 hnew]
      exact h.threadCopy c (by rw [hpc]; rfl)
  · exact h.passedNumbered.append_singleton hserial
  · simp [hpopped]
  · simpa [hpc, ThreadPc.unreleased] using h.passedLength
  · simpa [hpc, ThreadPc.unanswered] using h.outcomesLength
  · simpa [hpc, ThreadPc.broken] using h.outcomesOk
  · intro m hm
    have := h.cleared m hm
    rw [hpc] at this
    simpa [ThreadPc.ahead] using this

/-- The send function answers. -/
theorem Delivery.sendReturns (h : Delivery s) (ok : Bool) {c : Copy} (hpc : s.thread = .sending c)
    (hcall : s.pool.call .send = none) :
    Delivery { s with outcomes := s.outcomes ++ [ok], thread := .sent ok c } := by
  refine { h with ledger := ?_, threadCopy := ?_, passedLength := ?_,
                  outcomesLength := ?_, outcomesOk := ?_, cleared := ?_ }
  · simpa [State.threadHand, State.mainHand, hcall, hpc, ThreadPc.copy] using h.ledger
  · simpa [hpc, ThreadPc.copy] using h.threadCopy
  · simpa [hpc, ThreadPc.unreleased] using h.passedLength
  · simpa [hpc, ThreadPc.unanswered] using h.outcomesLength
  · have hall : false ∉ s.outcomes := by simpa [hpc, ThreadPc.broken] using h.outcomesOk
    cases ok with
    | true => exact Or.inl (by simpa using hall)
    | false => exact Or.inr ⟨rfl, s.outcomes, rfl, hall⟩
  · simpa [hpc, ThreadPc.ahead] using h.cleared

/-- The send thread destroys the chunk. -/
theorem Delivery.release (h : Delivery s) (hc : Control s) (ok : Bool) {c : Copy}
    (hpc : s.thread = .sent ok c) (hcall : s.pool.call .send = none) :
    Delivery { s with
      released := s.released ++ [c]
      thread := if ok then .loopTest else .brokenLock } := by
  refine { h with ledger := ?_, threadCopy := ?_, releasedMem := ?_, passedLength := ?_,
                  outcomesLength := ?_, outcomesOk := ?_, cleared := ?_ }
  · have hledger := h.ledger
    rw [hc.mainHand_eq_nil (by simp [hpc])] at hledger
    have hmain : State.mainHand s = [] := hc.mainHand_eq_nil (by simp [hpc])
    simp only [State.mainHand, List.append_eq_nil_iff] at hmain
    cases ok <;>
      simpa [State.threadHand, State.mainHand, hcall, hpc, ThreadPc.copy, hmain.1, hmain.2]
        using hledger
  · cases ok <;> simp [ThreadPc.copy]
  · exact h.released_append (h.threadCopy c (by rw [hpc]; rfl))
  · intro _
    have hlength := h.passedLength (by simp [hpc])
    cases ok <;> simpa [hpc, ThreadPc.unreleased] using hlength
  · have hlength := h.outcomesLength
    cases ok <;> simpa [hpc, ThreadPc.unanswered] using hlength
  · have houtcomes := h.outcomesOk
    cases ok <;> simpa [hpc, ThreadPc.broken] using houtcomes
  · have hcleared := h.cleared
    cases ok <;> simpa [hpc, ThreadPc.ahead] using hcleared

/-- Every transition keeps the delivery invariant. -/
theorem Delivery.transition (h : Delivery s) (hc : Control s) {l : List (Nat × Copy)}
    (hpool : s.pool.Inv l) {a : Action} (htr : Transition s a s') : Delivery s' := by
  cases htr with
  | queueSection t ch c next hcall hstep => exact h.queueSection hc hpool hcall hstep
  | spurious t c q hcall hwake => exact h.spurious hwake
  | loopEnter hpc hmtx hkeep hcall => exact h.threadEnters hc hpc hkeep hcall
  | loopExit hpc hmtx hkeep hcall => exact h.threadExits (Or.inl hpc) hcall
  | brokenExit hpc hmtx hcall => exact h.threadExits (Or.inr hpc) hcall
  | popNothing hcall => exact h.popNothing hc hcall
  | popChunk k c hcall => exact h.popChunk hc hpool hcall
  | passChunk c hpc hcall => exact h.passChunk hc hpc hcall
  | sendReturns ok c hpc hcall => exact h.sendReturns ok hpc hcall
  | release ok c hpc hcall => exact h.release hc ok hpc hcall
  | sendCopy src chunk hpc hmtx hrun hcopy hcall => exact h.sendCopy hpc hcopy hcall
  | drainChunk k c hpc hcall => exact h.drainChunk hpool hpc hcall
  | drainRelease c hpc hcall => exact h.drainRelease hc hpc hcall
  | callSend c hpc => exact h.mainStays (by rw [hpc]; rfl) rfl s.results
  | callDestroy hpc => exact h.mainStays (by rw [hpc]; rfl) rfl s.results
  | sendRefused c hpc => exact h.mainStays (by rw [hpc]; rfl) rfl _
  | destroyRefused hpc => exact h.mainStays (by rw [hpc]; rfl) rfl s.results
  | sendNothing c hpc hmtx hrun hcall =>
      exact h.mainEnters hcall (by rw [hpc]; rfl) rfl rfl (Or.inl rfl)
  | destroyWait hpc hmtx hkeep hrun hcall =>
      exact h.mainEnters hcall (by rw [hpc]; rfl) rfl rfl (Or.inr rfl)
  | destroyGone hpc hmtx hkeep hrun hcall =>
      exact h.mainEnters hcall (by rw [hpc]; rfl) rfl rfl (Or.inr rfl)
  | relockWait hpc hmtx hrun hcall =>
      exact h.mainEnters hcall (by rw [hpc]; rfl) rfl rfl (Or.inl rfl)
  | relockGone hpc hmtx hrun hcall =>
      exact h.mainEnters hcall (by rw [hpc]; rfl) rfl rfl (Or.inl rfl)
  | join hpc hexited hcall =>
      exact h.mainEnters hcall (by rw [hpc]; rfl) rfl rfl (Or.inl rfl)
  | pushReturn data size hpc hcall =>
      exact h.mainLeaves hcall rfl rfl (by rw [hpc]; rfl) rfl s.mtx _
  | finishReturn hpc hcall =>
      exact h.mainLeaves hcall rfl rfl (by rw [hpc]; rfl) rfl none s.results
  | finish2Return hpc hcall =>
      exact h.mainLeaves hcall rfl rfl (by rw [hpc]; rfl) rfl s.mtx s.results
  | drainEmpty hpc hcall =>
      exact h.mainLeaves hcall rfl rfl (by rw [hpc]; rfl) rfl s.mtx s.results
  | finish3Return hpc hcall =>
      have hleft := h.mainLeaves hcall rfl rfl (by rw [hpc]; rfl) (m := .joining) rfl s.mtx
        s.results
      exact hleft.mainEnters (call_left_self s.pool .main) rfl rfl rfl (Or.inl rfl)

/-! ## The end of the drain loop -/

/-- {lit}`queue_destroy` has found the queue empty. -/
def State.FoundEmpty (s : State) : Prop :=
  s.main = .destroyed ∨ s.main = .draining ∧
    (s.pool.call .main = some (.popDone none) ∨ s.pool.call .main = some (.retChunk none))

/-- What has been found empty is empty: every chunk has been popped. -/
def Drained (s : State) : Prop :=
  s.FoundEmpty → s.pool.queue.popped = s.pool.queue.pushed.length

/-- Work on the queue keeps what was drained. -/
theorem Drained.queueSection (h : Drained s) (hc : Control s) {l : List (Nat × Copy)}
    (hpool : s.pool.Inv l) {t : Tid} {addr : Nat} {wake : Option Tid} {c : Call Copy}
    {next : Queue Tid Copy × Call Copy} (hcall : s.pool.call t = some c)
    (hstep : c.step t addr wake s.pool.queue = some next) :
    Drained { s with pool := s.pool.moved t next } := by
  intro hfound
  have hexited : s.thread = .exited := by
    rcases hfound with hpc | ⟨hpc, -⟩
    · exact hc.late (by rw [show s.main = .destroyed from hpc]; rfl)
    · exact hc.late (by rw [show s.main = .draining from hpc]; rfl)
  cases t with
  | send =>
      have hpc := (hc.thread_inPop hcall).1
      simp [hexited] at hpc
  | main =>
      have hmain := hc.main
      rw [hcall] at hmain
      rcases hfound with hpc | ⟨hpc, hnothing⟩
      · rw [show s.main = .destroyed from hpc] at hmain
        exact hmain.elim
      · have hpc : s.main = .draining := hpc
        rw [hpc] at hmain
        have hnext : next.2 = .popDone none ∨ next.2 = .retChunk none := by
          simpa [Pool.moved] using hnothing
        rcases Call.step_nothing (hpool.ok .main c hcall) hmain hstep hnext with
          ⟨hpushed, hpopped, hhead | rfl⟩
        · show next.1.popped = next.1.pushed.length
          have hnil : l = [] := hpool.shape.head_eq_none_iff.1 hhead
          have hcontent := hpool.shape.content
          rw [hnil, List.map_nil, List.drop_eq_nil_iff] at hcontent
          rw [hpushed, hpopped]
          exact Nat.le_antisymm hpool.shape.popped_le hcontent
        · show next.1.popped = next.1.pushed.length
          rw [hpushed, hpopped]
          exact h (Or.inr ⟨hpc, Or.inl hcall⟩)

/-- Every transition keeps what was drained. -/
theorem Drained.transition (h : Drained s) (hc : Control s) {l : List (Nat × Copy)}
    (hpool : s.pool.Inv l) {a : Action} (htr : Transition s a s') : Drained s' := by
  cases htr with
  | queueSection t ch c next hcall hstep => exact h.queueSection hc hpool hcall hstep
  | spurious t c q hcall hwake =>
      have hsame : q.popped = s.pool.queue.popped ∧ q.pushed = s.pool.queue.pushed := by
        cases c <;> simp only [Queue.spurious, reduceCtorEq] at hwake
        all_goals
          rcases Option.map_eq_some_iff.1 hwake with ⟨cond, -, rfl⟩
          exact ⟨rfl, rfl⟩
      intro hfound
      show q.popped = q.pushed.length
      rw [hsame.1, hsame.2]
      exact h hfound
  | drainEmpty hpc hcall =>
      intro _
      exact h (Or.inr ⟨hpc, Or.inr hcall⟩)
  | loopEnter | popNothing | popChunk =>
      intro hfound
      exact h (by simpa [State.FoundEmpty] using hfound)
  | loopExit | passChunk | sendReturns | release | brokenExit => exact h
  | finish3Return | drainRelease =>
      rintro (hpc | ⟨-, hnothing⟩)
      · contradiction
      · simp [Pool.entered, QueueOp.entry] at hnothing
  | _ => rintro (hpc | ⟨hpc, -⟩) <;> contradiction

/-! ## Runs -/

variable {ok : State → Action → Prop}

/-- Both invariants hold in every reachable state. -/
theorem delivery (h : senderMachine.Reach ok s) : Delivery s ∧ Drained s := by
  refine Machine.Reach.invariant (I := fun s : State => Delivery s ∧ Drained s) ?_ ?_ h
  · rintro s rfl
    refine ⟨delivery_create, ?_⟩
    rintro (hpc | ⟨hpc, -⟩) <;> cases hpc
  · intro s a s' hreach hinv _ hstep
    rcases Pool.exists_inv (reachable_pool hreach) with ⟨l, hpool⟩
    have htr := State.transition hstep
    exact ⟨hinv.1.transition (control hreach) hpool htr,
      hinv.2.transition (control hreach) hpool htr⟩

/-- The copies pushed are the first of the copies made. -/
theorem Delivery.pushed_prefix (h : Delivery s) :
    s.pool.queue.pushed <+: copiesOf s.submitted := by
  rw [← h.content]
  exact List.prefix_append _ _

/-- The copies passed to the send function are the first of the copies pushed. -/
theorem Delivery.passed_prefix (h : Delivery s) {l : List (Nat × Copy)}
    (hpool : s.pool.Inv l) : s.passed <+: s.pool.queue.pushed := by
  have hle : s.passed.length ≤ s.pool.queue.pushed.length :=
    Nat.le_trans h.passedLe hpool.shape.popped_le
  rw [(numbered_copiesOf _).eq_take h.passedMem h.passedNumbered]
  rw [List.prefix_iff_eq_take.1 h.pushed_prefix]
  exact List.take_prefix_take_left hle

/-- When {lit}`iemnet__sender_destroy` has returned, every copy made has been pushed. -/
theorem Delivery.pushed_eq (h : Delivery s) (hc : Control s) (hdestroyed : s.main = .destroyed) :
    s.pool.queue.pushed = copiesOf s.submitted := by
  have hcall : s.pool.call .main = none := by
    have hmain := hc.main
    rw [hdestroyed] at hmain
    exact hmain.eq_none
  simpa [State.pending, hcall] using h.content

/-- When {lit}`iemnet__sender_destroy` has returned, every copy made has been released. -/
theorem Delivery.released_eq (h : Delivery s) (hdrained : Drained s) (hc : Control s)
    (hdestroyed : s.main = .destroyed) : s.released = copiesOf s.submitted := by
  have hexited : s.thread = .exited := hc.late (by rw [hdestroyed]; rfl)
  have hcall : s.pool.call .main = none := by
    have hmain := hc.main
    rw [hdestroyed] at hmain
    exact hmain.eq_none
  have hpopped : s.pool.queue.popped = s.pool.queue.pushed.length := hdrained (Or.inl hdestroyed)
  have hledger : s.released.map Copy.serial = List.range s.pool.queue.popped := by
    have hledger := h.ledger
    rw [hc.threadHand_eq_nil hexited] at hledger
    simpa [State.mainHand, hcall, hdestroyed, MainPc.copy] using hledger
  have hlength : s.released.length = s.pool.queue.popped := by
    simpa using congrArg List.length hledger
  have hnumbered : Numbered Copy.serial s.released := by
    rw [Numbered, hledger, hlength]
  rw [(numbered_copiesOf _).eq_take h.releasedMem hnumbered, hlength, hpopped,
    h.pushed_eq hc hdestroyed, List.take_length]

/-- The first failed call is the last one. -/
theorem Delivery.length_le_of_failed (h : Delivery s) {i : Nat}
    (hfailed : s.outcomes[i]? = some false) : s.passed.length ≤ i + 1 := by
  rcases h.outcomesOk with hnone | ⟨hbroken, l, houtcomes, hl⟩
  · exact absurd (List.mem_of_getElem? hfailed) hnone
  · have hunanswered : s.thread.unanswered = 0 := by
      cases hpc : s.thread <;> simp_all [ThreadPc.broken, ThreadPc.unanswered]
    have hlength := h.outcomesLength
    have hi : l.length ≤ i := by
      by_contra hlt
      rw [houtcomes, List.getElem?_append_left (by omega)] at hfailed
      exact hl (List.mem_of_getElem? hfailed)
    rw [houtcomes, hunanswered, List.length_append, List.length_singleton] at hlength
    omega

end

/-- In every state reached by the send thread and a main thread that sends any
chunks and then destroys the sender, whatever the send function returns: the copies
passed to the send function are the first of the copies pushed, in call order, each
at most once and with the payload, address and port submitted; nothing is passed
after a failed call; at most one call begins after {lit}`keepsending` was cleared;
and once {lit}`iemnet__sender_destroy` has returned the copies released are exactly
those made, which are those pushed, each once. -/
theorem sender_delivery {s : State} (h : senderMachine.Reachable s) :
    (s.passed <+: s.pool.queue.pushed ∧ s.pool.queue.pushed <+: copiesOf s.submitted ∧
      (s.passed.map Copy.serial).Nodup) ∧
    (∀ i, s.outcomes[i]? = some false → s.passed.length ≤ i + 1) ∧
    (∀ m, s.clearedAt = some m → s.passed.length ≤ m + 1) ∧
    (s.main = .destroyed → s.released = s.pool.queue.pushed ∧
      s.released = copiesOf s.submitted ∧ (s.released.map Copy.serial).Nodup) := by
  rcases delivery h with ⟨hdelivery, hdrained⟩
  rcases Pool.exists_inv (reachable_pool h) with ⟨l, hpool⟩
  refine ⟨⟨hdelivery.passed_prefix hpool, hdelivery.pushed_prefix,
    hdelivery.passedNumbered.nodup⟩, fun i => hdelivery.length_le_of_failed, ?_, ?_⟩
  · intro m hm
    exact Nat.le_trans (Nat.le_add_right _ _) (hdelivery.cleared m hm)
  · intro hdestroyed
    have hreleased := hdelivery.released_eq hdrained (control h) hdestroyed
    refine ⟨hreleased.trans (hdelivery.pushed_eq (control h) hdestroyed).symm, hreleased, ?_⟩
    rw [hreleased]
    exact (numbered_copiesOf _).nodup

/-- The sections of thread {lit}`t` when nobody waits and every allocation
succeeds. -/
def quietSteps (t : Tid) (n : Nat) : List Action :=
  List.replicate n (.step t ⟨true, 0, none, true⟩)

/-- One chunk is sent, delivered and released, then the sender is destroyed. -/
def sendThenDestroy : List Action :=
  [.callSend (some ⟨[5#8, 6#8], 0, 0#16, 2⟩)] ++ quietSteps .main 5 ++ quietSteps .send 9 ++
    [.callDestroy] ++ quietSteps .main 4 ++ quietSteps .send 1 ++ quietSteps .main 12

/-- A chunk is sent and the sender destroyed: one copy is passed to the kernel, and just that
copy is released. -/
theorem sender_delivery_run :
    ∃ s, senderMachine.run create sendThenDestroy = some s ∧ s.main = .destroyed ∧
      s.passed.map (fun c => c.chunk.data) = [[5#8, 6#8]] ∧
      s.released.map (fun c => c.chunk.data) = [[5#8, 6#8]] := by
  have hrun : senderMachine.run create sendThenDestroy = some _ := rfl
  rcases sender_delivery (Machine.reach_of_run rfl hrun) with ⟨-, -, -, hreleased⟩
  refine ⟨_, hrun, rfl, rfl, ?_⟩
  rw [(hreleased rfl).2.1]
  rfl

end Sender
end Iemnet
