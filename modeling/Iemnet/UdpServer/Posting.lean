import Iemnet.Foundations.Ownership
import Iemnet.Sender.Memory
import Iemnet.UdpServer.Frame

/-!
# The server and the senders of its clients

A message that sends makes one chunk, addresses it to one client after the other and calls
{lit}`iemnet__sender_send` for each; the copies wait in the queues of the senders while the
chunk is addressed anew.  Chunks are cells of a heap here, so that whoever writes to a chunk
changes what everybody else reads there, and what a send thread passes to the kernel is what
it finds at the address of its copy.

Main results:

- Theorem {lit}`Mail.kept_work`: every copy keeps a cell of its own.
- Theorem {lit}`reach_posted`: the requests of every sender are those of the copies it has
  passed on, and these are copies of chunks the server has handed over.
-/

namespace Iemnet
namespace UdpServer

open Pd Foundations Sender

/-- The chunks, and the senders of all clients by the serials of their records. -/
structure Mail where
  heap : Nat → Option Chunk
  /-- The chunk that the message has made. -/
  chunk : Option Nat
  senders : Nat → Sender.State
  /-- The sender that the main thread has turned to last. -/
  current : Option Nat
  /-- The address of each copy that a client's sender has made. -/
  places : Nat × Copy → Nat
  /-- The calls of {lit}`iemnet__sender_send`. -/
  calls : List (Nat × Chunk)
  /-- What the send threads have asked the kernel for. -/
  requests : List (Nat × SendRequest)

/-- What can happen to chunks and senders. -/
inductive Work
  /-- {lit}`iemnet__chunk_create_list` has made a chunk at address {lit}`p`. -/
  | create (p : Nat) (c : Chunk)
  /-- {lit}`udpserver_send_bytes` writes the address of a client into the chunk. -/
  | address (host : Int) (port : BitVec 16)
  /-- {lit}`udpserver_send_bytes` calls {lit}`iemnet__sender_send`. -/
  | send (id : Nat)
  /-- {lit}`iemnet__sender_destroy` is called. -/
  | close (id : Nat)
  /-- {lit}`iemnet__chunk_destroy` after the last client. -/
  | destroy
  /-- The main thread goes on in the sender it has called; a copy is made at address
  {lit}`q`. -/
  | main (q : Nat) (ch : Choice)
  /-- The send thread of a client goes on. -/
  | thread (id : Nat) (ch : Choice)
  /-- A thread leaves a condition wait although nobody signalled. -/
  | spurious (id : Nat) (t : Tid)

/-- The send threads and condition waits do not need the main thread. -/
def Work.background : Work → Bool
  | .thread _ _ => true
  | .spurious _ _ => true
  | _ => false

namespace Mail

/-- The main thread is in no function of a sender. -/
def Outside (m : Mail) : Prop :=
  ∀ id ∈ m.current, (m.senders id).main = .idle ∨ (m.senders id).main = .destroyed

instance (m : Mail) : Decidable m.Outside :=
  inferInstanceAs (Decidable (∀ id ∈ m.current, _))

/-- {lit}`iemnet__chunk_create_chunk` for the copy with the number {lit}`k`: the chunk is read
where the message has put it. -/
def copy (m : Mail) (id k q : Nat) : Option Mail :=
  match chunkCreateChunk true (m.chunk.bind m.heap), m.heap q with
  | some c, none =>
      some { m with
        heap := Function.update m.heap q (some c)
        places := Function.update m.places (id, ⟨k, c⟩) q }
  | _, _ => none

/-- {lit}`iemnet__sender_defaultsend` for a copy: it is read where it has been put. -/
def pass (m : Mail) (id : Nat) (c : Copy) : Mail :=
  { m with
    requests := m.requests ++
      (m.heap (m.places (id, c))).toList.map fun c => (id, defaultsendRequest c) }

/-- {lit}`iemnet__chunk_destroy` for a copy. -/
def free (m : Mail) (id : Nat) (c : Copy) : Mail :=
  { m with heap := Function.update m.heap (m.places (id, c)) none }

/-- One step of a sender with what it does to chunks. -/
def sender (m : Mail) (id q : Nat) (a : Action) : Option Mail :=
  ((m.senders id).step a).bind fun s' =>
    let s := m.senders id
    let m := { m with senders := Function.update m.senders id s' }
    let m := (s'.passed.drop s.passed.length).foldl (fun m c => m.pass id c) m
    let m := (s'.released.drop s.released.length).foldl (fun m c => m.free id c) m
    if s'.submitted.length = s.submitted.length then some m else m.copy id s.submitted.length q

/-- One step. -/
def work (m : Mail) : Work → Option Mail
  | .create p c =>
      if m.Outside ∧ m.chunk = none ∧ m.heap p = none then
        some { m with heap := Function.update m.heap p (some c), chunk := some p }
      else none
  | .address host port =>
      if m.Outside then
        m.chunk.bind fun p => (m.heap p).map fun c =>
          { m with heap := Function.update m.heap p (some { c with addr := host, port := port }) }
      else none
  | .send id =>
      if m.Outside then
        (m.chunk.bind m.heap).bind fun c =>
          { m with current := some id, calls := m.calls ++ [(id, c)] }.sender id 0
            (.callSend (some c))
      else none
  | .close id =>
      if m.Outside then { m with current := some id }.sender id 0 .callDestroy else none
  | .destroy =>
      if m.Outside then
        m.chunk.map fun p => { m with heap := Function.update m.heap p none, chunk := none }
      else none
  | .main q ch => m.current.bind fun id => m.sender id q (.step .main ch)
  | .thread id ch => m.sender id 0 (.step .send ch)
  | .spurious id t => m.sender id 0 (.spurious t)

/-- Several steps. -/
def run (m : Mail) : List Work → Option Mail
  | [] => some m
  | k :: burst => (m.work k).bind fun m => m.run burst

/-- What the send thread of a client has asked for, in order. -/
def requestsOf (m : Mail) (id : Nat) : List SendRequest :=
  m.requests.filterMap fun r => if r.1 = id then some r.2 else none

/-- No chunk is allocated, and every sender is new. -/
def empty : Mail where
  heap := fun _ => none
  chunk := none
  senders := fun _ => create
  current := none
  places := fun _ => 0
  calls := []
  requests := []

end Mail

/-- The server with its chunks and senders. -/
structure PostOffice where
  server : Server
  mail : Mail

/-- What can happen next. -/
inductive Event
  /-- Something that does not need the main thread. -/
  | work (k : Work)
  /-- A message to the server, or a call of one of its receivers, and everything that
  happens to chunks and senders in the meantime. -/
  | message (env : Env) (a : Input) (burst : List Work)

/-- The calls of {lit}`iemnet__sender_send` are those that the server has made, with the
results it has got, and the main thread is done with them. -/
structure Agrees (x : Server) (m : Mail) : Prop where
  calls : m.calls = x.sends.map fun e => (e.1.id, e.2.1)
  results : ∀ e ∈ x.sends, (m.senders e.1.id).results.map BitVec.toInt =
    x.sends.filterMap fun e' => if e'.1.id = e.1.id then some e'.2.2 else none
  outside : m.Outside
  chunk : m.chunk = none

instance (x : Server) (m : Mail) : Decidable (Agrees x m) :=
  decidable_of_iff (_ ∧ _ ∧ _ ∧ _)
    ⟨fun h => ⟨h.1, h.2.1, h.2.2.1, h.2.2.2⟩, fun h => ⟨h.calls, h.results, h.outside, h.chunk⟩⟩

/-- A message and what it makes the senders do are one step. -/
def PostOffice.step (w : PostOffice) : Event → Option PostOffice
  | .work k =>
      if k.background then (w.mail.work k).map fun m => { w with mail := m } else none
  | .message env a burst =>
      (w.server.step env a).bind fun x => (w.mail.run burst).bind fun m =>
        if Agrees x m then some ⟨x, m⟩ else none

end UdpServer

open UdpServer in
/-- A new server, with no chunk allocated and no sender used. -/
def postMachine : Foundations.Machine PostOffice Event where
  init w := udpserverMachine.init w.server ∧ w.mail = .empty
  step := PostOffice.step

namespace UdpServer

open Pd Foundations Sender

variable {m m' : Mail} {id q : Nat} {s s' : State} {a : Action} {k : Work}

namespace Mail

/-! ## Every copy keeps its cell -/

/-- The copies that have been made and not been released, with their clients. -/
def waiting (m : Mail) : Set (Nat × Copy) :=
  {i | (m.senders i.1).Unreleased i.2}

/-- The copies that wait have cells of their own, none of which is the chunk of the message;
the sender that has been called is about to copy that chunk; and each sender has got the
chunks it was called with, and asked the kernel for those it has passed on. -/
structure Kept (m : Mail) : Prop where
  reach : ∀ id, senderMachine.Reachable (m.senders id)
  owned : Owned m.heap m.places (fun i => i.2.chunk) m.waiting
  chunk : ∀ p ∈ m.chunk, m.heap p ≠ none ∧ p ∉ m.places '' m.waiting
  asked : ∀ id c, (m.senders id).main = .sendCheck c →
    m.current = some id ∧ c = m.chunk.bind m.heap
  calls : ∀ id c, c ∈ (m.senders id).submitted ∨ (m.senders id).main = .sendCheck (some c) →
    (id, c) ∈ m.calls
  requests : ∀ id, m.requestsOf id =
    (m.senders id).passed.map fun c => defaultsendRequest c.chunk

theorem kept_empty : Kept empty where
  reach _ := .start rfl
  owned := by
    refine (Owned.empty _ _ _).mono ?_
    rintro i ⟨hmem, -⟩
    simp [empty, create, copiesOf] at hmem
  chunk := by
    rintro p ⟨⟩
  asked := by
    rintro id c ⟨⟩
  calls := by simp [empty, create]
  requests _ := rfl

/-- Who waits after one sender has gone on. -/
theorem mem_waiting_update {i : Nat × Copy} {senders : Nat → State}
    (hi : (Function.update senders id s' i.1).Unreleased i.2) :
    (i.1 ≠ id ∧ (senders i.1).Unreleased i.2) ∨ (i.1 = id ∧ s'.Unreleased i.2) := by
  by_cases hid : i.1 = id
  · rw [hid, Function.update_self] at hi
    exact Or.inr ⟨hid, hi⟩
  · rw [Function.update_of_ne hid] at hi
    exact Or.inl ⟨hid, hi⟩

/-- One sender has gone on, and whatever has been written has left the chunk of the message
and the copies that wait alone. -/
theorem Kept.update (h : m.Kept) (hs : (m.senders id).step a = some s')
    (hcall : ∀ c, a = .callSend c → m.current = some id ∧ c = m.chunk.bind m.heap ∧
      ∀ c', c = some c' → (id, c') ∈ m.calls)
    {heap : Nat → Option Chunk} {places : Nat × Copy → Nat} {requests : List (Nat × SendRequest)}
    {live : Set (Nat × Copy)} (howned : Owned heap places (fun i => i.2.chunk) live)
    (hlive : ∀ i, (Function.update m.senders id s' i.1).Unreleased i.2 → i ∈ live)
    (hchunk : ∀ p ∈ m.chunk, heap p = m.heap p ∧ p ∉ places '' live)
    (hsubmitted : ∀ c ∈ s'.submitted,
      c ∈ (m.senders id).submitted ∨ (m.senders id).main = .sendCheck (some c))
    (hrequests : ∀ id', ({ m with requests := requests }).requestsOf id' =
      (Function.update m.senders id s' id').passed.map fun c => defaultsendRequest c.chunk) :
    Kept { m with
      senders := Function.update m.senders id s', heap := heap, places := places
      requests := requests } := by
  have hsame : m.chunk.bind heap = m.chunk.bind m.heap := by
    cases hp : m.chunk with
    | none => rfl
    | some p => exact (hchunk p hp).1
  constructor
  case reach =>
    intro id'
    show senderMachine.Reachable (Function.update m.senders id s' id')
    by_cases hid : id' = id
    · subst hid
      rw [Function.update_self]
      exact (h.reach id').next trivial hs
    · rw [Function.update_of_ne hid]
      exact h.reach id'
  case owned => exact howned.mono hlive
  case chunk =>
    intro p hp
    constructor
    · show heap p ≠ none
      rw [(hchunk p hp).1]
      exact (h.chunk p hp).1
    · rintro ⟨i, hi, heq⟩
      exact (hchunk p hp).2 ⟨i, hlive i hi, heq⟩
  case asked =>
    intro id' c hpc
    change (Function.update m.senders id s' id').main = _ at hpc
    show m.current = some id' ∧ c = m.chunk.bind heap
    rw [hsame]
    by_cases hid : id' = id
    · subst hid
      rw [Function.update_self] at hpc
      rcases asked_of_step hs hpc with hnew | hold
      · exact ⟨(hcall c hnew).1, (hcall c hnew).2.1⟩
      · exact h.asked id' c hold
    · rw [Function.update_of_ne hid] at hpc
      exact h.asked id' c hpc
  case calls =>
    intro id' c hc
    change c ∈ (Function.update m.senders id s' id').submitted ∨
      (Function.update m.senders id s' id').main = _ at hc
    by_cases hid : id' = id
    · subst hid
      rw [Function.update_self] at hc
      rcases hc with hmem | hpc
      · exact h.calls id' c (hsubmitted c hmem)
      · rcases asked_of_step hs hpc with hnew | hold
        · exact (hcall _ hnew).2.2 c rfl
        · exact h.calls id' c (Or.inr hold)
    · rw [Function.update_of_ne hid] at hc
      exact h.calls id' c hc
  case requests => exact hrequests

/-- Nothing has been asked for. -/
theorem Kept.requests_update (h : m.Kept) (hpassed : s'.passed = (m.senders id).passed)
    (id' : Nat) :
    m.requestsOf id' =
      (Function.update m.senders id s' id').passed.map fun c => defaultsendRequest c.chunk := by
  rw [h.requests id']
  by_cases hid : id' = id
  · subst hid
    rw [Function.update_self, hpassed]
  · rw [Function.update_of_ne hid]

/-- A copy has been asked for. -/
theorem Kept.requests_pass (h : m.Kept) {c : Copy}
    (hpassed : s'.passed = (m.senders id).passed ++ [c]) (id' : Nat) :
    ({ m with requests := m.requests ++ [(id, defaultsendRequest c.chunk)] }).requestsOf id' =
      (Function.update m.senders id s' id').passed.map fun c => defaultsendRequest c.chunk := by
  have hold := h.requests id'
  rw [requestsOf] at hold ⊢
  rw [List.filterMap_append, hold]
  by_cases hid : id' = id
  · subst hid
    rw [Function.update_self, hpassed, List.map_append]
    simp
  · rw [Function.update_of_ne hid]
    simp [Ne.symm hid]

/-- The copies that wait for other clients, or were not touched. -/
theorem live_update (hsubmitted : s'.submitted = (m.senders id).submitted)
    (hreleased : s'.released = (m.senders id).released) :
    ∀ i, (Function.update m.senders id s' i.1).Unreleased i.2 → i ∈ m.waiting := by
  rintro ⟨id', c⟩ hi
  rcases mem_waiting_update hi with ⟨-, hold⟩ | ⟨rfl, hmade, hnot⟩
  · exact hold
  · rw [hsubmitted] at hmade
    rw [hreleased] at hnot
    exact ⟨hmade, hnot⟩

/-- A copy is made in fresh memory, with the bytes of the chunk it is made of. -/
theorem copy_cases {k : Nat} (hm : m.copy id k q = some m') :
    ∃ c, chunkCreateChunk true (m.chunk.bind m.heap) = some c ∧ m.heap q = none ∧
      m' = { m with
        heap := Function.update m.heap q (some c)
        places := Function.update m.places (id, ⟨k, c⟩) q } := by
  unfold copy at hm
  split at hm
  · rename_i c hc hfree
    exact ⟨c, hc, hfree, (Option.some.inj hm).symm⟩
  · cases hm

/-- A step of a sender with what it does to chunks. -/
theorem kept_sender (h : m.Kept)
    (hcall : ∀ c, a = .callSend c → m.current = some id ∧ c = m.chunk.bind m.heap ∧
      ∀ c', c = some c' → (id, c') ∈ m.calls)
    (hm : m.sender id q a = some m') : m'.Kept := by
  rcases Option.bind_eq_some_iff.1 hm with ⟨s', hs, hrest⟩
  dsimp only at hrest
  cases handling_step (h.reach id) hs with
  | nothing hsubmitted hpassed hreleased =>
      rw [hpassed, hreleased, hsubmitted, List.drop_length, List.drop_length, if_pos rfl,
        Option.some_inj] at hrest
      subst hrest
      refine h.update hs hcall h.owned (live_update hsubmitted hreleased)
        (fun p hp => ⟨rfl, (h.chunk p hp).2⟩) ?_ (h.requests_update hpassed)
      exact fun c hc => Or.inl (hsubmitted ▸ hc)
  | copies src hpc hcopy hsubmitted hpassed hreleased =>
      have hasked := (h.asked id _ hpc).2
      have hlength : s'.submitted.length ≠ (m.senders id).submitted.length := by
        simp [hsubmitted]
      rw [hpassed, hreleased, List.drop_length, List.drop_length, if_neg hlength] at hrest
      rcases copy_cases hrest with ⟨c', hc', hfree, rfl⟩
      change chunkCreateChunk true (m.chunk.bind m.heap) = some c' at hc'
      rw [← hasked, hcopy, Option.some_inj] at hc'
      subst hc'
      have hcopyOf : (⟨(m.senders id).submitted.length, { src with family := afInet }⟩ : Copy) =
          copyOf (m.senders id).submitted.length src := rfl
      rw [hcopyOf]
      refine h.update hs hcall
        (h.owned.alloc hfree (id, copyOf (m.senders id).submitted.length src)) ?_ ?_ ?_
        (h.requests_update hpassed)
      · rintro ⟨id', c⟩ hi
        rcases mem_waiting_update hi with ⟨-, hold⟩ | ⟨rfl, hmade, hnot⟩
        · exact Or.inr hold
        · rw [hsubmitted, copiesOf_append_singleton, List.mem_append] at hmade
          rw [hreleased] at hnot
          rcases hmade with hmade | hnew
          · exact Or.inr ⟨hmade, hnot⟩
          · exact Or.inl (Prod.ext rfl (List.mem_singleton.1 hnew))
      · intro p hp
        rcases h.chunk p hp with ⟨halloc, hout⟩
        have hpq : p ≠ q := fun heq => halloc (heq ▸ hfree)
        refine ⟨Function.update_of_ne hpq .., ?_⟩
        rintro ⟨i, hi, heq⟩
        by_cases hnew : i = (id, copyOf (m.senders id).submitted.length src)
        · rw [hnew, Function.update_self] at heq
          exact hpq heq.symm
        · rw [Function.update_of_ne hnew] at heq
          exact hout ⟨i, hi.resolve_left hnew, heq⟩
      · intro c hc
        rw [hsubmitted, List.mem_append, List.mem_singleton] at hc
        exact hc.imp_right fun heq => by rw [heq, hpc]
  | passes c hlive hsubmitted hpassed hreleased =>
      have hstored : m.heap (m.places (id, c)) = some c.chunk := h.owned.stored (id, c) hlive
      rw [hpassed, hreleased, hsubmitted, List.drop_left, List.drop_length, if_pos rfl,
        Option.some_inj] at hrest
      simp only [List.foldl_cons, List.foldl_nil, pass, hstored, Option.toList_some,
        List.map_singleton] at hrest
      subst hrest
      refine h.update hs hcall h.owned (live_update hsubmitted hreleased)
        (fun p hp => ⟨rfl, (h.chunk p hp).2⟩) ?_ (h.requests_pass hpassed)
      exact fun c hc => Or.inl (hsubmitted ▸ hc)
  | releases c hlive hsubmitted hpassed hreleased =>
      rw [hpassed, hreleased, hsubmitted, List.drop_left, List.drop_length, if_pos rfl,
        Option.some_inj] at hrest
      simp only [List.foldl_cons, List.foldl_nil, free] at hrest
      subst hrest
      refine h.update hs hcall (h.owned.free (i := (id, c)) hlive) ?_ ?_ ?_
        (h.requests_update hpassed)
      · rintro ⟨id', c'⟩ hi
        rcases mem_waiting_update hi with ⟨hne, hold⟩ | ⟨rfl, hmade, hnot⟩
        · exact ⟨hold, fun heq => hne (congrArg Prod.fst heq)⟩
        · rw [hsubmitted] at hmade
          rw [hreleased, List.mem_append, not_or, List.mem_singleton] at hnot
          exact ⟨⟨hmade, hnot.1⟩, fun heq => hnot.2 (congrArg Prod.snd heq)⟩
      · intro p hp
        have hout := (h.chunk p hp).2
        refine ⟨Function.update_of_ne ?_ .., ?_⟩
        · exact fun heq => hout ⟨(id, c), hlive, heq.symm⟩
        · rintro ⟨i, hi, heq⟩
          exact hout ⟨i, hi.1, heq⟩
      · exact fun c hc => Or.inl (hsubmitted ▸ hc)

theorem calls_foldl {f : Mail → Copy → Mail} (hf : ∀ m c, (f m c).calls = m.calls)
    (l : List Copy) (m : Mail) : (l.foldl f m).calls = m.calls := by
  induction l generalizing m with
  | nil => rfl
  | cons c l ih => exact (ih (f m c)).trans (hf m c)

/-- A sender calls nobody. -/
theorem calls_sender (hm : m.sender id q a = some m') : m'.calls = m.calls := by
  rcases Option.bind_eq_some_iff.1 hm with ⟨s', -, hrest⟩
  have hfold : ∀ (l l' : List Copy) (m : Mail),
      (l'.foldl (fun m c => m.free id c) (l.foldl (fun m c => m.pass id c) m)).calls =
        m.calls := fun l l' m =>
    (calls_foldl (f := fun m c => m.free id c) (fun _ _ => rfl) l' _).trans
      (calls_foldl (f := fun m c => m.pass id c) (fun _ _ => rfl) l m)
  dsimp only at hrest
  split at hrest
  · rw [Option.some_inj] at hrest
    rw [← hrest, hfold]
  · rcases copy_cases hrest with ⟨c, -, -, rfl⟩
    exact hfold ..

/-! ## What the main thread does outside the senders -/

/-- No sender is about to copy while the main thread is in none of them. -/
theorem Kept.not_asked (h : m.Kept) (hout : m.Outside) (id : Nat) (c : Option Chunk) :
    (m.senders id).main ≠ .sendCheck c := by
  intro hpc
  rcases hout id (h.asked id c hpc).1 with hidle | hdestroyed
  · rw [hidle] at hpc
    cases hpc
  · rw [hdestroyed] at hpc
    cases hpc

/-- The main thread writes to a cell of its own. -/
theorem Kept.write (h : m.Kept) (hout : m.Outside) {p : Nat} (hp : p ∉ m.places '' m.waiting)
    {v : Option Chunk} {chunk : Option Nat} (hchunk : ∀ p' ∈ chunk, p' = p ∧ v ≠ none) :
    Kept { m with heap := Function.update m.heap p v, chunk := chunk } where
  reach := h.reach
  owned := h.owned.write hp v
  chunk := by
    intro p' hp'
    rcases hchunk p' hp' with ⟨rfl, hv⟩
    refine ⟨?_, hp⟩
    show Function.update m.heap p' v p' ≠ none
    rwa [Function.update_self]
  asked id c hpc := absurd hpc (h.not_asked hout id c)
  calls := h.calls
  requests := h.requests

/-- The main thread turns to a sender. -/
theorem Kept.turn (h : m.Kept) (hout : m.Outside) (id : Nat) (more : List (Nat × Chunk)) :
    Kept { m with current := some id, calls := m.calls ++ more } where
  reach := h.reach
  owned := h.owned
  chunk := h.chunk
  asked id' c hpc := absurd hpc (h.not_asked hout id' c)
  calls id' c hc := List.mem_append_left _ (h.calls id' c hc)
  requests := h.requests

/-- Every step keeps the cells of the copies. -/
theorem kept_work (h : m.Kept) (hk : m.work k = some m') : m'.Kept := by
  cases k with
  | create p c =>
      rw [work, Option.ite_none_right_eq_some, Option.some_inj] at hk
      rcases hk with ⟨⟨hout, -, hfree⟩, rfl⟩
      exact h.write hout (h.owned.notMem_of_free hfree) (by simp)
  | address host port =>
      rw [work, Option.ite_none_right_eq_some] at hk
      rcases hk with ⟨hout, hk⟩
      rcases Option.bind_eq_some_iff.1 hk with ⟨p, hp, hk⟩
      rcases Option.map_eq_some_iff.1 hk with ⟨c, -, rfl⟩
      refine h.write hout (h.chunk p hp).2 fun p' hp' => ⟨?_, by simp⟩
      exact Option.some.inj (hp'.symm.trans hp)
  | send id =>
      rw [work, Option.ite_none_right_eq_some] at hk
      rcases hk with ⟨hout, hk⟩
      rcases Option.bind_eq_some_iff.1 hk with ⟨c, hc, hk⟩
      refine kept_sender (h.turn hout id [(id, c)]) ?_ hk
      rintro _ ⟨⟩
      refine ⟨rfl, hc.symm, ?_⟩
      rintro _ ⟨⟩
      simp
  | close id =>
      rw [work, Option.ite_none_right_eq_some] at hk
      have hturn := h.turn hk.1 id []
      rw [List.append_nil] at hturn
      exact kept_sender hturn (by rintro _ ⟨⟩) hk.2
  | destroy =>
      rw [work, Option.ite_none_right_eq_some] at hk
      rcases hk with ⟨hout, hk⟩
      rcases Option.map_eq_some_iff.1 hk with ⟨p, hp, rfl⟩
      exact h.write hout (h.chunk p hp).2 (by simp)
  | main q ch =>
      rcases Option.bind_eq_some_iff.1 hk with ⟨id, -, hk⟩
      exact kept_sender h (by rintro _ ⟨⟩) hk
  | thread id ch => exact kept_sender h (by rintro _ ⟨⟩) hk
  | spurious id t => exact kept_sender h (by rintro _ ⟨⟩) hk

/-- The copies keep their cells through a whole burst of work. -/
theorem kept_run (h : m.Kept) {burst : List Work} (hrun : m.run burst = some m') : m'.Kept := by
  induction burst generalizing m with
  | nil => exact Option.some.inj hrun ▸ h
  | cons k burst ih =>
      rcases Option.bind_eq_some_iff.1 hrun with ⟨m₁, hk, hrest⟩
      exact ih (kept_work h hk) hrest

end Mail

/-! ## The server with its senders -/

variable {w w' : PostOffice}

/-- The server has been reached, the copies keep their cells, and the senders have been
called with what the server has handed over. -/
structure Posted (w : PostOffice) : Prop where
  reach : udpserverMachine.Reachable w.server
  kept : w.mail.Kept
  calls : w.mail.calls = w.server.sends.map fun e => (e.1.id, e.2.1)

/-- A server that was just created has sent nothing. -/
theorem sends_of_created {x : Server} (h : Created x) : x.sends = [] := by
  rcases h with ⟨abi, env, k, f, o, -, rfl⟩
  exact congrArg Prod.snd
    (Server.kept_of_unbound (Server.unbound_setPort (Server.blank abi env _) env f o))

/-- The server goes on by messages only. -/
theorem PostOffice.step_server {e : Event} (hs : w.step e = some w') :
    w'.server = w.server ∨ ∃ env a, w.server.step env a = some w'.server := by
  cases e with
  | work k =>
      rw [PostOffice.step, Option.ite_none_right_eq_some] at hs
      rcases Option.map_eq_some_iff.1 hs.2 with ⟨m, -, rfl⟩
      exact Or.inl rfl
  | message env a burst =>
      rcases Option.bind_eq_some_iff.1 hs with ⟨x, hx, hs⟩
      rcases Option.bind_eq_some_iff.1 hs with ⟨m, -, hs⟩
      rw [Option.ite_none_right_eq_some, Option.some_inj] at hs
      rcases hs with ⟨-, rfl⟩
      exact Or.inr ⟨env, a, hx⟩

/-- What has been posted stays in step with the server at every event. -/
theorem Posted.step (h : Posted w) {e : Event} (hs : w.step e = some w') : Posted w' := by
  cases e with
  | work k =>
      rw [PostOffice.step, Option.ite_none_right_eq_some] at hs
      rcases hs with ⟨hback, hs⟩
      rcases Option.map_eq_some_iff.1 hs with ⟨m, hk, rfl⟩
      refine ⟨h.reach, Mail.kept_work h.kept hk, ?_⟩
      cases k with
      | thread id ch => exact (Mail.calls_sender hk).trans h.calls
      | spurious id t => exact (Mail.calls_sender hk).trans h.calls
      | _ => cases hback
  | message env a burst =>
      rcases Option.bind_eq_some_iff.1 hs with ⟨x, hx, hs⟩
      rcases Option.bind_eq_some_iff.1 hs with ⟨m, hm, hs⟩
      rw [Option.ite_none_right_eq_some, Option.some_inj] at hs
      rcases hs with ⟨hagrees, rfl⟩
      exact ⟨h.reach.next (a := (env, a)) trivial hx, Mail.kept_run h.kept hm, hagrees.calls⟩

/-- In every run of the server with its senders, in whatever order the threads go on. -/
theorem reach_posted (h : postMachine.Reachable w) : Posted w := by
  refine Machine.Reach.invariant (I := Posted) ?_ ?_ h
  · rintro ⟨x, m⟩ ⟨hcreated, rfl⟩
    refine ⟨.start hcreated, Mail.kept_empty, ?_⟩
    rw [sends_of_created hcreated]
    rfl
  · exact fun w e w' _ hw _ hs => hw.step hs

end UdpServer
end Iemnet
