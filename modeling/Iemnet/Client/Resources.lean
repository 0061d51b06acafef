import Iemnet.Foundations.Descriptors
import Iemnet.Foundations.Pool

/-!
# What an object keeps outside itself

The descriptors, senders and receivers of an object, as the kernel, the library and Pd
keep them.  A sender or receiver whose descriptor is closed under it is recorded as an
orphan.

Main results:

- Structure {lit}`Resources.Holding`: one descriptor at most, and at most one sender and
  one receiver that work on it.  Each operation has one theorem about it.
- Structures {lit}`Resources.Orderly` and {lit}`Resources.Settled`: what that means for
  everything that was opened or made.
-/

namespace Iemnet

open Foundations

/-- A {lit}`t_iemnet_sender` or {lit}`t_iemnet_receiver`, made for a descriptor. -/
abbrev Worker :=
  Item Int

/-- What the kernel, the library and Pd keep for an object. -/
structure Resources where
  os : Descriptors
  /-- The largest number of descriptors that were open at once. -/
  most : Nat
  senders : Foundations.Pool Int
  receivers : Foundations.Pool Int
  /-- The receivers registered with {lit}`sys_addpollfn`. -/
  polls : List (Int × Worker)
  orphans : List Worker
deriving DecidableEq, Repr

/-- The descriptor in a field that holds a negative number when there is none. -/
def stored (fd : Int) : Option Int :=
  if 0 ≤ fd then some fd else none

/-- A descriptor is stored as it is. -/
theorem stored_of_nonneg {fd : Int} (h : 0 ≤ fd) : stored fd = some fd :=
  if_pos h

/-- A negative number is no descriptor. -/
theorem stored_of_neg {fd : Int} (h : fd < 0) : stored fd = none :=
  if_neg (Int.not_le.2 h)

namespace Resources

/-- Nothing has been opened or made. -/
def empty : Resources :=
  ⟨.empty, 0, .empty, .empty, [], []⟩

/-- {lit}`socket` returns {lit}`fd`. -/
def socket (r : Resources) (fd : Int) : Resources :=
  { r with os := r.os.acquire fd, most := max r.most (r.os.acquire fd).live.length }

/-- The senders and receivers that work on a descriptor. -/
def workersOn (r : Resources) (fd : Int) : List Worker :=
  (r.senders.live ++ r.receivers.live).filter fun w => w.base = fd

/-- {lit}`iemnet__closesocket`. -/
def closesocket (r : Resources) (sockfd : Int) : Resources :=
  if 0 ≤ sockfd then
    { r with os := r.os.close sockfd, orphans := r.orphans ++ r.workersOn sockfd }
  else r

/-- {lit}`iemnet__sender_create`, which needs memory and a thread. -/
def senderCreate (r : Resources) (ok : Bool) (sock : Int) : Resources × Option Worker :=
  if ok then ({ r with senders := r.senders.make sock }, some (r.senders.next sock))
  else (r, none)

/-- {lit}`iemnet__sender_destroy` behind a check for {lit}`NULL`. -/
def senderDestroy (r : Resources) (s : Option Worker) : Resources :=
  match s with
  | none => r
  | some w => { r with senders := r.senders.drop w }

/-- {lit}`iemnet__receiver_create`. -/
def receiverCreate (r : Resources) (ok : Bool) (sock : Int) : Resources × Option Worker :=
  if ok then
    ({ r with
        receivers := r.receivers.make sock
        polls := r.polls ++ [(sock, r.receivers.next sock)] }, some (r.receivers.next sock))
  else (r, none)

/-- {lit}`iemnet__receiver_destroy`. -/
def receiverDestroy (r : Resources) (rec' : Option Worker) : Resources :=
  match rec' with
  | none => r
  | some w =>
      { r with
        receivers := r.receivers.drop w
        polls := r.polls.eraseP fun p => p.1 = w.base }

/-! ## One connection at a time -/

/-- The descriptor {lit}`fd` is open, the sender {lit}`s` and the receiver {lit}`rec'`
exist and work on it, and everything else is gone. -/
structure Holding (r : Resources) (fd : Option Int) (s rec' : Option Worker) : Prop where
  os : r.os.Holding fd
  most : r.most ≤ 1
  senders : r.senders.Holding s
  receivers : r.receivers.Holding rec'
  sender_on : ∀ w ∈ s, fd = some w.base
  receiver_on : ∀ w ∈ rec', fd = some w.base
  polls : r.polls = rec'.toList.map fun w => (w.base, w)
  orphans : r.orphans = []

/-- Nothing has been made, and nothing is held. -/
theorem holding_empty : empty.Holding none none none :=
  ⟨Descriptors.holding_empty, Nat.zero_le 1, Foundations.Pool.holding_empty,
    Foundations.Pool.holding_empty, by simp, by simp, rfl, rfl⟩

variable {r : Resources} {fd : Int} {o : Option Int} {s rec' : Option Worker}

/-- Nothing works without a descriptor. -/
theorem Holding.nothing (h : r.Holding none s rec') : s = none ∧ rec' = none := by
  constructor
  · cases hs : s with
    | none => rfl
    | some w => cases h.sender_on w hs
  · cases hrec : rec' with
    | none => rfl
    | some w => cases h.receiver_on w hrec

/-- A new socket is held by who has opened it. -/
theorem Holding.socket (h : r.Holding none none none) (fd : Int) :
    (r.socket fd).Holding (some fd) none none := by
  have hone : (r.os.acquire fd).numbers.length = 1 := by
    rw [(h.os.acquire fd).numbers]
    rfl
  refine ⟨h.os.acquire fd, ?_, h.senders, h.receivers, by simp, by simp, h.polls, h.orphans⟩
  have hlength : (r.os.acquire fd).live.length = 1 := by
    rw [← hone, Descriptors.numbers, List.length_map]
  have hmost := h.most
  show max r.most (r.os.acquire fd).live.length ≤ 1
  omega

/-- A new sender is held, if it is there. -/
theorem Holding.senderCreate (h : r.Holding (some fd) none rec') (ok : Bool) :
    (r.senderCreate ok fd).1.Holding (some fd) (r.senderCreate ok fd).2 rec' := by
  cases ok with
  | false => exact h
  | true =>
      refine ⟨h.os, h.most, h.senders.make fd, h.receivers, ?_, h.receiver_on, h.polls,
        h.orphans⟩
      intro w hw
      have hnext : r.senders.next fd = w := Option.some.inj hw
      rw [← hnext]
      rfl

/-- A new receiver is held, if it is there. -/
theorem Holding.receiverCreate (h : r.Holding (some fd) s none) (ok : Bool) :
    (r.receiverCreate ok fd).1.Holding (some fd) s (r.receiverCreate ok fd).2 := by
  cases ok with
  | false => exact h
  | true =>
      refine ⟨h.os, h.most, h.senders, h.receivers.make fd, h.sender_on, ?_, ?_, h.orphans⟩
      · intro w hw
        have hnext : r.receivers.next fd = w := Option.some.inj hw
        rw [← hnext]
        rfl
      · show r.polls ++ [(fd, r.receivers.next fd)] = [(fd, r.receivers.next fd)]
        rw [h.polls]
        rfl

/-- A destroyed sender is not held any more. -/
theorem Holding.senderDestroy (h : r.Holding o s rec') :
    (r.senderDestroy s).Holding o none rec' := by
  cases s with
  | none => exact h
  | some w =>
      exact ⟨h.os, h.most, h.senders.drop, h.receivers, by simp, h.receiver_on, h.polls,
        h.orphans⟩

/-- A destroyed receiver is not held any more. -/
theorem Holding.receiverDestroy (h : r.Holding o s rec') :
    (r.receiverDestroy rec').Holding o s none := by
  cases rec' with
  | none => exact h
  | some w =>
      refine ⟨h.os, h.most, h.senders, h.receivers.drop, h.sender_on, by simp, ?_, h.orphans⟩
      show r.polls.eraseP (fun p => p.1 = w.base) = []
      rw [h.polls]
      simp

/-- Closing the descriptor once its sender and receiver are gone. -/
theorem Holding.closesocket (h : r.Holding (some fd) none none) (hfd : 0 ≤ fd) :
    (r.closesocket fd).Holding none none none := by
  have hnobody : r.workersOn fd = [] := by
    rw [workersOn, h.senders.live, h.receivers.live]
    rfl
  rw [Resources.closesocket, if_pos hfd, hnobody, List.append_nil]
  exact ⟨h.os.close, h.most, h.senders, h.receivers, by simp, by simp, h.polls, h.orphans⟩

/-- The same for a field that may hold a negative number. -/
theorem Holding.closeStored (h : r.Holding (stored fd) none none) :
    (r.closesocket fd).Holding none none none := by
  by_cases hfd : 0 ≤ fd
  · rw [stored_of_nonneg hfd] at h
    exact h.closesocket hfd
  · rw [stored_of_neg (Int.not_le.1 hfd)] at h
    rw [Resources.closesocket, if_neg hfd]
    exact h

/-! ## The account -/

/-- Every descriptor opened is open or has been closed exactly once, never more than one
was open, every sender and receiver made exists or has been destroyed exactly once, and
none of them had its descriptor closed under it. -/
structure Orderly (r : Resources) : Prop where
  descriptors : ∀ k < r.os.issued,
    (k ∈ r.os.live.map Prod.snd ∧ r.os.closed.count k = 0) ∨
      (k ∉ r.os.live.map Prod.snd ∧ r.os.closed.count k = 1)
  most : r.most ≤ 1
  senders : ∀ k < r.senders.made,
    (k ∈ r.senders.live.map Item.serial ∧ r.senders.destroyed.count k = 0) ∨
      (k ∉ r.senders.live.map Item.serial ∧ r.senders.destroyed.count k = 1)
  receivers : ∀ k < r.receivers.made,
    (k ∈ r.receivers.live.map Item.serial ∧ r.receivers.destroyed.count k = 0) ∨
      (k ∉ r.receivers.live.map Item.serial ∧ r.receivers.destroyed.count k = 1)
  stray : r.os.stray = [] ∧ r.senders.stray = [] ∧ r.receivers.stray = []
  orphans : r.orphans = []

/-- Everything opened has been closed exactly once and everything made has been destroyed
exactly once. -/
structure Settled (r : Resources) : Prop where
  orderly : r.Orderly
  descriptors : ∀ k < r.os.issued, r.os.closed.count k = 1
  senders : ∀ k < r.senders.made, r.senders.destroyed.count k = 1
  receivers : ∀ k < r.receivers.made, r.receivers.destroyed.count k = 1

/-- Who holds what is there keeps everything in order. -/
theorem Holding.orderly (h : r.Holding o s rec') : r.Orderly := by
  refine ⟨fun k hk => ?_, h.most, fun k hk => h.senders.accounted.live_or_destroyed hk,
    fun k hk => h.receivers.accounted.live_or_destroyed hk,
    ⟨h.os.stray, h.senders.stray, h.receivers.stray⟩, h.orphans⟩
  rcases h.os.accounted.open_or_closed hk with ⟨⟨fd, hfd⟩, hzero⟩ | ⟨hgone, hone⟩
  · exact Or.inl ⟨List.mem_map_of_mem hfd, hzero⟩
  · refine Or.inr ⟨fun hmem => ?_, hone⟩
    rcases List.mem_map.1 hmem with ⟨⟨fd, n⟩, hp, rfl⟩
    exact hgone fd hp

/-- Where nothing is held nothing is left. -/
theorem Holding.settled (h : r.Holding none none none) : r.Settled :=
  ⟨h.orderly, fun _ hk => h.os.closed_once hk, fun _ hk => h.senders.destroyed_once hk,
    fun _ hk => h.receivers.destroyed_once hk⟩

end Resources

end Iemnet
