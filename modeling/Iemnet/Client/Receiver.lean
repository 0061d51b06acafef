import Iemnet.Data.Integrity

/-!
# The receiver

One call of {lit}`recvfrom` can end in several ways; {lit}`pollfun` of
iemnet_receiver.c folds them into a chunk or {lit}`NULL` before it calls back.

Main results:

- Theorem {lit}`pollfun_data`: the chunk made of received bytes.
- Theorem {lit}`pollfun_null_iff`: for which outcomes {lit}`NULL` means what it is
  documented to mean.
-/

namespace Iemnet

open Pd

/-- The two kinds of socket that are polled. -/
inductive SocketType
  | stream
  | dgram
deriving DecidableEq, Repr

/-- {lit}`errno` after a failed call. -/
inductive Errno
  | eagain
  | ewouldblock
  | eintr
  | other (code : Int)
deriving DecidableEq, Repr

/-- The socket was not ready after all; nothing is wrong with it. -/
def Errno.Transient : Errno → Prop
  | .other _ => False
  | _ => True

instance : DecidablePred Errno.Transient
  | .eagain => .isTrue trivial
  | .ewouldblock => .isTrue trivial
  | .eintr => .isTrue trivial
  | .other _ => .isFalse id

/-- What a call of {lit}`recvfrom` comes to. -/
inductive Recvfrom
  | data (bytes : List (BitVec 8)) (source : SockaddrIn)
  | emptyDatagram (source : SockaddrIn)
  | endOfStream (source : SockaddrIn)
  | error (errno : Errno) (source : SockaddrIn)
deriving DecidableEq, Repr

namespace Recvfrom

/-- The return value. -/
def result : Recvfrom → Int
  | data bytes _ => bytes.length
  | emptyDatagram _ => 0
  | endOfStream _ => 0
  | error _ _ => -1

/-- What has been written to the buffer. -/
def bytes : Recvfrom → List (BitVec 8)
  | data bytes _ => bytes
  | _ => []

/-- What {lit}`from` holds afterwards. -/
def source : Recvfrom → SockaddrIn
  | data _ source => source
  | emptyDatagram source => source
  | endOfStream source => source
  | error _ source => source

/-- The outcomes on a socket of type {lit}`t`. -/
def Possible (t : SocketType) : Recvfrom → Prop
  | data bytes _ => bytes ≠ [] ∧ bytes.length ≤ inbufsize
  | emptyDatagram _ => t = .dgram
  | endOfStream _ => t = .stream
  | error _ _ => True

instance (t : SocketType) : DecidablePred (Possible t)
  | data bytes _ => inferInstanceAs (Decidable (bytes ≠ [] ∧ bytes.length ≤ inbufsize))
  | emptyDatagram _ => inferInstanceAs (Decidable (t = .dgram))
  | endOfStream _ => inferInstanceAs (Decidable (t = .stream))
  | error _ _ => .isTrue trivial

/-- The connection is over. -/
def Closed : Recvfrom → Prop
  | endOfStream _ => True
  | error e _ => ¬ e.Transient
  | _ => False

end Recvfrom

/-- The chunk that {lit}`pollfun` calls back with; {lit}`mem` says whether one can be
allocated. -/
def pollfun (abi : Abi) (mem : Bool) (r : Recvfrom) : Option Chunk :=
  chunkCreateDataaddr abi mem r.result (if 0 < r.result then r.bytes else []) (some r.source)

/-- The outcome is not mistaken for another: it is no empty datagram and no transient
failure, and what was received can be stored. -/
def Recvfrom.Clear (mem : Bool) : Recvfrom → Prop
  | data _ _ => mem = true
  | emptyDatagram _ => False
  | endOfStream _ => True
  | error e _ => ¬ e.Transient

variable {abi : Abi} {mem : Bool}

/-- Received bytes are passed on as they are. -/
theorem pollfun_data (abi : Abi) {bytes : List (BitVec 8)} (h : bytes ≠ []) (source : SockaddrIn) :
    ∃ c, pollfun abi true (.data bytes source) = some c ∧ c.data = bytes := by
  have hpos : (0 : Int) < bytes.length := by
    have := List.length_pos_iff.2 h
    omega
  refine ⟨⟨bytes, abi.toLong (abi.ntohl source.addr), abi.ntohs source.port, source.family⟩,
    ?_, rfl⟩
  unfold pollfun Recvfrom.result Recvfrom.bytes
  rw [if_pos hpos, chunkCreateDataaddr, chunkCreateData_of_ne_nil h]
  rfl

/-- Without memory no chunk is made. -/
theorem pollfun_of_not_mem (r : Recvfrom) : pollfun abi false r = none := by
  simp [pollfun, chunkCreateDataaddr, chunkCreateData, chunkCreateEmpty]

/-- Without bytes there is no chunk. -/
theorem pollfun_of_no_data {r : Recvfrom} (h : ∀ bytes source, r ≠ .data bytes source) :
    pollfun abi mem r = none := by
  have hresult : r.result < 1 := by
    cases r with
    | data bytes source => exact absurd rfl (h bytes source)
    | emptyDatagram source => exact Int.zero_lt_one
    | endOfStream source => exact Int.zero_lt_one
    | error e source => exact (Int.negSucc_lt_zero 0).trans Int.zero_lt_one
  simp [pollfun, chunkCreateDataaddr, chunkCreateData, chunkCreateEmpty, hresult]

/-- A chunk carries received bytes. -/
theorem pollfun_some {t : SocketType} {r : Recvfrom} {c : Chunk} (hr : r.Possible t)
    (h : pollfun abi mem r = some c) :
    ∃ bytes source, r = .data bytes source ∧ bytes ≠ [] ∧ mem = true ∧ c.data = bytes := by
  have hmem : mem = true := by
    by_contra hmem
    rw [Bool.not_eq_true] at hmem
    rw [hmem, pollfun_of_not_mem] at h
    cases h
  by_cases hdata : ∃ bytes source, r = .data bytes source
  · rcases hdata with ⟨bytes, source, rfl⟩
    rcases pollfun_data abi hr.1 source with ⟨c', hc', hdata⟩
    rw [hmem, hc'] at h
    exact ⟨bytes, source, rfl, hr.1, hmem, Option.some.inj h ▸ hdata⟩
  · push Not at hdata
    rw [pollfun_of_no_data hdata] at h
    cases h

/-- {lit}`NULL` means the end of the connection for exactly the outcomes that are not
mistaken for another. -/
theorem pollfun_null_iff {t : SocketType} {r : Recvfrom} (h : r.Possible t) :
    (pollfun abi mem r = none → r.Closed) ↔ r.Clear mem := by
  cases r with
  | data bytes source =>
      cases mem with
      | false =>
          have hnull : pollfun abi false (.data bytes source) = none := pollfun_of_not_mem _
          simp [hnull, Recvfrom.Closed, Recvfrom.Clear]
      | true =>
          rcases pollfun_data abi h.1 source with ⟨c, hc, -⟩
          simp [hc, Recvfrom.Clear]
  | emptyDatagram source =>
      have hnull : pollfun abi mem (.emptyDatagram source) = none :=
        pollfun_of_no_data (by simp)
      simp [hnull, Recvfrom.Closed, Recvfrom.Clear]
  | endOfStream source => simp [Recvfrom.Closed, Recvfrom.Clear]
  | error e source =>
      have hnull : pollfun abi mem (.error e source) = none :=
        pollfun_of_no_data (by simp)
      simp [hnull, Recvfrom.Closed, Recvfrom.Clear]

end Iemnet
