import Iemnet.Foundations.Buffer
import Iemnet.Pd.Atom

/-!
# Data chunks

The {lit}`t_iemnet_chunk` constructors of iemnet_data.c.  A pointer that may be
{lit}`NULL` is an option; the flag {lit}`mem` says whether the allocations of a
call succeed.

Main results:

- Theorem {lit}`chunkCreateList_eq`: the payload built from an atom list.
- Theorem {lit}`chunkCreateChunk_eq`: a copy carries the payload, address and
  port of its source.
-/

namespace Iemnet

open Pd Foundations

/-! ## Host conventions -/

/-- What differs between the machines the library is compiled for. -/
structure Abi where
  littleEndian : Bool
  longBits : Nat
deriving DecidableEq, Repr

/-- Reverse the four bytes of a word. -/
def swapBytes32 (b : BitVec 32) : BitVec 32 :=
  b.extractLsb' 0 8 ++ b.extractLsb' 8 8 ++ b.extractLsb' 16 8 ++ b.extractLsb' 24 8

/-- Reverse the two bytes of a short. -/
def swapBytes16 (b : BitVec 16) : BitVec 16 :=
  b.extractLsb' 0 8 ++ b.extractLsb' 8 8

/-- {lit}`ntohl`, and {lit}`htonl`, which is the same map. -/
def Abi.ntohl (abi : Abi) (b : BitVec 32) : BitVec 32 :=
  if abi.littleEndian then swapBytes32 b else b

/-- {lit}`ntohs`, and {lit}`htons`. -/
def Abi.ntohs (abi : Abi) (b : BitVec 16) : BitVec 16 :=
  if abi.littleEndian then swapBytes16 b else b

/-- Where a bit of the swapped word comes from. -/
theorem getLsbD_swapBytes32 (b : BitVec 32) (i : Nat) :
    (swapBytes32 b).getLsbD i =
      if i < 8 then b.getLsbD (24 + i)
      else if i < 16 then b.getLsbD (8 + i)
      else if i < 24 then b.getLsbD (i - 8)
      else if i < 32 then b.getLsbD (i - 24)
      else false := by
  unfold swapBytes32
  simp only [BitVec.getLsbD_append, BitVec.getLsbD_extractLsb']
  split
  · grind
  · grind

/-- Swapping the bytes of a word twice changes nothing. -/
theorem swapBytes32_swapBytes32 (b : BitVec 32) : swapBytes32 (swapBytes32 b) = b := by
  apply BitVec.eq_of_getLsbD_eq
  intro i hi
  simp only [getLsbD_swapBytes32]
  grind

/-- Where a bit of the swapped half-word comes from. -/
theorem getLsbD_swapBytes16 (b : BitVec 16) (i : Nat) :
    (swapBytes16 b).getLsbD i =
      if i < 8 then b.getLsbD (8 + i)
      else if i < 16 then b.getLsbD (i - 8)
      else false := by
  unfold swapBytes16
  simp only [BitVec.getLsbD_append, BitVec.getLsbD_extractLsb']
  grind

/-- Swapping the bytes of a half-word twice changes nothing. -/
theorem swapBytes16_swapBytes16 (b : BitVec 16) : swapBytes16 (swapBytes16 b) = b := by
  apply BitVec.eq_of_getLsbD_eq
  intro i hi
  simp only [getLsbD_swapBytes16]
  grind

/-- {lit}`htonl` undoes {lit}`ntohl`. -/
@[simp]
theorem Abi.ntohl_ntohl (abi : Abi) (b : BitVec 32) : abi.ntohl (abi.ntohl b) = b := by
  unfold Abi.ntohl
  split
  · exact swapBytes32_swapBytes32 b
  · rfl

/-- {lit}`htons` undoes {lit}`ntohs`. -/
@[simp]
theorem Abi.ntohs_ntohs (abi : Abi) (b : BitVec 16) : abi.ntohs (abi.ntohs b) = b := by
  unfold Abi.ntohs
  split
  · exact swapBytes16_swapBytes16 b
  · rfl

/-- The byte order does not matter for whether a short is zero. -/
theorem Abi.ntohs_ne_zero (abi : Abi) {b : BitVec 16} (h : b ≠ 0) : abi.ntohs b ≠ 0 := by
  intro hzero
  apply h
  rw [← abi.ntohs_ntohs b, hzero]
  unfold Abi.ntohs
  split
  · decide
  · rfl

/-- Storing an unsigned 32-bit value in a {lit}`long`. -/
def Abi.toLong (abi : Abi) (b : BitVec 32) : Int :=
  (BitVec.ofNat abi.longBits b.toNat).toInt

/-- Passing a {lit}`long` as an {lit}`unsigned long`. -/
def Abi.toULong (abi : Abi) (n : Int) : Nat :=
  (BitVec.ofInt abi.longBits n).toNat

/-- Storing an {lit}`unsigned long` in a {lit}`long`. -/
def Abi.ofULong (abi : Abi) (n : Nat) : Int :=
  (BitVec.ofNat abi.longBits n).toInt

/-- An unsigned long is a number of its width. -/
theorem Abi.toULong_lt (abi : Abi) (n : Int) : abi.toULong n < 2 ^ abi.longBits :=
  (BitVec.ofInt abi.longBits n).isLt

/-- A 32-bit value is the same as {lit}`unsigned long`, also where the {lit}`long` in between
is negative. -/
theorem Abi.toULong_toLong (abi : Abi) (hlong : 32 ≤ abi.longBits) (b : BitVec 32) :
    abi.toULong (abi.toLong b) = b.toNat := by
  have hlt : b.toNat < 2 ^ abi.longBits :=
    Nat.lt_of_lt_of_le b.isLt (Nat.pow_le_pow_right Nat.zero_lt_two hlong)
  rw [toULong, toLong, BitVec.ofInt_toInt, BitVec.toNat_ofNat, Nat.mod_eq_of_lt hlt]

/-- The low 32 bits of a {lit}`long` are those of the {lit}`unsigned long`. -/
theorem Abi.ofInt_eq_of_toULong (abi : Abi) (hlong : 32 ≤ abi.longBits) {n : Int}
    {b : BitVec 32} (h : abi.toULong n = b.toNat) : BitVec.ofInt 32 n = b := by
  have hdvd : (2 : Int) ^ 32 ∣ 2 ^ abi.longBits := pow_dvd_pow 2 hlong
  have hmod : n % 2 ^ abi.longBits = b.toNat := by
    have hint : ((BitVec.ofInt abi.longBits n).toNat : Int) = b.toNat := congrArg _ h
    rw [BitVec.toNat_ofInt, Int.toNat_of_nonneg (Int.emod_nonneg _ (by positivity))] at hint
    exact_mod_cast hint
  apply BitVec.eq_of_toNat_eq
  have hlow : n % 2 ^ 32 = b.toNat := by
    rw [← Int.emod_emod_of_dvd n hdvd, hmod]
    have hlt := b.isLt
    omega
  rw [BitVec.toNat_ofInt]
  have hlow' : n % ((2 ^ 32 : Nat) : Int) = b.toNat := by exact_mod_cast hlow
  rw [hlow', Int.toNat_natCast]

/-- The passage through a {lit}`long` loses nothing. -/
theorem Abi.toULong_ofULong (abi : Abi) {n : Nat} (h : n < 2 ^ abi.longBits) :
    abi.toULong (abi.ofULong n) = n := by
  rw [toULong, ofULong, BitVec.ofInt_toInt, BitVec.toNat_ofNat, Nat.mod_eq_of_lt h]

/-- {lit}`struct sockaddr_in`, the address fields in network byte order. -/
structure SockaddrIn where
  family : Int
  addr : BitVec 32
  port : BitVec 16
deriving DecidableEq, Repr

/-- {lit}`AF_INET`. -/
def afInet : Int :=
  2

/-! ## Chunks -/

/-- {lit}`t_iemnet_chunk`: the payload bytes, and the peer in host byte order. -/
structure Chunk where
  data : List (BitVec 8)
  addr : Int
  port : BitVec 16
  family : Int
deriving DecidableEq, Repr

/-- The {lit}`size` field counts the bytes of {lit}`data`. -/
def Chunk.size (c : Chunk) : Nat :=
  c.data.length

/-- {lit}`iemnet__chunk_create_empty`. -/
def chunkCreateEmpty (mem : Bool) (size : Int) : Option Chunk :=
  if size < 1 then none
  else if mem then
    some { data := List.replicate size.toNat 0#8, addr := 0, port := 0#16, family := afInet }
  else none

/-- {lit}`iemnet__chunk_create_data`: {lit}`memcpy` takes the first
{lit}`size` bytes of {lit}`data`. -/
def chunkCreateData (mem : Bool) (size : Int) (data : List (BitVec 8)) : Option Chunk :=
  (chunkCreateEmpty mem size).map fun result =>
    { result with data := data.take result.size }

/-- {lit}`iemnet__chunk_create_dataaddr`. -/
def chunkCreateDataaddr (abi : Abi) (mem : Bool) (size : Int) (data : List (BitVec 8))
    (addr : Option SockaddrIn) : Option Chunk :=
  (chunkCreateData mem size data).map fun result =>
    match addr with
    | none => result
    | some a =>
        { result with
          addr := abi.toLong (abi.ntohl a.addr)
          port := abi.ntohs a.port
          family := a.family }

/-- {lit}`iemnet__chunk_create_list`: each atom is truncated to an integer and
stored in an {lit}`unsigned char`. -/
def chunkCreateList (mem : Bool) (argv : List Atom) : Option Chunk :=
  (chunkCreateEmpty mem argv.length).map fun result =>
    { result with
      data := Buffer.fill
        (fun i old => (argv[i]?.map fun a => BitVec.ofInt 8 (atomGetint a)).getD old)
        argv.length result.data }

/-- {lit}`iemnet__chunk_create_chunk`: the copy gets its own payload and the
address and port of the source. -/
def chunkCreateChunk (mem : Bool) (c : Option Chunk) : Option Chunk :=
  c.bind fun src =>
    (chunkCreateData mem src.size src.data).map fun result =>
      { result with addr := src.addr, port := src.port }

/-! ## What the constructors build -/

/-- No chunk has an empty payload. -/
theorem chunkCreateEmpty_of_pos {size : Int} (h : 1 ≤ size) :
    chunkCreateEmpty true size =
      some { data := List.replicate size.toNat 0#8, addr := 0, port := 0#16,
             family := afInet } := by
  simp [chunkCreateEmpty, show ¬ size < 1 by omega]

/-- With memory a chunk is made from any bytes but none. -/
theorem chunkCreateData_of_ne_nil {data : List (BitVec 8)} (h : data ≠ []) :
    chunkCreateData true data.length data =
      some { data := data, addr := 0, port := 0#16, family := afInet } := by
  have hpos : 0 < data.length := List.length_pos_iff.2 h
  have hsize : (1 : Int) ≤ data.length := by omega
  simp [chunkCreateData, chunkCreateEmpty_of_pos hsize, Chunk.size]

/-- The bytes a list of atoms stands for. -/
def listBytes (argv : List Atom) : List (BitVec 8) :=
  argv.map fun a => BitVec.ofInt 8 (atomGetint a)

/-- A non-empty list becomes the chunk of its bytes, an empty one becomes
{lit}`NULL`. -/
theorem chunkCreateList_eq (argv : List Atom) :
    chunkCreateList true argv =
      if argv = [] then none
      else some { data := listBytes argv, addr := 0, port := 0#16, family := afInet } := by
  by_cases hnil : argv = []
  · subst hnil
    rfl
  · have hpos : 0 < argv.length := List.length_pos_iff.2 hnil
    have hsize : (1 : Int) ≤ argv.length := by omega
    rw [if_neg hnil, chunkCreateList, chunkCreateEmpty_of_pos hsize]
    simp only [Option.map_some, Int.toNat_natCast, Option.some.injEq, Chunk.mk.injEq,
      and_true]
    apply List.ext_getElem?
    intro i
    rw [Buffer.getElem?_fill]
    by_cases hi : i < argv.length
    · simp [listBytes, hi]
    · simp [listBytes, hi]

/-- A received chunk carries the address of its sender in host byte order. -/
theorem chunkCreateDataaddr_some {abi : Abi} {mem : Bool} {size : Int} {data : List (BitVec 8)}
    {a : SockaddrIn} {c : Chunk}
    (h : chunkCreateDataaddr abi mem size data (some a) = some c) :
    c.addr = abi.toLong (abi.ntohl a.addr) ∧ c.port = abi.ntohs a.port := by
  rcases Option.map_eq_some_iff.1 h with ⟨result, -, rfl⟩
  exact ⟨rfl, rfl⟩

/-- The payload of a chunk, nothing for {lit}`NULL`. -/
def payload (c : Option Chunk) : List (BitVec 8) :=
  (c.map Chunk.data).getD []

/-- The payload of a list's chunk is a byte for each atom. -/
theorem payload_chunkCreateList (argv : List Atom) :
    payload (chunkCreateList true argv) = listBytes argv := by
  rw [chunkCreateList_eq]
  split
  · rename_i h
    simp [payload, h, listBytes]
  · rfl

/-- A copy of a non-empty chunk keeps payload, address and port. -/
theorem chunkCreateChunk_eq {c : Chunk} (h : c.data ≠ []) :
    chunkCreateChunk true (some c) =
      some { data := c.data, addr := c.addr, port := c.port, family := afInet } := by
  simp [chunkCreateChunk, Chunk.size, chunkCreateData_of_ne_nil h]

/-- Whatever the allocator does, a copy that exists carries payload, address and
port of its source. -/
theorem chunkCreateChunk_some {mem : Bool} {src : Option Chunk} {c : Chunk}
    (h : chunkCreateChunk mem src = some c) :
    ∃ s, src = some s ∧ s.data ≠ [] ∧ c.data = s.data ∧ c.addr = s.addr ∧
      c.port = s.port := by
  cases src with
  | none => simp [chunkCreateChunk] at h
  | some s =>
      refine ⟨s, rfl, ?_⟩
      by_cases hnil : s.data = []
      · simp [chunkCreateChunk, chunkCreateData, chunkCreateEmpty, Chunk.size, hnil] at h
      · cases mem with
        | false =>
            simp [chunkCreateChunk, chunkCreateData, chunkCreateEmpty] at h
        | true =>
            rw [chunkCreateChunk_eq hnil, Option.some.injEq] at h
            subst h
            exact ⟨hnil, rfl, rfl, rfl⟩

end Iemnet
