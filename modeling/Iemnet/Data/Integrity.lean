import Iemnet.Data.FloatList

/-!
# Data integrity from list to list

What one object sends as lists another object outputs as lists.  In between lie
the conversion to bytes, a stream that keeps the bytes and their order but cuts
them anywhere, and one float list that is re-used for every received chunk.

The proof keeps {lit}`Floatlist.WellTyped` through any history and shows, one
received chunk at a time, that the output depends on the bytes of that chunk
only; concatenation then removes the segmentation.

Main results:

- Theorem {lit}`receiveAll_spec`: the output of any sequence of received chunks.
- Theorem {lit}`data_integrity`: the end-to-end statement for serialized and
  unserialized output.
-/

namespace Iemnet

open Pd

/-- A message sent to an outlet. -/
structure Message where
  selector : String
  argv : List Atom
deriving DecidableEq, Repr

/-- The loop of {lit}`iemnet__streamout` that sends one atom at a time. -/
def streamoutSerial : Nat → List Atom → List Message
  | 0, _ => []
  | _ + 1, [] => []
  | argc + 1, a :: argv => ⟨"list", [a]⟩ :: streamoutSerial argc argv

/-- {lit}`iemnet__streamout` on an outlet that exists. -/
def streamout (argc : Nat) (argv : List Atom) (stream : Int) : List Message :=
  if stream ≠ 0 then streamoutSerial argc argv
  else [⟨"list", argv.take argc⟩]

/-- One result of {lit}`recvfrom`: the bytes, the sender, and what
{lit}`malloc` would hand out should the float list have to grow. -/
structure Reception where
  bytes : List (BitVec 8)
  source : SockaddrIn
  raw : Nat → Atom

/-- The size of the receive buffer. -/
def inbufsize : Nat :=
  65536

/-- A non-empty result that fits the receive buffer. -/
def Reception.Valid (r : Reception) : Prop :=
  r.bytes ≠ [] ∧ r.bytes.length ≤ inbufsize

/-- What a receive callback does with a received chunk: wrap it, load the float
list, output it.  A {lit}`NULL` float list would be dereferenced. -/
def receive (abi : Abi) (serialize : Int) (cl : Floatlist) (r : Reception) :
    Option (Floatlist × List Message) :=
  (chunk2list true r.raw
      (chunkCreateDataaddr abi true r.bytes.length r.bytes (some r.source)) (some cl)).map
    fun cl' => (cl', streamout cl'.argc cl'.argv serialize)

/-- Process received chunks one after the other into the same float list. -/
def receiveAll (abi : Abi) (serialize : Int) :
    Floatlist → List Reception → Option (Floatlist × List Message)
  | cl, [] => some (cl, [])
  | cl, r :: rs =>
      (receive abi serialize cl r).bind fun one =>
        (receiveAll abi serialize one.1 rs).map fun rest => (rest.1, one.2 ++ rest.2)

/-! ## One received chunk -/

/-- What a chunk with these bytes puts out. -/
def byteMessages (serialize : Int) (bytes : List (BitVec 8)) : List Message :=
  if serialize ≠ 0 then (byteAtoms bytes).map fun a => ⟨"list", [a]⟩
  else [⟨"list", byteAtoms bytes⟩]

/-- However the output is arranged, it consists of the bytes. -/
theorem byteMessages_argv (serialize : Int) (bytes : List (BitVec 8)) :
    (byteMessages serialize bytes).flatMap Message.argv = byteAtoms bytes := by
  unfold byteMessages
  split
  · simp [List.flatMap_map]
  · simp

/-- The loop puts out a list of one atom for every atom. -/
theorem streamoutSerial_eq (argc : Nat) (argv : List Atom) :
    streamoutSerial argc argv = (argv.take argc).map fun a => ⟨"list", [a]⟩ := by
  induction argc generalizing argv with
  | zero => simp [streamoutSerial]
  | succ argc ih =>
      cases argv with
      | nil => rfl
      | cons a argv => simp [streamoutSerial, ih]

/-- The messages for a list of bytes, one by one or all at once. -/
theorem streamout_eq {argc : Nat} {argv : List Atom} {bytes : List (BitVec 8)}
    (h : argv.take argc = byteAtoms bytes) (stream : Int) :
    streamout argc argv stream = byteMessages stream bytes := by
  unfold streamout byteMessages
  rw [streamoutSerial_eq, h]

/-- One step: a well-typed list outputs exactly the received bytes and is well
typed again. -/
theorem receive_spec (abi : Abi) (serialize : Int) {cl : Floatlist} (h : cl.WellTyped)
    {r : Reception} (hr : r.Valid) :
    ∃ cl', receive abi serialize cl r = some (cl', byteMessages serialize r.bytes) ∧
      cl'.WellTyped := by
  have hchunk : ∃ c, chunkCreateDataaddr abi true r.bytes.length r.bytes (some r.source) =
      some c ∧ c.data = r.bytes := by
    refine ⟨_, by rw [chunkCreateDataaddr, chunkCreateData_of_ne_nil hr.1]; rfl, rfl⟩
  rcases hchunk with ⟨c, hc, hdata⟩
  rcases chunk2list_eq r.raw h c with ⟨cl', hlist, hwell, -, htake⟩
  refine ⟨cl', ?_, hwell⟩
  rw [receive, hc, hlist, Option.map_some, streamout_eq htake, hdata]

/-- The whole run: each received chunk contributes the messages of its bytes. -/
theorem receiveAll_spec (abi : Abi) (serialize : Int) {cl : Floatlist} (h : cl.WellTyped)
    {rs : List Reception} (hrs : ∀ r ∈ rs, r.Valid) :
    ∃ cl', receiveAll abi serialize cl rs =
        some (cl', (rs.map fun r => byteMessages serialize r.bytes).flatten) ∧
      cl'.WellTyped := by
  induction rs generalizing cl with
  | nil => exact ⟨cl, rfl, h⟩
  | cons r rs ih =>
      rcases receive_spec abi serialize h (hrs r (by simp)) with ⟨cl₁, hone, hwell₁⟩
      rcases ih hwell₁ (fun q hq => hrs q (by simp [hq])) with ⟨cl₂, hrest, hwell₂⟩
      refine ⟨cl₂, ?_, hwell₂⟩
      simp [receiveAll, hone, hrest]

/-! ## Removing the segmentation -/

/-- Serialized output of the pieces is the serialized output of the whole. -/
theorem byteMessages_flatten {serialize : Int} (hs : serialize ≠ 0)
    (pieces : List (List (BitVec 8))) :
    (pieces.map (byteMessages serialize)).flatten =
      byteMessages serialize pieces.flatten := by
  induction pieces with
  | nil => simp [byteMessages, hs, byteAtoms]
  | cons p ps ih =>
      rw [List.map_cons, List.flatten_cons, ih]
      simp [byteMessages, hs, byteAtoms]

/-- The byte of an atom, read as a number, is its truncation modulo 256. -/
theorem toNat_ofInt_byte (z : Int) :
    ((BitVec.ofInt 8 z).toNat : ℚ) = ((z % 256 : Int) : ℚ) := by
  have hnonneg : 0 ≤ z % 256 := Int.emod_nonneg z (by decide)
  have hnat : (((BitVec.ofInt 8 z).toNat : Int)) = z % 256 := by
    rw [BitVec.toNat_ofInt]
    simpa using Int.toNat_of_nonneg hnonneg
  exact_mod_cast congrArg (Int.cast : Int → ℚ) hnat

/-- A byte comes out as the remainder of the atom that went in. -/
theorem byteAtoms_listBytes (argv : List Atom) :
    byteAtoms (listBytes argv) =
      argv.map fun a => setFloat ((atomGetint a % 256 : Int) : ℚ) := by
  simp only [byteAtoms, listBytes, List.map_map]
  apply List.map_congr_left
  intro a _
  simp only [Function.comp_apply, toNat_ofInt_byte]

/-- Lists one after the other have their bytes one after the other. -/
theorem listBytes_flatten (inputs : List (List Atom)) :
    (inputs.map fun argv => payload (chunkCreateList true argv)).flatten =
      listBytes inputs.flatten := by
  simp only [payload_chunkCreateList, listBytes, List.map_flatten]

/-- The bytes all chunks of a sequence of lists put on the wire. -/
def wire (inputs : List (List Atom)) : List (BitVec 8) :=
  (inputs.map fun argv => payload (chunkCreateList true argv)).flatten

/-- A segmentation of a byte stream into receive results. -/
def Segments (bytes : List (BitVec 8)) (rs : List Reception) : Prop :=
  (∀ r ∈ rs, r.Valid) ∧ (rs.map Reception.bytes).flatten = bytes

/-- Lists in, lists out: whatever was received before and however the stream is
cut, serialized output is one single-float list per byte with the truncated
inputs modulo 256 (the inputs themselves if they are bytes), the same for any
other segmentation; unserialized output is one list per receive result with
exactly its bytes. -/
theorem data_integrity (abi : Abi) (raw : Nat → Atom) (inputs : List (List Atom))
    (serialize₀ : Int) (history segs segs' : List Reception)
    (hhistory : ∀ r ∈ history, r.Valid)
    (hsegs : Segments (wire inputs) segs) (hsegs' : Segments (wire inputs) segs') :
    ∃ cl₀ cl out₀, floatlistCreate true raw 1024 = some cl₀ ∧
      receiveAll abi serialize₀ cl₀ history = some (cl, out₀) ∧
      (∀ serialize : Int, serialize ≠ 0 →
        ∃ out,
          ((receiveAll abi serialize cl segs).map Prod.snd = some out ∧
            (receiveAll abi serialize cl segs').map Prod.snd = some out) ∧
          out = inputs.flatten.map (fun a =>
            ⟨"list", [setFloat ((atomGetint a % 256 : Int) : ℚ)]⟩) ∧
          ((∀ a ∈ inputs.flatten, ∃ n : Nat, n < 256 ∧ a = setFloat n) →
            out = inputs.flatten.map fun a => ⟨"list", [a]⟩)) ∧
      (receiveAll abi 0 cl segs).map Prod.snd =
        some (segs.map fun r =>
          ⟨"list", r.bytes.map fun b => setFloat (b.toNat : ℚ)⟩) := by
  rcases floatlistCreate_wellTyped raw 1024 with ⟨cl₀, hcreate, hwell₀⟩
  rcases receiveAll_spec abi serialize₀ hwell₀ hhistory with ⟨cl, hrun, hwell⟩
  have hserial : ∀ serialize : Int, serialize ≠ 0 → ∀ rs, Segments (wire inputs) rs →
      (receiveAll abi serialize cl rs).map Prod.snd =
        some (inputs.flatten.map fun a =>
          ⟨"list", [setFloat ((atomGetint a % 256 : Int) : ℚ)]⟩) := by
    intro serialize hs rs hrs
    rcases receiveAll_spec abi serialize hwell hrs.1 with ⟨cl', hall, -⟩
    have hmap : (rs.map fun r => byteMessages serialize r.bytes).flatten =
        byteMessages serialize (listBytes inputs.flatten) := by
      rw [← listBytes_flatten, ← wire, ← hrs.2, ← byteMessages_flatten hs, List.map_map]
      rfl
    rw [hall, Option.map_some, hmap, byteMessages, if_pos hs, byteAtoms_listBytes,
      List.map_map]
    rfl
  refine ⟨cl₀, cl, _, hcreate, hrun, ?_, ?_⟩
  · intro serialize hs
    refine ⟨_, ⟨hserial serialize hs segs hsegs, hserial serialize hs segs' hsegs'⟩, rfl, ?_⟩
    intro hbytes
    apply List.map_congr_left
    intro a ha
    rcases hbytes a ha with ⟨n, hn, rfl⟩
    have hmod : ((n : Int) % 256) = n := Int.emod_eq_of_lt (by omega) (by omega)
    rw [atomGetint_setFloat_natCast, hmod, Int.cast_natCast]
  · rcases receiveAll_spec abi 0 hwell hsegs.1 with ⟨cl', hall, -⟩
    have hone : ∀ r : Reception, byteMessages 0 r.bytes =
        [⟨"list", r.bytes.map fun b => setFloat (b.toNat : ℚ)⟩] := by
      intro r
      simp [byteMessages, byteAtoms]
    rw [hall, Option.map_some, Option.some.injEq]
    simp only [hone]
    exact List.map_eq_flatMap.symm

/-- Two lists, after an earlier chunk: the bytes are cut elsewhere than the lists were, into
two receive results. -/
theorem data_integrity_cut :
    ∃ cl₀ cl out₀, floatlistCreate true (fun _ => setSymbol "junk") 1024 = some cl₀ ∧
      receiveAll ⟨true, 64⟩ 0 cl₀ [⟨[9#8], ⟨2, 0#32, 0#16⟩, fun _ => setFloat 0⟩] =
        some (cl, out₀) ∧
      (receiveAll ⟨true, 64⟩ 0 cl
          [⟨[1#8, 2#8], ⟨2, 0#32, 0#16⟩, fun _ => setFloat 0⟩,
           ⟨[255#8], ⟨2, 0#32, 0#16⟩, fun _ => setFloat 0⟩]).map Prod.snd =
        some [⟨"list", [setFloat (1 : Nat), setFloat (2 : Nat)]⟩,
              ⟨"list", [setFloat (255 : Nat)]⟩] := by
  have h := data_integrity ⟨true, 64⟩ (fun _ => setSymbol "junk")
    [[setFloat (1 : Nat)], [setFloat (2 : Nat), setFloat (255 : Nat)]] 0
    [⟨[9#8], ⟨2, 0#32, 0#16⟩, fun _ => setFloat 0⟩]
    [⟨[1#8, 2#8], ⟨2, 0#32, 0#16⟩, fun _ => setFloat 0⟩,
     ⟨[255#8], ⟨2, 0#32, 0#16⟩, fun _ => setFloat 0⟩]
    [⟨[1#8, 2#8], ⟨2, 0#32, 0#16⟩, fun _ => setFloat 0⟩,
     ⟨[255#8], ⟨2, 0#32, 0#16⟩, fun _ => setFloat 0⟩]
    (by simp [Reception.Valid, inbufsize])
    ⟨by simp [Reception.Valid, inbufsize], by
      simp [wire, payload_chunkCreateList, listBytes]; decide⟩
    ⟨by simp [Reception.Valid, inbufsize], by
      simp [wire, payload_chunkCreateList, listBytes]; decide⟩
  rcases h with ⟨cl₀, cl, out₀, hcreate, hrun, -, hout⟩
  exact ⟨cl₀, cl, out₀, hcreate, hrun, by simpa using hout⟩

end Iemnet
