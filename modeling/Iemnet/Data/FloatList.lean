import Iemnet.Data.Chunk

/-!
# The re-used float list

Every object that outputs received data owns one {lit}`t_iemnet_floatlist`.  It
grows by replacing its buffer, shrinks by moving {lit}`argc` only, and
{lit}`iemnet__chunk2list` stores values without touching the type fields.  What
makes the output right is therefore an invariant of the list's whole history:
{lit}`Floatlist.WellTyped`.

Main results:

- Theorem {lit}`chunk2list_eq`: on a well-typed list the first {lit}`argc` atoms
  become exactly the bytes of the chunk, and the list stays well typed.
-/

namespace Iemnet

open Pd Foundations

/-- {lit}`t_iemnet_floatlist`. -/
structure Floatlist where
  argv : List Atom
  argc : Nat
  size : Nat
deriving DecidableEq, Repr

/-- {lit}`malloc` of {lit}`size` atoms: the memory holds arbitrary atoms. -/
def mallocAtoms (raw : Nat → Atom) (size : Nat) : List Atom :=
  (List.range size).map raw

/-- {lit}`iemnet__floatlist_init`. -/
def floatlistInit (cl : Floatlist) : Floatlist :=
  { cl with argv := Buffer.fill (fun _ _ => setFloat 0) cl.size cl.argv }

/-- {lit}`iemnet__floatlist_create`. -/
def floatlistCreate (mem : Bool) (raw : Nat → Atom) (size : Nat) : Option Floatlist :=
  if mem then some (floatlistInit ⟨mallocAtoms raw size, size, size⟩) else none

/-- {lit}`iemnet__floatlist_resize`. -/
def floatlistResize (mem : Bool) (raw : Nat → Atom) (cl : Option Floatlist) (size : Nat) :
    Option Floatlist :=
  match cl with
  | none => floatlistCreate mem raw size
  | some cl =>
      if size ≤ cl.size then some { cl with argc := size }
      else if mem then some (floatlistInit ⟨mallocAtoms raw size, size, size⟩)
      else none

/-- {lit}`iemnet__chunk2list`: the loop assigns {lit}`a_w.w_float` and leaves
{lit}`a_type` alone. -/
def chunk2list (mem : Bool) (raw : Nat → Atom) (c : Option Chunk)
    (dest : Option Floatlist) : Option Floatlist :=
  c.bind fun c =>
    (floatlistResize mem raw dest c.size).map fun dest =>
      { dest with
        argv := Buffer.fill
          (fun i a => { a with w := .float ((c.data[i]?.map BitVec.toNat).getD 0 : Nat) })
          c.size dest.argv }

/-! ## The invariant -/

/-- The allocated buffer is as long as recorded, covers {lit}`argc`, and every
atom in it is typed as a float. -/
structure Floatlist.WellTyped (cl : Floatlist) : Prop where
  length_eq : cl.argv.length = cl.size
  argc_le : cl.argc ≤ cl.size
  typed : ∀ a ∈ cl.argv, a.type = .float

/-- An initialised list holds float atoms only. -/
theorem floatlistInit_wellTyped {cl : Floatlist} (hlen : cl.argv.length = cl.size)
    (hargc : cl.argc ≤ cl.size) : (floatlistInit cl).WellTyped := by
  refine ⟨by simp [floatlistInit, hlen], hargc, ?_⟩
  intro a ha
  obtain ⟨i, hi⟩ := List.getElem?_of_mem ha
  simp only [floatlistInit, Buffer.getElem?_fill] at hi
  split at hi
  · rw [Option.map_eq_some_iff] at hi
    obtain ⟨_, _, rfl⟩ := hi
    rfl
  · rename_i hout
    rw [List.getElem?_eq_none (by omega)] at hi
    contradiction

/-- A fresh list is well typed whatever the memory held before. -/
theorem floatlistCreate_wellTyped (raw : Nat → Atom) (size : Nat) :
    ∃ cl, floatlistCreate true raw size = some cl ∧ cl.WellTyped := by
  refine ⟨_, rfl, floatlistInit_wellTyped ?_ (Nat.le_refl _)⟩
  simp [mallocAtoms]

/-- A new list holds float atoms only. -/
theorem wellTyped_of_floatlistCreate {mem : Bool} {raw : Nat → Atom} {size : Nat}
    {cl : Floatlist} (h : floatlistCreate mem raw size = some cl) : cl.WellTyped := by
  cases mem with
  | true =>
      rcases floatlistCreate_wellTyped raw size with ⟨cl', hcreate, hwell⟩
      rw [h, Option.some.injEq] at hcreate
      exact hcreate ▸ hwell
  | false => contradiction

/-- With memory a list of float atoms becomes one of the new size. -/
theorem floatlistResize_wellTyped (raw : Nat → Atom) {cl : Floatlist} (h : cl.WellTyped)
    (size : Nat) :
    ∃ cl', floatlistResize true raw (some cl) size = some cl' ∧ cl'.WellTyped ∧
      cl'.argc = size := by
  by_cases hle : size ≤ cl.size
  · exact ⟨{ cl with argc := size }, by simp [floatlistResize, hle],
      ⟨h.length_eq, hle, h.typed⟩, rfl⟩
  · refine ⟨_, by simp [floatlistResize, hle]; rfl, floatlistInit_wellTyped ?_ ?_, rfl⟩
    · simp [mallocAtoms]
    · exact Nat.le_refl _

/-- The atoms that stand for a sequence of bytes. -/
def byteAtoms (bytes : List (BitVec 8)) : List Atom :=
  bytes.map fun b => setFloat (b.toNat : Nat)

/-- Loading a chunk leaves exactly its bytes in the first {lit}`argc` atoms, all
of them floats: nothing of an earlier chunk shows through. -/
theorem chunk2list_eq (raw : Nat → Atom) {cl : Floatlist} (h : cl.WellTyped) (c : Chunk) :
    ∃ cl', chunk2list true raw (some c) (some cl) = some cl' ∧ cl'.WellTyped ∧
      cl'.argc = c.size ∧ cl'.argv.take cl'.argc = byteAtoms c.data := by
  obtain ⟨dest, hdest, hwell, hargc⟩ := floatlistResize_wellTyped raw h c.size
  refine ⟨_, by simp only [chunk2list, Option.bind_some, hdest, Option.map_some]; rfl, ?_⟩
  refine ⟨⟨by simpa using hwell.length_eq, by simpa using hwell.argc_le, ?_⟩, hargc, ?_⟩
  · intro a ha
    obtain ⟨i, hi⟩ := List.getElem?_of_mem ha
    rw [Buffer.getElem?_fill] at hi
    split at hi
    · rw [Option.map_eq_some_iff] at hi
      obtain ⟨old, hold, rfl⟩ := hi
      exact hwell.typed old (List.mem_of_getElem? hold)
    · exact hwell.typed a (List.mem_of_getElem? hi)
  · apply List.ext_getElem?
    intro i
    simp only [hargc]
    by_cases hi : i < c.size
    · have hlen : i < dest.argv.length := by
        have hcover := hwell.argc_le
        rw [hwell.length_eq]
        omega
      have hbyte : i < c.data.length := hi
      have htype : dest.argv[i].type = .float := hwell.typed _ (List.getElem_mem hlen)
      rw [List.getElem?_take_of_lt hi, Buffer.getElem?_fill, if_pos hi,
        List.getElem?_eq_getElem hlen]
      simp [byteAtoms, hbyte, setFloat, htype]
    · rw [List.getElem?_eq_none (by simp; omega),
        List.getElem?_eq_none (by simpa [byteAtoms, Chunk.size] using hi)]

/-- The same for a list that may not exist yet: a chunk with bytes makes one. -/
theorem chunk2list_sound (raw : Nat → Atom) {dest : Option Floatlist}
    (h : ∀ cl ∈ dest, cl.WellTyped) {c : Chunk} (hc : c.data ≠ []) :
    ∃ cl, chunk2list true raw (some c) dest = some cl ∧ cl.WellTyped ∧
      cl.argv.take cl.argc = byteAtoms c.data := by
  cases dest with
  | some cl =>
      rcases chunk2list_eq raw (h cl rfl) c with ⟨cl', hlist, hwell, -, htake⟩
      exact ⟨cl', hlist, hwell, htake⟩
  | none =>
      have hempty : (⟨[], 0, 0⟩ : Floatlist).WellTyped := ⟨rfl, le_rfl, by simp⟩
      rcases chunk2list_eq raw hempty c with ⟨cl', hlist, hwell, -, htake⟩
      refine ⟨cl', ?_, hwell, htake⟩
      rw [← hlist]
      have hpos : ¬ c.size ≤ 0 := Nat.not_le.2 (List.length_pos_iff.2 hc)
      have hresize : floatlistResize true raw none c.size =
          floatlistResize true raw (some ⟨[], 0, 0⟩) c.size := (if_neg hpos).symm
      unfold chunk2list
      rw [Option.bind_some, Option.bind_some, hresize]

/-! ## Without memory -/

/-- A list for {lit}`size` values can be had: there is memory, or the old list is long
enough. -/
def ListAvailable (mem : Bool) (dest : Option Floatlist) (size : Nat) : Prop :=
  mem = true ∨ ∃ cl ∈ dest, size ≤ cl.size

/-- Shrinking a list needs no memory. -/
theorem floatlistResize_of_le (mem : Bool) (raw : Nat → Atom) {cl : Floatlist} {size : Nat}
    (h : size ≤ cl.size) :
    floatlistResize mem raw (some cl) size = floatlistResize true raw (some cl) size := by
  simp only [floatlistResize, if_pos h]

/-- Where there is a list for the bytes, memory does not matter. -/
theorem chunk2list_available {mem : Bool} (raw : Nat → Atom) {dest : Option Floatlist}
    {c : Chunk} (h : ListAvailable mem dest c.size) :
    chunk2list mem raw (some c) dest = chunk2list true raw (some c) dest := by
  rcases h with hmem | ⟨cl, hcl, hle⟩
  · rw [hmem]
  · rw [Option.mem_def] at hcl
    subst hcl
    simp only [chunk2list, Option.bind_some, floatlistResize_of_le mem raw hle]

/-- Without a list for the bytes there is no result. -/
theorem chunk2list_unavailable {mem : Bool} (raw : Nat → Atom) {dest : Option Floatlist}
    {c : Chunk} (h : ¬ ListAvailable mem dest c.size) :
    chunk2list mem raw (some c) dest = none := by
  have hmem : mem = false := by
    cases mem with
    | false => rfl
    | true => exact absurd (Or.inl rfl) h
  subst hmem
  cases dest with
  | none => rfl
  | some cl =>
      have hgt : ¬ c.size ≤ cl.size := fun hle => h (Or.inr ⟨cl, rfl, hle⟩)
      simp [chunk2list, floatlistResize, hgt]

/-- Whatever the allocator does, a list that is there afterwards is well typed. -/
theorem chunk2list_wellTyped {mem : Bool} (raw : Nat → Atom) {dest : Option Floatlist}
    (h : ∀ cl ∈ dest, cl.WellTyped) (c : Chunk) :
    ∀ cl ∈ chunk2list mem raw (some c) dest, cl.WellTyped := by
  intro cl hcl
  by_cases havailable : ListAvailable mem dest c.size
  · rw [chunk2list_available raw havailable] at hcl
    cases dest with
    | some old =>
        rcases chunk2list_eq raw (h old rfl) c with ⟨cl', hlist, hwell, -⟩
        rw [hlist, Option.mem_some_iff] at hcl
        exact hcl ▸ hwell
    | none =>
        by_cases hc : c.data = []
        · rcases floatlistCreate_wellTyped raw 0 with ⟨cl', hcreate, hwell⟩
          have hsize : c.size = 0 := by rw [Chunk.size, hc, List.length_nil]
          have hlist : chunk2list true raw (some c) none = some cl' := by
            rw [chunk2list, Option.bind_some, hsize]
            exact congrArg (Option.map _) hcreate
          rw [hlist, Option.mem_some_iff] at hcl
          exact hcl ▸ hwell
        · rcases chunk2list_sound raw h hc with ⟨cl', hlist, hwell, -⟩
          rw [hlist, Option.mem_some_iff] at hcl
          exact hcl ▸ hwell
  · rw [chunk2list_unavailable raw havailable] at hcl
    cases hcl

/-- If a list can be had, a chunk leaves its bytes in it. -/
theorem chunk2list_loads {mem : Bool} (raw : Nat → Atom) {dest : Option Floatlist}
    (h : ∀ cl ∈ dest, cl.WellTyped) {c : Chunk} (hlist : ListAvailable mem dest c.size) :
    ∃ cl, chunk2list mem raw (some c) dest = some cl ∧ cl.WellTyped ∧
      cl.argv.take cl.argc = byteAtoms c.data := by
  rw [chunk2list_available raw hlist]
  by_cases hc : c.data = []
  · cases dest with
    | some old =>
        rcases chunk2list_eq raw (h old rfl) c with ⟨cl, hload, hwell, -, htake⟩
        exact ⟨cl, hload, hwell, htake⟩
    | none =>
        have hsize : c.size = 0 := by rw [Chunk.size, hc, List.length_nil]
        have hload : chunk2list true raw (some c) none = some ⟨[], 0, 0⟩ := by
          rw [chunk2list, Option.bind_some, hsize]
          rfl
        refine ⟨_, hload, ⟨rfl, le_rfl, by simp⟩, ?_⟩
        rw [hc]
        rfl
  · exact chunk2list_sound raw h hc

end Iemnet
