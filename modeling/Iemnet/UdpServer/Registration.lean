import Iemnet.Foundations.Registry
import Iemnet.UdpServer.Clients

/-!
# Registration and expiry refine a bounded registry

Without disconnections the table of the UDP server is a registry of addresses: an
address that is heard again is refreshed, a new one is entered if there is room, and a
check drops those that have been silent for longer than the timeout.

Main results:

- Theorem {lit}`Represents.register`: one operation and its counterpart on the
  registry.
- Theorem {lit}`registration_refines`: every run of operations.
-/

namespace Iemnet.UdpServer

open Pd Foundations

/-! ## The reference model -/

/-- A registry of addresses with a timeout and the time of the last check. -/
structure Reference where
  registry : Registry (Nat × BitVec 16) ℚ
  timeout : ℚ
  lastchecked : ℚ

namespace Reference

/-- What happens to the registry. -/
inductive Event
  | add (address : Nat × BitVec 16)
  | check
  | timeout (t : ℚ)
  | capacity (m : ℚ)

/-- An event at the logical time {lit}`now`.  A check takes place if the timeout is
positive and time has advanced since the last one; it keeps the entries that have been
idle for at most the timeout. -/
def step (now : ℚ) (r : Reference) : Event → Reference
  | .add address => { r with registry := r.registry.add address now }
  | .check =>
      if 0 < r.timeout ∧ 0 < clockGettimesince now r.lastchecked then
        { r with
          registry := r.registry.keep fun seen => clockGettimesince now seen ≤ r.timeout
          lastchecked := now }
      else r
  | .timeout t => { r with timeout := t }
  | .capacity m => if 1 ≤ m then { r with registry := r.registry.resize ⌊m⌋.toNat } else r

/-- Nobody is registered, and nobody expires. -/
def initial : Reference :=
  ⟨⟨[], Server.maxConnect⟩, 0, 0⟩

theorem wellFormed_initial : initial.registry.WellFormed :=
  ⟨List.nodup_nil, Nat.zero_le _⟩

/-- Every event keeps the addresses different and their number within the capacity. -/
theorem wellFormed_step {r : Reference} (h : r.registry.WellFormed) (now : ℚ) (e : Event) :
    (r.step now e).registry.WellFormed := by
  cases e with
  | add address => exact h.add address now
  | check =>
      simp only [step]
      split
      · exact h.keep fun seen => clockGettimesince now seen ≤ r.timeout
      · exact h
  | timeout t => exact h
  | capacity m =>
      simp only [step]
      split
      · exact h.resize _
      · exact h

end Reference

/-! ## The operations -/

/-- The operations on the table that do not disconnect anybody. -/
inductive Registering
  | add (host : Nat) (port : BitVec 16)
  | autoremove
  | timeout (f : FloatArg)
  | maxconnections (f : FloatArg)

/-- What an operation means for the registry. -/
def Registering.event : Registering → Reference.Event
  | .add host port => .add (host, port)
  | .autoremove => .check
  | .timeout f => .timeout f.value
  | .maxconnections f => .capacity f.value

/-- Allocations succeed, a host is an {lit}`unsigned long`, and the table is never asked
to have 2^31 slots or more. -/
def Admissible (abi : Abi) (a : Env × Registering) : Prop :=
  a.1.client = true ∧ a.1.mem = true ∧
    match a.2 with
    | .add host _ => host < 2 ^ abi.longBits
    | .maxconnections f => f.value < 2 ^ 31
    | _ => True

namespace Server

variable {x : Server} {r : Reference} {l : List UdpSender}

/-- One operation. -/
def register (x : Server) (a : Env × Registering) : Server :=
  match a.2 with
  | .add host port => (x.senderAdd a.1 host port).1
  | .autoremove => x.autoremove a.1.now
  | .timeout f => x.setTimeout f
  | .maxconnections f => x.setMaxconnections a.1 f

/-- A client as an entry of the registry. -/
def entry (abi : Abi) (y : UdpSender) : (Nat × BitVec 16) × ℚ :=
  (y.key abi, y.lastseen)

/-- The table holds the entries of the reference model, in their order. -/
structure Represents (abi : Abi) (x : Server) (r : Reference) (l : List UdpSender) : Prop where
  holds : x.Holds l
  abi_eq : x.abi = abi
  entries_eq : r.registry.entries = l.map (entry abi)
  capacity_eq : r.registry.capacity = x.maxconnections
  max_lt : x.maxconnections < 2 ^ 31
  timeout_eq : r.timeout = x.timeout
  lastchecked_eq : r.lastchecked = x.lastchecked
  accept_ne : x.accept ≠ 0

variable {abi : Abi}

/-- The keys of the registry are the addresses of the clients. -/
theorem Represents.mem_keys_iff (h : x.Represents abi r l) (k : Nat × BitVec 16) :
    k ∈ r.registry.keys ↔ ∃ y ∈ l, y.key x.abi = k := by
  rw [Registry.keys, h.entries_eq, h.abi_eq]
  simp [entry]

/-- Adding a client and registering its address correspond. -/
theorem Represents.add (h : x.Represents abi r l) (hwf : r.registry.WellFormed) {env : Env}
    (hclient : env.client = true) {host : Nat} (hhost : host < 2 ^ abi.longBits)
    (port : BitVec 16) :
    ∃ l', (x.senderAdd env host port).1.Represents abi (r.step env.now (.add (host, port))) l' := by
  have hlen : r.registry.entries.length = l.length := by
    rw [h.entries_eq, List.length_map]
  have hroom_iff : x.Room ↔ r.registry.entries.length < r.registry.capacity := by
    rw [Room, toInt32_natCast h.max_lt, h.holds.count, hlen, h.capacity_eq, Nat.cast_lt]
  rcases findSender_cases h.holds host port with ⟨hfind, hnew⟩ | ⟨id, y, hid, hkey, hfind⟩
  · have hk : (host, port) ∉ r.registry.keys := by
      intro hmem
      rcases (h.mem_keys_iff _).1 hmem with ⟨y, hy, hkey⟩
      exact hnew y hy hkey
    by_cases hroom : x.Room
    · rw [senderAdd_new h.holds h.accept_ne hclient hfind hroom]
      refine ⟨_, h.holds.entered env host port hroom, h.abi_eq, ?_, ?_, h.max_lt, h.timeout_eq,
        h.lastchecked_eq, h.accept_ne⟩
      · have hentry : entry abi (newSender env x host port) = ((host, port), env.now) := by
          simp only [entry, UdpSender.key, newSender, h.abi_eq, abi.toULong_ofULong hhost]
        show (r.registry.add (host, port) env.now).entries = _
        rw [Registry.add_new hk (hroom_iff.1 hroom), h.entries_eq, List.map_append, List.map_cons,
          List.map_nil, hentry]
      · show (r.registry.add (host, port) env.now).capacity = _
        rw [Registry.add_new hk (hroom_iff.1 hroom)]
        exact h.capacity_eq
    · have hfull : r.registry.capacity ≤ r.registry.entries.length :=
        Nat.not_lt.1 fun hlt => hroom (hroom_iff.2 hlt)
      have hsame : r.step env.now (.add (host, port)) = r := by
        show { r with registry := r.registry.add (host, port) env.now } = r
        rw [Registry.add_full hk hfull]
      rw [senderAdd_full h.holds h.accept_ne hfind hroom, hsame]
      exact ⟨l, h⟩
  · rw [senderAdd_known h.holds h.accept_ne hid hfind]
    have hentry : r.registry.entries[id]? = some ((host, port), y.lastseen) := by
      rw [h.entries_eq, List.getElem?_map, hid, Option.map_some, entry, ← h.abi_eq, hkey]
    have hrefresh := Registry.add_known hwf.nodup hentry env.now
    refine ⟨_, h.holds.heard env hid, h.abi_eq, ?_, ?_, h.max_lt, h.timeout_eq,
      h.lastchecked_eq, h.accept_ne⟩
    · have hseen : entry abi (seenNow env y) = ((host, port), env.now) := by
        rw [← hkey, h.abi_eq]
        rfl
      show (r.registry.add (host, port) env.now).entries = _
      rw [hrefresh, h.entries_eq, List.map_set, hseen]
    · show (r.registry.add (host, port) env.now).capacity = _
      rw [hrefresh]
      exact h.capacity_eq

/-- The check for late clients and the check of the registry correspond. -/
theorem Represents.check (h : x.Represents abi r l) (now : ℚ) :
    ∃ l', (x.autoremove now).Represents abi (r.step now .check) l' := by
  by_cases hdue : x.Due now
  · have hcheck : 0 < r.timeout ∧ 0 < clockGettimesince now r.lastchecked := by
      rw [h.timeout_eq, h.lastchecked_eq]
      exact hdue
    have hholds := h.holds.autoremove now
    rw [survivors, if_pos hdue] at hholds
    rw [Reference.step, if_pos hcheck]
    rw [autoremove_eq h.holds hdue] at hholds ⊢
    refine ⟨_, hholds, h.abi_eq, ?_, h.capacity_eq, h.max_lt, h.timeout_eq, rfl, h.accept_ne⟩
    show r.registry.entries.filter _ = _
    rw [h.entries_eq, List.filter_map, h.timeout_eq]
    rfl
  · have hcheck : ¬ (0 < r.timeout ∧ 0 < clockGettimesince now r.lastchecked) := by
      rw [h.timeout_eq, h.lastchecked_eq]
      exact hdue
    rw [autoremove_of_not_due hdue, Reference.step, if_neg hcheck]
    exact ⟨l, h⟩

/-- The cast of a limit that fits is its integral part. -/
theorem toUInt_eq_floor {f : FloatArg} (hpos : 1 ≤ f.value) (hlt : f.value < 2 ^ 31) :
    f.toUInt = ⌊f.value⌋.toNat ∧ f.toUInt < 2 ^ 31 := by
  have hnum : 0 ≤ f.value.num := Rat.num_nonneg.2 (by linarith)
  have htruncate : truncate f.value = ⌊f.value⌋ := by
    rw [truncate, Int.tdiv_eq_ediv_of_nonneg hnum]
    exact (Rat.floor_def f.value).symm
  have hfloor : 0 ≤ ⌊f.value⌋ ∧ ⌊f.value⌋ < 2 ^ 31 := by
    constructor
    · exact Int.floor_nonneg.2 (by linarith)
    · exact Int.floor_lt.2 (by exact_mod_cast hlt)
  rw [FloatArg.toUInt, htruncate, if_pos (by omega)]
  omega

/-- A new capacity of the table and of the registry correspond. -/
theorem Represents.resize (h : x.Represents abi r l) {env : Env} (hmem : env.mem = true)
    {f : FloatArg} (hlt : f.value < 2 ^ 31) :
    ∃ l', (x.setMaxconnections env f).Represents abi (r.step env.now (.capacity f.value)) l' := by
  have hlen : r.registry.entries.length = x.nconnections := by
    rw [h.entries_eq, List.length_map, h.holds.count]
  unfold Server.setMaxconnections
  dsimp only
  by_cases hone : f.value < 1
  · rw [if_pos hone, Reference.step, if_neg (not_le.2 hone)]
    exact ⟨l, h⟩
  · have hcast := toUInt_eq_floor (not_lt.1 hone) hlt
    rw [if_neg hone, Reference.step, if_pos (not_lt.1 hone), ← hcast.1, Registry.resize, hlen]
    by_cases hcount : f.toUInt < x.nconnections
    · rw [if_pos hcount, if_neg (Nat.not_le.2 hcount)]
      exact ⟨l, h⟩
    · have hle : x.nconnections ≤ f.toUInt := Nat.not_lt.1 hcount
      rw [if_neg hcount, if_pos hle]
      by_cases hsame : f.toUInt = x.maxconnections
      · rw [if_pos hsame]
        exact ⟨l, h.holds, h.abi_eq, h.entries_eq, hsame, h.max_lt, h.timeout_eq,
          h.lastchecked_eq, h.accept_ne⟩
      · rw [if_neg hsame, if_pos hmem]
        have hroom : l.length ≤ f.toUInt := by
          rw [← h.holds.count]
          exact hle
        exact ⟨l, h.holds.resized hroom, h.abi_eq, h.entries_eq, rfl, hcast.2, h.timeout_eq,
          h.lastchecked_eq, h.accept_ne⟩

/-- An operation on the table is the event on the registry. -/
theorem Represents.register (h : x.Represents abi r l) (hwf : r.registry.WellFormed)
    {a : Env × Registering} (ha : Admissible abi a) :
    ∃ l', (x.register a).Represents abi (r.step a.1.now a.2.event) l' := by
  rcases a with ⟨env, a⟩
  rcases ha with ⟨hclient, hmem, harg⟩
  cases a with
  | add host port => exact h.add hwf hclient harg port
  | autoremove => exact h.check env.now
  | timeout f =>
      exact ⟨l, h.holds.congr rfl rfl rfl, h.abi_eq, h.entries_eq, h.capacity_eq, h.max_lt, rfl,
        h.lastchecked_eq, h.accept_ne⟩
  | maxconnections f => exact h.resize hmem harg

/-- A new object accepts clients and has none. -/
theorem represents_created (h : Created x) : x.Represents x.abi .initial [] := by
  rcases h with ⟨abi, env, k, f, o, -, rfl⟩
  have hport := unbound_setPort (blank abi env (toInt32 (1000 + k))) env f o
  have hsr : (new abi env (toInt32 (1000 + k)) f o).sr = List.replicate maxConnect none :=
    congrArg Server.sr hport
  have hcount : (new abi env (toInt32 (1000 + k)) f o).nconnections = 0 :=
    congrArg Server.nconnections hport
  have hmax : (new abi env (toInt32 (1000 + k)) f o).maxconnections = maxConnect :=
    congrArg Server.maxconnections hport
  have haccept : (new abi env (toInt32 (1000 + k)) f o).accept = 1 := rfl
  refine ⟨⟨?_, hcount, ?_, by simp⟩, rfl, rfl, hmax.symm, ?_, ?_, ?_, ?_⟩
  · rw [hsr, hmax]
    rfl
  · rw [hmax]
    exact Nat.zero_le _
  · rw [hmax]
    decide
  · exact (congrArg Server.timeout hport).symm
  · exact (congrArg Server.lastchecked hport).symm
  · rw [haccept]
    decide

end Server

/-- After any operations on a new object the table represents the registry that the same
events lead to: its first slots hold the entries of the registry in their order, with
different addresses, and the other slots are {lit}`NULL`. -/
theorem registration_refines {x : Server} (hx : Created x) (acts : List (Env × Registering))
    (hacts : ∀ a ∈ acts, Admissible x.abi a) :
    ∃ l, (acts.foldl Server.register x).Represents x.abi
        (acts.foldl (fun r a => r.step a.1.now a.2.event) .initial) l ∧
      (l.map (UdpSender.key x.abi)).Nodup := by
  have hrun : ∀ acts : List (Env × Registering), (∀ a ∈ acts, Admissible x.abi a) →
      ∀ (y : Server) (r : Reference) (l : List UdpSender), y.Represents x.abi r l →
        r.registry.WellFormed →
          ∃ l', (acts.foldl Server.register y).Represents x.abi
              (acts.foldl (fun r a => r.step a.1.now a.2.event) r) l' ∧
            (acts.foldl (fun r a => r.step a.1.now a.2.event) r).registry.WellFormed := by
    intro acts
    induction acts with
    | nil => exact fun _ y r l hrep hwf => ⟨l, hrep, hwf⟩
    | cons a acts ih =>
        intro hall y r l hrep hwf
        rcases hrep.register hwf (hall a List.mem_cons_self) with ⟨l₁, hrep₁⟩
        exact ih (fun b hb => hall b (List.mem_cons_of_mem a hb)) _ _ l₁ hrep₁
          (Reference.wellFormed_step hwf a.1.now a.2.event)
  rcases hrun acts hacts x .initial [] (Server.represents_created hx)
    Reference.wellFormed_initial with ⟨l, hrep, hwf⟩
  refine ⟨l, hrep, ?_⟩
  have hkeys := hwf.nodup
  rw [Registry.keys, hrep.entries_eq, List.map_map] at hkeys
  exact hkeys

/-- Two peers are heard, the first one again; after the timeout the second one is
dropped. -/
def secondExpires : List (Env × Registering) :=
  [(plainEnv 0 [], .add 1 5000#16),
    (plainEnv 0 [], .add 2 5000#16),
    (plainEnv 28224 [], .add 1 5000#16),
    (plainEnv 28224 [], .timeout ⟨1, 0#32⟩),
    (plainEnv 42336 [], .autoremove)]

theorem registration_refines_run :
    ∃ l, (secondExpires.foldl Server.register started).Represents started.abi
        (secondExpires.foldl (fun r a => r.step a.1.now a.2.event) .initial) l ∧
      l.map (Server.entry started.abi) = [((1, 5000#16), 28224)] := by
  have hadmissible : ∀ a ∈ secondExpires, Admissible started.abi a := by
    intro a ha
    simp only [secondExpires, List.mem_cons, List.not_mem_nil, or_false] at ha
    rcases ha with rfl | rfl | rfl | rfl | rfl
    · exact ⟨rfl, rfl, by decide⟩
    · exact ⟨rfl, rfl, by decide⟩
    · exact ⟨rfl, rfl, by decide⟩
    · exact ⟨rfl, rfl, trivial⟩
    · exact ⟨rfl, rfl, trivial⟩
  rcases registration_refines init_started secondExpires hadmissible with ⟨l, hrep, -⟩
  refine ⟨l, hrep, ?_⟩
  rw [← hrep.entries_eq]
  decide +kernel

end Iemnet.UdpServer
