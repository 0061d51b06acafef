import Iemnet.UdpServer.Ownership

/-!
# What can happen to the client table of the UDP server

Every input changes the table by a sequence of a few moves, whether or not the table is in
order: a client is removed by its index, the table is checked for late clients, a client
is heard from, a slot behind the counted ones is filled, the capacity changes.

Main results:

- Theorem {lit}`moves_step`: one input is a sequence of moves.
- Theorem {lit}`Books.Sound.move`: what every move keeps.
- Theorem {lit}`holds_of_sound`: a table whose counted slots are all used is in order.
-/

namespace Iemnet.UdpServer

open Pd Foundations

/-- The client table with its two sizes and the account of the client records. -/
structure Books where
  sr : List (Option UdpSender)
  nconnections : Nat
  maxconnections : Nat
  freed : List Nat
  made : Nat

namespace Books

variable {b b' : Books} {y : UdpSender} {i : Nat}

/-- The clients of the table. -/
def clients (b : Books) : List UdpSender :=
  SlotTable.entries b.sr

/-- The clients that count. -/
def counted (b : Books) : List UdpSender :=
  SlotTable.window b.sr 0 b.nconnections

/-! ## Moves -/

/-- Client {lit}`y` is freed and its slot emptied. -/
def without (b : Books) (i : Nat) (y : UdpSender) : Books :=
  { b with
    sr := b.sr.set i none
    nconnections := b.nconnections - 1
    freed := b.freed ++ [y.id] }

/-- The counted clients that are not to be kept are freed, the others come first. -/
def checked (b : Books) (keep : UdpSender → Bool) : Books :=
  { b with
    sr := SlotTable.table (b.counted.filter keep)
      (b.maxconnections - (b.counted.filter keep).length)
    nconnections := (b.counted.filter keep).length
    freed := b.freed ++ (b.counted.filter fun y => !keep y).map UdpSender.id }

/-- The moves of {lit}`udpserver_disconnect`. -/
inductive Drop (b : Books) : Books → Prop
  | remove {i : Nat} {y : UdpSender} (hi : i < b.nconnections)
      (hslot : SlotTable.get b.sr i = some y) : Drop b (b.without i y)
  | check (keep : UdpSender → Bool) : Drop b (b.checked keep)

/-- The moves of all inputs. -/
inductive Move (b : Books) : Books → Prop
  | drop {b' : Books} (h : Drop b b') : Move b b'
  | hear {i : Nat} {y : UdpSender} (hslot : SlotTable.get b.sr i = some y) (now : ℚ) :
      Move b { b with sr := b.sr.set i (some { y with lastseen := now }) }
  | enter (v : Option UdpSender) (hroom : b.nconnections < b.maxconnections)
      (hsmall : b.nconnections + 1 < 2 ^ 31) (hid : ∀ y ∈ v, y.id = b.made) :
      Move b { b with
        sr := b.sr.set b.nconnections v
        nconnections := b.nconnections + 1
        made := b.made + v.toList.length }
  | resize {n : Nat} (hn : b.nconnections ≤ n) :
      Move b { b with sr := SlotTable.resize b.sr n, maxconnections := n }

/-- A sequence of moves that drop clients. -/
abbrev Drops : Books → Books → Prop :=
  Relation.ReflTransGen Drop

/-- A sequence of moves. -/
abbrev Moves : Books → Books → Prop :=
  Relation.ReflTransGen Move

/-- Removals are moves. -/
theorem Drops.moves (h : Drops b b') : Moves b b' := by
  induction h with
  | refl => exact .refl
  | tail _ hlast ih => exact ih.tail (.drop hlast)

/-! ## What every move keeps -/

/-- The table has {lit}`x_maxconnections` slots, not more clients than are counted, and
these are different and have not been freed. -/
structure Sound (b : Books) : Prop where
  length_sr : b.sr.length = b.maxconnections
  entries_le : b.clients.length ≤ b.nconnections
  count_le : b.nconnections ≤ b.maxconnections
  small : b.nconnections < 2 ^ 31
  ids_nodup : (b.clients.map UdpSender.id).Nodup
  not_freed : ∀ y ∈ b.clients, y.id ∉ b.freed
  id_lt : ∀ y ∈ b.clients, y.id < b.made
  freed_lt : ∀ k ∈ b.freed, k < b.made

/-- The table has {lit}`x_maxconnections` slots, and not more clients count. -/
structure Sized (b : Books) : Prop where
  length_sr : b.sr.length = b.maxconnections
  count_le : b.nconnections ≤ b.maxconnections

theorem Sound.sized (h : b.Sound) : b.Sized :=
  ⟨h.length_sr, h.count_le⟩

theorem length_kept_le (b : Books) (keep : UdpSender → Bool) :
    (b.counted.filter keep).length ≤ b.nconnections :=
  Nat.le_trans (List.length_filter_le _ _) (SlotTable.length_window_le _ _)

theorem Sized.drop (h : b.Sized) (hd : Drop b b') : b'.Sized := by
  have hcount := h.count_le
  cases hd with
  | remove hi hslot =>
      exact ⟨(List.length_set ..).trans h.length_sr, Nat.le_trans (Nat.sub_le _ _) hcount⟩
  | check keep =>
      have hkept := b.length_kept_le keep
      refine ⟨?_, hkept.trans hcount⟩
      show (SlotTable.table _ _).length = b.maxconnections
      rw [SlotTable.length_table]
      omega

/-- Removals leave the array as long as it was. -/
theorem Sized.drops (h : b.Sized) (hd : Drops b b') : b'.Sized := by
  induction hd with
  | refl => exact h
  | tail _ hlast ih => exact ih.drop hlast

/-- After a check, those clients are left that it keeps. -/
theorem clients_checked (b : Books) (keep : UdpSender → Bool) :
    (b.checked keep).clients = b.counted.filter keep :=
  SlotTable.entries_table ..

/-- Who counts when a slot has been emptied. -/
theorem counted_without (b : Books) (i : Nat) (y : UdpSender) :
    ∀ z ∈ (b.without i y).counted, ∃ j, j < b.nconnections - 1 ∧ j ≠ i ∧
      SlotTable.get b.sr j = some z := by
  intro z hz
  rcases SlotTable.mem_window.1 hz with ⟨j, hj, hget⟩
  change SlotTable.get (b.sr.set i none) j = some z at hget
  rw [SlotTable.get_set] at hget
  refine ⟨j, hj, ?_⟩
  split at hget
  · contradiction
  · rename_i hne
    refine ⟨?_, hget⟩
    rintro rfl
    exact hne ⟨rfl, SlotTable.lt_of_get hget⟩

/-- Client {lit}`k` is not among those that count. -/
def Uncounted (b : Books) (k : Nat) : Prop :=
  ∀ y ∈ b.counted, y.id ≠ k

theorem Uncounted.drop {k : Nat} (h : b.Uncounted k) (hd : Drop b b') : b'.Uncounted k := by
  intro z hz
  cases hd with
  | @remove i y hi hslot =>
      rcases counted_without b i y z hz with ⟨j, hj, _, hget⟩
      exact h z (SlotTable.mem_window.2 ⟨j, by omega, hget⟩)
  | check keep =>
      have hkept : z ∈ (b.checked keep).clients := (SlotTable.window_sublist ..).subset hz
      rw [clients_checked] at hkept
      exact h z (List.mem_of_mem_filter hkept)

theorem Uncounted.drops {k : Nat} (h : b.Uncounted k) (hd : Drops b b') : b'.Uncounted k := by
  induction hd with
  | refl => exact h
  | tail _ hlast ih => exact ih.drop hlast

theorem Sound.ids_of_sublist (h : b.Sound) (hsub : b'.clients.Sublist b.clients) :
    (b'.clients.map UdpSender.id).Nodup :=
  h.ids_nodup.sublist (hsub.map UdpSender.id)

/-- Soundness survives the removal of one client. -/
theorem Sound.without (h : b.Sound) (hslot : SlotTable.get b.sr i = some y) :
    (b.without i y).Sound := by
  have hperm := SlotTable.entries_set_none_perm hslot
  have hsub : (b.without i y).clients.Sublist b.clients :=
    SlotTable.entries_set_none_sublist b.sr i
  have hids : (y.id :: (b.without i y).clients.map UdpSender.id).Nodup :=
    (hperm.map UdpSender.id).nodup_iff.1 h.ids_nodup
  have hy : y ∈ b.clients := SlotTable.mem_entries.2 ⟨i, hslot⟩
  constructor
  case length_sr => exact (List.length_set ..).trans h.length_sr
  case entries_le =>
    have hlen := hperm.length_eq
    have hle := h.entries_le
    show (SlotTable.entries (b.sr.set i none)).length ≤ b.nconnections - 1
    rw [clients] at hle
    rw [List.length_cons] at hlen
    omega
  case count_le => exact Nat.le_trans (Nat.sub_le _ _) h.count_le
  case small => exact Nat.lt_of_le_of_lt (Nat.sub_le _ _) h.small
  case ids_nodup => exact h.ids_of_sublist hsub
  case not_freed =>
    intro z hz hfreed
    cases List.mem_append.1 hfreed with
    | inl hold => exact h.not_freed z (hsub.subset hz) hold
    | inr hnew =>
        have hzy : z.id = y.id := List.mem_singleton.1 hnew
        exact (List.nodup_cons.1 hids).1 (hzy ▸ List.mem_map_of_mem hz)
  case id_lt => exact fun z hz => h.id_lt z (hsub.subset hz)
  case freed_lt =>
    intro k hk
    cases List.mem_append.1 hk with
    | inl hold => exact h.freed_lt k hold
    | inr hnew => exact List.mem_singleton.1 hnew ▸ h.id_lt y hy

/-- Soundness survives the check for late clients. -/
theorem Sound.checked (h : b.Sound) (keep : UdpSender → Bool) : (b.checked keep).Sound := by
  have hcounted : b.counted.Sublist b.clients := SlotTable.window_sublist ..
  have hsub : (b.counted.filter keep).Sublist b.clients := List.filter_sublist.trans hcounted
  have hsized := h.sized.drop (.check keep)
  constructor
  case length_sr => exact hsized.length_sr
  case entries_le =>
    rw [clients_checked]
    exact Nat.le_refl _
  case count_le => exact hsized.count_le
  case small => exact Nat.lt_of_le_of_lt (b.length_kept_le keep) h.small
  case ids_nodup =>
    apply h.ids_of_sublist
    rw [clients_checked]
    exact hsub
  case not_freed =>
    intro z hz hfreed
    rw [clients_checked] at hz
    cases List.mem_append.1 hfreed with
    | inl hold => exact h.not_freed z (hsub.subset hz) hold
    | inr hnew =>
        rcases List.mem_map.1 hnew with ⟨w, hw, hid⟩
        have hw' := List.mem_filter.1 hw
        have hz' := List.mem_filter.1 hz
        have hsame : w = z := List.inj_on_of_nodup_map h.ids_nodup (hcounted.subset hw'.1)
          (hcounted.subset hz'.1) hid
        have hkeep := hz'.2
        rw [← hsame] at hkeep
        simp [hkeep] at hw'
  case id_lt =>
    intro z hz
    rw [clients_checked] at hz
    exact h.id_lt z (hsub.subset hz)
  case freed_lt =>
    intro k hk
    cases List.mem_append.1 hk with
    | inl hold => exact h.freed_lt k hold
    | inr hnew =>
        rcases List.mem_map.1 hnew with ⟨w, hw, rfl⟩
        exact h.id_lt w (hcounted.subset (List.mem_filter.1 hw).1)

theorem Sound.drop (h : b.Sound) (hd : Drop b b') : b'.Sound := by
  cases hd with
  | remove _ hslot => exact h.without hslot
  | check keep => exact h.checked keep

/-- Soundness survives a datagram from a known client. -/
theorem Sound.hear (h : b.Sound) (hslot : SlotTable.get b.sr i = some y) (now : ℚ) :
    { b with sr := b.sr.set i (some { y with lastseen := now }) }.Sound := by
  have hi := SlotTable.lt_of_get hslot
  have hold := SlotTable.entries_set_none_perm hslot
  have hnew := SlotTable.entries_set_some hi { y with lastseen := now }
  have hmap : ((SlotTable.entries (b.sr.set i (some { y with lastseen := now }))).map
      UdpSender.id).Perm (b.clients.map UdpSender.id) :=
    (hnew.map UdpSender.id).trans (hold.map UdpSender.id).symm
  have hmem : ∀ z ∈ SlotTable.entries (b.sr.set i (some { y with lastseen := now })),
      ∃ w ∈ b.clients, w.id = z.id := fun z hz =>
    List.mem_map.1 (hmap.mem_iff.1 (List.mem_map_of_mem hz))
  constructor
  case length_sr => exact (List.length_set ..).trans h.length_sr
  case entries_le =>
    have hlen := hmap.length_eq
    rw [List.length_map, List.length_map] at hlen
    exact Nat.le_trans (Nat.le_of_eq hlen) h.entries_le
  case count_le => exact h.count_le
  case small => exact h.small
  case ids_nodup => exact hmap.nodup_iff.2 h.ids_nodup
  case not_freed =>
    intro z hz
    rcases hmem z hz with ⟨w, hw, hid⟩
    exact hid ▸ h.not_freed w hw
  case id_lt =>
    intro z hz
    rcases hmem z hz with ⟨w, hw, hid⟩
    exact hid ▸ h.id_lt w hw
  case freed_lt => exact h.freed_lt

/-- Soundness survives the entry of a new client. -/
theorem Sound.enter (h : b.Sound) (v : Option UdpSender)
    (hroom : b.nconnections < b.maxconnections) (hsmall : b.nconnections + 1 < 2 ^ 31)
    (hid : ∀ y ∈ v, y.id = b.made) :
    { b with
      sr := b.sr.set b.nconnections v
      nconnections := b.nconnections + 1
      made := b.made + v.toList.length }.Sound := by
  have hlt : b.nconnections < b.sr.length := by
    rw [h.length_sr]
    exact hroom
  have hsub := SlotTable.entries_set_none_sublist b.sr b.nconnections
  have hperm : (SlotTable.entries (b.sr.set b.nconnections v)).Perm
      (v.toList ++ SlotTable.entries (b.sr.set b.nconnections none)) := by
    cases v with
    | none => exact List.Perm.refl _
    | some y => exact SlotTable.entries_set_some hlt y
  have hsplit : ∀ z ∈ SlotTable.entries (b.sr.set b.nconnections v),
      z ∈ v ∨ z ∈ b.clients := by
    intro z hz
    cases List.mem_append.1 (hperm.mem_iff.1 hz) with
    | inl hnew => exact Or.inl (Option.mem_toList.1 hnew)
    | inr hold => exact Or.inr (hsub.subset hold)
  have hone : v.toList.length ≤ 1 := by cases v <;> simp
  have hmade : ∀ z ∈ v, 0 < v.toList.length := by
    intro z hz
    rw [Option.mem_def] at hz
    simp [hz]
  constructor
  case length_sr => exact (List.length_set ..).trans h.length_sr
  case entries_le =>
    have hlen := hperm.length_eq
    have hle := hsub.length_le
    have hent := h.entries_le
    rw [List.length_append] at hlen
    rw [clients] at hent
    show (SlotTable.entries (b.sr.set b.nconnections v)).length ≤ b.nconnections + 1
    omega
  case count_le => exact hroom
  case small => exact hsmall
  case ids_nodup =>
    show ((SlotTable.entries (b.sr.set b.nconnections v)).map UdpSender.id).Nodup
    rw [(hperm.map UdpSender.id).nodup_iff, List.map_append, List.nodup_append]
    refine ⟨by cases v <;> simp, h.ids_nodup.sublist (hsub.map UdpSender.id), ?_⟩
    intro k hk k' hk' heq
    rcases List.mem_map.1 hk with ⟨z, hz, rfl⟩
    rcases List.mem_map.1 hk' with ⟨w, hw, rfl⟩
    have hlt := h.id_lt w (hsub.subset hw)
    rw [← heq, hid z (Option.mem_toList.1 hz)] at hlt
    exact Nat.lt_irrefl _ hlt
  case not_freed =>
    intro z hz hfreed
    cases hsplit z hz with
    | inl hnew =>
        have hlt := h.freed_lt _ hfreed
        rw [hid z hnew] at hlt
        exact Nat.lt_irrefl _ hlt
    | inr hold => exact h.not_freed z hold hfreed
  case id_lt =>
    intro z hz
    show z.id < b.made + v.toList.length
    cases hsplit z hz with
    | inl hnew =>
        have := hmade z hnew
        rw [hid z hnew]
        omega
    | inr hold => exact Nat.lt_add_right _ (h.id_lt z hold)
  case freed_lt => exact fun k hk => Nat.lt_add_right _ (h.freed_lt k hk)

/-- Soundness survives a new capacity that the clients fit into. -/
theorem Sound.resize (h : b.Sound) {n : Nat} (hn : b.nconnections ≤ n) :
    { b with sr := SlotTable.resize b.sr n, maxconnections := n }.Sound := by
  have hsub : (SlotTable.entries (SlotTable.resize b.sr n)).Sublist b.clients :=
    SlotTable.entries_resize_sublist b.sr n
  constructor
  case length_sr =>
    show (SlotTable.resize b.sr n).length = n
    rw [SlotTable.resize, List.length_append, List.length_take, List.length_replicate]
    omega
  case entries_le => exact hsub.length_le.trans h.entries_le
  case count_le => exact hn
  case small => exact h.small
  case ids_nodup => exact h.ids_of_sublist hsub
  case not_freed => exact fun z hz => h.not_freed z (hsub.subset hz)
  case id_lt => exact fun z hz => h.id_lt z (hsub.subset hz)
  case freed_lt => exact h.freed_lt

/-- Every move keeps the table sound. -/
theorem Sound.move (h : b.Sound) (hm : Move b b') : b'.Sound := by
  cases hm with
  | drop hd => exact h.drop hd
  | hear hslot now => exact h.hear hslot now
  | enter v hroom hsmall hid => exact h.enter v hroom hsmall hid
  | resize hn => exact h.resize hn

/-- Soundness survives any number of moves. -/
theorem Sound.moves (h : b.Sound) (hm : Moves b b') : b'.Sound := by
  induction hm with
  | refl => exact h
  | tail _ hlast ih => exact ih.move hlast

end Books

namespace Server

variable {x x' : Server} {env : Env} {y : UdpSender}

/-! ## The operations as moves -/

/-- What the table functions change. -/
def books (x : Server) : Books :=
  ⟨x.sr, x.nconnections, x.maxconnections, x.freed, x.sendersMade⟩

@[simp]
theorem books_touch (x : Server) (i : Nat) : (x.touch i).books = x.books := by
  rcases touch_faults x i with ⟨_, hf⟩
  rw [hf]
  rfl

@[simp]
theorem books_fault (x : Server) (f : Fault) : (x.fault f).books = x.books :=
  rfl

@[simp]
theorem books_logged (x : Server) (outputs : List Output) :
    (x.logged outputs).books = x.books :=
  rfl

theorem books_setSlot (x : Server) (i : Nat) (v : Option UdpSender) :
    (x.setSlot i v).books = { x.books with sr := x.sr.set i v } := by
  unfold setSlot
  rcases touch_faults x i with ⟨_, hf⟩
  rw [hf]
  rfl

/-- Whatever the loop copies into the slot, the slot is emptied behind it. -/
theorem shift_frame (id m : Nat) (x : Server) :
    ∃ sr faults, x.shift id m = { x with sr := sr, faults := faults } ∧
      sr.set id none = x.sr.set id none := by
  induction m generalizing x with
  | zero => exact ⟨x.sr, x.faults, rfl, rfl⟩
  | succ m ih =>
      rcases touch_faults x (id + 1) with ⟨f, hf⟩
      rcases touch_faults { x with faults := f } id with ⟨g, hg⟩
      rw [shift, hf]
      generalize x.slot (id + 1) = v
      rcases ih (setSlot { x with faults := f } id v) with ⟨sr, faults, heq, hset⟩
      refine ⟨sr, faults, ?_, ?_⟩
      · rw [heq, setSlot, hg]
      · rw [hset]
        exact List.set_set v

/-- {lit}`udpserver_sender_remove` empties the slot of a client, whatever the table looks
like. -/
theorem senderRemove_used {id : Nat} (hid : id < x.nconnections) (hslot : x.slot id = some y) :
    ∃ faults, x.senderRemove id =
      { x.released [y] with
        sr := x.sr.set id none
        nconnections := x.nconnections - 1
        faults := faults } := by
  rcases touch_faults x id with ⟨f, hf⟩
  have hslot' : slot { x with faults := f } id = some y := hslot
  rw [senderRemove, if_pos hid, hf]
  simp only [hslot', senderFree_eq]
  rcases shift_frame id (x.nconnections - id) (released { x with faults := f } [y]) with
    ⟨sr, faults, heq, hset⟩
  rw [heq]
  rcases touch_faults { released { x with faults := f } [y] with sr := sr, faults := faults } id
    with ⟨g, hg⟩
  refine ⟨g, ?_⟩
  have hset' : sr.set id none = x.sr.set id none := hset
  rw [setSlot, hg, ← hset']
  rfl

/-- {lit}`udpserver_sender_remove` drops the client from the books. -/
theorem books_senderRemove {id : Nat} (hid : id < x.nconnections)
    (hslot : x.slot id = some y) : (x.senderRemove id).books = x.books.without id y := by
  rcases senderRemove_used hid hslot with ⟨faults, heq⟩
  rw [heq]
  rfl

/-- On an empty slot it does nothing. -/
theorem books_senderRemove_none {id : Nat} (hslot : x.slot id = none) :
    (x.senderRemove id).books = x.books := by
  unfold senderRemove
  split
  · simp only [slot_touch, hslot]
    exact books_touch x id
  · rfl

/-- The check for late clients is a series of removals. -/
theorem drops_autoremove (h : x.books.Sized) (now : ℚ) :
    Books.Drops x.books (x.autoremove now).books := by
  by_cases hdue : x.Due now
  · have hchecked : (x.autoremove now).books = x.books.checked (x.inTime now) := by
      rw [autoremove_due h.length_sr h.count_le hdue]
      rfl
    rw [hchecked]
    exact .single (.check _)
  · rw [autoremove_of_not_due hdue]

theorem drops_senderRemove (x : Server) (client : Nat) :
    Books.Drops x.books (x.senderRemove client).books := by
  by_cases hid : client < x.nconnections
  · cases hslot : x.slot client with
    | none => rw [books_senderRemove_none hslot]
    | some y =>
        rw [books_senderRemove hid hslot]
        exact .single (.remove hid hslot)
  · rw [senderRemove, if_neg hid]

/-- {lit}`udpserver_disconnect` removes and checks. -/
theorem books_disconnect (x : Server) (env : Env) (client : Nat) :
    (x.disconnect env client).books =
      if client < x.nconnections ∧ ¬ (env.copy = true ∧ x.slot client = none) then
        (((x.touch client).senderRemove client).autoremove env.now).books
      else x.books := by
  rcases disconnect_cases x env client with
    ⟨hout, heq⟩ | ⟨-, hcopy, hnone, heq⟩ | ⟨hin, hslot, outputs, heq⟩ <;> rw [heq]
  · rw [if_neg fun hin => Nat.not_lt.2 hout hin.1]
  · rw [if_neg fun hin => hin.2 ⟨hcopy, hnone⟩, books_fault, books_touch]
  · rw [if_pos ⟨hin, hslot⟩, books_logged]

/-- Disconnecting a client is a series of removals. -/
theorem drops_disconnect (h : x.books.Sized) (env : Env) (client : Nat) :
    Books.Drops x.books (x.disconnect env client).books := by
  rw [books_disconnect]
  split
  · have hfirst := drops_senderRemove (x.touch client) client
    rw [books_touch] at hfirst
    exact hfirst.trans (drops_autoremove (h.drops hfirst) env.now)
  · exact .refl

/-- Disconnecting all clients is a series of removals. -/
theorem drops_disconnectAll (h : x.books.Sized) (env : Env) (fuel id : Nat) :
    Books.Drops x.books (x.disconnectAllFrom env fuel id).books := by
  induction fuel generalizing x id with
  | zero => exact .refl
  | succ fuel ih =>
      rw [disconnectAllFrom]
      split
      · have hone := drops_disconnect h env id
        exact hone.trans (ih (h.drops hone) (id + 1))
      · exact .refl

theorem books_offered (x : Server) (env : Env) (client : Nat) (y : UdpSender) (chunk : Chunk) :
    (x.offered env client y chunk).books = x.books := by
  unfold offered
  dsimp only
  split <;> rfl

/-- Sending to a client is a series of removals at most. -/
theorem drops_sendBytes (h : x.books.Sized) (env : Env) (client : Nat) (chunk : Option Chunk) :
    Books.Drops x.books (x.sendBytes env client chunk).books := by
  rcases sendBytes_cases x env client chunk with
    ⟨-, heq⟩ | ⟨-, heq⟩ | ⟨y, -, -, heq⟩ | ⟨y, c, -, -, heq⟩ <;> rw [heq]
  · rw [books_touch]
  · rw [books_fault, books_touch]
  · have hoffered : ((x.touch client).offered env client y c).books = x.books := by
      rw [books_offered, books_touch]
    split
    · have hdrops := drops_disconnect (hoffered ▸ h) env client
      rwa [hoffered] at hdrops
    · rw [hoffered]

/-- The broadcast loop is a series of removals at most. -/
theorem drops_sendFrom (h : x.books.Sized) (env : Env) (but : Option Nat)
    (chunk : Option Chunk) (fuel client : Nat) :
    Books.Drops x.books (x.sendFrom env but chunk fuel client).books := by
  induction fuel generalizing x client with
  | zero => exact .refl
  | succ fuel ih =>
      rw [sendFrom]
      split
      · by_cases hbut : but = some client
        · rw [if_pos hbut]
          exact ih h (client + 1)
        · rw [if_neg hbut]
          have hone := drops_sendBytes h env client chunk
          exact hone.trans (ih (h.drops hone) (client + 1))
      · exact .refl

theorem drops_broadcast (h : x.books.Sized) (env : Env) (argv : List Atom) :
    Books.Drops x.books (x.broadcast env argv).books := by
  have hcheck := drops_autoremove h env.now
  have hloop := drops_sendFrom (h.drops hcheck) env none
    (chunkCreateList env.mem argv) (2 ^ 32) 0
  have hall := hcheck.trans hloop
  unfold broadcast
  dsimp only
  split
  · rw [emit_eq, books_logged]
    exact hall
  · exact hall

theorem drops_defaultsend (h : x.books.Sized) (env : Env) (argv : List Atom) :
    Books.Drops x.books (x.defaultsend env argv).books := by
  rcases defaultsend_cases x env argv with ⟨x₁, hsearched, hcases⟩
  rcases hsearched.faults with ⟨f, rfl⟩
  rcases hcases with ⟨-, id, -, -, hsend⟩ | ⟨-, id, -, -, hsend⟩ | ⟨-, hsend⟩ <;> rw [hsend]
  · exact drops_sendBytes (x := { x with faults := f }) h env id _
  · exact drops_sendFrom (x := { x with faults := f }) h env (some id) _ (2 ^ 32) 0
  · exact drops_broadcast (x := { x with faults := f, defaulttarget := 0 }) h env argv

theorem books_infoClient (x : Server) (client : Nat) :
    (x.infoClient env client).books = x.books := by
  rcases infoClient_quiet x env client with ⟨_, _, hquiet⟩
  rw [hquiet]
  rfl

theorem books_infoClients (fuel : Nat) (x : Server) (client : Nat) :
    (x.infoClients env fuel client).books = x.books := by
  rcases infoClients_quiet fuel x env client with ⟨_, _, hquiet⟩
  rw [hquiet]
  rfl

/-- A list that names its client is a series of removals at most. -/
theorem drops_sendClient (h : x.books.Sized) (env : Env) (argv : List Atom) :
    Books.Drops x.books (x.sendClient env argv).books := by
  unfold sendClient
  cases argv with
  | nil => rw [books_infoClients]
  | cons a rest =>
      dsimp only
      split
      · exact .refl
      · split
        · rw [books_infoClient]
        · exact drops_sendBytes h env _ _

theorem drops_info (h : x.books.Sized) (env : Env) :
    Books.Drops x.books (x.info env).books := by
  have hlearn : ((x.autoremove env.now).learnPort env).books = (x.autoremove env.now).books := by
    unfold learnPort
    split
    · split <;> rfl
    · rfl
  unfold info
  simp only [socket2addressout_eq, emit_eq, books_logged, hlearn]
  exact drops_autoremove h env.now

/-! ## Registering and settings -/

/-- A record that is made gets the next serial. -/
theorem senderNew_books (env : Env) (host : Nat) (port : BitVec 16) :
    (x.senderNew env host port).1.books =
        { x.books with made := x.sendersMade + (x.senderNew env host port).2.toList.length } ∧
      ∀ y ∈ (x.senderNew env host port).2, y.id = x.sendersMade := by
  unfold senderNew
  split
  · refine ⟨rfl, ?_⟩
    rintro _ ⟨⟩
    rfl
  · refine ⟨rfl, ?_⟩
    rintro _ ⟨⟩

/-- Entering a client is a move or nothing. -/
theorem moves_enter (h : x.books.Sound) (env : Env) (host : Nat) (port : BitVec 16) :
    Books.Moves x.books (x.enter env host port).1.books := by
  have hsmall : x.nconnections < 2 ^ 31 := h.small
  have hid : toInt32 x.nconnections = x.nconnections := toInt32_natCast hsmall
  have hmax := toInt32_natCast_le x.maxconnections
  unfold enter
  simp only [hid]
  by_cases hroom : (x.nconnections : Int) < toInt32 x.maxconnections
  · have hlt : x.books.nconnections < x.books.maxconnections := by
      show x.nconnections < x.maxconnections
      omega
    have hnext : (x.nconnections + 1) % 2 ^ 32 = x.nconnections + 1 :=
      Nat.mod_eq_of_lt (by omega)
    have hpos : ¬ (x.nconnections : Int) < 0 := by omega
    rcases senderNew_books (x := x) env host port with ⟨hnew, hserial⟩
    generalize x.senderNew env host port = r at hnew hserial ⊢
    obtain ⟨x₁, v⟩ := r
    dsimp only at hnew hserial
    have hset := books_setSlot x₁ x.nconnections v
    rw [hnew] at hset
    have hsr : x₁.sr = x.sr := congrArg Books.sr hnew
    have hcount := congrArg Books.nconnections hset
    have hmove := Books.Move.enter v hlt (by show x.nconnections + 1 < _; omega) hserial
    simp only [if_pos hroom, if_neg hpos, Int.toNat_natCast]
    apply Relation.ReflTransGen.single
    convert hmove using 1
    have hcount' : (x₁.setSlot x.nconnections v).nconnections = x.nconnections := hcount
    have hbooks := congrArg
      (fun b : Books => { b with nconnections := x.nconnections + 1 }) hset
    rw [hsr] at hbooks
    simp only [hcount', hnext]
    exact hbooks
  · simp only [if_neg hroom]
    exact .refl

/-- Adding a client is a series of moves. -/
theorem moves_senderAdd (h : x.books.Sound) (env : Env) (host : Nat) (port : BitVec 16) :
    Books.Moves x.books (x.senderAdd env host port).1.books := by
  rcases findSender_faults x host port with ⟨f, hf⟩
  by_cases haccept : x.accept = 0
  · rw [senderAdd, if_pos haccept]
  · cases hfind : (x.findSender host port).2 with
    | none =>
        rw [senderAdd_unknown env haccept hfind, hf]
        exact moves_enter (x := { x with faults := f }) h env host port
    | some id =>
        rcases senderAdd_heard env haccept hfind with ⟨y, hslot, hadd⟩
        rw [hadd, hf, books_setSlot]
        exact .single (.hear (b := x.books) hslot env.now)

/-- A datagram is a series of moves. -/
theorem moves_receiveCallback (h : x.books.Sound) (env : Env) (c : Option Chunk) :
    Books.Moves x.books (x.receiveCallback env c).books := by
  unfold receiveCallback
  cases c with
  | none => exact .refl
  | some c =>
      have hadd := moves_senderAdd h env (x.abi.toULong c.addr) c.port
      dsimp only
      generalize x.senderAdd env (x.abi.toULong c.addr) c.port = r at hadd ⊢
      rcases r with ⟨x₁, _ | sdr⟩
      · exact hadd
      · simp only [infoConnection_eq, numconnout_eq]
        split <;> split <;> exact hadd

theorem books_of_unbound (h : x'.unbound = x.unbound) : x'.books = x.books := by
  have hsr := congrArg Server.sr h
  have hcount := congrArg Server.nconnections h
  have hmax := congrArg Server.maxconnections h
  have hfreed := congrArg Server.freed h
  have hmade := congrArg Server.sendersMade h
  simp only [unbound] at hsr hcount hmax hfreed hmade
  simp only [books, hsr, hcount, hmax, hfreed, hmade]

/-- A new capacity is a move or nothing. -/
theorem moves_setMaxconnections (x : Server) (env : Env) (f : FloatArg) :
    Books.Moves x.books (x.setMaxconnections env f).books := by
  unfold setMaxconnections
  dsimp only
  split
  · exact .refl
  · split
    · exact .refl
    · rename_i hcount
      split
      · exact .refl
      · split
        · exact .single (.resize (Nat.not_lt.1 hcount))
        · exact .refl

theorem books_setDefaulttarget (x : Server) (f : FloatArg) :
    (x.setDefaulttarget f).books = x.books := by
  unfold setDefaulttarget
  dsimp only
  split
  · rfl
  · split
    · rfl
    · have htouch := books_touch x (f.toInt.natAbs - 1)
      split
      · exact htouch
      · exact htouch

/-- Every input is a sequence of moves. -/
theorem moves_step (h : x.books.Sound) {a : Input} (hs : x.step env a = some x') :
    Books.Moves x.books x'.books := by
  cases a with
  | received fd c =>
      simp only [Server.step] at hs
      split at hs
      · cases hs
        exact moves_receiveCallback h env c
      · cases hs
  | disconnectClient f =>
      cases hs
      unfold disconnectClient
      split
      · exact .refl
      · exact (drops_disconnect h.sized env _).moves
  | disconnectAll =>
      cases hs
      exact (drops_disconnectAll h.sized env _ _).moves
  | accept f | timeout f | elsewhere k =>
      cases hs
      exact .refl
  | maxconnections f =>
      cases hs
      exact moves_setMaxconnections x env f
  | sendClient argv =>
      cases hs
      exact (drops_sendClient h.sized env argv).moves
  | broadcast argv =>
      cases hs
      exact (drops_broadcast h.sized env argv).moves
  | defaultsend argv =>
      cases hs
      exact (drops_defaultsend h.sized env argv).moves
  | defaulttarget f =>
      cases hs
      rw [books_setDefaulttarget]
  | addClient s f =>
      cases hs
      unfold addClient
      split
      · exact .refl
      · split
        · exact .refl
        · exact moves_senderAdd h env _ _
  | bind argv wild o =>
      simp only [Server.step] at hs
      split at hs
      · cases hs
        rw [books_of_unbound (unbound_bind x env argv wild o)]
      · cases hs
  | port f o =>
      simp only [Server.step] at hs
      split at hs
      · cases hs
        rw [books_of_unbound (unbound_setPort x env f o)]
      · cases hs
  | info =>
      cases hs
      exact (drops_info h.sized env).moves

/-- A server that was just created is sound. -/
theorem sound_of_created (h : Created x) : x.books.Sound := by
  rcases h with ⟨abi, env, k, f, o, -, rfl⟩
  have hport := books_of_unbound (unbound_setPort (blank abi env (toInt32 (1000 + k))) env f o)
  show (Server.setPort env (blank abi env (toInt32 (1000 + k))) f o).books.Sound
  rw [hport]
  have hnone : (blank abi env (toInt32 (1000 + k))).books.clients = [] := by
    simp [Books.clients, books, blank, SlotTable.entries]
  constructor
  case length_sr => simp [books, blank]
  case entries_le => simp [hnone]
  case count_le => exact Nat.zero_le _
  case small => exact Nat.two_pow_pos 31
  case ids_nodup => simp [hnone]
  case not_freed => simp [hnone]
  case id_lt => simp [hnone]
  case freed_lt => exact fun k hk => absurd hk List.not_mem_nil

/-- The table of every reachable server is sound. -/
theorem reach_sound {ok : Server → Env × Input → Prop} (h : udpserverMachine.Reach ok x) :
    x.books.Sound := by
  apply h.invariant (I := fun x => x.books.Sound)
  · exact fun x hx => sound_of_created hx
  · rintro x ⟨env, a⟩ x' _ hsound _ hs
    exact hsound.moves (moves_step hsound hs)

/-- A sound table whose counted slots are all used holds its clients in order. -/
theorem holds_of_sound (h : x.books.Sound) (hused : ∀ i, i < x.nconnections → x.slot i ≠ none) :
    x.Holds x.clients := by
  rcases SlotTable.eq_table_of_used h.entries_le hused with ⟨hlen, htable⟩
  have hsr : x.books.sr.length = x.maxconnections := h.length_sr
  constructor
  case sr_eq =>
    rw [hsr, ← hlen] at htable
    exact htable
  case count => exact hlen.symm
  case fits => exact hlen ▸ h.count_le
  case small => exact hlen ▸ h.small

theorem Holds.sized {l : List UdpSender} (h : x.Holds l) : x.books.Sized :=
  ⟨h.length_sr, h.count.trans_le h.fits⟩

end Server

end Iemnet.UdpServer
