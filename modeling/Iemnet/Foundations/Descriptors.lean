import Mathlib.Data.List.Basic
import Mathlib.Data.List.Perm.Basic
import Mathlib.Data.List.Range
import Mathlib.Data.List.Nodup

/-!
# Descriptors

The descriptors of a process as the kernel hands them out: numbers that are
re-used once closed.  Each opening gets a serial, so that "closed exactly once" is
about openings and not about numbers; a close of a number that is not open is
recorded as stray.

Main results:

- Theorem {lit}`Accounted.acquire`, {lit}`Accounted.close`: every opening is open or
  closed exactly once, whatever is closed.
- Theorem {lit}`close_of_mem`: closing an open number closes its latest opening and
  nothing else.
- Theorems {lit}`Holding.acquire`, {lit}`Holding.close`: an owner of one number at a
  time.
- Theorem {lit}`length_le_of_nodup`: how many numbers below a bound can be open.
-/

namespace Foundations

/-- The open descriptors with their serials, and what has been closed. -/
structure Descriptors where
  issued : Nat
  live : List (Int × Nat)
  closed : List Nat
  stray : List Int
deriving DecidableEq, Repr

namespace Descriptors

/-- No descriptor has been opened yet. -/
def empty : Descriptors :=
  ⟨0, [], [], []⟩

/-- The kernel hands out the number {lit}`fd`. -/
def acquire (d : Descriptors) (fd : Int) : Descriptors :=
  { d with issued := d.issued + 1, live := d.live ++ [(fd, d.issued)] }

/-- {lit}`close`. -/
def close (d : Descriptors) (fd : Int) : Descriptors :=
  match d.live.find? fun p => p.1 = fd with
  | some p => { d with live := d.live.erase p, closed := d.closed ++ [p.2] }
  | none => { d with stray := d.stray ++ [fd] }

/-- The numbers in use. -/
def numbers (d : Descriptors) : List Int :=
  d.live.map Prod.fst

/-- Every opening is open or has been closed, once; no number is open twice. -/
structure Accounted (d : Descriptors) : Prop where
  nodup : d.numbers.Nodup
  serials : (d.live.map Prod.snd ++ d.closed).Perm (List.range d.issued)

/-- Nothing has been opened, so nothing is missing. -/
theorem accounted_empty : empty.Accounted :=
  ⟨List.nodup_nil, List.Perm.refl _⟩

variable {d : Descriptors}

/-- The serial of an open descriptor has been issued. -/
theorem Accounted.serial_lt (h : d.Accounted) {p : Int × Nat} (hp : p ∈ d.live) :
    p.2 < d.issued := by
  have hmem : p.2 ∈ d.live.map Prod.snd ++ d.closed :=
    List.mem_append_left _ (List.mem_map_of_mem hp)
  simpa using h.serials.mem_iff.1 hmem

/-- No serial belongs to two openings, whether they are open or closed. -/
theorem Accounted.serials_nodup (h : d.Accounted) :
    (d.live.map Prod.snd ++ d.closed).Nodup :=
  h.serials.nodup_iff.2 List.nodup_range

/-- The numbers in use after another one has been opened. -/
theorem numbers_acquire (d : Descriptors) (fd : Int) :
    (d.acquire fd).numbers = d.numbers ++ [fd] := by
  rw [numbers, acquire, List.map_append]
  rfl

/-- A fresh number keeps the account. -/
theorem Accounted.acquire (h : d.Accounted) {fd : Int} (hfresh : fd ∉ d.numbers) :
    (d.acquire fd).Accounted := by
  constructor
  · rw [numbers_acquire]
    refine List.nodup_append.2 ⟨h.nodup, by simp, ?_⟩
    intro a ha b hb hab
    have hbfd : b = fd := by simpa using hb
    exact hfresh (hbfd ▸ hab ▸ ha)
  · show ((d.live ++ [(fd, d.issued)]).map Prod.snd ++ d.closed).Perm
      (List.range (d.issued + 1))
    rw [List.map_append, List.range_succ, List.append_assoc]
    have hswap : ([d.issued] ++ d.closed).Perm (d.closed ++ [d.issued]) :=
      List.perm_append_comm
    have hmoved : (d.live.map Prod.snd ++ ([d.issued] ++ d.closed)).Perm
        (d.live.map Prod.snd ++ d.closed ++ [d.issued]) := by
      rw [List.append_assoc]
      exact List.Perm.append_left _ hswap
    exact hmoved.trans (h.serials.append_right _)

/-- Closing issues no serial. -/
theorem issued_close (d : Descriptors) (fd : Int) : (d.close fd).issued = d.issued := by
  unfold Descriptors.close
  split <;> rfl

/-- What closing an open number does. -/
theorem close_of_mem (h : d.numbers.Nodup) {p : Int × Nat} (hp : p ∈ d.live) :
    d.close p.1 = { d with live := d.live.erase p, closed := d.closed ++ [p.2] } := by
  have hfind : (d.live.find? fun q => q.1 = p.1) = some p := by
    cases hcase : d.live.find? fun q => q.1 = p.1 with
    | none =>
        have := List.find?_eq_none.1 hcase p hp
        simp at this
    | some q =>
        have hq : q ∈ d.live := List.mem_of_find?_eq_some hcase
        have hnumber : q.1 = p.1 := by simpa using List.find?_some hcase
        rw [List.inj_on_of_nodup_map h hq hp hnumber]
  simp only [close, hfind]

/-- Closing an open number keeps the account. -/
theorem Accounted.close (h : d.Accounted) {p : Int × Nat} (hp : p ∈ d.live) :
    (d.close p.1).Accounted := by
  rw [close_of_mem h.nodup hp]
  constructor
  · exact h.nodup.sublist (List.erase_sublist.map _)
  · show ((d.live.erase p).map Prod.snd ++ (d.closed ++ [p.2])).Perm (List.range d.issued)
    have hlive : (d.live.map Prod.snd).Perm (p.2 :: (d.live.erase p).map Prod.snd) :=
      (List.perm_cons_erase hp).map Prod.snd
    have hsplit : ((d.live.erase p).map Prod.snd ++ (d.closed ++ [p.2])).Perm
        (p.2 :: (d.live.erase p).map Prod.snd ++ d.closed) := by
      rw [← List.append_assoc]
      exact List.perm_append_singleton _ _
    exact (hsplit.trans (hlive.symm.append_right _)).trans h.serials

/-- Closing an open number is no stray close. -/
theorem stray_close (h : d.numbers.Nodup) {p : Int × Nat} (hp : p ∈ d.live) :
    (d.close p.1).stray = d.stray := by
  rw [close_of_mem h hp]

/-- Closing a number that is not open is a stray close. -/
theorem stray_close_of_notMem {fd : Int} (h : fd ∉ d.numbers) :
    (d.close fd).stray = d.stray ++ [fd] := by
  have hfind : (d.live.find? fun p => p.1 = fd) = none := by
    rw [List.find?_eq_none]
    intro p hp heq
    have hpfd : p.1 = fd := by simpa using heq
    exact h (hpfd ▸ List.mem_map_of_mem (f := Prod.fst) hp)
  simp only [close, hfind]

/-- The two facts for a number whose opening is not at hand. -/
theorem Accounted.close_number (h : d.Accounted) {fd : Int} (hmem : fd ∈ d.numbers) :
    (d.close fd).Accounted ∧ (d.close fd).stray = d.stray := by
  rcases List.mem_map.1 hmem with ⟨p, hp, rfl⟩
  exact ⟨h.close hp, stray_close h.nodup hp⟩

/-- The numbers in use after one of them has been closed. -/
theorem numbers_close (h : d.numbers.Nodup) {fd : Int} (hmem : fd ∈ d.numbers) :
    d.numbers.Perm (fd :: (d.close fd).numbers) := by
  rcases List.mem_map.1 hmem with ⟨p, hp, rfl⟩
  rw [close_of_mem h hp]
  exact (List.perm_cons_erase hp).map Prod.fst

/-- What is open afterwards was open before. -/
theorem live_close_subset {fd : Int} {p : Int × Nat} (hp : p ∈ (d.close fd).live) :
    p ∈ d.live := by
  unfold Descriptors.close at hp
  split at hp
  · exact List.mem_of_mem_erase hp
  · exact hp

/-- Opening a number and closing it again leaves its serial behind. -/
theorem close_acquire (h : d.Accounted) {fd : Int} (hfresh : fd ∉ d.numbers) :
    (d.acquire fd).close fd =
      { d with issued := d.issued + 1, closed := d.closed ++ [d.issued] } := by
  have hmem : (fd, d.issued) ∈ (d.acquire fd).live := by simp [acquire]
  have hnew : (fd, d.issued) ∉ d.live := fun hold => hfresh (List.mem_map_of_mem hold)
  rw [close_of_mem (h.acquire hfresh).nodup hmem]
  simp [acquire, List.erase_append_right _ hnew]

/-- An opening that is not open any more has been closed exactly once. -/
theorem Accounted.open_or_closed (h : d.Accounted) {k : Nat} (hk : k < d.issued) :
    ((∃ fd, (fd, k) ∈ d.live) ∧ d.closed.count k = 0) ∨
      ((∀ fd, (fd, k) ∉ d.live) ∧ d.closed.count k = 1) := by
  have hmem : k ∈ d.live.map Prod.snd ++ d.closed := h.serials.mem_iff.2 (List.mem_range.2 hk)
  have hnodup := h.serials_nodup
  rw [List.nodup_append] at hnodup
  rcases List.mem_append.1 hmem with hlive | hclosed
  · left
    rcases List.mem_map.1 hlive with ⟨p, hp, rfl⟩
    refine ⟨⟨p.1, hp⟩, ?_⟩
    apply List.count_eq_zero_of_not_mem
    exact fun hclosed => hnodup.2.2 p.2 hlive p.2 hclosed rfl
  · right
    refine ⟨fun fd hp => ?_, List.count_eq_one_of_mem hnodup.2.1 hclosed⟩
    exact hnodup.2.2 k (List.mem_map_of_mem (f := Prod.snd) hp) k hclosed rfl

/-- No opening is closed twice. -/
theorem Accounted.count_closed_le (h : d.Accounted) (k : Nat) : d.closed.count k ≤ 1 :=
  List.nodup_iff_count_le_one.1 (List.nodup_append.1 h.serials_nodup).2.1 k

/-! ## One descriptor at a time -/

/-- The number {lit}`o` is open and nothing else is; every earlier opening has been
closed once, and nothing was closed that was not open. -/
structure Holding (d : Descriptors) (o : Option Int) : Prop where
  accounted : d.Accounted
  numbers : d.numbers = o.toList
  stray : d.stray = []

/-- Nothing is open, and nothing is held. -/
theorem holding_empty : empty.Holding none :=
  ⟨accounted_empty, rfl, rfl⟩

/-- Who held nothing holds what has just been opened. -/
theorem Holding.acquire (h : d.Holding none) (fd : Int) : (d.acquire fd).Holding (some fd) := by
  refine ⟨h.accounted.acquire ?_, ?_, h.stray⟩
  · rw [h.numbers]
    simp
  · rw [numbers_acquire, h.numbers]
    rfl

/-- Who closes what it holds holds nothing. -/
theorem Holding.close {fd : Int} (h : d.Holding (some fd)) : (d.close fd).Holding none := by
  have hnumbers : d.live.map Prod.fst = [fd] := h.numbers
  rcases List.map_eq_singleton_iff.1 hnumbers with ⟨p, hlive, rfl⟩
  have hp : p ∈ d.live := by
    rw [hlive]
    exact List.mem_singleton_self p
  refine ⟨h.accounted.close hp, ?_, ?_⟩
  · rw [close_of_mem h.accounted.nodup hp, hlive]
    simp [Descriptors.numbers]
  · rw [stray_close h.accounted.nodup hp]
    exact h.stray

/-- What is not open any more has been closed exactly once. -/
theorem Holding.closed_once (h : d.Holding none) {k : Nat} (hk : k < d.issued) :
    d.closed.count k = 1 := by
  rcases h.accounted.open_or_closed hk with ⟨⟨fd, hfd⟩, -⟩ | ⟨-, hone⟩
  · have hmem : fd ∈ d.numbers := List.mem_map_of_mem (f := Prod.fst) hfd
    rw [h.numbers] at hmem
    cases hmem
  · exact hone

end Descriptors

/-! ## Tables keyed by descriptor -/

/-- Different numbers in a range are at most as many as the range is long. -/
theorem length_le_of_nodup {l : List Int} (h : l.Nodup) {b : Nat}
    (hrange : ∀ a ∈ l, 0 ≤ a ∧ a < b) : l.length ≤ b := by
  have hnodup : (l.map Int.toNat).Nodup := by
    apply List.Nodup.map_on _ h
    intro a ha a' ha' heq
    have := hrange a ha
    have := hrange a' ha'
    omega
  have hsub : l.map Int.toNat ⊆ List.range b := by
    intro k hk
    rcases List.mem_map.1 hk with ⟨a, ha, rfl⟩
    have := hrange a ha
    exact List.mem_range.2 (by omega)
  simpa using (List.subperm_of_subset hnodup hsub).length_le

/-- Dropping the first entry of a key drops every entry of it when keys are
unique. -/
theorem mem_eraseP_key {κ β : Type*} [DecidableEq κ] {l : List (κ × β)}
    (h : (l.map Prod.fst).Nodup) (k : κ) (p : κ × β) :
    p ∈ l.eraseP (fun q => q.1 = k) ↔ p ∈ l ∧ p.1 ≠ k := by
  induction l with
  | nil => simp
  | cons q l ih =>
      rw [List.map_cons, List.nodup_cons] at h
      by_cases hq : q.1 = k
      · rw [List.eraseP_cons_of_pos (by simpa using hq)]
        constructor
        · intro hp
          refine ⟨List.mem_cons_of_mem _ hp, fun hpk => h.1 ?_⟩
          rw [hq, ← hpk]
          exact List.mem_map_of_mem hp
        · rintro ⟨hp, hpk⟩
          cases List.mem_cons.1 hp with
          | inl heq => exact absurd (heq ▸ hq) hpk
          | inr hmem => exact hmem
      · rw [List.eraseP_cons_of_neg (by simpa using hq), List.mem_cons, List.mem_cons, ih h.2]
        constructor
        · rintro (rfl | ⟨hp, hpk⟩)
          · exact ⟨Or.inl rfl, hq⟩
          · exact ⟨Or.inr hp, hpk⟩
        · rintro ⟨rfl | hp, hpk⟩
          · exact Or.inl rfl
          · exact Or.inr ⟨hp, hpk⟩

/-- Striking an entry off keeps the keys different. -/
theorem nodup_eraseP_key {κ β : Type*} [DecidableEq κ] {l : List (κ × β)}
    (h : (l.map Prod.fst).Nodup) (k : κ) :
    ((l.eraseP fun q => q.1 = k).map Prod.fst).Nodup :=
  h.sublist (List.eraseP_sublist.map _)

end Foundations
