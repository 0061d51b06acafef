import Mathlib.Data.List.Basic

/-!
# Slot tables

A fixed array of slots, each empty or holding an entry, in which the used slots
come first.  Indices are not checked: a slot beyond the end reads as empty, and a
write there is dropped.  Entries are removed by moving every later slot one place
down.

Main results:

- Theorem {lit}`closeGap_table`: emptying a slot and moving the later ones down
  erases exactly that entry.
- Theorems {lit}`set_table_length`, {lit}`resize_table`: adding an entry behind the
  last one, and changing the number of slots.
- Theorem {lit}`clear_compact`: dropping entries in place, with one place to
  read from and one to write to, filters the entries.
- Theorem {lit}`set_none_eq_eraseIdx_iff`: emptying a slot erases its entry only if it
  is the last one.
-/

namespace Foundations.SlotTable

variable {α : Type*}

/-- Read a slot. -/
def get (t : List (Option α)) (i : Nat) : Option α :=
  t[i]?.join

/-- The entries of {lit}`l` in the first slots, and {lit}`spare` empty ones. -/
def table (l : List α) (spare : Nat) : List (Option α) :=
  l.map some ++ List.replicate spare none

/-- Move {lit}`m` slots one place down, the first of them into slot {lit}`k`. -/
def closeGap (t : List (Option α)) : Nat → Nat → List (Option α)
  | _, 0 => t
  | k, m + 1 => closeGap (t.set k (get t (k + 1))) (k + 1) m

/-- Change the number of slots; new slots are empty. -/
def resize (t : List (Option α)) (n : Nat) : List (Option α) :=
  t.take n ++ List.replicate (n - t.length) none

/-! ## Reading -/

/-- Inside the table a slot is an entry of the list. -/
theorem get_of_lt {t : List (Option α)} {i : Nat} (h : i < t.length) : get t i = t[i] := by
  simp [get, h]

/-- Two tables of one length that read alike are equal. -/
theorem ext_get {t t' : List (Option α)} (hlen : t.length = t'.length)
    (h : ∀ i, i < t.length → get t i = get t' i) : t = t' := by
  apply List.ext_getElem hlen
  intro i hi hi'
  have := h i hi
  rwa [get_of_lt hi, get_of_lt hi'] at this

/-- Writing a slot changes this slot only, and only if it exists. -/
theorem get_set {t : List (Option α)} {k : Nat} {v : Option α} (i : Nat) :
    get (t.set k v) i = if k = i ∧ i < t.length then v else get t i := by
  unfold get
  rw [List.getElem?_set]
  by_cases hki : k = i
  · subst hki
    by_cases hlt : k < t.length
    · simp [hlt]
    · simp [hlt]
  · simp [hki]

/-- A table has the slots of its clients and the spare ones. -/
@[simp]
theorem length_table (l : List α) (spare : Nat) :
    (table l spare).length = l.length + spare := by
  simp [table]

/-- The first slots of a table hold its clients in order, the others nothing. -/
@[simp]
theorem get_table (l : List α) (spare i : Nat) : get (table l spare) i = l[i]? := by
  unfold get table
  by_cases hi : i < l.length
  · rw [List.getElem?_append_left (by simpa using hi)]
    simp [hi]
  · have hge : l.length ≤ i := Nat.le_of_not_lt hi
    rw [List.getElem?_append_right (by simpa using hge), List.getElem?_replicate]
    split <;> simp [hge]

/-- The entries of a table. -/
def entries (t : List (Option α)) : List α :=
  t.filterMap id

/-- A table made from a list has its entries. -/
@[simp]
theorem entries_table (l : List α) (spare : Nat) : entries (table l spare) = l := by
  simp [entries, table]

/-! ## Adding, removing, resizing -/

/-- Writing behind the last entry adds one. -/
theorem set_table_length (l : List α) (spare : Nat) (a : α) :
    (table l (spare + 1)).set l.length (some a) = table (l ++ [a]) spare := by
  apply ext_get (by simp; omega)
  intro i hi
  rw [get_set, get_table, get_table]
  by_cases hil : l.length = i
  · subst hil
    simp
  · by_cases hlt : i < l.length
    · rw [List.getElem?_append_left hlt]
      simp [hil]
    · have hge : (l ++ [a]).length ≤ i := by
        rw [List.length_append, List.length_singleton]
        omega
      rw [if_neg fun hhit => hil hhit.1, List.getElem?_eq_none hge,
        List.getElem?_eq_none (by omega)]

/-- Emptying a slot behind the last entry changes nothing. -/
theorem set_none_of_ge (l : List α) (spare : Nat) {k : Nat} (h : l.length ≤ k) :
    (table l spare).set k none = table l spare := by
  apply ext_get (by simp)
  intro i hi
  rw [get_set, get_table]
  by_cases hki : k = i ∧ i < (table l spare).length
  · rw [if_pos hki, List.getElem?_eq_none (by omega)]
  · rw [if_neg hki]

/-- Closing a gap keeps the number of slots. -/
@[simp]
theorem length_closeGap (t : List (Option α)) (k m : Nat) :
    (closeGap t k m).length = t.length := by
  induction m generalizing t k with
  | zero => rfl
  | succ m ih => simp [closeGap, ih]

/-- What the moved slots hold; each is read before it is overwritten. -/
theorem get_closeGap (t : List (Option α)) (k m i : Nat) (hi : i < t.length) :
    get (closeGap t k m) i = if k ≤ i ∧ i < k + m then get t (i + 1) else get t i := by
  induction m generalizing t k with
  | zero =>
      have hout : ¬ (k ≤ i ∧ i < k + 0) := by omega
      rw [if_neg hout]
      rfl
  | succ m ih =>
      rw [closeGap, ih _ _ (by simpa using hi), get_set, get_set]
      by_cases hik : i = k
      · have hnot : ¬ (k + 1 ≤ i ∧ i < k + 1 + m) := by omega
        have hyes : k ≤ i ∧ i < k + (m + 1) := by omega
        subst hik
        simp [hi, hyes]
      · have hne : ¬ (k = i ∧ i < t.length) := fun h => hik h.1.symm
        have hne' : k + 1 ≤ i → ¬ (k = i + 1 ∧ i + 1 < t.length) := by omega
        by_cases hin : k + 1 ≤ i ∧ i < k + 1 + m
        · have hin' : k ≤ i ∧ i < k + (m + 1) := by omega
          simp only [hin, hin', and_self, if_true, if_neg (hne' hin.1)]
        · have hin' : ¬ (k ≤ i ∧ i < k + (m + 1)) := by omega
          rw [if_neg hin, if_neg hin', if_neg hne]

/-- Emptying a used slot and moving the later ones down erases its entry. -/
theorem closeGap_table (l : List α) (spare : Nat) {i : Nat} (hi : i < l.length) :
    closeGap ((table l spare).set i none) i (l.length - i) =
      table (l.eraseIdx i) (spare + 1) := by
  apply ext_get (by simp [List.length_eraseIdx, hi]; omega)
  intro j hj
  have hj' : j < ((table l spare).set i none).length := by simpa using hj
  rw [get_closeGap _ _ _ _ hj', get_set, get_set, get_table, get_table, get_table,
    List.getElem?_eraseIdx]
  by_cases hlt : j < i
  · have hout : ¬ (i ≤ j ∧ j < i + (l.length - i)) := by omega
    have hne : ¬ (i = j ∧ j < (table l spare).length) := by omega
    rw [if_neg hout, if_neg hne, if_pos hlt]
  · rw [if_neg hlt]
    have hne : ¬ (i = j + 1 ∧ j + 1 < (table l spare).length) := by omega
    by_cases hin : j < l.length
    · have hyes : i ≤ j ∧ j < i + (l.length - i) := by omega
      rw [if_pos hyes, if_neg hne]
    · have hout : ¬ (i ≤ j ∧ j < i + (l.length - i)) := by omega
      have hne' : ¬ (i = j ∧ j < (table l spare).length) := by omega
      have hge : l.length ≤ j := by omega
      have hge' : l.length ≤ j + 1 := by omega
      rw [if_neg hout, if_neg hne']
      simp [hge, hge']

/-- Erasing by index is erasing by value where entries are distinct. -/
theorem eraseIdx_eq_filter [DecidableEq α] {l : List α} (h : l.Nodup) {i : Nat} {a : α}
    (hi : l[i]? = some a) : l.eraseIdx i = l.filter fun b => b ≠ a := by
  induction l generalizing i with
  | nil => simp at hi
  | cons b l ih =>
      rw [List.nodup_cons] at h
      cases i with
      | zero =>
          have hba : b = a := by simpa using hi
          subst hba
          have hrest : l.filter (fun c => c ≠ b) = l :=
            List.filter_eq_self.2 fun c hc => by
              simpa using fun heq : c = b => h.1 (heq ▸ hc)
          rw [List.eraseIdx_cons_zero, List.filter_cons_of_neg (by simp), hrest]
      | succ i =>
          have hget : l[i]? = some a := by simpa using hi
          have hba : b ≠ a := fun heq => h.1 (heq ▸ List.mem_of_getElem? hget)
          rw [List.eraseIdx_cons_succ, ih h.2 hget, List.filter_cons_of_pos (by simpa using hba)]

/-- Entries that differ in a key are found at one index only. -/
theorem index_unique {κ : Type*} {f : α → κ} {l : List α} (h : (l.map f).Nodup) {i j : Nat}
    {a b : α} (hi : l[i]? = some a) (hj : l[j]? = some b) (hkey : f a = f b) : i = j := by
  have hlt : i < (l.map f).length := by
    rw [List.length_map]
    exact (List.getElem?_eq_some_iff.1 hi).1
  apply (List.getElem?_inj hlt h).1
  rw [List.getElem?_map, List.getElem?_map, hi, hj, Option.map_some, Option.map_some, hkey]

/-- One index picks one entry. -/
theorem filter_zipIdx (l : List α) (k : Nat) {i : Nat} {a : α} (hi : l[i]? = some a) :
    (l.zipIdx k).filter (fun p => p.2 = i + k) = [(a, i + k)] := by
  induction l generalizing i k with
  | nil => simp at hi
  | cons b l ih =>
      rw [List.zipIdx_cons]
      cases i with
      | zero =>
          have hba : b = a := by simpa using hi
          have hlater : (l.zipIdx (k + 1)).filter (fun p => p.2 = 0 + k) = [] := by
            rw [List.filter_eq_nil_iff]
            intro p hp
            have := List.le_snd_of_mem_zipIdx hp
            rw [decide_eq_true_eq]
            omega
          rw [List.filter_cons_of_pos (by simp), hlater, hba, Nat.zero_add]
      | succ i =>
          have hshift : i + 1 + k = i + (k + 1) := by omega
          rw [List.filter_cons_of_neg (by simp), hshift]
          exact ih (k + 1) (by simpa using hi)

/-- Resizing keeps the entries as long as there is room for them. -/
theorem resize_table (l : List α) (spare : Nat) {n : Nat} (h : l.length ≤ n) :
    resize (table l spare) n = table l (n - l.length) := by
  have hlen : (resize (table l spare) n).length = n := by
    simp [resize]
    omega
  apply ext_get
  · rw [hlen, length_table]
    omega
  · intro i hi
    rw [hlen] at hi
    rw [get_table, get]
    unfold resize
    by_cases hlt : i < (table l spare).length
    · rw [List.getElem?_append_left (by rw [List.length_take]; omega),
        List.getElem?_take_of_lt hi]
      exact get_table l spare i
    · have hge : l.length ≤ i := by
        rw [length_table] at hlt
        omega
      rw [List.getElem?_append_right (by rw [List.length_take]; omega),
        List.getElem?_replicate]
      split <;> simp [hge]

/-- Emptying a slot without moving the later ones erases its entry exactly if there
are none. -/
theorem set_none_eq_eraseIdx_iff (l : List α) (spare spare' : Nat) {i : Nat}
    (hi : i < l.length) (hspare : spare' = spare + 1) :
    (table l spare).set i none = table (l.eraseIdx i) spare' ↔ i + 1 = l.length := by
  subst hspare
  constructor
  · intro heq
    by_contra hlast
    have hget : get ((table l spare).set i none) i = get (table (l.eraseIdx i) (spare + 1)) i := by
      rw [heq]
    have hlt : i < (table l spare).length := by
      rw [length_table]
      omega
    have hnext : i + 1 < l.length := by omega
    rw [get_set, if_pos ⟨rfl, hlt⟩, get_table, List.getElem?_eraseIdx,
      if_neg (Nat.lt_irrefl i), List.getElem?_eq_getElem hnext] at hget
    exact absurd hget (by simp)
  · intro hlast
    apply ext_get
    · rw [List.length_set, length_table, length_table, List.length_eraseIdx, if_pos hi]
      omega
    · intro j hj
      rw [List.length_set] at hj
      rw [get_set, get_table, get_table, List.getElem?_eraseIdx]
      by_cases hij : i = j
      · subst hij
        rw [if_pos ⟨rfl, hj⟩, if_neg (Nat.lt_irrefl i), List.getElem?_eq_none (by omega)]
      · rw [if_neg fun hboth => hij hboth.1]
        by_cases hlt : j < i
        · rw [if_pos hlt]
        · rw [if_neg hlt, List.getElem?_eq_none (by omega), List.getElem?_eq_none (by omega)]

/-! ## Entries of any table -/

/-- The entries are what the slots hold. -/
theorem mem_entries {t : List (Option α)} {a : α} : a ∈ entries t ↔ ∃ i, get t i = some a := by
  simp only [entries, List.mem_filterMap, id_eq, exists_eq_right, get, Option.join_eq_some_iff]
  exact List.mem_iff_getElem?

/-- Only a slot of the table holds something. -/
theorem lt_of_get {t : List (Option α)} {i : Nat} {a : α} (h : get t i = some a) :
    i < t.length := by
  by_contra hge
  rw [get, List.getElem?_eq_none (by omega)] at h
  contradiction

/-- The first slot holds the first entry, if any. -/
theorem entries_cons (v : Option α) (t : List (Option α)) :
    entries (v :: t) = v.toList ++ entries t := by
  cases v <;> simp [entries]

/-- Overwriting a slot with an entry is emptying it and adding the entry. -/
theorem entries_set_some {t : List (Option α)} {i : Nat} (hi : i < t.length) (a : α) :
    (entries (t.set i (some a))).Perm (a :: entries (t.set i none)) := by
  induction t generalizing i with
  | nil => simp at hi
  | cons v t ih =>
      cases i with
      | zero => simp [entries_cons]
      | succ i =>
          simp only [List.set_cons_succ, entries_cons]
          have hrest := ih (by simpa using hi)
          exact (hrest.append_left v.toList).trans List.perm_middle

/-- Emptying a slot takes its entry away and no other. -/
theorem entries_set_none_perm {t : List (Option α)} {i : Nat} {a : α} (h : get t i = some a) :
    (entries t).Perm (a :: entries (t.set i none)) := by
  have hi := lt_of_get h
  have hself : t.set i (some a) = t := by
    rw [get_of_lt hi] at h
    rw [← h, List.set_getElem_self]
  have hperm := entries_set_some hi a
  rwa [hself] at hperm

/-- Entries that a function tells apart stand in one slot each. -/
theorem get_unique {κ : Type*} {f : α → κ} {t : List (Option α)}
    (h : ((entries t).map f).Nodup) {i j : Nat} {a b : α} (hi : get t i = some a)
    (hj : get t j = some b) (hf : f a = f b) : i = j := by
  by_contra hne
  have hperm := (entries_set_none_perm hi).map f
  have hrest := (List.nodup_cons.1 (hperm.nodup_iff.1 h)).1
  apply hrest
  rw [hf]
  refine List.mem_map_of_mem (mem_entries.2 ⟨j, ?_⟩)
  rw [get_set, if_neg fun hboth => hne hboth.1]
  exact hj

/-- Emptying a slot adds nothing. -/
theorem entries_set_none_sublist (t : List (Option α)) (i : Nat) :
    (entries (t.set i none)).Sublist (entries t) := by
  induction t generalizing i with
  | nil => simp
  | cons v t ih =>
      cases i with
      | zero => simp [entries_cons]
      | succ i =>
          simp only [List.set_cons_succ, entries_cons]
          exact (ih i).append_left v.toList

/-- A resized table has no entries that were not there. -/
theorem entries_resize_sublist (t : List (Option α)) (n : Nat) :
    (entries (resize t n)).Sublist (entries t) := by
  have hnone : entries (List.replicate (n - t.length) (none : Option α)) = [] := by
    simp [entries]
  have happend : entries (resize t n) = entries (t.take n) := by
    rw [resize, entries, List.filterMap_append]
    exact (congrArg (entries (t.take n) ++ ·) hnone).trans (List.append_nil _)
  rw [happend]
  exact (List.take_sublist n t).filterMap id

/-- A table in which the first slots are used, and not more entries than these. -/
theorem eq_table_of_used {t : List (Option α)} {n : Nat} (hle : (entries t).length ≤ n)
    (hused : ∀ i, i < n → get t i ≠ none) :
    (entries t).length = n ∧ t = table (entries t) (t.length - n) := by
  induction t generalizing n with
  | nil =>
      have hn : n = 0 := by
        by_contra hpos
        exact hused 0 (by omega) rfl
      subst hn
      exact ⟨rfl, rfl⟩
  | cons v t ih =>
      cases n with
      | zero =>
          have hnil : entries (v :: t) = [] := List.length_eq_zero_iff.1 (by omega)
          refine ⟨by rw [hnil]; rfl, ?_⟩
          rw [hnil, table, List.map_nil, List.nil_append, Nat.sub_zero]
          apply List.eq_replicate_of_mem
          intro w hw
          cases w with
          | none => rfl
          | some a =>
              rcases List.getElem?_of_mem hw with ⟨i, hi⟩
              have hmem : a ∈ entries (v :: t) := mem_entries.2 ⟨i, by rw [get, hi]; rfl⟩
              rw [hnil] at hmem
              contradiction
      | succ n =>
          cases v with
          | none => exact absurd rfl (hused 0 (Nat.succ_pos n))
          | some a =>
              simp only [entries_cons, Option.toList_some, List.singleton_append,
                List.length_cons] at hle ⊢
              rcases ih (n := n) (by omega) (fun i hi => hused (i + 1) (by omega)) with
                ⟨hlen, htable⟩
              refine ⟨by omega, ?_⟩
              rw [Nat.add_sub_add_right]
              exact congrArg (some a :: ·) htable

/-! ## Compacting -/

/-- Move the entries to keep down to place {lit}`w`, reading {lit}`m` slots from slot
{lit}`i` on; an entry that is dropped leaves an empty slot. -/
def compact (keep : α → Bool) (t : List (Option α)) : Nat → Nat → Nat → List (Option α) × Nat
  | 0, _, w => (t, w)
  | m + 1, i, w =>
      match get t i with
      | none => compact keep t m (i + 1) w
      | some a =>
          if keep a then compact keep (t.set w (some a)) m (i + 1) (w + 1)
          else compact keep (t.set i none) m (i + 1) w

/-- Empty {lit}`m` slots from slot {lit}`w` on. -/
def clear (t : List (Option α)) : Nat → Nat → List (Option α)
  | 0, _ => t
  | m + 1, w => clear (t.set w none) m (w + 1)

/-- The place of the first empty slot among {lit}`m` slots from slot {lit}`i` on. -/
def count (t : List (Option α)) : Nat → Nat → Nat
  | 0, i => i
  | m + 1, i =>
      match get t i with
      | none => i
      | some _ => count t m (i + 1)

/-- The entries in {lit}`m` slots from slot {lit}`i` on. -/
def window (t : List (Option α)) (i m : Nat) : List α :=
  entries ((t.drop i).take m)

/-- A window begins with its first slot. -/
theorem window_succ {t : List (Option α)} {i : Nat} (hi : i < t.length) (m : Nat) :
    window t i (m + 1) = (get t i).toList ++ window t (i + 1) m := by
  rw [window, window, List.drop_eq_getElem_cons hi, List.take_succ_cons, get_of_lt hi]
  cases t[i] with
  | none => simp [entries]
  | some a => simp [entries]

/-- Writing in front of a window does not change it. -/
theorem window_set {t : List (Option α)} {i k : Nat} (hk : k < i) (v : Option α) (m : Nat) :
    window (t.set k v) i m = window t i m := by
  rw [window, window, List.drop_set_of_lt hk]

/-- What is seen through a window are entries of the table, in order. -/
theorem window_sublist (t : List (Option α)) (i m : Nat) :
    (window t i m).Sublist (entries t) :=
  ((List.take_sublist m _).trans (List.drop_sublist i t)).filterMap id

/-- A window on the first slots shows what they hold. -/
theorem mem_window {t : List (Option α)} {m : Nat} {a : α} :
    a ∈ window t 0 m ↔ ∃ i, i < m ∧ get t i = some a := by
  rw [window, List.drop_zero, mem_entries]
  constructor
  · rintro ⟨i, hi⟩
    have hlt := lt_of_get hi
    rw [List.length_take] at hlt
    refine ⟨i, by omega, ?_⟩
    rwa [get, List.getElem?_take_of_lt (by omega)] at hi
  · rintro ⟨i, him, hi⟩
    refine ⟨i, ?_⟩
    rwa [get, List.getElem?_take_of_lt him]

/-- A window shows no more entries than it has slots. -/
theorem length_window_le (t : List (Option α)) (m : Nat) : (window t 0 m).length ≤ m := by
  rw [window, List.drop_zero]
  exact Nat.le_trans (List.length_filterMap_le id _) (List.length_take_le m t)

/-- The window on its clients shows all that a table holds. -/
theorem window_table (l : List α) (spare : Nat) : window (table l spare) 0 l.length = l := by
  rw [window, List.drop_zero, table, List.take_append_of_le_length (by simp),
    List.take_of_length_le (by simp)]
  simp [entries]

/-- Writing a slot adds it to the slots in front of it. -/
theorem take_succ_set {t : List (Option α)} {w : Nat} (hw : w < t.length) (v : Option α) :
    (t.set w v).take (w + 1) = t.take w ++ [v] := by
  have hwt : w < (t.set w v).length := by
    rw [List.length_set]
    exact hw
  rw [List.take_succ_eq_append_getElem hwt, List.take_set_of_le (Nat.le_refl w),
    List.getElem_set_self]

/-- Compacting keeps the number of slots. -/
@[simp]
theorem length_compact (keep : α → Bool) (t : List (Option α)) (m i w : Nat) :
    (compact keep t m i w).1.length = t.length := by
  induction m generalizing t i w with
  | zero => rfl
  | succ m ih =>
      rw [compact]
      split
      · exact ih _ _ _
      · split
        · rw [ih, List.length_set]
        · rw [ih, List.length_set]

/-- The loop ends behind the entries that it keeps. -/
theorem compact_snd (keep : α → Bool) (t : List (Option α)) (m i w : Nat) (hw : w ≤ i)
    (hm : i + m ≤ t.length) :
    (compact keep t m i w).2 = w + ((window t i m).filter keep).length := by
  induction m generalizing t i w with
  | zero => simp [compact, window, entries]
  | succ m ih =>
      have hi : i < t.length := by omega
      rw [compact, window_succ hi]
      cases hslot : get t i with
      | none =>
          rw [Option.toList_none, List.nil_append]
          exact ih t (i + 1) w (by omega) (by omega)
      | some a =>
          rw [Option.toList_some, List.singleton_append]
          by_cases hkeep : keep a = true
          · simp only [hkeep, if_true]
            rw [ih _ _ _ (by omega) (by rw [List.length_set]; omega),
              window_set (by omega), List.filter_cons_of_pos hkeep, List.length_cons]
            omega
          · simp only [hkeep, Bool.false_eq_true, if_false]
            rw [ih _ _ _ (by omega) (by rw [List.length_set]; omega),
              window_set (Nat.lt_succ_self i), List.filter_cons_of_neg hkeep]

/-- What stands before the place written to: what was there, and what has been kept of
the slots read. -/
theorem take_compact (keep : α → Bool) (t : List (Option α)) (m i w : Nat) (hw : w ≤ i)
    (hm : i + m ≤ t.length) :
    (compact keep t m i w).1.take (compact keep t m i w).2 =
      t.take w ++ ((window t i m).filter keep).map some := by
  induction m generalizing t i w with
  | zero => simp [compact, window, entries]
  | succ m ih =>
      have hi : i < t.length := by omega
      rw [compact, window_succ hi]
      cases hslot : get t i with
      | none =>
          rw [Option.toList_none, List.nil_append]
          exact ih t (i + 1) w (by omega) (by omega)
      | some a =>
          rw [Option.toList_some, List.singleton_append]
          by_cases hkeep : keep a = true
          · simp only [hkeep, if_true]
            rw [ih _ _ _ (by omega) (by rw [List.length_set]; omega),
              window_set (by omega), take_succ_set (by omega), List.filter_cons_of_pos hkeep,
              List.map_cons, List.append_assoc, List.singleton_append]
          · simp only [hkeep, Bool.false_eq_true, if_false]
            rw [ih _ _ _ (by omega) (by rw [List.length_set]; omega),
              window_set (Nat.lt_succ_self i), List.filter_cons_of_neg hkeep,
              List.take_set_of_le hw]

/-- The loop empties all the slots from its first one on. -/
theorem clear_eq (t : List (Option α)) (m w : Nat) (h : w + m = t.length) :
    clear t m w = t.take w ++ List.replicate m none := by
  induction m generalizing t w with
  | zero => simp [clear, List.take_of_length_le (show t.length ≤ w by omega)]
  | succ m ih =>
      rw [clear, ih _ _ (by rw [List.length_set]; omega), take_succ_set (by omega),
        List.append_assoc, List.singleton_append, List.replicate_succ]

/-- Compacting the first slots and clearing what is left behind filters their entries. -/
theorem clear_compact (keep : α → Bool) (t : List (Option α)) {m : Nat} (hm : m ≤ t.length) :
    let r := compact keep t m 0 0
    clear r.1 (t.length - r.2) r.2 =
      table ((window t 0 m).filter keep) (t.length - ((window t 0 m).filter keep).length) := by
  intro r
  have hbound : 0 + m ≤ t.length := by omega
  have hsnd : r.2 = ((window t 0 m).filter keep).length := by
    rw [compact_snd keep _ _ _ _ (Nat.le_refl 0) hbound, Nat.zero_add]
  have hle : ((window t 0 m).filter keep).length ≤ m :=
    Nat.le_trans (List.length_filter_le keep _) (length_window_le t m)
  have htake : r.1.take r.2 = ((window t 0 m).filter keep).map some := by
    rw [take_compact keep _ _ _ _ (Nat.le_refl 0) hbound, List.take_zero, List.nil_append]
  have hlen : r.1.length = t.length := length_compact ..
  rw [clear_eq _ _ _ (by rw [hlen, hsnd]; omega), htake, hsnd, table]

/-- Counting the used slots of a table counts its clients. -/
theorem count_table (l : List α) (spare m i : Nat) (hi : i ≤ l.length)
    (hm : l.length ≤ i + m) : count (table l spare) m i = l.length := by
  induction m generalizing i with
  | zero =>
      rw [count]
      omega
  | succ m ih =>
      rw [count, get_table]
      by_cases hlt : i < l.length
      · rw [List.getElem?_eq_getElem hlt]
        exact ih (i + 1) hlt (by omega)
      · rw [List.getElem?_eq_none (by omega)]
        show i = l.length
        omega

end Foundations.SlotTable
