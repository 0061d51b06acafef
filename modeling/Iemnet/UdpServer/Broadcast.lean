import Iemnet.UdpServer.Moves

/-!
# Messages to all clients of the UDP server

The loops of {lit}`udpserver_broadcast` and {lit}`udpserver_send_butclient` count up to
{lit}`x_nconnections`, and a send that fails removes a client from the table they walk
over.

Main results:

- Theorem {lit}`sendFrom_calm`: the loop over clients whose sends succeed.
- Theorem {lit}`sendFrom_first`: what the first failing send leaves.
- Theorem {lit}`broadcast_reaches_iff`: everybody gets a copy and the table stays in order
  exactly if every client has a sender and only the last one fails.
-/

namespace Iemnet.UdpServer

open Pd Foundations

namespace Server

variable {x x' : Server} {env : Env} {l : List UdpSender} {y : UdpSender}

/-! ## What a message to all should do -/

/-- The first slots hold the clients {lit}`l`, which are different, and the others are
{lit}`NULL`. -/
structure Lists (x : Server) (l : List UdpSender) : Prop where
  sr_eq : x.sr = SlotTable.table l (x.maxconnections - l.length)
  count : x.nconnections = l.length
  fits : l.length ≤ x.maxconnections
  max_lt : x.maxconnections < 2 ^ 32
  distinct : (l.map UdpSender.id).Nodup

/-- The chunk as it is addressed to a client. -/
def addressed (chunk : Chunk) (y : UdpSender) : Chunk :=
  { chunk with addr := y.host, port := y.port }

/-- One copy for each client but the excluded one. -/
def copies (env : Env) (skip : Option UdpSender) (chunk : Chunk) (l : List UdpSender) :
    List (UdpSender × Chunk × Int) :=
  (l.filter fun y => skip ≠ some y).map fun y => (y, addressed chunk y, env.sent y.id)

/-- The clients left: the excluded one, and those whose send has not failed. -/
def left (env : Env) (skip : Option UdpSender) (l : List UdpSender) : List UdpSender :=
  l.filter fun y => skip = some y ∨ 0 ≤ sendSize env y

/-- Every client of {lit}`l` but the excluded one has been handed one copy, and exactly
those whose send failed are gone. -/
structure Reached (env : Env) (skip : Option UdpSender) (chunk : Chunk) (l : List UdpSender)
    (x x' : Server) : Prop where
  handed : ∃ new, x'.sends = x.sends ++ new ∧ new.Perm (copies env skip chunk l)
  slots : ∀ i, x'.slot i = (left env skip l)[i]?
  count : x'.nconnections = (left env skip l).length

/-- Every client but the excluded one has a sender, and those whose send fails are the last
of the table. -/
def OnlyLastFails (env : Env) (skip : Option UdpSender) (l : List UdpSender) : Prop :=
  ∀ y ∈ l, skip ≠ some y → y.sender ≠ none ∧ (env.sent y.id < 0 → l.getLast? = some y)

instance (env : Env) (skip : Option UdpSender) (l : List UdpSender) :
    Decidable (OnlyLastFails env skip l) :=
  inferInstanceAs (Decidable (∀ y ∈ l, _))

/-- Sending to the client fails. -/
def Bad (env : Env) (skip : Option UdpSender) (y : UdpSender) : Prop :=
  skip ≠ some y ∧ sendSize env y < 0

instance (env : Env) (skip : Option UdpSender) : DecidablePred (Bad env skip) :=
  fun _ => inferInstanceAs (Decidable (_ ∧ _))

/-! ## The table -/

/-- The slots are the entries of the list. -/
theorem Lists.slot_eq (h : x.Lists l) (i : Nat) : x.slot i = l[i]? := by
  rw [slot, h.sr_eq, SlotTable.get_table]

theorem Lists.sized (h : x.Lists l) : x.books.Sized := by
  have hfits := h.fits
  refine ⟨?_, ?_⟩
  · show x.sr.length = x.maxconnections
    rw [h.sr_eq, SlotTable.length_table]
    omega
  · show x.nconnections ≤ x.maxconnections
    rw [h.count]
    exact hfits

theorem Lists.congr (h : x.Lists l) (hsr : x'.sr = x.sr)
    (hcount : x'.nconnections = x.nconnections) (hmax : x'.maxconnections = x.maxconnections) :
    x'.Lists l :=
  ⟨by rw [hsr, hmax, h.sr_eq], by rw [hcount, h.count], by rw [hmax]; exact h.fits,
    by rw [hmax]; exact h.max_lt, h.distinct⟩

/-- No client is in the list twice. -/
theorem Lists.nodup (h : x.Lists l) : l.Nodup :=
  List.Nodup.of_map _ h.distinct

/-- Without its last client. -/
theorem Lists.init {mid : List UdpSender} (h : x.Lists (mid ++ [y]))
    (hsr : x'.sr = x.sr.set mid.length none) (hcount : x'.nconnections = x.nconnections - 1)
    (hmax : x'.maxconnections = x.maxconnections) : x'.Lists mid := by
  have hfits := h.fits
  have hold := h.count
  rw [List.length_append, List.length_singleton] at hfits hold
  have hspare : x.maxconnections - mid.length =
      x.maxconnections - (mid ++ [y]).length + 1 := by
    rw [List.length_append, List.length_singleton]
    omega
  have hid : mid.length < (mid ++ [y]).length := by simp
  have herase : (mid ++ [y]).eraseIdx mid.length = mid := by
    rw [List.eraseIdx_append_of_length_le (Nat.le_refl _), Nat.sub_self, List.eraseIdx_cons_zero,
      List.append_nil]
  have hset := (SlotTable.set_none_eq_eraseIdx_iff (mid ++ [y]) _ _ hid hspare).2 (by simp)
  rw [herase, ← h.sr_eq] at hset
  constructor
  case sr_eq => rw [hsr, hset, hmax]
  case count => omega
  case fits => omega
  case max_lt => exact hmax ▸ h.max_lt
  case distinct =>
    have hdistinct := h.distinct
    rw [List.map_append] at hdistinct
    exact hdistinct.of_append_left

/-! ## One send, with the timeout off -/

/-- Without a timeout no client is ever late. -/
theorem not_due (htimeout : x.timeout ≤ 0) (now : ℚ) : ¬ x.Due now :=
  fun hdue => absurd hdue.1 (not_lt.2 htimeout)

/-- The copy that a client gets if it has a sender. -/
def copyFor (env : Env) (chunk : Chunk) (y : UdpSender) : List (UdpSender × Chunk × Int) :=
  if y.sender = none then [] else [(y, addressed chunk y, env.sent y.id)]

/-- Without a timeout, disconnecting a client does nothing but what its removal does. -/
theorem disconnect_untimed (env : Env) (htimeout : x.timeout ≤ 0) {client : Nat}
    (hclient : client < x.nconnections) (hslot : x.slot client = some y) :
    ∃ faults log, x.disconnect env client =
      { x.released [y] with
        sr := x.sr.set client none
        nconnections := x.nconnections - 1
        faults := faults
        log := log } := by
  rcases touch_faults x client with ⟨f, hf⟩
  have hslot' : slot { x with faults := f } client = some y := hslot
  rcases senderRemove_used (x := { x with faults := f }) hclient hslot' with ⟨g, hg⟩
  have htimeout' : (senderRemove { x with faults := f } client).timeout ≤ 0 := by
    rw [hg]
    exact htimeout
  have hstill := autoremove_of_not_due (not_due htimeout' env.now)
  rcases disconnect_cases x env client with ⟨hout, -⟩ | ⟨-, -, hnone, -⟩ | ⟨-, -, outputs, heq⟩
  · exact absurd hclient (Nat.not_lt.2 hout)
  · rw [hslot] at hnone
    cases hnone
  · rw [heq, hf, hstill, hg]
    exact ⟨_, _, rfl⟩

/-- Without a timeout, sending to a client is offering it the chunk and removing it on failure.
-/
theorem sendBytes_untimed (env : Env) (htimeout : x.timeout ≤ 0) {client : Nat}
    (hclient : client < x.nconnections) (hmax : client < x.maxconnections)
    (hslot : x.slot client = some y) (chunk : Chunk) :
    ∃ faults log, x.sendBytes env client (some chunk) =
      if sendSize env y < 0 then
        { x.released [y] with
          sr := x.sr.set client none
          nconnections := x.nconnections - 1
          sends := x.sends ++ copyFor env chunk y
          faults := faults
          log := log }
      else
        { x with sends := x.sends ++ copyFor env chunk y, faults := faults, log := log } := by
  rcases touch_faults x client with ⟨f, hf⟩
  have hslot' : slot { x with faults := f } client = some y := hslot
  have hoffered : ∃ log, (offered env { x with faults := f } client y chunk) =
      { x with sends := x.sends ++ copyFor env chunk y, faults := f, log := log } := by
    unfold offered copyFor
    dsimp only
    by_cases hsender : y.sender = none
    · rw [if_pos hsender, if_pos hsender, List.append_nil]
      exact ⟨_, rfl⟩
    · rw [if_neg hsender, if_neg hsender, sendSize, if_neg hsender]
      exact ⟨_, rfl⟩
  rcases hoffered with ⟨log, hlog⟩
  have hsend : x.sendBytes env client (some chunk) =
      if sendSize env y < 0 then
        (offered env { x with faults := f } client y chunk).disconnect env client
      else offered env { x with faults := f } client y chunk := by
    rw [sendBytes, if_pos hmax, hf]
    dsimp only
    rw [hslot']
    rfl
  rw [hsend, hlog]
  by_cases hfails : sendSize env y < 0
  · rw [if_pos hfails]
    rcases disconnect_untimed env
      (x := { x with sends := x.sends ++ copyFor env chunk y, faults := f, log := log }) htimeout
      hclient hslot with ⟨g, log', hg⟩
    refine ⟨g, log', ?_⟩
    rw [hg, if_pos hfails]
    rfl
  · rw [if_neg hfails]
    exact ⟨f, log, by rw [if_neg hfails]⟩

/-! ## The loop -/

/-- The index {lit}`but` is left out just where the client {lit}`skip` stands. -/
def Excludes (l : List UdpSender) (but : Option Nat) (skip : Option UdpSender) : Prop :=
  ∀ i y, l[i]? = some y → (but = some i ↔ skip = some y)

/-- What the clients of a part of the table are handed. -/
def handedTo (env : Env) (skip : Option UdpSender) (chunk : Chunk) (l : List UdpSender) :
    List (UdpSender × Chunk × Int) :=
  (l.filter fun y => skip ≠ some y).flatMap (copyFor env chunk)

/-- The client that is left out is handed nothing. -/
theorem handedTo_cons_skip {skip : Option UdpSender} (hskip : skip = some y) (chunk : Chunk)
    (l : List UdpSender) : handedTo env skip chunk (y :: l) = handedTo env skip chunk l := by
  rw [handedTo, List.filter_cons_of_neg (by simpa using hskip), handedTo]

/-- Every other client is handed its own copy. -/
theorem handedTo_cons {skip : Option UdpSender} (hskip : skip ≠ some y) (chunk : Chunk)
    (l : List UdpSender) :
    handedTo env skip chunk (y :: l) = copyFor env chunk y ++ handedTo env skip chunk l := by
  rw [handedTo, List.filter_cons_of_pos (by simpa using hskip), List.flatMap_cons, handedTo]

/-- One round of the loop for a client that is not left out. -/
theorem sendFrom_round {but : Option Nat} {skip : Option UdpSender} (h : x.Lists l)
    (hskip : Excludes l but skip) {client : Nat} (hget : l[client]? = some y)
    (hsent : skip ≠ some y) (chunk : Option Chunk) (fuel : Nat) :
    x.sendFrom env but chunk (fuel + 1) client =
      (x.sendBytes env client chunk).sendFrom env but chunk fuel (client + 1) := by
  have hclient : client < x.nconnections := by
    rw [h.count]
    exact (List.getElem?_eq_some_iff.1 hget).1
  rw [sendFrom, if_pos hclient, if_neg fun hbut => hsent ((hskip client y hget).1 hbut)]

/-- Clients whose sends succeed are handed their copies one after the other. -/
theorem sendFrom_calm {but : Option Nat} {skip : Option UdpSender} (chunk : Chunk)
    (pre mid rest : List UdpSender) (hl : l = pre ++ (mid ++ rest)) (h : x.Lists l)
    (htimeout : x.timeout ≤ 0) (hskip : Excludes l but skip)
    (hcalm : ∀ y ∈ mid, ¬ Bad env skip y) (fuel : Nat) (hfuel : mid.length ≤ fuel) :
    ∃ x₁ : Server, x.sendFrom env but (some chunk) fuel pre.length =
        x₁.sendFrom env but (some chunk) (fuel - mid.length) (pre.length + mid.length) ∧
      x₁.Lists l ∧ x₁.timeout ≤ 0 ∧ x₁.sends = x.sends ++ handedTo env skip chunk mid := by
  induction mid generalizing x pre fuel with
  | nil => exact ⟨x, rfl, h, htimeout, by simp [handedTo]⟩
  | cons y mid ih =>
      obtain ⟨fuel, rfl⟩ : ∃ k, fuel = k + 1 := ⟨fuel - 1, by simp at hfuel; omega⟩
      have hget : l[pre.length]? = some y := by simp [hl]
      have hlt : pre.length < l.length := (List.getElem?_eq_some_iff.1 hget).1
      have hl' : l = (pre ++ [y]) ++ (mid ++ rest) := by simp [hl]
      have hlen : (pre ++ [y]).length = pre.length + 1 := by simp
      have hindex : pre.length + 1 + mid.length = pre.length + (y :: mid).length := by
        simp only [List.length_cons]
        omega
      have hleft : fuel - mid.length = fuel + 1 - (y :: mid).length := by
        simp only [List.length_cons]
        omega
      have hrest := fun z hz => hcalm z (List.mem_cons_of_mem y hz)
      have hfuel' : mid.length ≤ fuel := by simpa using hfuel
      by_cases hout : skip = some y
      · have hround : x.sendFrom env but (some chunk) (fuel + 1) pre.length =
            x.sendFrom env but (some chunk) fuel (pre.length + 1) := by
          rw [sendFrom, h.count, if_pos hlt, if_pos ((hskip _ _ hget).2 hout)]
        rcases ih (pre ++ [y]) hl' h htimeout hrest fuel hfuel' with ⟨x₁, hloop, hx₁⟩
        rw [hlen, hindex, hleft] at hloop
        rw [hround, handedTo_cons_skip hout]
        exact ⟨x₁, hloop, hx₁⟩
      · have hsucceeds : ¬ sendSize env y < 0 := fun hneg =>
          hcalm y List.mem_cons_self ⟨hout, hneg⟩
        have hfits := h.fits
        rcases sendBytes_untimed env htimeout (h.count.symm ▸ hlt)
          (Nat.lt_of_lt_of_le hlt hfits) ((h.slot_eq _).trans hget) chunk with ⟨f, log, hsend⟩
        rw [if_neg hsucceeds] at hsend
        rcases ih (pre ++ [y]) hl' (x := x.sendBytes env pre.length (some chunk))
          (by rw [hsend]; exact h.congr rfl rfl rfl) (by rw [hsend]; exact htimeout) hrest fuel
          hfuel' with ⟨x₁, hloop, hlists, htimeout', hsends⟩
        rw [hlen, hindex, hleft] at hloop
        refine ⟨x₁, ?_, hlists, htimeout', ?_⟩
        · rw [sendFrom_round h hskip hget hout, hloop]
        · rw [hsends, hsend, handedTo_cons hout, List.append_assoc]

/-- The client in slot {lit}`i` has been taken out. -/
structure Holed (x x' : Server) (i : Nat) : Prop where
  sr_eq : x'.sr = x.sr.set i none
  count : x'.nconnections = x.nconnections - 1
  max_eq : x'.maxconnections = x.maxconnections

/-- The first send that fails leaves a hole. -/
theorem sendFrom_first {but : Option Nat} {skip : Option UdpSender} (chunk : Chunk)
    {mid rest : List UdpSender} (hl : l = mid ++ y :: rest) (h : x.Lists l)
    (htimeout : x.timeout ≤ 0) (hskip : Excludes l but skip)
    (hcalm : ∀ y ∈ mid, ¬ Bad env skip y) (hbad : Bad env skip y) (fuel : Nat)
    (hfuel : l.length ≤ fuel) :
    ∃ x₀ x₁ : Server, x.sendFrom env but (some chunk) fuel 0 =
        x₁.sendFrom env but (some chunk) (fuel - mid.length - 1) (mid.length + 1) ∧
      x₀.Lists l ∧ x₀.Holed x₁ mid.length ∧ x₁.timeout ≤ 0 ∧
      x₁.sends = x.sends ++ handedTo env skip chunk (mid ++ [y]) := by
  have hlen : l.length = mid.length + (rest.length + 1) := by simp [hl]
  have hget : l[mid.length]? = some y := by simp [hl]
  have hlt : mid.length < l.length := by omega
  rcases sendFrom_calm chunk [] mid (y :: rest) hl h htimeout hskip hcalm fuel (by omega) with
    ⟨x₀, hloop, hlists, htimeout', hsends⟩
  obtain ⟨k, hk⟩ : ∃ k, fuel - mid.length = k + 1 := ⟨fuel - mid.length - 1, by omega⟩
  have hfits := hlists.fits
  rcases sendBytes_untimed env htimeout' (hlists.count.symm ▸ hlt)
    (Nat.lt_of_lt_of_le hlt hfits) ((hlists.slot_eq _).trans hget) chunk with ⟨f, log, hsend⟩
  rw [if_pos hbad.2] at hsend
  rw [List.length_nil, Nat.zero_add, hk, sendFrom_round hlists hskip hget hbad.1] at hloop
  have hhanded : handedTo env skip chunk (mid ++ [y]) =
      handedTo env skip chunk mid ++ copyFor env chunk y := by
    simp [handedTo, List.filter_append, hbad.1]
  refine ⟨x₀, x₀.sendBytes env mid.length (some chunk), ?_, hlists, ?_, ?_, ?_⟩
  · rw [hloop, hk, Nat.add_sub_cancel]
  · rw [hsend]
    exact ⟨rfl, rfl, rfl⟩
  · rw [hsend]
    exact htimeout'
  · rw [hsend, hhanded, ← List.append_assoc, ← hsends]

/-- The loop ends at the number of clients. -/
theorem sendFrom_over (env : Env) (but : Option Nat) (chunk : Option Chunk) {client : Nat}
    (h : x.nconnections ≤ client) (fuel : Nat) : x.sendFrom env but chunk fuel client = x := by
  cases fuel with
  | zero => rfl
  | succ fuel => rw [sendFrom, if_neg (Nat.not_lt.2 h)]

/-! ## Behind a hole -/

/-- With the timeout off an empty slot stays empty. -/
theorem sendFrom_slot_none {but : Option Nat} {chunk : Chunk} {i : Nat} (fuel client : Nat)
    (hsized : x.books.Sized) (htimeout : x.timeout ≤ 0) (hnone : x.slot i = none) :
    (x.sendFrom env but (some chunk) fuel client).slot i = none := by
  induction fuel generalizing x client with
  | zero => exact hnone
  | succ fuel ih =>
      rw [sendFrom]
      split
      · rename_i hclient
        have hmax : client < x.maxconnections := Nat.lt_of_lt_of_le hclient hsized.count_le
        by_cases hbut : but = some client
        · rw [if_pos hbut]
          exact ih (client + 1) hsized htimeout hnone
        · rw [if_neg hbut]
          have hsized' := hsized.drops (drops_sendBytes hsized env client (some chunk))
          cases hslot : x.slot client with
          | none =>
              rcases touch_faults x client with ⟨f, hf⟩
              have hsend : x.sendBytes env client (some chunk) = { x with faults := f } := by
                rw [sendBytes, if_pos hmax, hf]
                have hslot' : slot { x with faults := f } client = none := hslot
                simp only [hslot']
              rw [hsend] at hsized' ⊢
              exact ih (client + 1) hsized' htimeout hnone
          | some y =>
              rcases sendBytes_untimed env htimeout hclient hmax hslot chunk with
                ⟨f, log, hsend⟩
              rw [hsend] at hsized' ⊢
              split at hsized' <;> rename_i hfails
              · rw [if_pos hfails]
                refine ih (client + 1) hsized' htimeout ?_
                show SlotTable.get (x.sr.set client none) i = none
                rw [SlotTable.get_set]
                split
                · rfl
                · exact hnone
              · rw [if_neg hfails]
                exact ih (client + 1) hsized' htimeout hnone
      · exact hnone

/-- What the loop hands out goes to clients with a sender, and to none that does not
count. -/
theorem sendFrom_new (env : Env) (but : Option Nat) (chunk : Chunk) (fuel client : Nat)
    (hsized : x.books.Sized) (htimeout : x.timeout ≤ 0) :
    ∃ new, (x.sendFrom env but (some chunk) fuel client).sends = x.sends ++ new ∧
      ∀ e ∈ new, e.1.sender ≠ none ∧ ∀ k, x.books.Uncounted k → e.1.id ≠ k := by
  induction fuel generalizing x client with
  | zero => exact ⟨[], by simp [sendFrom], by simp⟩
  | succ fuel ih =>
      rw [sendFrom]
      split
      · rename_i hclient
        have hmax : client < x.maxconnections := Nat.lt_of_lt_of_le hclient hsized.count_le
        by_cases hbut : but = some client
        · rw [if_pos hbut]
          exact ih (client + 1) hsized htimeout
        · rw [if_neg hbut]
          have hdrops := drops_sendBytes hsized env client (some chunk)
          have hone : ∃ new, (x.sendBytes env client (some chunk)).sends = x.sends ++ new ∧
              (x.sendBytes env client (some chunk)).timeout ≤ 0 ∧
              ∀ e ∈ new, e.1.sender ≠ none ∧ ∀ k, x.books.Uncounted k → e.1.id ≠ k := by
            cases hslot : x.slot client with
            | none =>
                rcases touch_faults x client with ⟨f, hf⟩
                have hslot' : slot { x with faults := f } client = none := hslot
                rw [sendBytes, if_pos hmax, hf]
                simp only [hslot']
                exact ⟨[], by simp, htimeout, by simp⟩
            | some y =>
                have hcopy : ∀ e ∈ copyFor env chunk y,
                    e.1.sender ≠ none ∧ ∀ k, x.books.Uncounted k → e.1.id ≠ k := by
                  intro e he
                  unfold copyFor at he
                  split at he
                  · contradiction
                  · rename_i hsender
                    have hey : e = (y, addressed chunk y, env.sent y.id) :=
                      List.mem_singleton.1 he
                    subst hey
                    refine ⟨hsender, fun k hk => ?_⟩
                    exact hk y (SlotTable.mem_window.2 ⟨client, hclient, hslot⟩)
                rcases sendBytes_untimed env htimeout hclient hmax hslot chunk with
                  ⟨f, log, hsend⟩
                rw [hsend]
                split
                · exact ⟨_, rfl, htimeout, hcopy⟩
                · exact ⟨_, rfl, htimeout, hcopy⟩
          rcases hone with ⟨first, hfirst, htimeout', hmem⟩
          rcases ih (client + 1) (hsized.drops hdrops) htimeout' with ⟨rest, hrest, hmem'⟩
          refine ⟨first ++ rest, ?_, fun e he => ?_⟩
          · rw [hrest, hfirst, List.append_assoc]
          · cases List.mem_append.1 he with
            | inl hin => exact hmem e hin
            | inr hin =>
                exact ⟨(hmem' e hin).1, fun k hk => (hmem' e hin).2 k (hk.drops hdrops)⟩
      · exact ⟨[], by simp, by simp⟩

/-! ## Both directions -/

/-- Either no client fails or there is a first one that does. -/
theorem calm_or_first (env : Env) (skip : Option UdpSender) (l : List UdpSender) :
    (∀ y ∈ l, ¬ Bad env skip y) ∨
      ∃ mid y rest, l = mid ++ y :: rest ∧ Bad env skip y ∧ ∀ z ∈ mid, ¬ Bad env skip z := by
  cases hfind : l.find? fun y => Bad env skip y with
  | none =>
      left
      simpa using List.find?_eq_none.1 hfind
  | some y =>
      rcases List.find?_eq_some_iff_append.1 hfind with ⟨hbad, mid, rest, hl, hcalm⟩
      exact Or.inr ⟨mid, y, rest, hl, by simpa using hbad, by simpa using hcalm⟩

/-- Where only the last client fails, every client is handed its copy. -/
theorem OnlyLastFails.handed {skip : Option UdpSender} (h : OnlyLastFails env skip l)
    (chunk : Chunk) : handedTo env skip chunk l = copies env skip chunk l := by
  unfold handedTo copies
  rw [← List.flatMap_singleton' (List.map _ _), List.flatMap_map]
  apply List.flatMap_congr
  intro y hy
  rw [List.mem_filter] at hy
  have hsender := (h y hy.1 (by simpa using hy.2)).1
  rw [copyFor, if_neg hsender]

/-- Where no client fails, all clients are left. -/
theorem left_of_calm {skip : Option UdpSender} (h : ∀ y ∈ l, ¬ Bad env skip y) :
    left env skip l = l := by
  apply List.filter_eq_self.2
  intro y hy
  have hcalm := h y hy
  unfold Bad at hcalm
  rw [decide_eq_true_eq]
  by_cases hskip : skip = some y
  · exact Or.inl hskip
  · exact Or.inr (Int.not_lt.1 fun hneg => hcalm ⟨hskip, hneg⟩)

theorem Bad.sent {skip : Option UdpSender} (h : Bad env skip y) :
    y.sender ≠ none ∧ env.sent y.id < 0 := by
  have hneg := h.2
  unfold sendSize at hneg
  split at hneg
  · omega
  · exact ⟨‹_›, hneg⟩

/-- A client that fails is not left. -/
theorem left_cons_of_bad {skip : Option UdpSender} (h : Bad env skip y) :
    left env skip (y :: l) = left env skip l := by
  apply List.filter_cons_of_neg
  have hneg := h.2
  rw [decide_eq_true_eq]
  rintro (hskip | hsize)
  · exact h.1 hskip
  · omega

/-- The loop reaches everybody if only the last client fails. -/
theorem sendFrom_reaches {but : Option Nat} {skip : Option UdpSender} {chunk : Chunk}
    (h : x.Lists l) (htimeout : x.timeout ≤ 0) (hskip : Excludes l but skip)
    (hok : OnlyLastFails env skip l) {fuel : Nat} (hfuel : l.length ≤ fuel) :
    Reached env skip chunk l x (x.sendFrom env but (some chunk) fuel 0) := by
  rcases calm_or_first env skip l with hcalm | ⟨mid, y, rest, hl, hbad, hcalm⟩
  · rcases sendFrom_calm chunk [] l [] (by simp) h htimeout hskip hcalm fuel hfuel with
      ⟨x₁, hloop, hlists, _, hsends⟩
    have hover := sendFrom_over env but (some chunk)
      (Nat.le_of_eq hlists.count) (fuel - l.length)
    rw [List.length_nil, Nat.zero_add, hover] at hloop
    rw [hloop]
    refine ⟨⟨_, hsends, ?_⟩, ?_, ?_⟩
    · rw [hok.handed]
    · rw [left_of_calm hcalm]
      exact hlists.slot_eq
    · rw [left_of_calm hcalm]
      exact hlists.count
  · have hy : y ∈ l := by simp [hl]
    have hlast : rest = [] := by
      have hfinal := (hok y hy hbad.1).2 hbad.sent.2
      have hnodup := h.nodup
      rw [hl] at hfinal hnodup
      by_contra hmore
      rw [List.getLast?_append, List.getLast?_cons, List.getLast?_eq_some_getLast hmore] at hfinal
      have hin : y ∈ rest := by
        have heq : rest.getLast hmore = y := by simpa using hfinal
        exact heq ▸ List.getLast_mem hmore
      exact (List.nodup_cons.1 (List.nodup_append.1 hnodup).2.1).1 hin
    subst hlast
    rcases sendFrom_first chunk hl h htimeout hskip hcalm hbad fuel hfuel with
      ⟨x₀, x₁, hloop, hlists, hholed, _, hsends⟩
    rw [hl] at hlists
    have hmid := hlists.init hholed.sr_eq hholed.count hholed.max_eq
    have hover := sendFrom_over env but (some chunk)
      (Nat.le_succ_of_le (Nat.le_of_eq hmid.count)) (fuel - mid.length - 1)
    rw [hover] at hloop
    have hleft : left env skip l = mid := by
      rw [hl, left, List.filter_append]
      exact (congrArg₂ (· ++ ·) (left_of_calm hcalm) (left_cons_of_bad hbad)).trans
        (List.append_nil mid)
    rw [hloop]
    refine ⟨⟨_, hsends, ?_⟩, ?_, ?_⟩
    · rw [← hl, hok.handed]
    · rw [hleft]
      exact hmid.slot_eq
    · rw [hleft]
      exact hmid.count

/-- Behind a hole the last client does not count. -/
theorem Lists.uncounted {x₁ : Server} {mid rest : List UdpSender} {z : UdpSender} (h : x.Lists l)
    (hl : l = mid ++ y :: (rest ++ [z])) (hholed : x.Holed x₁ mid.length) :
    x₁.books.Uncounted z.id := by
  intro w hw hid
  rcases SlotTable.mem_window.1 hw with ⟨j, hj, hget⟩
  have hlen : l.length = mid.length + rest.length + 2 := by
    simp [hl]
    omega
  have hcount := h.count
  have hsub : j < x.nconnections - 1 := hholed.count ▸ hj
  have hgetx : SlotTable.get (x.sr.set mid.length none) j = some w := hholed.sr_eq ▸ hget
  rw [SlotTable.get_set] at hgetx
  split at hgetx
  · cases hgetx
  · have hgetl : l[j]? = some w := (h.slot_eq j).symm.trans hgetx
    have hlast : l[l.length - 1]? = some z := by
      have hz : l = (mid ++ y :: rest) ++ [z] := by simp [hl]
      rw [hz, List.length_append, List.length_singleton, Nat.add_sub_cancel,
        List.getElem?_append_right (Nat.le_refl _), Nat.sub_self, List.getElem?_cons_zero]
    have hidj : (l.map UdpSender.id)[j]? = some w.id := by rw [List.getElem?_map, hgetl]; rfl
    have hidz : (l.map UdpSender.id)[l.length - 1]? = some z.id := by
      rw [List.getElem?_map, hlast]; rfl
    have hsame : j = l.length - 1 :=
      (List.getElem?_inj (by rw [List.length_map]; omega) h.distinct).1
        (hidj.trans (hid ▸ hidz.symm))
    omega

/-- Only clients of the list are handed a copy. -/
theorem mem_handedTo {skip : Option UdpSender} {chunk : Chunk} {e : UdpSender × Chunk × Int}
    (h : e ∈ handedTo env skip chunk l) : e.1 ∈ l := by
  rcases List.mem_flatMap.1 h with ⟨y, hy, he⟩
  unfold copyFor at he
  split at he
  · contradiction
  · rw [List.mem_singleton.1 he]
    exact List.mem_of_mem_filter hy

/-- Every client that is not left out has its copy among those due. -/
theorem mem_copies (env : Env) {skip : Option UdpSender} (chunk : Chunk) (hy : y ∈ l)
    (hskip : skip ≠ some y) : (y, addressed chunk y, env.sent y.id) ∈ copies env skip chunk l :=
  List.mem_map.2 ⟨y, List.mem_filter.2 ⟨hy, by simpa using hskip⟩, rfl⟩

/-- After a failed send that was not the last one, either the last client has got no copy,
or it is the excluded one and there is a hole in the table. -/
theorem not_reached_of_hole {but : Option Nat} {skip : Option UdpSender} {chunk : Chunk}
    {mid rest : List UdpSender} {z : UdpSender} (hl : l = mid ++ y :: (rest ++ [z]))
    (h : x.Lists l) (htimeout : x.timeout ≤ 0) (hskip : Excludes l but skip)
    (hcalm : ∀ y ∈ mid, ¬ Bad env skip y) (hbad : Bad env skip y) {fuel : Nat}
    (hfuel : l.length ≤ fuel) :
    ¬ Reached env skip chunk l x (x.sendFrom env but (some chunk) fuel 0) := by
  intro hreached
  rcases sendFrom_first chunk hl h htimeout hskip hcalm hbad fuel hfuel with
    ⟨x₀, x₁, hloop, hlists, hholed, htimeout', hsends⟩
  have hsized : x₁.books.Sized := by
    have hwhole := hlists.sized
    refine ⟨?_, ?_⟩
    · show x₁.sr.length = x₁.maxconnections
      rw [hholed.sr_eq, hholed.max_eq, List.length_set]
      exact hwhole.length_sr
    · show x₁.nconnections ≤ x₁.maxconnections
      rw [hholed.count, hholed.max_eq]
      exact Nat.le_trans (Nat.sub_le _ 1) hwhole.count_le
  have hz : z ∈ l := by simp [hl]
  rw [hloop] at hreached
  by_cases hout : skip = some z
  · have hnone : x₁.slot mid.length = none := by
      show SlotTable.get x₁.sr mid.length = none
      have hlong : mid.length < x₀.sr.length := by
        rw [hlists.sr_eq, SlotTable.length_table, hl]
        simp
        omega
      rw [hholed.sr_eq, SlotTable.get_set, if_pos ⟨rfl, hlong⟩]
    have hslot := hreached.slots mid.length
    rw [sendFrom_slot_none _ _ hsized htimeout' hnone] at hslot
    have hkept : left env skip l = mid ++ left env skip (rest ++ [z]) := by
      rw [hl, left, List.filter_append]
      exact congrArg₂ (· ++ ·) (left_of_calm hcalm) (left_cons_of_bad hbad)
    have hzleft : z ∈ left env skip (rest ++ [z]) :=
      List.mem_filter.2 ⟨by simp, by simp [hout]⟩
    have hmore := List.length_pos_of_mem hzleft
    have hshort : (left env skip l).length ≤ mid.length := List.getElem?_eq_none_iff.1 hslot.symm
    rw [hkept, List.length_append] at hshort
    omega
  · rcases hreached.handed with ⟨new, hnew, hperm⟩
    rcases sendFrom_new env but chunk (fuel - mid.length - 1)
      (mid.length + 1) hsized htimeout' with ⟨more, hmore, hmem⟩
    rw [hmore, hsends, List.append_assoc] at hnew
    have hin := hperm.mem_iff.2 (mem_copies env chunk hz hout)
    rw [← List.append_cancel_left hnew] at hin
    cases List.mem_append.1 hin with
    | inl hin =>
        have hmid : z ∈ mid ++ [y] := mem_handedTo hin
        have hnodup := h.nodup
        have hsplit : l = (mid ++ [y]) ++ (rest ++ [z]) := by simp [hl]
        rw [hsplit] at hnodup
        exact (List.nodup_append.1 hnodup).2.2 z hmid z (by simp) rfl
    | inr hin => exact (hmem _ hin).2 z.id (hlists.uncounted hl hholed) rfl

/-- If the loop reaches everybody then only the last client fails. -/
theorem onlyLastFails_of_reached {but : Option Nat} {skip : Option UdpSender} {chunk : Chunk}
    (h : x.Lists l) (htimeout : x.timeout ≤ 0) (hskip : Excludes l but skip) {fuel : Nat}
    (hfuel : l.length ≤ fuel)
    (hreached : Reached env skip chunk l x (x.sendFrom env but (some chunk) fuel 0)) :
    OnlyLastFails env skip l := by
  intro y hy hout
  have hsender : y.sender ≠ none := by
    rcases hreached.handed with ⟨new, hnew, hperm⟩
    rcases sendFrom_new env but chunk fuel 0 h.sized htimeout with
      ⟨all, hall, hmem⟩
    have hin := hperm.mem_iff.2 (mem_copies env chunk hy hout)
    rw [← List.append_cancel_left (hall.symm.trans hnew)] at hin
    exact (hmem _ hin).1
  refine ⟨hsender, fun hneg => ?_⟩
  have hybad : Bad env skip y := ⟨hout, by rw [sendSize, if_neg hsender]; exact hneg⟩
  rcases calm_or_first env skip l with hcalm | ⟨mid, first, rest, hl, hbad, hcalm⟩
  · exact absurd hybad (hcalm y hy)
  · rcases List.eq_nil_or_concat rest with hrest | ⟨rest', z, hrest⟩
    · subst hrest
      rw [hl] at hy ⊢
      cases List.mem_append.1 hy with
      | inl hmid => exact absurd hybad (hcalm y hmid)
      | inr hfirst => rw [List.mem_singleton.1 hfirst, List.getLast?_concat]
    · rw [List.concat_eq_append] at hrest
      subst hrest
      exact absurd hreached (not_reached_of_hole hl h htimeout hskip hcalm hbad hfuel)

/-- The loop reaches everybody exactly if only the last client fails. -/
theorem sendFrom_reaches_iff {but : Option Nat} {skip : Option UdpSender} {chunk : Chunk}
    (h : x.Lists l) (htimeout : x.timeout ≤ 0) (hskip : Excludes l but skip) :
    Reached env skip chunk l x (x.sendFrom env but (some chunk) (2 ^ 32) 0) ↔
      OnlyLastFails env skip l := by
  have hfits := h.fits
  have hmax := h.max_lt
  have hfuel : l.length ≤ 2 ^ 32 := by omega
  exact ⟨onlyLastFails_of_reached h htimeout hskip hfuel,
    fun hok => sendFrom_reaches h htimeout hskip hok hfuel⟩

/-! ## The messages -/

/-- The outlets do not matter. -/
theorem reached_congr {skip : Option UdpSender} {chunk : Chunk} {x₁ x₂ : Server}
    (hsends : x₂.sends = x₁.sends) (hsr : x₂.sr = x₁.sr)
    (hcount : x₂.nconnections = x₁.nconnections) :
    Reached env skip chunk l x x₂ ↔ Reached env skip chunk l x x₁ := by
  have hslot : ∀ i, x₂.slot i = x₁.slot i := fun i => by rw [slot, slot, hsr]
  constructor
  · rintro ⟨hhanded, hslots, hn⟩
    exact ⟨hsends ▸ hhanded, fun i => (hslot i).symm.trans (hslots i), hcount ▸ hn⟩
  · rintro ⟨hhanded, hslots, hn⟩
    exact ⟨hsends ▸ hhanded, fun i => (hslot i).trans (hslots i), hcount ▸ hn⟩

/-- A broadcast changes what its loop changes. -/
theorem broadcast_frame (env : Env) (htimeout : x.timeout ≤ 0) (argv : List Atom) {x' : Server}
    (hloop : x.sendFrom env none (chunkCreateList env.mem argv) (2 ^ 32) 0 = x') :
    (x.broadcast env argv).sends = x'.sends ∧ (x.broadcast env argv).sr = x'.sr ∧
      (x.broadcast env argv).nconnections = x'.nconnections := by
  unfold broadcast
  rw [autoremove_of_not_due (not_due htimeout env.now), hloop]
  dsimp only
  split
  · exact ⟨rfl, rfl, rfl⟩
  · exact ⟨rfl, rfl, rfl⟩

theorem Lists.excludes (h : x.Lists l) {i : Nat} {s : UdpSender} (hs : l[i]? = some s) :
    Excludes l (some i) (some s) := by
  intro j y hj
  constructor
  · intro hij
    rw [Option.some_inj] at hij
    rw [hij, hj] at hs
    exact hs.symm
  · intro hsy
    rw [Option.some_inj] at hsy
    subst hsy
    have hlt := (List.getElem?_eq_some_iff.1 hs).1
    rw [(List.getElem?_inj hlt h.nodup).1 (hs.trans hj.symm)]

end Server

/-- With the timeout off, a message to all clients hands every one of them its copy and
removes just those whose send fails, exactly if all of them have a sender and only the last
one of the table fails; and so does a message to all but one client. -/
theorem broadcast_reaches_iff {x : Server} {env : Env} {l : List UdpSender} (h : x.Lists l)
    (htimeout : x.timeout ≤ 0) {argv : List Atom} {chunk : Chunk}
    (hchunk : chunkCreateList env.mem argv = some chunk) :
    (Server.Reached env none chunk l x (x.broadcast env argv) ↔
        Server.OnlyLastFails env none l) ∧
      ∀ i s, l[i]? = some s →
        (Server.Reached env (some s) chunk l x (x.sendButclient env i argv) ↔
          Server.OnlyLastFails env (some s) l) := by
  constructor
  · have hskip : Server.Excludes l none none := by
      intro i y _
      constructor
      · intro hnone
        cases hnone
      · intro hnone
        cases hnone
    rcases Server.broadcast_frame env htimeout argv rfl with ⟨hsends, hsr, hcount⟩
    rw [Server.reached_congr hsends hsr hcount, hchunk]
    exact Server.sendFrom_reaches_iff h htimeout hskip
  · intro i s hs
    rw [Server.sendButclient, hchunk]
    exact Server.sendFrom_reaches_iff h htimeout (h.excludes hs)

/-- The client that the datagram from {lit}`port` makes. -/
def peer (id : Nat) (port : BitVec 16) : UdpSender :=
  ⟨id, 0x7f000001, port, hostname 0x7f000001#32, 1000 + id, some 3, 0⟩

theorem lists_twoPeers {x : Server} (h : udpserverMachine.run started twoPeers = some x) :
    x.Lists [peer 0 5000#16, peer 1 5001#16] := by
  cases h
  exact ⟨by decide +kernel, by decide +kernel, by decide +kernel, by decide +kernel,
    by decide +kernel⟩

/-- Of two clients the second one fails. -/
theorem broadcast_reaches_two :
    ∃ x, udpserverMachine.run started twoPeers = some x ∧
      Server.Reached (plainEnv 0 [1]) none ⟨[1#8], 0, 0#16, afInet⟩
        [peer 0 5000#16, peer 1 5001#16] x (x.broadcast (plainEnv 0 [1]) [setFloat 1]) := by
  have hrun : udpserverMachine.run started twoPeers = some _ := rfl
  refine ⟨_, hrun, (broadcast_reaches_iff (lists_twoPeers hrun) ?_ ?_).1.2 ?_⟩
  · decide +kernel
  · decide +kernel
  · decide +kernel

/-- If the first of two clients fails then the second one is handed nothing. -/
theorem broadcast_skips :
    ∃ x, udpserverMachine.Reachable x ∧ x.Lists [peer 0 5000#16, peer 1 5001#16] ∧
      x.timeout ≤ 0 ∧ x.sends = [] ∧
      ((x.broadcast (plainEnv 0 [0]) [setFloat 1]).sends.map fun e => e.1.id) = [0] := by
  have hrun : udpserverMachine.run started twoPeers = some _ := rfl
  exact ⟨_, Machine.reach_of_run init_started hrun, lists_twoPeers hrun, by decide +kernel,
    by decide +kernel, by decide +kernel⟩

end Iemnet.UdpServer
