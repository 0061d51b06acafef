import Iemnet.TcpServer.Reentrant.Machine

/-!
# The connections under re-entrant messages

While functions are active, a descriptor that has been accepted may not be a client's
yet, and {lit}`tcpserver_port` may be going to close a descriptor that it has read
earlier.  {lit}`Server.Sound` is the invariant of the table and of these descriptors.

Main results:

- Theorems {lit}`Sound.removed`, {lit}`Sound.entered`: a client less, and a client more.
- Theorem {lit}`Sound.expand`: what one task does to the table, as long as no client is
  removed from an empty slot.
-/

namespace Foundations.Descriptors

/-- Closing another number leaves a number open. -/
theorem mem_numbers_close {d : Descriptors} {fd fd' : Int} (h : fd' ∈ d.numbers)
    (hne : fd' ≠ fd) : fd' ∈ (d.close fd).numbers := by
  rcases List.mem_map.1 h with ⟨p, hp, rfl⟩
  unfold close
  split
  case h_1 q hq =>
    have hqfd : q.1 = fd := by simpa using List.find?_some hq
    have hpq : p ≠ q := fun heq => hne (heq ▸ hqfd)
    exact List.mem_map_of_mem ((List.mem_erase_of_ne hpq).2 hp)
  case h_2 => exact h

end Foundations.Descriptors

namespace Iemnet.TcpServer

open Pd Foundations

namespace Server

variable {x x' : Server} {l : List SocketReceiver} {y : SocketReceiver}
  {pending : List (Int × Nat)} {ports : List Int}

/-- The table of clients is the same, and nothing has been freed. -/
structure SameTable (x x' : Server) : Prop where
  sr : x'.sr = x.sr
  nconnections : x'.nconnections = x.nconnections
  maxconnections : x'.maxconnections = x.maxconnections
  freed : x'.freed = x.freed

/-- Neither the table nor the descriptors have changed. -/
structure Unmoved (x x' : Server) : Prop extends SameTable x x' where
  os : x'.os = x.os
  connectsocket : x'.connectsocket = x.connectsocket

/-- A connection that is in order: its descriptor is open and not a listener's, and its
serial has been given out and not been freed. -/
structure Connection (x : Server) (ports : List Int) (p : Int × Nat) : Prop where
  range : 0 ≤ p.1 ∧ p.1 < 2 ^ 31
  opened : p.1 ∈ x.os.numbers
  aside : p.1 ≠ x.connectsocket ∧ p.1 ∉ ports
  issued : p.2 < x.os.issued
  unfreed : p.2 ∉ x.freed

/-- The table holds the clients {lit}`l`; these and the {lit}`pending` connections are in
order and differ. -/
structure Sound (x : Server) (l : List SocketReceiver) (pending : List (Int × Nat))
    (ports : List Int) : Prop where
  tabled : x.Tabled l
  connection : ∀ p ∈ l.map SocketReceiver.entry ++ pending, x.Connection ports p
  fds : ((l.map SocketReceiver.entry ++ pending).map Prod.fst).Nodup
  ids : ((l.map SocketReceiver.entry ++ pending).map Prod.snd).Nodup
  freed_lt : ∀ id ∈ x.freed, id < x.os.issued
  listening : 0 ≤ x.connectsocket → x.connectsocket ∈ x.os.numbers

/-! ## Changes that leave the table alone -/

/-- A table that stays the same twice stays the same. -/
theorem SameTable.trans {x₁ x₂ x₃ : Server} (h : x₁.SameTable x₂) (h' : x₂.SameTable x₃) :
    x₁.SameTable x₃ :=
  ⟨h'.sr.trans h.sr, h'.nconnections.trans h.nconnections,
    h'.maxconnections.trans h.maxconnections, h'.freed.trans h.freed⟩

/-- Where nothing happens nothing has moved. -/
theorem Unmoved.refl (x : Server) : x.Unmoved x :=
  ⟨⟨rfl, rfl, rfl, rfl⟩, rfl, rfl⟩

/-- What does not move twice does not move. -/
theorem Unmoved.trans {x₁ x₂ x₃ : Server} (h : x₁.Unmoved x₂) (h' : x₂.Unmoved x₃) :
    x₁.Unmoved x₃ :=
  ⟨h.toSameTable.trans h'.toSameTable, h'.os.trans h.os,
    h'.connectsocket.trans h.connectsocket⟩

/-- Reading a client moves nothing. -/
theorem unmoved_access (x : Server) (y : SocketReceiver) : x.Unmoved (x.access y) := by
  unfold access
  split <;> exact ⟨⟨rfl, rfl, rfl, rfl⟩, rfl, rfl⟩

/-- Accessing a slot moves nothing. -/
theorem unmoved_touch (x : Server) (i : Nat) : x.Unmoved (x.touch i) := by
  unfold touch
  split <;> exact ⟨⟨rfl, rfl, rfl, rfl⟩, rfl, rfl⟩

/-- A fault moves nothing. -/
theorem unmoved_fault (x : Server) (f : Fault) : x.Unmoved (x.fault f) :=
  ⟨⟨rfl, rfl, rfl, rfl⟩, rfl, rfl⟩

/-- Closing a socket leaves the table alone. -/
theorem sameTable_closesocket (x : Server) (fd : Int) : x.SameTable (x.closesocket fd) := by
  unfold closesocket
  split <;> exact ⟨rfl, rfl, rfl, rfl⟩

/-- Closing the port leaves the table alone. -/
theorem sameTable_closePort (x : Server) (sockfd : Int) :
    x.SameTable (x.closePort sockfd) := by
  have hclose := sameTable_closesocket (x.rmpollfn sockfd) sockfd
  unfold Server.closePort
  split
  · exact ⟨hclose.sr, hclose.nconnections, hclose.maxconnections, hclose.freed⟩
  · exact ⟨rfl, rfl, rfl, rfl⟩

/-- The table stays in order as long as it stays the same. -/
theorem Tabled.same (h : x.Tabled l) (hsame : x.SameTable x') : x'.Tabled l := by
  constructor
  case sr_eq => rw [hsame.sr, hsame.maxconnections, h.sr_eq]
  case nconnections_eq => rw [hsame.nconnections, h.nconnections_eq]
  case length_le => exact hsame.maxconnections ▸ h.length_le
  case max_lt => exact hsame.maxconnections ▸ h.max_lt
  case range => exact h.range
  case notFreed => exact hsame.freed ▸ h.notFreed
  case fds_nodup => exact h.fds_nodup
  case ids_nodup => exact h.ids_nodup

/-- Opening and closing other descriptors, and forgetting about some, keeps the
connections in order. -/
theorem Sound.reopen {pending' : List (Int × Nat)} {ports' : List Int}
    (h : x.Sound l pending ports) (htable : x'.Tabled l) (hfreed : x'.freed = x.freed)
    (hsub : pending'.Sublist pending) (hissued : x.os.issued ≤ x'.os.issued)
    (hopened : ∀ p ∈ l.map SocketReceiver.entry ++ pending', p.1 ∈ x'.os.numbers)
    (haside : ∀ p ∈ l.map SocketReceiver.entry ++ pending',
      p.1 ≠ x'.connectsocket ∧ p.1 ∉ ports')
    (hlisten : 0 ≤ x'.connectsocket → x'.connectsocket ∈ x'.os.numbers) :
    x'.Sound l pending' ports' := by
  have hsub' := (List.Sublist.refl (l.map SocketReceiver.entry)).append hsub
  constructor
  case tabled => exact htable
  case connection =>
    intro p hp
    have hconn := h.connection p (hsub'.subset hp)
    exact ⟨hconn.range, hopened p hp, haside p hp, hconn.issued.trans_le hissued,
      hfreed ▸ hconn.unfreed⟩
  case fds => exact h.fds.sublist (hsub'.map _)
  case ids => exact h.ids.sublist (hsub'.map _)
  case freed_lt =>
    intro id hid
    rw [hfreed] at hid
    exact (h.freed_lt id hid).trans_le hissued
  case listening => exact hlisten

/-- The table holds the same clients, and the descriptors have not changed. -/
structure Undisturbed (x : Server) (l : List SocketReceiver) (x' : Server) : Prop where
  tabled : x'.Tabled l
  freed : x'.freed = x.freed
  os : x'.os = x.os
  connectsocket : x'.connectsocket = x.connectsocket

/-- What does not move does not disturb the clients. -/
theorem Unmoved.undisturbed (hsame : x.Unmoved x') (h : x.Tabled l) : x.Undisturbed l x' :=
  ⟨h.same hsame.toSameTable, hsame.freed, hsame.os, hsame.connectsocket⟩

/-- The connections stay in order as long as nothing disturbs them. -/
theorem Sound.undisturbed (h : x.Sound l pending ports) (hsame : x.Undisturbed l x') :
    x'.Sound l pending ports := by
  refine h.reopen hsame.tabled hsame.freed (List.Sublist.refl pending) ?hissued ?hopened
    ?haside ?hlisten
  case hissued => rw [hsame.os]
  case hopened =>
    intro p hp
    rw [hsame.os]
    exact (h.connection p hp).opened
  case haside =>
    intro p hp
    rw [hsame.connectsocket]
    exact (h.connection p hp).aside
  case hlisten =>
    rw [hsame.os, hsame.connectsocket]
    exact h.listening

/-! ## A client less -/

/-- A client that goes leaves the others in order. -/
theorem Sound.removed {i : Nat} (h : x.Sound l pending ports) (hi : l[i]? = some y) :
    (x.removed l i y).Sound (l.eraseIdx i) pending ports := by
  have hperm : (l.map SocketReceiver.entry ++ pending).Perm
      (y.entry :: ((l.eraseIdx i).map SocketReceiver.entry ++ pending)) :=
    ((perm_eraseIdx hi).map SocketReceiver.entry).append_right pending
  have hfds := (hperm.map Prod.fst).nodup_iff.1 h.fds
  have hids := (hperm.map Prod.snd).nodup_iff.1 h.ids
  rw [List.map_cons, List.nodup_cons] at hfds hids
  have hissued : (x.removed l i y).os.issued = x.os.issued := Descriptors.issued_close _ _
  constructor
  case tabled => exact h.tabled.removed hi
  case connection =>
    intro p hp
    have hconn := h.connection p (hperm.mem_iff.2 (List.mem_cons_of_mem _ hp))
    have hfd : p.1 ≠ y.entry.1 := fun heq =>
      hfds.1 (heq ▸ List.mem_map_of_mem (f := Prod.fst) hp)
    have hid : p.2 ≠ y.entry.2 := fun heq =>
      hids.1 (heq ▸ List.mem_map_of_mem (f := Prod.snd) hp)
    refine ⟨hconn.range, Descriptors.mem_numbers_close hconn.opened hfd, hconn.aside,
      hissued ▸ hconn.issued, ?_⟩
    intro hfreed
    cases List.mem_append.1 hfreed with
    | inl hold => exact hconn.unfreed hold
    | inr hnew => exact hid (List.mem_singleton.1 hnew)
  case fds => exact hfds.2
  case ids => exact hids.2
  case freed_lt =>
    intro id hid
    rw [hissued]
    cases List.mem_append.1 hid with
    | inl hold => exact h.freed_lt id hold
    | inr hnew =>
        have hy := h.connection y.entry (hperm.mem_iff.2 List.mem_cons_self)
        exact List.mem_singleton.1 hnew ▸ hy.issued
  case listening =>
    intro hopen
    have hy := h.connection y.entry (hperm.mem_iff.2 List.mem_cons_self)
    exact Descriptors.mem_numbers_close (h.listening hopen) fun heq => hy.aside.1 heq.symm

/-- What a removal makes of a table in order. -/
theorem Tabled.remove {i : Nat} (h : x.Tabled l) (hi : l[i]? = some y) :
    x.remove i = x.removed l i y := by
  have hlt : i < l.length := (List.getElem?_eq_some_iff.1 hi).1
  rw [Server.remove, h.touch_eq hlt]
  simp only [h.slot_eq, hi, free_rearrange_eq h hi]

/-! ## Incoming connections -/

/-- A descriptor that is accepted waits for its entry. -/
theorem Sound.accepting {fd : Int} (h : x.Sound l [] []) (hfresh : FreshFd x fd) :
    (x.opened fd).Sound l [(fd, x.os.issued)] [] := by
  have hnumbers : (x.opened fd).os.numbers = x.os.numbers ++ [fd] :=
    Descriptors.numbers_acquire x.os fd
  have hold : ∀ p ∈ l.map SocketReceiver.entry, x.Connection [] p := fun p hp =>
    h.connection p (List.mem_append_left _ hp)
  have hfd : fd ∉ (l.map SocketReceiver.entry).map Prod.fst := by
    intro hin
    rcases List.mem_map.1 hin with ⟨p, hp, rfl⟩
    exact hfresh.2.2 (hold p hp).opened
  have hid : x.os.issued ∉ (l.map SocketReceiver.entry).map Prod.snd := by
    intro hin
    rcases List.mem_map.1 hin with ⟨p, hp, hpid⟩
    exact Nat.lt_irrefl _ (hpid ▸ (hold p hp).issued)
  have hfds := h.fds
  have hids := h.ids
  rw [List.append_nil] at hfds hids
  constructor
  case tabled => exact h.tabled.same ⟨rfl, rfl, rfl, rfl⟩
  case connection =>
    intro p hp
    cases List.mem_append.1 hp with
    | inl hin =>
        have hconn := hold p hin
        refine ⟨hconn.range, ?_, hconn.aside, Nat.lt_succ_of_lt hconn.issued, hconn.unfreed⟩
        rw [hnumbers]
        exact List.mem_append_left _ hconn.opened
    | inr hnew =>
        rw [List.mem_singleton.1 hnew]
        refine ⟨⟨hfresh.1, hfresh.2.1⟩, ?_, ⟨?_, List.not_mem_nil⟩, Nat.lt_succ_self _, ?_⟩
        · rw [hnumbers]
          exact List.mem_append_right _ (List.mem_singleton_self fd)
        · intro heq
          have heq' : fd = x.connectsocket := heq
          exact hfresh.2.2 (heq' ▸ h.listening (heq' ▸ hfresh.1))
        · exact fun hfreed => Nat.lt_irrefl _ (h.freed_lt _ hfreed)
  case fds =>
    rw [List.map_append, List.nodup_append']
    refine ⟨hfds, List.nodup_singleton _, ?_⟩
    rw [List.map_cons, List.map_nil, List.disjoint_singleton]
    exact hfd
  case ids =>
    rw [List.map_append, List.nodup_append']
    refine ⟨hids, List.nodup_singleton _, ?_⟩
    rw [List.map_cons, List.map_nil, List.disjoint_singleton]
    exact hid
  case freed_lt => exact fun id hid => Nat.lt_succ_of_lt (h.freed_lt id hid)
  case listening =>
    intro hopen
    rw [hnumbers]
    exact List.mem_append_left _ (h.listening hopen)

/-- A connection that is not entered is closed. -/
theorem Sound.passing {id : Nat} {fd : Int} (h : x.Sound l ((fd, id) :: pending) ports) :
    (x.closesocket fd).Sound l pending ports := by
  have hmem : (fd, id) ∈ l.map SocketReceiver.entry ++ (fd, id) :: pending := by simp
  have hfd := h.connection _ hmem
  have hclose : x.closesocket fd = { x with os := x.os.close fd } := if_pos hfd.range.1
  have hperm : (l.map SocketReceiver.entry ++ (fd, id) :: pending).Perm
      ((fd, id) :: (l.map SocketReceiver.entry ++ pending)) := List.perm_middle
  have hfds := (hperm.map Prod.fst).nodup_iff.1 h.fds
  rw [List.map_cons, List.nodup_cons] at hfds
  have hnotin : fd ∉ (l.map SocketReceiver.entry ++ pending).map Prod.fst := hfds.1
  have hconn : ∀ p ∈ l.map SocketReceiver.entry ++ pending, x.Connection ports p := fun p hp =>
    h.connection p (hperm.mem_iff.2 (List.mem_cons_of_mem _ hp))
  rw [hclose]
  refine h.reopen (h.tabled.same ⟨rfl, rfl, rfl, rfl⟩) rfl (List.sublist_cons_self _ pending)
    ?hissued ?hopened ?haside ?hlisten
  case hissued => exact (Descriptors.issued_close x.os fd).ge
  case hopened =>
    intro p hp
    apply Descriptors.mem_numbers_close (hconn p hp).opened
    exact fun heq => hnotin (heq ▸ List.mem_map_of_mem (f := Prod.fst) hp)
  case haside => exact fun p hp => (hconn p hp).aside
  case hlisten =>
    intro hopen
    apply Descriptors.mem_numbers_close (h.listening hopen)
    exact fun heq => hfd.aside.1 heq.symm

/-- A connection that is entered. -/
theorem Sound.entered {polls : List (Int × Option SocketReceiver)}
    (h : x.Sound l (y.entry :: pending) ports) (hroom : x.nconnections < x.maxconnections) :
    ({ x with polls := polls }.append y).Sound (l ++ [y]) pending ports := by
  have happend := append_eq (x := { x with polls := polls }) (y := y) h.tabled.sr_eq
    h.tabled.nconnections_eq (h.tabled.nconnections_eq ▸ hroom) h.tabled.length_le_int
  have hconns : (l ++ [y]).map SocketReceiver.entry ++ pending =
      l.map SocketReceiver.entry ++ y.entry :: pending := by
    rw [List.map_append, List.append_assoc]
    rfl
  have hmap : ∀ {β : Type} (f : SocketReceiver → β) (g : Int × Nat → β),
      (∀ z, g z.entry = f z) →
      ((l.map SocketReceiver.entry ++ y.entry :: pending).map g).Nodup →
      ((l ++ [y]).map f).Nodup := by
    intro β f g hfg hnodup
    rw [← hconns, List.map_append, List.map_map] at hnodup
    have hcomp : g ∘ SocketReceiver.entry = f := funext hfg
    rw [hcomp] at hnodup
    exact hnodup.of_append_left
  have hentry : ∀ z ∈ l ++ [y], x.Connection ports z.entry := by
    intro z hz
    apply h.connection
    rw [← hconns]
    exact List.mem_append_left _ (List.mem_map_of_mem hz)
  rw [happend]
  constructor
  case tabled =>
    constructor
    case sr_eq =>
      rw [List.length_append, List.length_singleton]
    case nconnections_eq =>
      rw [List.length_append, List.length_singleton]
    case length_le =>
      rw [List.length_append, List.length_singleton]
      exact h.tabled.nconnections_eq ▸ hroom
    case max_lt => exact h.tabled.max_lt
    case range => exact fun z hz => (hentry z hz).range
    case notFreed => exact fun z hz => (hentry z hz).unfreed
    case fds_nodup => exact hmap SocketReceiver.fd Prod.fst (fun z => rfl) h.fds
    case ids_nodup => exact hmap SocketReceiver.id Prod.snd (fun z => rfl) h.ids
  case connection =>
    intro p hp
    rw [hconns] at hp
    have hconn := h.connection p hp
    exact ⟨hconn.range, hconn.opened, hconn.aside, hconn.issued, hconn.unfreed⟩
  case fds => rw [hconns]; exact h.fds
  case ids => rw [hconns]; exact h.ids
  case freed_lt => exact h.freed_lt
  case listening => exact h.listening

/-! ## The port -/

/-- Closing the port keeps the connections in order. -/
theorem Sound.closePort {sockfd : Int} (h : x.Sound l pending (sockfd :: ports)) :
    (x.closePort sockfd).Sound l pending ports := by
  have haside : ∀ p ∈ l.map SocketReceiver.entry ++ pending, p.1 ≠ sockfd ∧ p.1 ∉ ports :=
    fun p hp => by simpa using (h.connection p hp).aside.2
  by_cases hopen : 0 ≤ sockfd
  · have hclose : (x.closePort sockfd).os = x.os.close sockfd := by
      rw [Server.closePort, if_pos hopen, closesocket, if_pos hopen]
      rfl
    have hsocket : (x.closePort sockfd).connectsocket = -1 := by
      rw [Server.closePort, if_pos hopen]
    have hsame := sameTable_closePort x sockfd
    refine h.reopen (h.tabled.same hsame) hsame.freed (List.Sublist.refl pending) ?hissued
      ?hopened ?haside ?hlisten
    case hissued => rw [hclose, Descriptors.issued_close]
    case hopened =>
      intro p hp
      rw [hclose]
      exact Descriptors.mem_numbers_close (h.connection p hp).opened (haside p hp).1
    case haside =>
      intro p hp
      rw [hsocket]
      have := (h.connection p hp).range.1
      exact ⟨by omega, (haside p hp).2⟩
    case hlisten =>
      rw [hsocket]
      omega
  · rw [Server.closePort, if_neg hopen]
    refine h.reopen h.tabled rfl (List.Sublist.refl pending) (Nat.le_refl _) ?hopened ?haside
      ?hlisten
    case hopened => exact fun p hp => (h.connection p hp).opened
    case haside => exact fun p hp => ⟨(h.connection p hp).aside.1, (haside p hp).2⟩
    case hlisten => exact h.listening

/-- A socket that is opened is nobody else's. -/
theorem Sound.fresh_ne {fd : Int} (h : x.Sound l pending ports) (hfresh : FreshFd x fd)
    {p : Int × Nat} (hp : p ∈ l.map SocketReceiver.entry ++ pending) : p.1 ≠ fd :=
  fun heq => hfresh.2.2 (heq ▸ (h.connection p hp).opened)

/-- A socket that is opened and closed again. -/
theorem Sound.reclosed {fd : Int} (h : x.Sound l pending ports) (hfresh : FreshFd x fd) :
    ({ x with os := x.os.acquire fd }.closesocket fd).Sound l pending ports := by
  have hnumbers := Descriptors.numbers_acquire x.os fd
  have hkeep : ∀ n ∈ x.os.numbers, n ≠ fd → n ∈ ((x.os.acquire fd).close fd).numbers := by
    intro n hn hne
    apply Descriptors.mem_numbers_close _ hne
    rw [hnumbers]
    exact List.mem_append_left _ hn
  rw [closesocket, if_pos hfresh.1]
  refine h.reopen (h.tabled.same ⟨rfl, rfl, rfl, rfl⟩) rfl (List.Sublist.refl pending)
    ?hissued ?hopened ?haside ?hlisten
  case hissued =>
    show x.os.issued ≤ ((x.os.acquire fd).close fd).issued
    rw [Descriptors.issued_close]
    exact Nat.le_succ _
  case hopened => exact fun p hp => hkeep _ (h.connection p hp).opened (h.fresh_ne hfresh hp)
  case haside => exact fun p hp => (h.connection p hp).aside
  case hlisten =>
    exact fun hopen => hkeep _ (h.listening hopen) fun heq => hfresh.2.2 (heq ▸ h.listening hopen)

/-- A socket that becomes the listener's. -/
theorem Sound.listen {fd : Int} (h : x.Sound l pending ports) (hfresh : FreshFd x fd)
    (polls : List (Int × Option SocketReceiver)) (port : Int) :
    { x with os := x.os.acquire fd, polls := polls, connectsocket := fd, port := port
      }.Sound l pending ports := by
  have hnumbers := Descriptors.numbers_acquire x.os fd
  refine h.reopen (h.tabled.same ⟨rfl, rfl, rfl, rfl⟩) rfl (List.Sublist.refl pending)
    ?hissued ?hopened ?haside ?hlisten
  case hissued => exact Nat.le_succ _
  case hopened =>
    intro p hp
    show p.1 ∈ (x.os.acquire fd).numbers
    rw [hnumbers]
    exact List.mem_append_left _ (h.connection p hp).opened
  case haside => exact fun p hp => ⟨h.fresh_ne hfresh hp, (h.connection p hp).aside.2⟩
  case hlisten =>
    intro _
    show fd ∈ (x.os.acquire fd).numbers
    rw [hnumbers]
    exact List.mem_append_right _ (List.mem_singleton_self fd)

/-! ## Tasks that move nothing -/

/-- Sending moves nothing. -/
theorem unmoved_sends (x : Server) (sends : List (SocketReceiver × Option Chunk × Int)) :
    x.Unmoved { x with sends := sends } :=
  ⟨⟨rfl, rfl, rfl, rfl⟩, rfl, rfl⟩

/-- Sending to a client of a snapshot moves nothing. -/
theorem unmoved_sendBytesClient (env : Env) (x : Server) (sr : Option SocketReceiver)
    (client : Nat) (chunk : Option Chunk) :
    x.Unmoved (sendBytesClientTasks env x sr client chunk).1 := by
  cases sr with
  | none => exact Unmoved.refl x
  | some y =>
      have haccess := unmoved_access x y
      simp only [sendBytesClientTasks]
      split
      · exact haccess.trans (unmoved_sends _ _)
      · exact haccess

/-- Sending to a client by its index moves nothing. -/
theorem unmoved_sendBytes (env : Env) (x : Server) (client : Nat) (chunk : Option Chunk) :
    x.Unmoved (sendBytesTasks env x client chunk).1 := by
  unfold sendBytesTasks
  split
  · exact (unmoved_touch x client).trans (unmoved_sendBytesClient env _ _ client chunk)
  · exact Unmoved.refl x

/-- Information on a client moves nothing. -/
theorem unmoved_infoClient (env : Env) (x : Server) (client : Nat) :
    x.Unmoved (infoClientTasks env x client).1 := by
  unfold infoClientTasks
  split
  · simp only
    cases (x.touch client).slot client with
    | none => exact unmoved_touch x client
    | some y => exact (unmoved_touch x client).trans (unmoved_access _ y)
  · exact Unmoved.refl x

/-- A task that neither removes, enters nor opens moves nothing. -/
theorem unmoved_expand (h : x.Tabled l) {t : Task} (hremoval : t.removal = none)
    (haccepted : t.accepted = none) (hlistener : t.listener = none) :
    x.Unmoved (x.expand t).1 := by
  cases t with
  | remove client y => contradiction
  | register id o => contradiction
  | openPort env fportno o sockfd => contradiction
  | output o => exact ⟨⟨rfl, rfl, rfl, rfl⟩, rfl, rfl⟩
  | patch | numconnout | infoAddress address | infoPort | infoMaxconnections =>
      exact Unmoved.refl x
  | infoConnection part y => exact unmoved_access x y
  | disconnect client =>
      simp only [Server.expand]
      cases (x.touch client).slot client with
      | none => exact (unmoved_touch x client).trans (unmoved_fault _ _)
      | some y => exact unmoved_touch x client
  | disconnectClient fclient =>
      simp only [Server.expand]
      cases x.fixindex fclient.toInt <;> exact Unmoved.refl x
  | disconnectSocket fsocket =>
      simp only [Server.expand, socket2index_eq h]
      cases l.findIdx? fun y => y.fd = fsocket.toInt <;> exact Unmoved.refl x
  | disconnectAll fuel id =>
      cases fuel with
      | zero => exact Unmoved.refl x
      | succ fuel =>
          simp only [Server.expand]
          split <;> exact Unmoved.refl x
  | sendBytesClients serial env srs i chunk =>
      cases srs with
      | nil => exact Unmoved.refl x
      | cons sr srs => exact unmoved_sendBytesClient env x sr i chunk
  | infoClient client y insize outsize =>
      simp only [Server.expand]
      cases (x.touch client).slot client with
      | none => exact (unmoved_touch x client).trans (unmoved_fault _ _)
      | some z => exact (unmoved_touch x client).trans (unmoved_access _ z)
  | infoClients env fuel client =>
      cases fuel with
      | zero => exact Unmoved.refl x
      | succ fuel =>
          simp only [Server.expand]
          split
          · exact unmoved_infoClient env x client
          · exact Unmoved.refl x
  | receive env c =>
      simp only [Server.expand]
      cases chunk2list env.mem env.raw (some c) x.floatlist <;>
        exact ⟨⟨rfl, rfl, rfl, rfl⟩, rfl, rfl⟩

/-! ## What a task does to the table -/

/-- What working off {lit}`t` makes of the clients {lit}`l`. -/
inductive TableStep (x : Server) (l : List SocketReceiver) (t : Task) (x' : Server) :
    List SocketReceiver → Prop
  | kept (hremoval : t.removal = none) (hentering : t.entering x = [])
      (hfreed : x'.freed = x.freed) : TableStep x l t x' l
  | entered (y : SocketReceiver) (hremoval : t.removal = none)
      (hentering : t.entering x = [y]) (haccepted : t.accepted = some y.entry)
      (hfreed : x'.freed = x.freed) : TableStep x l t x' (l ++ [y])
  | removed (i : Nat) (y z : SocketReceiver) (hremoval : t.removal = some (i, y))
      (hentering : t.entering x = []) (hz : l[i]? = some z)
      (hfreed : x'.freed = x.freed ++ [z.id]) : TableStep x l t x' (l.eraseIdx i)

/-- A new client frees nobody. -/
theorem freed_append (x : Server) (y : SocketReceiver) : (x.append y).freed = x.freed :=
  (unmoved_touch x x.nconnections).freed

/-- The entry of a connection keeps the connections in order. -/
theorem Sound.register {id : Nat} {o : Incoming}
    (h : x.Sound l ((o.fd, id) :: pending) ports) :
    ∃ l', (x.expand (.register id o)).1.Sound l' pending ports ∧
      TableStep x l (.register id o) (x.expand (.register id o)).1 l' := by
  have hpassing := h.passing
  have hfreed := (sameTable_closesocket x o.fd).freed
  simp only [Server.expand]
  by_cases hacc : x.accepting = 0
  · rw [if_pos hacc]
    exact ⟨l, hpassing, .kept rfl (if_neg fun hin => hin.1 hacc) hfreed⟩
  · rw [if_neg hacc]
    by_cases hfull : x.maxconnections ≤ x.nconnections
    · rw [if_pos hfull]
      exact ⟨l, hpassing, .kept rfl (if_neg fun hin => Nat.not_lt.2 hfull hin.2) hfreed⟩
    · have hroom : x.nconnections < x.maxconnections := Nat.not_le.1 hfull
      have hentering : Task.entering x (.register id o) =
          (x.socketreceiverNew id o x.nconnections).2.toList := if_pos ⟨hacc, hroom⟩
      rw [if_neg hfull]
      unfold socketreceiverNew at hentering ⊢
      by_cases hmem : o.mem = true
      · rw [if_pos hmem] at hentering
        simp only [if_pos hmem]
        exact ⟨_, h.entered hroom, .entered _ rfl hentering rfl (freed_append _ _)⟩
      · rw [if_neg hmem] at hentering
        simp only [if_neg hmem]
        exact ⟨l, hpassing, .kept rfl hentering hfreed⟩

/-- Opening the port leaves the table alone. -/
theorem sameTable_openPort (x : Server) (env : Env) (f : FloatArg) (o : PortOutcome)
    (sockfd : Int) : x.SameTable (x.expand (.openPort env f o sockfd)).1 := by
  have hclosed := sameTable_closePort x sockfd
  simp only [Server.expand]
  split
  · exact ⟨rfl, rfl, rfl, rfl⟩
  · cases o.socket with
    | none => exact hclosed
    | some fd =>
        have hopened : x.SameTable { x.closePort sockfd with
            os := (x.closePort sockfd).os.acquire fd } :=
          hclosed.trans ⟨rfl, rfl, rfl, rfl⟩
        simp only
        split
        · exact hopened.trans (sameTable_closesocket _ fd)
        · exact hopened.trans ⟨rfl, rfl, rfl, rfl⟩

/-- Opening the port keeps the connections in order. -/
theorem Sound.openPort {env : Env} {f : FloatArg} {o : PortOutcome} {sockfd : Int}
    (h : x.Sound l pending (sockfd :: ports))
    (hposs : Task.Possible x (.openPort env f o sockfd)) :
    (x.expand (.openPort env f o sockfd)).1.Sound l pending ports := by
  have hclosed := h.closePort
  simp only [Server.expand]
  split
  · refine h.reopen h.tabled rfl (List.Sublist.refl pending) (Nat.le_refl _)
      (fun p hp => (h.connection p hp).opened) (fun p hp => ?_) h.listening
    have haside := (h.connection p hp).aside
    exact ⟨haside.1, fun hin => haside.2 (List.mem_cons_of_mem _ hin)⟩
  · cases hsocket : o.socket with
    | none => exact hclosed
    | some fd =>
        have hfresh : FreshFd (x.closePort sockfd) fd := hposs fd hsocket
        simp only
        split
        · exact hclosed.reclosed hfresh
        · exact hclosed.listen hfresh _ _

/-- What a task makes of the table alone, if it is not a new connection's. -/
theorem Tabled.expand {t : Task} (h : x.Tabled l) (haccepted : t.accepted = none)
    (hfilled : ∀ p ∈ t.removal, x.slot p.1 ≠ none) :
    ∃ l', (x.expand t).1.Tabled l' ∧ TableStep x l t (x.expand t).1 l' := by
  have hkept : t.removal = none → t.listener = none → t.entering x = [] →
      ∃ l', (x.expand t).1.Tabled l' ∧ TableStep x l t (x.expand t).1 l' := by
    intro hremoval hlistener hentering
    have hunmoved := unmoved_expand h hremoval haccepted hlistener
    exact ⟨l, h.same hunmoved.toSameTable, .kept hremoval hentering hunmoved.freed⟩
  cases t with
  | remove client y =>
      have hslot := hfilled (client, y) rfl
      rw [h.slot_eq] at hslot
      rcases Option.ne_none_iff_exists'.1 hslot with ⟨z, hz⟩
      have hexpand : (x.expand (.remove client y)).1 = x.removed l client z := h.remove hz
      rw [hexpand]
      exact ⟨_, h.removed hz, .removed client y z rfl rfl hz rfl⟩
  | register id o => contradiction
  | openPort env f o sockfd =>
      have hsame := sameTable_openPort x env f o sockfd
      exact ⟨l, h.same hsame, .kept rfl rfl hsame.freed⟩
  | _ => exact hkept rfl rfl rfl

/-- A task that moves nothing keeps the connections in order. -/
theorem Sound.expand_unmoved {t : Task} (h : x.Sound l pending ports)
    (hremoval : t.removal = none) (haccepted : t.accepted = none)
    (hlistener : t.listener = none) (hentering : t.entering x = []) :
    ∃ l', (x.expand t).1.Sound l' pending ports ∧ TableStep x l t (x.expand t).1 l' := by
  have hunmoved := unmoved_expand h.tabled hremoval haccepted hlistener
  exact ⟨l, h.undisturbed (hunmoved.undisturbed h.tabled), .kept hremoval hentering hunmoved.freed⟩

/-- A task keeps the connections in order, unless a client is to be removed from an empty
slot. -/
theorem Sound.expand {t : Task}
    (h : x.Sound l (t.accepted.toList ++ pending) (t.listener.toList ++ ports))
    (hposs : t.Possible x) (hfilled : ∀ p ∈ t.removal, x.slot p.1 ≠ none) :
    ∃ l', (x.expand t).1.Sound l' pending ports ∧ TableStep x l t (x.expand t).1 l' := by
  cases t with
  | remove client y =>
      have hslot := hfilled (client, y) rfl
      rw [h.tabled.slot_eq] at hslot
      rcases Option.ne_none_iff_exists'.1 hslot with ⟨z, hz⟩
      have hexpand : (x.expand (.remove client y)).1 = x.removed l client z := h.tabled.remove hz
      rw [hexpand]
      exact ⟨_, h.removed hz, .removed client y z rfl rfl hz rfl⟩
  | register id o => exact h.register
  | openPort env f o sockfd =>
      exact ⟨l, h.openPort hposs, .kept rfl rfl (sameTable_openPort x env f o sockfd).freed⟩
  | _ => exact h.expand_unmoved rfl rfl rfl rfl

end Server
end Iemnet.TcpServer
