import Iemnet.Client.UdpSend
import Iemnet.Foundations.TransitionSystem

/-!
# The descriptors of the UDP sender object

{lit}`udpsend_connect` looks at {lit}`x_sender` to see whether the object is connected, while
the descriptor is in {lit}`x_fd`.  The two part when a connection is made for which no sender
can be created.

Main results:

- Theorem {lit}`UdpSend.Kept.step`: what the object has open is what its fields say, as long
  as no descriptor is opened over another one.
- Theorem {lit}`udpsend_closes_iff`: whole runs, and the deletion of the object after them.
-/

namespace Iemnet

open Pd Foundations

namespace UdpSend

/-! ## The system -/

/-- What the object receives. -/
inductive Input
  | connect (hostname : String) (fportno : FloatArg) (o : ConnectOutcome)
  | disconnect
  | send (argv : List Atom)

/-- One input. -/
def step (x : UdpSend) (env : ClientEnv) : Input → Option UdpSend
  | .connect hostname fportno o =>
      if x.Possible o then some (x.connect env hostname fportno o) else none
  | .disconnect => some x.disconnect
  | .send argv => some (x.send env argv)

end UdpSend

/-- The object by itself as a transition system; any size may come back from
{lit}`iemnet__sender_send`. -/
def udpsendAloneMachine : Machine UdpSend (ClientEnv × UdpSend.Input) where
  init x := ∃ abi, x = UdpSend.new abi
  step x a := x.step a.1 a.2

namespace UdpSend

variable {x x' : UdpSend} {env : ClientEnv} {a : ClientEnv × Input}

/-! ## What is claimed and when it holds -/

/-- There has never been more than one descriptor open, and once the object is deleted each
descriptor has been closed once and nothing else has been closed. -/
structure Closes (x : UdpSend) : Prop where
  most : x.free.res.most ≤ 1
  closed : ∀ k < x.free.res.os.issued, x.free.res.os.closed.count k = 1
  stray : x.free.res.os.stray = []

/-- The message gets a descriptor from {lit}`socket`. -/
def Opens (x : UdpSend) (env : ClientEnv) : Input → Prop
  | .connect hostname _ o =>
      x.sender = none ∧ env.host hostname ≠ none ∧ o.socket ≠ none
  | _ => False

instance (x : UdpSend) (env : ClientEnv) : (a : Input) → Decidable (x.Opens env a)
  | .connect hostname _ o =>
      inferInstanceAs (Decidable (x.sender = none ∧ env.host hostname ≠ none ∧ o.socket ≠ none))
  | .disconnect => isFalse id
  | .send _ => isFalse id

/-- A message that gets a descriptor finds none open. -/
def Fresh (x : UdpSend) (a : ClientEnv × Input) : Prop :=
  x.Opens a.1 a.2 → x.fd < 0

instance (x : UdpSend) (a : ClientEnv × Input) : Decidable (x.Fresh a) :=
  inferInstanceAs (Decidable (_ → _))

/-! ## What is open -/

/-- The fields say what is open. -/
def Kept (x : UdpSend) : Prop :=
  x.res.Holding (stored x.fd) x.sender none

/-- Disconnecting destroys the sender and closes the socket. -/
theorem disconnect_res (x : UdpSend) :
    x.disconnect.res = (x.res.senderDestroy x.sender).closesocket x.fd := by
  unfold disconnect Resources.closesocket
  dsimp only
  split <;> rfl

/-- A udpsend that is disconnected holds nothing. -/
theorem Kept.disconnect_holding (h : x.Kept) : x.disconnect.res.Holding none none none := by
  rw [disconnect_res]
  exact h.senderDestroy.closeStored

/-- Disconnecting keeps the account of what is open. -/
theorem Kept.disconnect (h : x.Kept) : x.disconnect.Kept := by
  unfold Kept
  rw [disconnect_sender, stored_of_neg (disconnect_fd x)]
  exact h.disconnect_holding

/-- What {lit}`udpsend_connect` does with a descriptor. -/
theorem connect_opens {hostname : String} {f : FloatArg} {o : ConnectOutcome}
    (hopens : x.Opens env (.connect hostname f o)) :
    ∃ sockfd, o.socket = some sockfd ∧
      ((x.connect env hostname f o).res = (x.res.socket sockfd).closesocket sockfd ∧
          (x.connect env hostname f o).fd = x.fd ∧
          (x.connect env hostname f o).sender = none ∨
        (x.connect env hostname f o).res =
            ((x.res.socket sockfd).senderCreate env.sender sockfd).1 ∧
          (x.connect env hostname f o).fd = sockfd ∧
          (x.connect env hostname f o).sender =
            ((x.res.socket sockfd).senderCreate env.sender sockfd).2) := by
  rcases hopens with ⟨hsender, hhost, hsocket⟩
  rcases Option.ne_none_iff_exists'.1 hhost with ⟨hp, hp'⟩
  rcases Option.ne_none_iff_exists'.1 hsocket with ⟨sockfd, hsockfd⟩
  refine ⟨sockfd, hsockfd, ?_⟩
  rw [UdpSend.connect, if_neg (not_not.2 hsender), hp', hsockfd]
  dsimp only
  split
  · exact Or.inr ⟨rfl, rfl, rfl⟩
  · exact Or.inl ⟨rfl, rfl, hsender⟩

/-- A connection attempt that opens nothing changes nothing. -/
theorem connect_of_not_opens {hostname : String} {f : FloatArg} {o : ConnectOutcome}
    (hopens : ¬ x.Opens env (.connect hostname f o)) : x.connect env hostname f o = x := by
  unfold UdpSend.connect
  split
  · rfl
  · rename_i hsender
    split
    · rfl
    · rename_i hp hhost
      split
      · rfl
      · rename_i sockfd hsocket
        refine absurd ⟨not_not.1 hsender, ?_, ?_⟩ hopens
        · rw [hhost]
          exact Option.some_ne_none hp
        · rw [hsocket]
          exact Option.some_ne_none sockfd

/-- A connection that does not replace another one keeps the account. -/
theorem Kept.connect (h : x.Kept) {hostname : String} {f : FloatArg} {o : ConnectOutcome}
    (ho : x.Possible o) (hfresh : x.Fresh (env, .connect hostname f o)) :
    (x.connect env hostname f o).Kept := by
  by_cases hopens : x.Opens env (.connect hostname f o)
  · have hfd := stored_of_neg (hfresh hopens)
    unfold Kept at h
    rw [hfd, hopens.1] at h
    rcases connect_opens hopens with
      ⟨sockfd, hsocket, ⟨hres, hkeep, hsender⟩ | ⟨hres, hnew, hsender⟩⟩
    · unfold Kept
      rw [hres, hkeep, hsender, hfd]
      exact (h.socket sockfd).closesocket (ho sockfd hsocket).1
    · unfold Kept
      rw [hres, hnew, hsender, stored_of_nonneg (ho sockfd hsocket).1]
      exact (h.socket sockfd).senderCreate env.sender
  · rw [connect_of_not_opens hopens]
    exact h

/-- Sending keeps the account of what is open. -/
theorem Kept.send (h : x.Kept) (argv : List Atom) : (x.send env argv).Kept := by
  unfold UdpSend.send
  split
  · exact h
  · dsimp only
    split
    · exact Kept.disconnect (x := { x with sends := _ }) h
    · exact h

/-- An input that fits keeps the account. -/
theorem Kept.step (h : x.Kept) (hfresh : x.Fresh a)
    (hstep : udpsendAloneMachine.step x a = some x') : x'.Kept := by
  rcases a with ⟨env, a⟩
  replace hstep : x.step env a = some x' := hstep
  cases a with
  | connect hostname fportno o =>
      simp only [UdpSend.step] at hstep
      split at hstep
      · rename_i ho
        cases hstep
        exact h.connect ho hfresh
      · cases hstep
  | disconnect =>
      cases hstep
      exact h.disconnect
  | send argv =>
      cases hstep
      exact h.send argv

/-- A new udpsend holds nothing. -/
theorem kept_new (abi : Abi) : (new abi).Kept :=
  Resources.holding_empty

/-- A udpsend that accounts for what is open closes everything when it is deleted. -/
theorem Kept.closes (h : x.Kept) : x.Closes := by
  have hsettled := h.disconnect_holding.settled
  exact ⟨hsettled.orderly.most, hsettled.descriptors, hsettled.orderly.stray.1⟩

/-! ## Two descriptors at once -/

/-- Closing a socket does not raise the most that was open. -/
theorem most_closesocket (r : Resources) (sockfd : Int) :
    (r.closesocket sockfd).most = r.most := by
  unfold Resources.closesocket
  split <;> rfl

/-- Destroying a sender does not raise the most that was open. -/
theorem most_senderDestroy (r : Resources) (s : Option Worker) :
    (r.senderDestroy s).most = r.most := by
  cases s <;> rfl

/-- Disconnecting does not raise the most that was open. -/
theorem most_disconnect (x : UdpSend) : x.disconnect.res.most = x.res.most := by
  rw [disconnect_res, most_closesocket, most_senderDestroy]

/-- The most that was open does not go down with a connection. -/
theorem most_connect (hostname : String) (f : FloatArg) (o : ConnectOutcome) :
    x.res.most ≤ (x.connect env hostname f o).res.most := by
  have hsocket : ∀ sockfd, x.res.most ≤ (x.res.socket sockfd).most := fun _ => le_max_left _ _
  by_cases hopens : x.Opens env (.connect hostname f o)
  · rcases connect_opens hopens with ⟨sockfd, -, ⟨hres, -⟩ | ⟨hres, -⟩⟩
    · rw [hres, most_closesocket]
      exact hsocket sockfd
    · rw [hres]
      unfold Resources.senderCreate
      split <;> exact hsocket sockfd
  · rw [connect_of_not_opens hopens]

/-- Sending does not raise the most that was open. -/
theorem most_send (x : UdpSend) (argv : List Atom) : (x.send env argv).res.most = x.res.most := by
  unfold UdpSend.send
  split
  · rfl
  · dsimp only
    split
    · exact most_disconnect { x with sends := _ }
    · rfl

/-- The most that was open never goes down. -/
theorem most_step (hstep : udpsendAloneMachine.step x a = some x') :
    x.res.most ≤ x'.res.most := by
  rcases a with ⟨env, a⟩
  replace hstep : x.step env a = some x' := hstep
  cases a with
  | connect hostname fportno o =>
      simp only [UdpSend.step] at hstep
      split at hstep
      · cases hstep
        exact most_connect hostname fportno o
      · cases hstep
  | disconnect =>
      cases hstep
      exact (most_disconnect x).ge
  | send argv =>
      cases hstep
      exact (most_send x argv).ge

/-- A descriptor that is opened over another one. -/
theorem Kept.overlap (h : x.Kept) (hfresh : ¬ x.Fresh a)
    (hstep : udpsendAloneMachine.step x a = some x') : 2 ≤ x'.res.most := by
  rcases a with ⟨env, a⟩
  unfold Fresh at hfresh
  push Not at hfresh
  rcases hfresh with ⟨hopens, hfd⟩
  replace hstep : x.step env a = some x' := hstep
  cases a with
  | connect hostname fportno o =>
      simp only [UdpSend.step] at hstep
      split at hstep
      · cases hstep
        have hone : x.res.os.live.length = 1 := by
          have hnumbers := congrArg List.length h.os.numbers
          rwa [stored_of_nonneg hfd, Descriptors.numbers, List.length_map] at hnumbers
        have htwo : ∀ sockfd, 2 ≤ (x.res.socket sockfd).most := by
          intro sockfd
          apply le_max_of_le_right
          show 2 ≤ (x.res.os.live ++ [_]).length
          rw [List.length_append, hone]
          exact Nat.le_refl 2
        rcases connect_opens hopens with ⟨sockfd, -, ⟨hres, -⟩ | ⟨hres, -⟩⟩
        · rw [hres, most_closesocket]
          exact htwo sockfd
        · rw [hres]
          unfold Resources.senderCreate
          split <;> exact htwo sockfd
      · cases hstep
  | disconnect | send => exact hopens.elim

end UdpSend

/-- After any connect, disconnect and send messages, and whatever comes of them: there has
never been more than one descriptor open and the deletion of the object leaves each one
closed exactly once, if and only if every message that got a descriptor found none open. -/
theorem udpsend_closes_iff {abi : Abi} {as : List (ClientEnv × UdpSend.Input)} {x : UdpSend}
    (hrun : udpsendAloneMachine.run (.new abi) as = some x) :
    x.Closes ↔ udpsendAloneMachine.RunMeets UdpSend.Fresh (.new abi) as := by
  have hcases := Machine.run_meets_or (I := UdpSend.Kept) (B := fun x => 2 ≤ x.res.most)
    (fun s a s' h hfresh hstep => h.step hfresh hstep)
    (fun s a s' h hfresh hstep => h.overlap hfresh hstep)
    (fun s a s' h hstep => Nat.le_trans h (UdpSend.most_step hstep))
    (UdpSend.kept_new abi) hrun
  rcases hcases with ⟨hmeets, hkept⟩ | ⟨hnot, hmost⟩
  · exact iff_of_true hkept.closes hmeets
  · refine iff_of_false (fun hcloses => ?_) hnot
    have hone := hcloses.most
    rw [UdpSend.free, UdpSend.most_disconnect] at hone
    omega

/-- A connect that succeeds with descriptor {lit}`fd`. -/
def reached (sender : Bool) (fd : Int) : ClientEnv × UdpSend.Input :=
  (plainClientEnv sender (-1), .connect "localhost" ⟨9000, 0#32⟩ ⟨some fd, fun _ => true⟩)

/-- A connection without a sender is closed before the next one is made. -/
theorem udpsend_closes_run :
    ∃ x, udpsendAloneMachine.run (.new ⟨true, 64⟩)
        [reached false 3, (plainClientEnv true 0, .disconnect), reached true 3,
          (plainClientEnv true 0, .send [])] = some x ∧
      x.free.res.os.closed = [0, 1] ∧ x.Closes := by
  have hrun : udpsendAloneMachine.run (.new ⟨true, 64⟩)
      [reached false 3, (plainClientEnv true 0, .disconnect), reached true 3,
        (plainClientEnv true 0, .send [])] = some _ := rfl
  exact ⟨_, hrun, rfl, (udpsend_closes_iff hrun).2 (Machine.runMeets_of_meets rfl)⟩

/-- A second connect after one for which no thread could be created: the first descriptor is
never closed. -/
theorem udpsend_leaks :
    ∃ x, udpsendAloneMachine.run (.new ⟨true, 64⟩) [reached false 3, reached true 4] = some x ∧
      x.res.most = 2 ∧ x.free.res.os.numbers = [3] ∧ x.free.res.os.closed = [1] ∧ ¬ x.Closes := by
  have hrun : udpsendAloneMachine.run (.new ⟨true, 64⟩) [reached false 3, reached true 4] =
      some _ := rfl
  refine ⟨_, hrun, rfl, rfl, rfl, fun hcloses => ?_⟩
  have hzero := hcloses.closed 0 (by decide)
  cases hzero

end Iemnet
