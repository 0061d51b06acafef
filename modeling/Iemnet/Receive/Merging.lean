import Iemnet.Receive.Connections

/-!
# What tcpreceive tells its patch

tcpreceive does not say which connection its data comes from: the patch sees one stream of
numbers, and beside it how many connections there are.

Main results:

- Theorem {lit}`TcpReceive.step_outputs`: what every input adds to the stream.
- Theorem {lit}`TcpReceive.new_outputs`: a new object has said nothing yet.
-/

namespace Iemnet

open Pd Foundations

/-- The atoms of a message on the message outlet. -/
def content (o : Output) : List Atom :=
  if o.outlet = .msgout then o.argv else []

/-- A message on the outlet for the number of connections. -/
def count (o : Output) : Option (List Atom) :=
  if o.outlet = .connectout then some o.argv else none

namespace TcpReceive

variable {x x' : TcpReceive} {env : Env} {d : List Atom}

/-- All numbers that were output. -/
def stream (x : TcpReceive) : List Atom :=
  x.log.flatMap content

/-- The number of connections that was output last, none in the beginning. -/
def announced (x : TcpReceive) : List Atom :=
  (x.log.filterMap count).getLast?.getD [setInt (0 : Nat)]

/-- What the patch can know of the number of connections. -/
def Current (x : TcpReceive) : Prop :=
  x.announced = [setInt x.nconnections]

/-- From one state to another {lit}`d` is output, and each change of the number of
connections is announced. -/
structure Outputs (x : TcpReceive) (d : List Atom) (x' : TcpReceive) : Prop where
  stream : x'.stream = x.stream ++ d
  current : x.Current → x'.Current
  wellTyped : (∀ cl ∈ x.floatlist, cl.WellTyped) → ∀ cl ∈ x'.floatlist, cl.WellTyped

/-- What is put out one after the other adds up. -/
theorem Outputs.trans {d' : List Atom} {x'' : TcpReceive} (h : x.Outputs d x')
    (h' : x'.Outputs d' x'') :
    x.Outputs (d ++ d') x'' :=
  ⟨by rw [h'.stream, h.stream, List.append_assoc], h'.current ∘ h.current,
    h'.wellTyped ∘ h.wellTyped⟩

/-- A change that has nothing to do with messages and connections. -/
theorem Outputs.silent (hlog : x'.log = x.log) (hcount : x'.nconnections = x.nconnections)
    (hlist : x'.floatlist = x.floatlist) : x.Outputs [] x' := by
  refine ⟨?_, ?_, hlist ▸ id⟩
  · rw [TcpReceive.stream, hlog, List.append_nil, TcpReceive.stream]
  · simp only [Current, announced, hlog, hcount, imp_self]

/-- Nothing puts out nothing. -/
theorem Outputs.refl (x : TcpReceive) : x.Outputs [] x :=
  .silent rfl rfl rfl

/-- A message that is no number of connections. -/
theorem Outputs.emit (x : TcpReceive) (o : Output) (h : count o = none) :
    x.Outputs (content o) (emit x o) := by
  refine ⟨?_, ?_, id⟩
  · rw [TcpReceive.stream, TcpReceive.emit, List.flatMap_append, List.flatMap_singleton]
    rfl
  · simp only [Current, announced, TcpReceive.emit, List.filterMap_append, List.filterMap_cons,
      h, List.filterMap_nil, List.append_nil, imp_self]

/-- The number of connections is announced. -/
theorem numconn_outputs (x' : TcpReceive) (hlog : x'.log = x.log)
    (hlist : x'.floatlist = x.floatlist) :
    x.Outputs [] (numconnout TcpReceive.emit x' x'.nconnections) := by
  refine ⟨?_, fun _ => ?_, hlist ▸ id⟩
  · simp [TcpReceive.stream, numconnout, TcpReceive.emit, hlog, content, Output.plain]
  · simp [Current, announced, numconnout, TcpReceive.emit, count, Output.plain]

/-- An address is no data. -/
theorem Outputs.addr (x : TcpReceive) (address : BitVec 32) (port : BitVec 16) :
    x.Outputs [] (addrout TcpReceive.emit x address port) :=
  (Outputs.emit x (.plain .statusout "address" _) rfl).trans
    (.emit _ (.plain .addrout "list" _) rfl)

/-- A status message is no data. -/
theorem Outputs.status (x : TcpReceive) (selector : String) (argv : List Atom) :
    x.Outputs [] (TcpReceive.emit x (.plain .statusout selector argv)) :=
  .emit x (.plain .statusout selector argv) rfl

/-! ## Data -/

/-- Several messages with data. -/
theorem says_messages (x : TcpReceive) (ms : List Message) :
    x.Outputs (ms.flatMap Message.argv)
      (ms.foldl (fun x m => TcpReceive.emit x (.plain .msgout m.selector m.argv)) x) := by
  induction ms generalizing x with
  | nil => exact .refl x
  | cons m ms ih =>
      rw [List.flatMap_cons, List.foldl_cons]
      exact (Outputs.emit x (.plain .msgout m.selector m.argv) rfl).trans (ih _)

/-- The bytes of a chunk are put out, each of them once. -/
theorem deliver_outputs (hlist : ∀ cl ∈ x.floatlist, cl.WellTyped) (hmem : env.mem = true)
    (c : Chunk) : x.Outputs (byteAtoms c.data) (x.deliver env c) := by
  rcases chunk2list_loads env.raw hlist (c := c) (Or.inl hmem) with ⟨cl, hload, hwell, htake⟩
  have hloaded : x.Outputs [] { x with floatlist := some cl } := by
    refine ⟨(List.append_nil _).symm, id, fun _ cl' hcl' => ?_⟩
    cases hcl'
    exact hwell
  have hdeliver : x.deliver env c = (byteMessages x.serialize c.data).foldl
      (fun x m => TcpReceive.emit x (.plain .msgout m.selector m.argv))
      { x with floatlist := some cl } := by
    simp only [deliver, hload]
    rw [streamout_eq htake]
  rw [hdeliver, ← byteMessages_argv x.serialize c.data]
  exact hloaded.trans (says_messages _ _)

/-- The numbers that an input brings. -/
def brings (env : Env) : Input → List Atom
  | .readable _ (.data bytes _) => if env.mem then byteAtoms bytes else []
  | _ => []

/-- A descriptor that is polled for a receiver belongs to a slot in use. -/
theorem Kept.polled (h : x.Kept) {fd : Int} {w : Item Watch} (hpoll : x.pollfn fd = some (some w)) :
    ∃ c, x.connection[w.base.slot]? = some c ∧ c.Used w.base.slot ∧ c.socket = fd := by
  rcases List.mem_append.1 (h.inv.polls.mem_iff.1 (pollfn_mem hpoll)) with hslot | hlistener
  · rcases List.mem_filterMap.1 hslot with ⟨c, hc, hpoll⟩
    rcases Option.map_eq_some_iff.1 hpoll with ⟨r, hr, heq⟩
    rcases List.getElem?_of_mem hc with ⟨i, hi⟩
    rw [Prod.mk.injEq, Option.some.injEq] at heq
    rcases heq with ⟨hfd, rfl⟩
    rcases h.inv.slots i c hi with hused | hunused
    · rcases hused.receiver with ⟨r', hr', hbase⟩
      rw [hr, Option.some.injEq] at hr'
      rw [hr', hbase] at hfd ⊢
      exact ⟨c, hi, hused, hfd⟩
    · rw [hunused.receiver] at hr
      contradiction
  · rcases List.mem_map.1 hlistener with ⟨a, -, heq⟩
    cases heq

/-- Disconnecting puts out no data. -/
theorem disconnect_outputs (h : x.Kept) (i : Nat) : x.Outputs [] (x.disconnect i) := by
  cases hi : x.connection[i]? with
  | none =>
      rw [disconnect_of_none hi]
      exact .refl x
  | some c =>
      rcases h.inv.slots i c hi with hused | hunused
      · rcases hused.receiver with ⟨r, hr, -⟩
        rw [disconnect_of_used hi hused hr]
        exact numconn_outputs (x.ended i c r) rfl rfl
      · rw [disconnect_of_unused hi hunused]
        exact .refl x

/-- The bytes that a sender brings are put out, each of them once. -/
theorem readCallback_outputs (h : x.Kept) (hlist : ∀ cl ∈ x.floatlist, cl.WellTyped)
    {fd : Int} {w : Item Watch} (hpoll : x.pollfn fd = some (some w)) {r : Recvfrom}
    (hr : r.Possible .stream) :
    x.Outputs (brings env (.readable fd r))
      (x.readCallback env w.base.slot (pollfun x.abi env.mem r)) := by
  rcases h.polled hpoll with ⟨c, hi, hused, -⟩
  have hfind := h.inv.findSocket hi hused
  have hnone : x.readCallback env w.base.slot none = x.disconnect w.base.slot := by
    simp [readCallback, hi, hused.owner, hfind]
  have hsome : ∀ chunk, x.readCallback env w.base.slot (some chunk) = x.deliver env chunk := by
    intro chunk
    simp [readCallback, hi, hused.owner, hfind]
  cases r with
  | data bytes source =>
      rw [brings]
      split
      · rename_i hmem
        rcases pollfun_data x.abi hr.1 source with ⟨chunk, hchunk, rfl⟩
        rw [hmem, hchunk, hsome]
        exact deliver_outputs hlist hmem chunk
      · rename_i hmem
        rw [eq_false_of_ne_true hmem, pollfun_of_not_mem, hnone]
        exact disconnect_outputs h _
  | emptyDatagram source | endOfStream source | error e source =>
      rw [pollfun_of_no_data (by simp), hnone]
      exact disconnect_outputs h _

/-! ## Connections and the port -/

/-- A new connection puts out no data. -/
theorem connectpoll_outputs {o : Incoming} (hok : 0 ≤ o.fd → env.receiver = true) :
    x.Outputs [] (x.connectpoll env x.connectsocket o) := by
  by_cases ho : 0 ≤ o.fd
  · cases hi : x.findSocket (-1) with
    | some i =>
        rw [connectpoll_of_free ho (hok ho) hi]
        exact (numconn_outputs (x := x) (x.entered i o) rfl rfl).trans (.addr _ _ _)
    | none =>
        rw [connectpoll_of_full ho hi]
        exact .silent rfl rfl rfl
  · rw [connectpoll_of_failed (Int.not_le.1 ho)]
    exact .refl x

/-- Closing a socket puts out no data. -/
theorem closesocket_outputs (x : TcpReceive) (fd : Int) : x.Outputs [] (x.closesocket fd) := by
  unfold closesocket
  split
  · exact .silent rfl rfl rfl
  · exact .refl x

/-- Closing the port puts out no data. -/
theorem closePort_outputs (x : TcpReceive) : x.Outputs [] x.closePort := by
  unfold closePort
  split
  · have hremoved : x.Outputs [] (x.rmpollfn x.connectsocket) := .silent rfl rfl rfl
    exact hremoved.trans ((closesocket_outputs _ _).trans (.silent rfl rfl rfl))
  · exact .refl x

/-- Setting the port puts out no data. -/
theorem setPort_outputs (x : TcpReceive) (env : Env) (f : FloatArg) (o : PortOutcome) :
    x.Outputs [] (x.setPort env f o) := by
  unfold setPort
  split
  · exact .refl x
  · dsimp only
    split
    · exact closePort_outputs x
    · rename_i sockfd _
      have hopened : x.Outputs [] { x.closePort with os := x.closePort.os.acquire sockfd } :=
        (closePort_outputs x).trans (.silent rfl rfl rfl)
      split
      · exact (hopened.trans (closesocket_outputs _ _)).trans (.status _ _ _)
      · split
        · exact (hopened.trans (closesocket_outputs _ _)).trans (.status _ _ _)
        · have hlistens : x.Outputs [] { x.closePort with
              os := x.closePort.os.acquire sockfd
              polls := x.closePort.polls ++ [(sockfd, none)]
              connectsocket := sockfd
              port := x.closePort.usedPort env f.toInt } :=
            hopened.trans (.silent rfl rfl rfl)
          exact hlistens.trans (.status _ _ _)

/-- What every input adds to the stream. -/
theorem step_outputs (h : x.Kept) (hlist : ∀ cl ∈ x.floatlist, cl.WellTyped) {a : Input}
    (hok : Admits (env, a)) (hs : x.step env a = some x') : x.Outputs (brings env a) x' := by
  cases a with
  | incoming fd o =>
      simp only [step] at hs
      split at hs
      · rename_i hcall
        cases hs
        rw [h.incoming_fd hcall.1]
        exact connectpoll_outputs fun ho => (hok ho).2
      · contradiction
  | readable fd r =>
      simp only [step] at hs
      split at hs
      · rename_i w hpoll
        split at hs
        · rename_i hr
          cases hs
          exact readCallback_outputs h hlist hpoll hr
        · contradiction
      · contradiction
  | port f o =>
      simp only [step] at hs
      split at hs
      · cases hs
        exact setPort_outputs x env f o
      · contradiction
  | serialize doit =>
      cases hs
      exact .silent rfl rfl rfl

/-- A new object has said nothing about data and connections. -/
theorem new_outputs (h : tcpreceiveMachine.init x) :
    x.stream = [] ∧ x.Current ∧ ∀ cl ∈ x.floatlist, cl.WellTyped := by
  rcases h with ⟨abi, env, f, o, -, rfl⟩
  have hout := setPort_outputs (blank abi env) env (FloatArg.ofInt f.toInt) o
  exact ⟨hout.stream, hout.current rfl,
    hout.wellTyped fun cl hcl => wellTyped_of_floatlistCreate hcl⟩

end TcpReceive

end Iemnet
