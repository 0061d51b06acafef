import Iemnet.Foundations.Demultiplex
import Iemnet.Receive.UdpReceive

/-!
# Datagrams and their senders

udpreceive outputs the address of a datagram before its bytes, on two outlets.  Whatever
else the object has to say, a list belongs to the address that was output last.

Main results:

- Theorem {lit}`UdpReceive.step_adds`: what every input adds to the messages.
-/

namespace Iemnet

open Pd Foundations

/-- An address on the address outlet is a tag, and a list on the message outlet is an item. -/
def labels (o : Output) : List (Signal (List Atom) (List Atom)) :=
  match o.outlet with
  | .addrout => [.tag o.argv]
  | .msgout => [.data o.argv]
  | _ => []

/-- The atoms that stand for an address. -/
def addressAtoms (address : BitVec 32) (port : BitVec 16) : List Atom :=
  (addressBytes address ++ [port.toNat]).map fun n => setFloat (n : ℚ)

/-- The atoms that stand for the sender of a datagram. -/
def sourceAtoms (abi : Abi) (source : SockaddrIn) : List Atom :=
  addressAtoms (abi.ntohl source.addr) (abi.ntohs source.port)

/-- The address of a datagram goes through a {lit}`long` unharmed. -/
theorem ofInt_toLong (abi : Abi) (hlong : 32 ≤ abi.longBits) (b : BitVec 32) :
    BitVec.ofInt 32 (abi.toLong b) = b :=
  abi.ofInt_eq_of_toULong hlong (abi.toULong_toLong hlong b)

namespace UdpReceive

variable {x x' : UdpReceive} {env : Env}

/-- The chunk that {lit}`pollfun` makes of a datagram. -/
def received (abi : Abi) (bytes : List (BitVec 8)) (source : SockaddrIn) : Chunk :=
  ⟨bytes, abi.toLong (abi.ntohl source.addr), abi.ntohs source.port, source.family⟩

/-- The port of a received chunk is that of its source. -/
theorem received_port (abi : Abi) (bytes : List (BitVec 8)) (source : SockaddrIn) :
    (received abi bytes source).port = abi.ntohs source.port :=
  rfl

/-- With memory a datagram with bytes becomes a chunk. -/
theorem pollfun_received (abi : Abi) {mem : Bool} (hmem : mem = true) {bytes : List (BitVec 8)}
    (hbytes : bytes ≠ []) (source : SockaddrIn) :
    pollfun abi mem (.data bytes source) = some (received abi bytes source) := by
  have hpos : (0 : Int) < bytes.length := Int.natCast_pos.2 (List.length_pos_iff.2 hbytes)
  rw [pollfun, Recvfrom.result, if_pos hpos, hmem, Recvfrom.bytes, chunkCreateDataaddr,
    chunkCreateData_of_ne_nil hbytes]
  rfl

/-- The lists that an input brings, with their senders. -/
def incomings (x : UdpReceive) (env : Env) : Input → List (List Atom × List Atom)
  | .readable _ (.data bytes source) =>
      if env.mem then [(sourceAtoms x.abi source, byteAtoms bytes)] else []
  | _ => []

/-- The messages of {lit}`x'` are those of {lit}`x` and some that carry the data {lit}`ps`,
and the float list is as it should be. -/
structure Adds (x : UdpReceive) (ps : List (List Atom × List Atom)) (x' : UdpReceive) :
    Prop where
  log : ∃ os, x'.log = x.log ++ os ∧ Carries (os.flatMap labels) ps
  abi : x'.abi = x.abi
  wellTyped : (∀ cl ∈ x.floatlist, cl.WellTyped) → ∀ cl ∈ x'.floatlist, cl.WellTyped

/-- What is put out one after the other adds up. -/
theorem Adds.trans {ps qs : List (List Atom × List Atom)} {x'' : UdpReceive}
    (h : x.Adds ps x') (h' : x'.Adds qs x'') : x.Adds (ps ++ qs) x'' := by
  rcases h.log with ⟨os, hlog, hcarries⟩
  rcases h'.log with ⟨os', hlog', hcarries'⟩
  refine ⟨⟨os ++ os', ?_, ?_⟩, h'.abi.trans h.abi, h'.wellTyped ∘ h.wellTyped⟩
  · rw [hlog', hlog, List.append_assoc]
  · rw [List.flatMap_append]
    exact hcarries.append hcarries'

/-- A change of the port or an option. -/
theorem Adds.silent (hlog : x'.log = x.log) (habi : x'.abi = x.abi)
    (hlist : x'.floatlist = x.floatlist) : x.Adds [] x' :=
  ⟨⟨[], by rw [hlog, List.append_nil], carries_nil⟩, habi, hlist ▸ id⟩

/-- Nothing puts out nothing. -/
theorem Adds.refl (x : UdpReceive) : x.Adds [] x :=
  .silent rfl rfl rfl

/-- A message on the status outlet. -/
theorem Adds.status (x : UdpReceive) (selector : String) (argv : List Atom) :
    x.Adds [] (emit x (.plain .statusout selector argv)) :=
  ⟨⟨[_], rfl, carries_nil⟩, rfl, id⟩

/-- Setting the port puts out no data. -/
theorem setport_adds (x : UdpReceive) (env : Env) (portno : BitVec 16) (o : BindOutcome) :
    x.Adds [] (x.setport env portno o).1 := by
  have hclose : x.Adds [] x.closePort := by
    unfold closePort
    dsimp only
    split
    · exact .silent rfl rfl rfl
    · exact .silent rfl rfl rfl
  unfold setport
  split
  · exact .refl x
  · dsimp only
    split
    · exact hclose
    · split
      · exact hclose.trans (.silent rfl rfl rfl)
      · exact hclose.trans (.silent rfl rfl rfl)

/-- A port message puts out no data. -/
theorem portMessage_adds (x : UdpReceive) (env : Env) (argv : List Atom) (o : BindOutcome) :
    x.Adds [] (x.portMessage env argv o) := by
  unfold portMessage
  split
  · exact .status x _ _
  · split
    · exact .refl x
    · rename_i a _
      have hport := setport_adds x env (BitVec.ofInt 16 (atomGetint a)) o
      split
      · rename_i hset
        rw [hset] at hport
        exact hport.trans (.status _ _ _)
      · rename_i hset
        rw [hset] at hport
        exact hport.trans ((Adds.status _ _ _).trans (.status _ _ _))
  · exact .refl x

/-- Asking for an option puts out no data. -/
theorem optionI_adds (x : UdpReceive) (s : Reuse) (argv : List Atom) :
    x.Adds [] (x.optionI s argv) := by
  unfold optionI
  split
  · exact .status x _ _
  · split
    · cases s with
      | reuseport => exact .silent rfl rfl rfl
      | reuseaddr => exact .silent rfl rfl rfl
    · exact .refl x
  · exact .refl x

/-- The address goes to two outlets. -/
theorem addrout_adds (x : UdpReceive) (address : BitVec 32) (port : BitVec 16) :
    ∃ os, (addrout emit x address port).log = x.log ++ os ∧
      os.flatMap labels = [.tag (addressAtoms address port)] :=
  ⟨[_, _], List.append_assoc _ _ _, rfl⟩

/-- A datagram is output in one piece, behind the address of its sender. -/
theorem readCallback_adds (hlong : 32 ≤ x.abi.longBits)
    (hlist : ∀ cl ∈ x.floatlist, cl.WellTyped) (hmem : env.mem = true)
    {bytes : List (BitVec 8)} (hbytes : bytes ≠ []) (source : SockaddrIn) :
    x.Adds [(sourceAtoms x.abi source, byteAtoms bytes)]
      (x.readCallback env (pollfun x.abi env.mem (.data bytes source))) := by
  rcases chunk2list_loads env.raw hlist (c := received x.abi bytes source) (Or.inl hmem) with
    ⟨cl, hload, hwell, htake⟩
  rcases addrout_adds x (x.abi.ntohl source.addr) (x.abi.ntohs source.port) with
    ⟨os, haddress, htag⟩
  have hcallback : x.readCallback env (pollfun x.abi env.mem (.data bytes source)) =
      emit { addrout emit x (x.abi.ntohl source.addr) (x.abi.ntohs source.port) with
        floatlist := some cl } (.plain .msgout "list" (byteAtoms bytes)) := by
    have haddr : BitVec.ofInt 32 (received x.abi bytes source).addr = x.abi.ntohl source.addr :=
      ofInt_toLong x.abi hlong _
    have hfloat : (addrout emit x (x.abi.ntohl source.addr) (x.abi.ntohs source.port)).floatlist =
        x.floatlist := rfl
    rw [pollfun_received x.abi hmem hbytes, readCallback, haddr]
    dsimp only [received_port]
    rw [hfloat, hload]
    dsimp only
    rw [htake]
    rfl
  rw [hcallback]
  refine ⟨⟨os ++ [.plain .msgout "list" (byteAtoms bytes)], ?_, ?_⟩, rfl, fun _ => ?_⟩
  · rw [← List.append_assoc, ← haddress]
    rfl
  · rw [List.flatMap_append, htag]
    exact carries_block _ [byteAtoms bytes]
  · intro cl' hcl'
    cases hcl'
    exact hwell

/-- What every input adds to the messages. -/
theorem step_adds (hlong : 32 ≤ x.abi.longBits) (hlist : ∀ cl ∈ x.floatlist, cl.WellTyped)
    {a : Input} (hs : x.step env a = some x') : x.Adds (x.incomings env a) x' := by
  cases a with
  | port argv o =>
      simp only [step] at hs
      split at hs
      · cases hs
        exact portMessage_adds x env argv o
      · contradiction
  | option s argv =>
      cases hs
      exact optionI_adds x s argv
  | readable fd r =>
      simp only [step] at hs
      split at hs
      · rename_i hposs
        cases hs
        cases r with
        | data bytes source =>
            by_cases hmem : env.mem = true
            · rw [incomings, if_pos hmem]
              exact readCallback_adds hlong hlist hmem hposs.2.1 source
            · rw [incomings, if_neg hmem, eq_false_of_ne_true hmem, pollfun_of_not_mem]
              exact .refl x
        | emptyDatagram source | endOfStream source | error e source =>
            rw [pollfun_of_no_data (by simp)]
            exact .refl x
      · contradiction

/-- A new object has said nothing about data. -/
theorem init_adds (h : udpreceiveMachine.init x) :
    Carries (x.log.flatMap labels) [] ∧ ∀ cl ∈ x.floatlist, cl.WellTyped := by
  rcases h with ⟨abi, env, f, o, -, rfl⟩
  have hadds := setport_adds (blank abi env) env f.toUShort o
  rcases hadds.log with ⟨os, hlog, hcarries⟩
  refine ⟨?_, hadds.wellTyped fun cl hcl => wellTyped_of_floatlistCreate hcl⟩
  rw [new, hlog]
  exact hcarries

end UdpReceive

end Iemnet
