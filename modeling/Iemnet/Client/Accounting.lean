import Iemnet.Client.TcpClient
import Iemnet.Client.TcpSend
import Iemnet.Client.UdpClient

/-!
# What the client objects open, they close

Each of the three client objects decides by a different test whether it is connected:
{lit}`tcpclient` by its host name and port, {lit}`udpclient` by its descriptor or its
sender, {lit}`tcpsend` by its descriptor.  In every reachable state the test finds what is
open, so that a teardown leaves nothing behind and takes nothing twice.

Main results:

- Theorem {lit}`client_descriptors`: the account of every run of the three objects, after
  a disconnect and after deletion.
-/

namespace Iemnet

open Pd Foundations

/-- Deleting a tcpclient leaves nothing open. -/
theorem TcpClient.Kept.free_settled {x : TcpClient} (h : x.Kept) : x.free.res.Settled :=
  h.disconnect_holding.settled

/-- Disconnecting a udpclient leaves nothing open. -/
theorem UdpClient.Kept.disconnect_settled {x : UdpClient} (h : x.Kept) :
    x.disconnect.res.Settled := by
  rcases h.disconnect with ⟨hkept, hfd⟩
  exact (hkept.nothing hfd).1.settled

/-- Deleting a udpclient leaves nothing open. -/
theorem UdpClient.Kept.free_settled {x : UdpClient} (h : x.Kept) : x.free.res.Settled := by
  rcases h.doDisconnect with ⟨hkept, hfd⟩
  exact (hkept.nothing hfd).1.settled

/-- In every run of a client object every descriptor is closed exactly once or is the one
that the fields say is open, with the sender and the receiver that work on it; a
disconnect and the deletion of the object close and destroy what is left. -/
theorem client_descriptors :
    (∀ x : TcpClient, tcpclientMachine.Reachable x →
      x.res.Holding x.socket x.sender x.receiver ∧ x.res.Orderly ∧
        x.disconnect.res.Settled ∧ x.free.res.Settled) ∧
    (∀ x : UdpClient, udpclientMachine.Reachable x →
      x.res.Holding (stored x.fd) x.sender x.receiver ∧ x.res.Orderly ∧
        x.disconnect.res.Settled ∧ x.free.res.Settled) ∧
    ∀ x : TcpSend, tcpsendMachine.Reachable x →
      x.res.Holding (stored x.fd) x.sender none ∧ x.res.Orderly ∧
        x.disconnect.res.Settled ∧ x.free.res.Settled := by
  refine ⟨fun x hx => ?_, fun x hx => ?_, fun x hx => ?_⟩
  · have hkept := tcpclient_kept hx
    exact ⟨hkept, hkept.orderly, hkept.disconnect_holding.settled, hkept.free_settled⟩
  · have hkept := udpclient_kept hx
    exact ⟨hkept, hkept.orderly, hkept.disconnect_settled, hkept.free_settled⟩
  · have hkept := tcpsend_kept hx
    exact ⟨hkept, hkept.orderly, hkept.disconnect.2.settled, hkept.disconnect.2.settled⟩

/-- A connect that succeeds with descriptor {lit}`fd`. -/
def reaches (fd : Int) : ConnectOutcome :=
  ⟨some fd, fun _ => true⟩

/-- A connect to which nobody answers. -/
def refused (fd : Int) : ConnectOutcome :=
  ⟨some fd, fun _ => false⟩

/-- Two connections without a disconnect in between, a send that fails, and one more
connect that is refused: the kernel hands out the same number again. -/
theorem client_descriptors_run :
    (∃ x, tcpclientMachine.run (.new ⟨true, 64⟩ (plainClientEnv true (-1)))
        [(plainClientEnv true (-1), .connect "localhost" ⟨80, 0#32⟩ (reaches 3)),
          (plainClientEnv false (-1), .connect "localhost" ⟨81, 0#32⟩ (reaches 3)),
          (plainClientEnv true (-1), .readable 3 (.endOfStream ⟨2, 0#32, 0#16⟩)),
          (plainClientEnv true (-1), .connect "localhost" ⟨80, 0#32⟩ (refused 3))] = some x ∧
      x.res.os.closed = [0, 1, 2] ∧ x.res.Orderly ∧ x.free.res.Settled) ∧
    (∃ x, udpclientMachine.run (.new ⟨true, 64⟩ (plainClientEnv true (-1)))
        [(plainClientEnv false (-1), .connect "localhost" ⟨80, 0#32⟩ (reaches 3)),
          (plainClientEnv true (-1), .connect "localhost" ⟨80, 0#32⟩ (reaches 4))] = some x ∧
      x.res.os.closed = [0] ∧ x.res.Orderly ∧ x.free.res.Settled) ∧
    ∃ x, tcpsendMachine.run (.new ⟨true, 64⟩)
        [(plainClientEnv true (-1), .connect "localhost" ⟨80, 0#32⟩ (reaches 3)),
          (plainClientEnv true (-1), .disconnect),
          (plainClientEnv false (-1), .connect "localhost" ⟨80, 0#32⟩ (reaches 3))] = some x ∧
      x.res.os.closed = [0] ∧ x.res.Orderly ∧ x.free.res.Settled := by
  have htcp : tcpclientMachine.run (.new ⟨true, 64⟩ (plainClientEnv true (-1)))
      [(plainClientEnv true (-1), .connect "localhost" ⟨80, 0#32⟩ (reaches 3)),
        (plainClientEnv false (-1), .connect "localhost" ⟨81, 0#32⟩ (reaches 3)),
        (plainClientEnv true (-1), .readable 3 (.endOfStream ⟨2, 0#32, 0#16⟩)),
        (plainClientEnv true (-1), .connect "localhost" ⟨80, 0#32⟩ (refused 3))] = some _ := rfl
  have hudp : udpclientMachine.run (.new ⟨true, 64⟩ (plainClientEnv true (-1)))
      [(plainClientEnv false (-1), .connect "localhost" ⟨80, 0#32⟩ (reaches 3)),
        (plainClientEnv true (-1), .connect "localhost" ⟨80, 0#32⟩ (reaches 4))] = some _ := rfl
  have hsend : tcpsendMachine.run (.new ⟨true, 64⟩)
      [(plainClientEnv true (-1), .connect "localhost" ⟨80, 0#32⟩ (reaches 3)),
        (plainClientEnv true (-1), .disconnect),
        (plainClientEnv false (-1), .connect "localhost" ⟨80, 0#32⟩ (reaches 3))] = some _ := rfl
  have hone := client_descriptors.1 _ (Machine.reach_of_run ⟨_, _, rfl⟩ htcp)
  have htwo := client_descriptors.2.1 _ (Machine.reach_of_run ⟨_, _, rfl⟩ hudp)
  have hthree := client_descriptors.2.2 _ (Machine.reach_of_run ⟨_, rfl⟩ hsend)
  exact ⟨⟨_, htcp, rfl, hone.2.1, hone.2.2.2⟩, ⟨_, hudp, rfl, htwo.2.1, htwo.2.2.2⟩,
    ⟨_, hsend, rfl, hthree.2.1, hthree.2.2.2⟩⟩

end Iemnet
