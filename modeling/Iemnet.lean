import Iemnet.Data.Integrity
import Iemnet.Queue.Uses
import Iemnet.Queue.Wakeups
import Iemnet.Sender.Stream
import Iemnet.Sender.Teardown
import Iemnet.Client.Accounting
import Iemnet.Client.Coherence
import Iemnet.Client.Receiving
import Iemnet.Client.UdpSendLeak
import Iemnet.Client.UdpSending
import Iemnet.Receive.Ports
import Iemnet.TcpServer.Bounds
import Iemnet.TcpServer.Reentrant.Broadcasting
import Iemnet.TcpServer.Status
import Iemnet.TcpServer.Target
import Iemnet.UdpServer.Frame
import Iemnet.UdpServer.Admission
import Iemnet.UdpServer.Binding
import Iemnet.UdpServer.Failure
import Iemnet.UdpServer.Rebinding
import Iemnet.UdpServer.Registration
import Iemnet.Servers.DisconnectAll
import Iemnet.Setup.FirstUse
import Iemnet.Foundations.Fairness
import Iemnet.Sender.Progress
import Iemnet.Sender.Termination
import Iemnet.Channel.Model
import Iemnet.Channel.Progress
import Iemnet.Queue.Memory
import Iemnet.Queue.History
import Iemnet.Sender.Memory
import Iemnet.TcpServer.Lifetime
import Iemnet.Foundations.Multicast
import Iemnet.TcpServer.Service
import Iemnet.Foundations.Demultiplex
import Iemnet.TcpServer.Reports
import Iemnet.TcpServer.Observer
import Iemnet.Channel.Uplinks
import Iemnet.Channel.Merging
import Iemnet.Receive.Attribution
import Iemnet.Foundations.Merge
import Iemnet.Receive.Merging
import Iemnet.Channel.Datagrams
import Iemnet.Channel.Downlinks
