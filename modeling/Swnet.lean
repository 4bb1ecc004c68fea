import Swnet.Lib.Memory
import Swnet.Lib.Framing
import Swnet.Basic
import Swnet.Packet
import Swnet.Ncb
import Swnet.Recv.Dispatch
import Swnet.Recv.Parse
import Swnet.Recv.Reassembly
import Swnet.Recv.Stream
import Swnet.Recv.Delivery
import Swnet.Lib.SendGate
import Swnet.Send.Write
import Swnet.Send.Custody
import Swnet.Send.Unload
import Swnet.Send.Protocol
import Swnet.Send.Progress
import Swnet.Send.Record
import Swnet.Send.Wire
import Swnet.EndToEnd
import Swnet.Context
import Swnet.Lib.Jobs
import Swnet.Sys.Calls
import Swnet.Sys.Tcp
import Swnet.Sys.Udp
import Swnet.Sys.Machine
import Swnet.Sys.Steps
import Swnet.Sys.Local
import Swnet.Sys.Links
import Swnet.Sys.Ownership
import Swnet.Sys.References
import Swnet.Sys.Counting
import Swnet.Sys.Closing
import Swnet.Sys.Teardown
import Swnet.Sys.Accepting
import Swnet.Sys.Receives
import Swnet.Sys.Slots
import Swnet.Endpoint
import Swnet.Os
import Swnet.Udp.Group
import Swnet.Udp.Peer
import Swnet.Udp.Receive
import Swnet.Udp.Send
import Swnet.Udp.Multicast
import Swnet.Pipe
import Swnet.Ifmisc
import Swnet.Send.Serializer
import Swnet.Registers
import Swnet.Settst
import Swnet.Startup
import Swnet.Starting
import Swnet.Sys.Establishing
import Swnet.Sys.Packets
import Swnet.Lib.Places
import Swnet.Sys.Hands
import Swnet.Sys.Disposal
import Swnet.Sys.Latches
import Swnet.Sys.Published
import Swnet.Sys.Sections
import Swnet.Lib.Replay
import Swnet.Sys.Receiving
import Swnet.Lib.Workers
import Swnet.Iocp
import Swnet.Iouninit
