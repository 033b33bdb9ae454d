import StakkerMio.Lib.Machine
import StakkerMio.Lib.Slab
import StakkerMio.Io
import StakkerMio.Lib.Levels
import StakkerMio.MioPoll.Control
import StakkerMio.MioPoll.System
import StakkerMio.MioPoll.Scheduler
import StakkerMio.MioPoll.Invariant
import StakkerMio.MioPoll.Ownership
import StakkerMio.MioPoll.Refinement
import StakkerMio.MioPoll.Payload
import StakkerMio.MioPoll.History
import StakkerMio.MioPoll.Delivery
import StakkerMio.Lib.Interleave
import StakkerMio.Udp.Queue
import StakkerMio.Udp.Conservation
import StakkerMio.Lib.Loop
import StakkerMio.Lib.Trace
import StakkerMio.Tcp.StreamBuf
import StakkerMio.Tcp.Session
import StakkerMio.Tcp.Output
import StakkerMio.Tcp.Input
import StakkerMio.Tls.Session
import StakkerMio.Tls.NullConnection
import StakkerMio.Tls.Output
import StakkerMio.Tls.Eof
import StakkerMio.MioPoll.Pending
import StakkerMio.MioPoll.Representation
import StakkerMio.Tcp.Nodelay
import StakkerMio.Tcp.StreamEof
import StakkerMio.Tcp.ReadEof
import StakkerMio.Flush
import StakkerMio.Udp.Receive
import StakkerMio.Tls.PassThrough
import StakkerMio.Tls.ReadOut
import StakkerMio.Tls.MainLoop
import StakkerMio.MioPoll.Footprint
import StakkerMio.MioPoll.Priority
import StakkerMio.MioPoll.Wake
import StakkerMio.MioPoll.Fairness
import StakkerMio.EchoServer.Echoer
import StakkerMio.EchoServer.Echo
import StakkerMio.EchoServer.Server
import StakkerMio.EchoServer.Edge
import StakkerMio.EchoServer.Wakeups
import StakkerMio.EchoServer.Main
import StakkerMio.EchoServer.Service
import StakkerMio.Interrupts
import StakkerMio.EchoServer.Retries
import StakkerMio.Udp.Once
import StakkerMio.Tls.Outgoing
import StakkerMio.Tls.Incoming
import StakkerMio.Tls.Settled
import StakkerMio.Tcp.Memory
import StakkerMio.Udp.Transfer
