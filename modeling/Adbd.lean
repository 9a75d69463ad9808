import Adbd.Prog
import Adbd.CString
import Adbd.Fdevent
import Adbd.Packet
import Adbd.PtrQueue
import Adbd.LocalQueue
import Adbd.Core
import Adbd.Sockets
import Adbd.HandlePacket
import Adbd.System
import Adbd.Ops
import Adbd.SocketGraph
import Adbd.Custody
import Adbd.PacketOwnership
import Adbd.Watch
import Adbd.OpLogic
import Adbd.Closing
import Adbd.Tasks
import Adbd.Handlers
import Adbd.Reading
import Adbd.Packets
import Adbd.Steps
import Adbd.Lifecycle
import Adbd.Pipes
import Adbd.Isolation
import Adbd.Trackers
import Adbd.NullPeer
import Adbd.Streams
import Adbd.Draining
import Adbd.Credit
import Adbd.Acks
import Adbd.Wire
import Adbd.Outgoing
import Adbd.Waiters
import Adbd.ShellExit
import Adbd.ServicePipes
import Adbd.FunctionFs
import Adbd.GoingOffline
import Adbd.Banner
import Adbd.ListHead
import Adbd.Runs
import Adbd.TinySched
import Adbd.TinyFair
import Adbd.TinyRt
import Adbd.RtFifo
import Adbd.Preemption
import Adbd.RoundRobin
import Adbd.Dispatch
import Adbd.AuthGate
import Adbd.FileSync
import Adbd.SyncSession
import Adbd.PushStore
import Adbd.ServiceFds
import Adbd.Link
import Adbd.Phases
import Adbd.Traffic
import Adbd.Incoming
import Adbd.ClosedPipe
import Adbd.Leaks
import Adbd.SocketIds
import Adbd.PushLinks
import Adbd.Framebuffer
import Adbd.ServiceCleanup
import Adbd.AuthOff
import Adbd.FfsOpen
import Adbd.ServiceStart
import Adbd.BackupRace
import Adbd.CloseAll
import Adbd.SmartClient
import Adbd.SmartSession
import Adbd.Outbound
import Adbd.EndOfStream
import Adbd.Descriptors
import Adbd.Acquire
import Adbd.Crc32
import Adbd.JdwpList
import Adbd.JdwpProcess
import Adbd.Sextets
import Adbd.Base64
import Adbd.AuthKeys
import Adbd.JdwpGreeting
import Adbd.JdwpQueue
import Adbd.BackupArgs
import Adbd.Tokens
import Adbd.BannerText
import Adbd.Sessions
import Adbd.Answers
import Adbd.TrackerNews
import Adbd.RunTime
import Adbd.FdeTable
import Adbd.EventTables
import Adbd.TableInvariant
import Adbd.LoopRefinement
import Adbd.ParentDirs
