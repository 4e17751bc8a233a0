import NmMemcached.Lib.Runs
import NmMemcached.Lib.TwoSlot
import NmMemcached.Lib.TickGate
import NmMemcached.Lib.Cyclic
import NmMemcached.Lib.Fifo
import NmMemcached.Lib.Hex
import NmMemcached.Lib.Numerals
import NmMemcached.Lib.Options
import NmMemcached.Lib.Mem
import NmMemcached.Lib.OnesComplement
import NmMemcached.Lib.Access
import NmMemcached.Lib.Commands
import NmMemcached.Lib.Ledger
import NmMemcached.Lib.Tokens
import NmMemcached.Base.Def
import NmMemcached.Base.Inl
import NmMemcached.Base.Checksum
import NmMemcached.Base.InternetChecksum
import NmMemcached.Base.Accesses
import NmMemcached.Net.Packet
import NmMemcached.Net.Wire
import NmMemcached.Table.LookupTable
import NmMemcached.Table.Slots
import NmMemcached.Table.Refinement
import NmMemcached.Table.ClockGate
import NmMemcached.Table.Atomicity
import NmMemcached.Table.Enumerate
import NmMemcached.Table.Operations
import NmMemcached.Table.Notices
import NmMemcached.Table.Deletion
import NmMemcached.Table.IndexSafety
import NmMemcached.Server.Item
import NmMemcached.Server.OnRecieve
import NmMemcached.Server.Replies
import NmMemcached.Server.Writes
import NmMemcached.Server.Accesses
import NmMemcached.Server.Requests
import NmMemcached.Server.Grammar
import NmMemcached.Server.Interleaving
import NmMemcached.Server.BinLog
import NmMemcached.Server.Rows
import NmMemcached.Server.KeyRange
import NmMemcached.Server.Replica
import NmMemcached.Server.Lengths
import NmMemcached.Server.Selection
import NmMemcached.Server.Mysql
import NmMemcached.Server.HexValues
import NmMemcached.Server.EndToEnd
import NmMemcached.Server.Framing
import NmMemcached.Server.Shutdown
import NmMemcached.Server.Finish
import NmMemcached.Arch.Netmap
import NmMemcached.Arch.Frames
import NmMemcached.Arch.Routing
import NmMemcached.Arch.Decision
import NmMemcached.Arch.KeyRouting
import NmMemcached.Arch.Answer
import NmMemcached.Arch.Rings
import NmMemcached.Arch.Batch
import NmMemcached.Arch.Ownership
import NmMemcached.Arch.Search
import NmMemcached.Arch.Accesses
import NmMemcached.Arch.Extents
import NmMemcached.Arch.Bounds
import NmMemcached.Arch.ReplyHeaders
import NmMemcached.Arch.Arrivals
import NmMemcached.Arch.Reflection
import NmMemcached.Arch.Hops
import NmMemcached.Arch.IcmpReplies
import NmMemcached.Arch.HeaderChecksum
import NmMemcached.Arch.IcmpChecksum
import NmMemcached.Arch.PortName
import NmMemcached.Arch.PortSyntax
import NmMemcached.Arch.Poll
import NmMemcached.Arch.Queues
import NmMemcached.Arch.Stream
import NmMemcached.Arch.Workers
import NmMemcached.Arch.Open
import NmMemcached.Arch.Binding
import NmMemcached.Arch.Socket
import NmMemcached.Arch.Receive
import NmMemcached.Arch.Buffer
import NmMemcached.Arch.Transports
import NmMemcached.Proc.Setup
import NmMemcached.Proc.Lifecycle
import NmMemcached.Proc.Exit
import NmMemcached.Arch.Singleton
import NmMemcached.Lib.Simulation
import NmMemcached.Server.Cluster
import NmMemcached.Test.Client
import NmMemcached.Test.LoadTest
import NmMemcached.Test.WarmUp
import NmMemcached.Table.Behaviour
import NmMemcached.Table.Isolation
import NmMemcached.Server.EventObjects
