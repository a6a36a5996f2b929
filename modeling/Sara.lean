import Sara.Lib.Framing
import Sara.Lib.Redis
import Sara.Lib.Transition
import Sara.Lib.History
import Sara.Lib.Prog
import Sara.Lib.Reading
import Sara.Lib.Batch
import Sara.Lib.Json
import Sara.Lib.JsonString
import Sara.Types.Defines
import Sara.Types.Jid
import Sara.Types.Packet
import Sara.Types.PlainJson
import Sara.Types.Gjson
import Sara.Types.GoJson
import Sara.Saradb.Database
import Sara.Saradb.Order
import Sara.Saradb.Close
import Sara.Saradb.Expiry
import Sara.Saradb.Entries
import Sara.Core.Decoder
import Sara.Core.ReadLoop
import Sara.Core.Session
import Sara.Core.Store
import Sara.Core.Unauthenticated
import Sara.Core.Frame
import Sara.Core.Decoders
import Sara.Core.Serialised
import Sara.Core.Groups
import Sara.Core.Addresses
import Sara.Core.Lifecycle
import Sara.Core.Deadlines
import Sara.Core.Issued
import Sara.Core.Traces
import Sara.Core.Batches
import Sara.Core.Published
import Sara.Core.Offline
import Sara.Core.Mailbox
import Sara.Core.Custody
import Sara.Core.Transport
import Sara.Node.System
import Sara.Node.Frame
import Sara.Node.Users
import Sara.Node.Dispatch
import Sara.Node.Shutdown
import Sara.Node.Login
import Sara.Node.LoginRefinement
import Sara.Node.Directory
import Sara.Node.SingleSession
import Sara.Node.Delivery
import Sara.Node.Ack
import Sara.Node.Receipts
import Sara.Cluster.System
import Sara.Cluster.Users
import Sara.Cluster.Group
import Sara.Cluster.Safety
import Sara.Cluster.Once
import Sara.Cluster.Direct
import Sara.Cluster.Ghost
import Sara.Cluster.Shared
import Sara.Cluster.Handshake
import Sara.Cluster.Reached
import Sara.Cluster.Storm
import Sara.Cluster.Addressed
import Sara.Cluster.Blind
import Sara.Cluster.Wired
import Sara.Cluster.Calls
import Sara.Service.Reload
import Sara.Sararpc.Client
import Sara.Sararpc.Thrift
import Sara.Sararpc.EmsgInfPush
import Sara.Sararpc.Connection
import Sara.Sararpc.Skip
import Sara.Config.Load
