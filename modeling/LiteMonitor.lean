import LiteMonitor.LTS.Basic
import LiteMonitor.Stream.Delimited
import LiteMonitor.Stream.LengthPrefix
import LiteMonitor.Queue.Fifo
import LiteMonitor.RingBuffer.Basic
import LiteMonitor.RingBuffer.Refinement
import LiteMonitor.RingBuffer.Threads
import LiteMonitor.RingBuffer.WakeUp
import LiteMonitor.Trapper.Buffer
import LiteMonitor.Trapper.Server
import LiteMonitor.Trapper.Delivery
import LiteMonitor.Sender.Packet
import LiteMonitor.Sender.Basic
import LiteMonitor.Queue.Ledger
import LiteMonitor.Sender.Steps
import LiteMonitor.Sender.Accounting
import LiteMonitor.Sender.Overflow
import LiteMonitor.Sender.Wire
import LiteMonitor.Interop
import LiteMonitor.Protocol.Message
import LiteMonitor.Protocol.Framing
import LiteMonitor.Trapper.Outcomes
import LiteMonitor.Sender.Shutdown
import LiteMonitor.LTS.Path
import LiteMonitor.Sender.Drain
import LiteMonitor.Db.Connection
import LiteMonitor.Db.Pool
import LiteMonitor.Db.Steps
import LiteMonitor.Pool.Lending
import LiteMonitor.Db.Conservation
import LiteMonitor.Db.Teardown
import LiteMonitor.Db.Operator
import LiteMonitor.Partition.Calendar
import LiteMonitor.Partition.RangeTable
import LiteMonitor.Partition.Maintain
import LiteMonitor.Db.LastRelease
import LiteMonitor.Db.Connected
import LiteMonitor.Retry.Backoff
import LiteMonitor.Sender.Backoff
import LiteMonitor.Sender.Limits
import LiteMonitor.Sender.Sockets
import LiteMonitor.Sender.WakeUp
import LiteMonitor.Sender.Survival
import LiteMonitor.Queue.Chunks
import LiteMonitor.Sender.Chunking
import LiteMonitor.Config.Checklist
import LiteMonitor.Config.Form
import LiteMonitor.Config.Parameters
import LiteMonitor.Config.Loader
import LiteMonitor.Config.Document
import LiteMonitor.Config.Determined
import LiteMonitor.Config.Repair
import LiteMonitor.Crc.BitString
import LiteMonitor.Crc.Register
import LiteMonitor.Protocol.Checksum
import LiteMonitor.Sender.Prefix
import LiteMonitor.Config.Logger
import LiteMonitor.Protocol.Canonical
import LiteMonitor.Protocol.Copy
import LiteMonitor.Text.Utf8
import LiteMonitor.Text.Numeral
import LiteMonitor.Text.Json
import LiteMonitor.Json.Decode
import LiteMonitor.Json.Escape
import LiteMonitor.Json.Integer
import LiteMonitor.Json.Float
import LiteMonitor.Json.Serializer
import LiteMonitor.Sender.Values
import LiteMonitor.RingBuffer.Settles
import LiteMonitor.Pool.Weight
import LiteMonitor.Db.WakeUp
import LiteMonitor.Db.Handles
import LiteMonitor.Db.Shutdown
import LiteMonitor.Db.Result
import LiteMonitor.Partition.Placement
import LiteMonitor.Http.Response
import LiteMonitor.Sender.Stats
import LiteMonitor.Trapper.Lives
import LiteMonitor.Log.FileHelper
import LiteMonitor.Log.RotatingFile
import LiteMonitor.Log.Rotation
import LiteMonitor.Log.Sinks
import LiteMonitor.Log.Calls
