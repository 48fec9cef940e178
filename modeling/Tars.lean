import Tars.Cpp
import Tars.Library.Scripts
import Tars.Library.Chains
import Tars.Library.Custody
import Tars.Util.Buffer
import Tars.Util.BufferRuns
import Tars.Util.LoopQueue
import Tars.Util.TimeoutQueue
import Tars.Util.TimeoutStore
import Tars.Client.Transceiver
import Tars.Client.ObjectProxy
import Tars.Client.ProxyRuns
import Tars.Client.Resend
import Tars.Client.SendConservation
import Tars.Client.SocketStream
import Tars.Client.SocketOwnership
import Tars.Client.NotifyDrain
import Tars.Client.ResponseFraming
import Tars.Client.ReceiveConservation
import Tars.Server.Connection
import Tars.Server.ReceivedRecords
import Tars.Server.RequestFraming
import Tars.Server.Sending
import Tars.Server.SliceFlush
import Tars.Server.NetThread
import Tars.Server.NetInvariant
import Tars.Server.NetRuns
import Tars.Server.NetClosing
import Tars.Server.NetOrder
import Tars.Server.Servants
import Tars.Server.Handle
import Tars.Server.RecordOwnership
import Tars.Util.Monitor
import Tars.Client.Handshake
import Tars.Library.Ledger
import Tars.Client.MessageOwnership
import Tars.Library.Rings
import Tars.Library.Decoding
import Tars.Library.Framing
import Tars.Coroutine.Scheduler
import Tars.Coroutine.Lists
import Tars.Coroutine.Invariant
import Tars.Coroutine.Runs
import Tars.Coroutine.Wakeup
import Tars.Coroutine.Spurious
import Tars.Coroutine.Growth
import Tars.Library.LittleEndian
import Tars.Tup.TarsType
import Tars.Tup.Output
import Tars.Tup.Encoding
import Tars.Tup.Input
import Tars.Tup.Cursor
import Tars.Tup.RoundTrip
import Tars.Tup.Truncation
import Tars.Tup.Skipping
import Tars.Tup.Evolution
import Tars.Tup.Fuel
import Tars.Tup.Termination
import Tars.Tup.AppProtocol
import Tars.Tup.RequestF
import Tars.Tup.ResponseDecoders
import Tars.Tup.ResponseF
import Tars.Tup.ResponsePrefixes
import Tars.Tup.ProxyProtocol
import Tars.Tup.UniPacket
import Tars.Tup.UniRoundTrip
import Tars.Util.LoopQueueThreads
import Tars.Client.Correlation
import Tars.Client.SeqManager
import Tars.Client.ThreadData
import Tars.Client.RequestQueues
import Tars.Client.QueueDiscipline
import Tars.Util.ThreadPool
import Tars.Util.ThreadQueue
import Tars.Util.LoopQueueRuns
import Tars.Client.SeqRuns
import Tars.Util.TimeoutExpiry
import Tars.Coroutine.PassOrder
import Tars.Tup.UnknownFields
import Tars.Tup.RawAttributes
import Tars.Tup.WriterCopies
import Tars.Tup.WriterBounds
import Tars.Tup.FixedArrays
import Tars.Client.DispatchCallers
import Tars.Tup.Interchange
import Tars.Tup.TupResponses
import Tars.Tup.Widening
import Tars.Tup.Acceptance
import Tars.Tup.StreamResponses
import Tars.Util.ThreadQueueCalls
import Tars.Server.Heartbeats
import Tars.Server.NetRequests
import Tars.Server.OneThread
import Tars.System.RemoteCalls
import Tars.Client.SocketBytes
import Tars.System.Accounts
import Tars.Client.SingleCalls
import Tars.System.Effects
import Tars.System.ServedOnce
import Tars.System.SocketStates
import Tars.System.CallSafety
