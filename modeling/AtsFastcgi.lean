import AtsFastcgi.Lib.Transition
import AtsFastcgi.Lib.PrefixCode
import AtsFastcgi.Lib.StreamCode
import AtsFastcgi.Lib.WriteBuffer
import AtsFastcgi.Lib.Assignments
import AtsFastcgi.Lib.LineReader
import AtsFastcgi.Lib.Interleaving
import AtsFastcgi.Lib.Simulation
import AtsFastcgi.Lib.Dispatcher
import AtsFastcgi.Lib.Ownership
import AtsFastcgi.Protocol
import AtsFastcgi.RecordDecoder
import AtsFastcgi.DecoderSafety
import AtsFastcgi.ResponseSemantics
import AtsFastcgi.DecoderRefinement
import AtsFastcgi.ContentBuffer
import AtsFastcgi.StatusLines
import AtsFastcgi.RecordBoundaries
import AtsFastcgi.ClientRequest
import AtsFastcgi.ServerConnection
import AtsFastcgi.Server
import AtsFastcgi.ServerSteps
import AtsFastcgi.Registry
import AtsFastcgi.WriteSide
import AtsFastcgi.LocalInvariant
import AtsFastcgi.PooledConnections
import AtsFastcgi.RequestIds
import AtsFastcgi.ResponseTransfer
import AtsFastcgi.Retry
import AtsFastcgi.InputSafety
import AtsFastcgi.Dispatch
import AtsFastcgi.Lifetimes
import AtsFastcgi.DeletedObjects
import AtsFastcgi.Outcomes
import AtsFastcgi.AcceptedRequests
import AtsFastcgi.RequestBody
import AtsFastcgi.Preamble
import AtsFastcgi.RequestBuffer
import AtsFastcgi.RequestHeaders
import AtsFastcgi.Config
import AtsFastcgi.ConfigKeys
import AtsFastcgi.ConfigSettings
import AtsFastcgi.ConfigLines
import AtsFastcgi.ConfigRoundTrip
import AtsFastcgi.ServerAddress
import AtsFastcgi.RequestDelivery
import AtsFastcgi.AnswerStream
import AtsFastcgi.Isolation
import AtsFastcgi.BlockCuts
import AtsFastcgi.SlotHandover
import AtsFastcgi.RequestCounts
import AtsFastcgi.WorkerThreads
import AtsFastcgi.Scheduling
import AtsFastcgi.DispatchOrder
import AtsFastcgi.RequestOwnership
import AtsFastcgi.RequestStream
import AtsFastcgi.ResponseDelivery
import AtsFastcgi.Gateway
import AtsFastcgi.Allocation
import AtsFastcgi.AllocationSafety
import AtsFastcgi.RequestLives
import AtsFastcgi.LockStep
import AtsFastcgi.ThreadViews
import AtsFastcgi.ThreadOwnership
