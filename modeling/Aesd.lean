import Aesd.Foundation.BlockHeap
import Aesd.Foundation.RecordLog
import Aesd.Foundation.SegmentLookup
import Aesd.Foundation.Run
import Aesd.Driver.CircularBuffer
import Aesd.Driver.Device
import Aesd.Driver.LogRelation
import Aesd.Driver.WriteCorrect
import Aesd.Driver.ReadCorrect
import Aesd.Driver.Session
import Aesd.Driver.Ownership
import Aesd.Driver.Readers
import Aesd.Foundation.DescriptorTable
import Aesd.Server.Handler
import Aesd.Server.Safety
import Aesd.Server.Serial
import Aesd.Server.Accounts
import Aesd.Server.Reply
import Aesd.Foundation.MergedStream
import Aesd.Server.Packets
import Aesd.Driver.RingRefinement
import Aesd.Driver.OffsetStability
import Aesd.Driver.WrappedRing
import Aesd.Driver.AccessSafety
import Aesd.Server.Moves
import Aesd.Server.Drops
import Aesd.Server.LockBalance
import Aesd.Server.ReplyGaps
import Aesd.Foundation.LinkedList
import Aesd.Server.MainLoop
import Aesd.Server.Descriptors
import Aesd.Server.ConnectionList
import Aesd.Server.Shutdown
import Aesd.Foundation.Ranking
import Aesd.Server.Termination
import Aesd.Server.RecordLifetime
import Aesd.Foundation.FileStream
import Aesd.Server.FileHandler
import Aesd.Foundation.Pacing
import Aesd.Server.FileLog
import Aesd.Server.Timestamps
import Aesd.Server.TwoBuilds
import Aesd.Foundation.Atomicity
import Aesd.Driver.Interleaving
import Aesd.Server.Startup
import Aesd.Driver.Lifecycle
import Aesd.Examples.Threading
import Aesd.Examples.SystemCalls
