import SwiftEvent.Library.Run
import SwiftEvent.Library.Pipes
import SwiftEvent.Library.Delimited
import SwiftEvent.Library.Tickets
import SwiftEvent.Timeval
import SwiftEvent.Kernel
import SwiftEvent.Base
import SwiftEvent.Queues
import SwiftEvent.SocketAddress
import SwiftEvent.World
import SwiftEvent.Core
import SwiftEvent.Life
import SwiftEvent.Steps
import SwiftEvent.Refine
import SwiftEvent.Drive
import SwiftEvent.Once
import SwiftEvent.Registered
import SwiftEvent.Ledger
import SwiftEvent.Orphan
import SwiftEvent.Process
import SwiftEvent.Ownership
import SwiftEvent.Frame
import SwiftEvent.Deadline
import SwiftEvent.Connect
import SwiftEvent.Wired
import SwiftEvent.Reuse
import SwiftEvent.Streams
import SwiftEvent.Bound
import SwiftEvent.Integrity
import SwiftEvent.Durations
import SwiftEvent.Framing
import SwiftEvent.Lines
import SwiftEvent.Library.Heap
import SwiftEvent.MinHeap
import SwiftEvent.TimerHeap
import SwiftEvent.Waits
import SwiftEvent.Timers
import SwiftEvent.Pass
import SwiftEvent.Accepts
import SwiftEvent.Handlers
import SwiftEvent.Signals
import SwiftEvent.Deliveries
import SwiftEvent.Library.Channel
import SwiftEvent.Connections
import SwiftEvent.Without
import SwiftEvent.Transparent
import SwiftEvent.Timeouts
import SwiftEvent.Beside
import SwiftEvent.NoTrace
import SwiftEvent.Syscalls
import SwiftEvent.OpTable
import SwiftEvent.Evmap
import SwiftEvent.MapBase
import SwiftEvent.Changelist
import SwiftEvent.ActiveQueues
import SwiftEvent.ActiveLoop
import SwiftEvent.CommonTimeouts
import SwiftEvent.PlainTimers
