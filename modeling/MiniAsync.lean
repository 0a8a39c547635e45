import MiniAsync.Interleave.Machine
import MiniAsync.Interleave.Roles
import MiniAsync.Interleave.Stack
import MiniAsync.MultiThread.Runtime
import MiniAsync.MultiThread.Inv.Exec
import MiniAsync.MultiThread.Inv.Valid
import MiniAsync.MultiThread.Inv.Lifecycle
import MiniAsync.MultiThread.Inv.TaskLife
import MiniAsync.MultiThread.Inv.WakeUp
import MiniAsync.MultiThread.Inv.Election
import MiniAsync.MultiThread.Inv.Workers
import MiniAsync.MultiThread.Inv.Stranded
import MiniAsync.MultiThread.Inv.Shutdown
import MiniAsync.MultiThread.Inv.Watched
import MiniAsync.MultiThread.Inv.Timers
import MiniAsync.MultiThread.Inv.Oversleep
import MiniAsync.MultiThread.Inv.Handover
import MiniAsync.MultiThread.Inv.Join
import MiniAsync.MultiThread.Inv.JoinWake
import MiniAsync.MultiThread.Inv.SleepCell
import MiniAsync.MultiThread.Inv.SleepWaker
import MiniAsync.Reactor.Basic
import MiniAsync.Slots.Take
import MiniAsync.Reactor.Arming
import MiniAsync.Reactor.Batch
import MiniAsync.Time.Duration
import MiniAsync.Reactor.Timeout
import MiniAsync.Deadlines
import MiniAsync.Reactor.Accept
import MiniAsync.Channel.Delivery
import MiniAsync.Heap.MaxHeap
import MiniAsync.Timer.Spec
import MiniAsync.Timer.Firing
import MiniAsync.SingleThread.Timer
import MiniAsync.MultiThread.TimerWheel
import MiniAsync.SingleThread.Executor
import MiniAsync.SingleThread.Runtime
import MiniAsync.SingleThread.Inv
import MiniAsync.SingleThread.BlockOn
import MiniAsync.Trace.Infinite
import MiniAsync.SingleThread.Progress
import MiniAsync.MultiThread.Inv.Outcome
import MiniAsync.Determinism
import MiniAsync.Queue.Distinct
import MiniAsync.ReadyQueues
import MiniAsync.SingleThread.Tick
import MiniAsync.MultiThread.Inv.Accounting
import MiniAsync.Memory.Counted
import MiniAsync.SingleThread.Raw.Basic
import MiniAsync.SingleThread.Raw.Refine
import MiniAsync.MultiThread.Raw.Basic
import MiniAsync.MultiThread.Raw.Access
import MiniAsync.MultiThread.Raw.Runs
import MiniAsync.MultiThread.Raw.Leaks
import MiniAsync.Interleave.Linearize
import MiniAsync.MultiThread.WakerCell
import MiniAsync.Resource.Holders
import MiniAsync.Kernel.Tcp
import MiniAsync.Kernel.Buffered
import MiniAsync.Kernel.Socket
import MiniAsync.Net.Basic
import MiniAsync.Net.Ownership
import MiniAsync.Net.Discipline
import MiniAsync.Net.WakeUp
import MiniAsync.Net.Traffic
import MiniAsync.MultiThread.Inv.Calls
import MiniAsync.MultiThread.Inv.Rest
import MiniAsync.Interleave.Fair
import MiniAsync.MultiThread.Live.Rounds
