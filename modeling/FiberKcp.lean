import FiberKcp.Data.Run
import FiberKcp.Data.OrderedSet
import FiberKcp.Data.Serial
import FiberKcp.Data.LittleEndian
import FiberKcp.Data.Tally
import FiberKcp.Data.Ledger
import FiberKcp.Data.Window
import FiberKcp.Data.Leads
import FiberKcp.Timer.KTimer
import FiberKcp.Timer.Manager
import FiberKcp.Timer.Order
import FiberKcp.Timer.Schedule
import FiberKcp.Ikcp.Control
import FiberKcp.Ikcp.Transfer
import FiberKcp.Ikcp.Input
import FiberKcp.Ikcp.Flush
import FiberKcp.Ikcp.Sides
import FiberKcp.Ikcp.Arrival
import FiberKcp.Ikcp.Decoding
import FiberKcp.Ikcp.Departure
import FiberKcp.Ikcp.Messages
import FiberKcp.Kcp.Routines
import FiberKcp.Kcp.Delivery
import FiberKcp.Ikcp.Encoding
import FiberKcp.Ikcp.Packing
import FiberKcp.Ikcp.Fragments
import FiberKcp.Ikcp.ReceiveWindow
import FiberKcp.Ikcp.SendWindow
import FiberKcp.Ikcp.Clock
import FiberKcp.Ikcp.Check
import FiberKcp.Session.Model
import FiberKcp.Session.Progress
import FiberKcp.Session.Arrivals
import FiberKcp.Session.Sending
import FiberKcp.Session.Safety
import FiberKcp.Session.HandOver
import FiberKcp.Session.Rejection
import FiberKcp.Session.RoundTrip
import FiberKcp.Session.Windows
import FiberKcp.Session.Pacing
import FiberKcp.Session.Retransmission
import FiberKcp.Session.Answers
import FiberKcp.Session.Recovery
import FiberKcp.Session.Completion
import FiberKcp.Session.Stalls
import FiberKcp.Session.Acknowledgement
import FiberKcp.Fiber.KFiber
import FiberKcp.Fiber.Switch
import FiberKcp.Scheduler.Threadloop
import FiberKcp.Scheduler.Naming
import FiberKcp.Scheduler.Affinity
import FiberKcp.Scheduler.Exclusion
import FiberKcp.Scheduler.Resumes
import FiberKcp.Scheduler.TaskQueue
import FiberKcp.Scheduler.Callbacks
import FiberKcp.Scheduler.Idle
import FiberKcp.Scheduler.Wakeup
import FiberKcp.Scheduler.Timers
import FiberKcp.Scheduler.Deadlines
import FiberKcp.Scheduler.Drained
import FiberKcp.Timer.Origin
import FiberKcp.Timer.Insertion
import FiberKcp.Manager.KcpManager
import FiberKcp.Manager.Steps
import FiberKcp.Manager.Failure
import FiberKcp.Manager.Accounting
import FiberKcp.Manager.Places
import FiberKcp.Manager.Lifetime
import FiberKcp.Manager.Binding
import FiberKcp.Manager.Registrations
import FiberKcp.Manager.Removal
import FiberKcp.Manager.Dispatch
import FiberKcp.Scheduler.SwitchTo
import FiberKcp.Scheduler.Recycling
import FiberKcp.Manager.ContextTable
import FiberKcp.Manager.Share
import FiberKcp.Data.SearchTree
import FiberKcp.Timer.Scan
import FiberKcp.Timer.Early
import FiberKcp.Timer.Trees
import FiberKcp.Timer.Calls
import FiberKcp.Timer.Placement
import FiberKcp.Timer.Overtaking
import FiberKcp.Timer.Reset
import FiberKcp.Timer.Wait
import FiberKcp.Manager.WaitingQueue
import FiberKcp.Manager.Interval
import FiberKcp.Data.Store
import FiberKcp.Data.Rings
import FiberKcp.Data.Queues
import FiberKcp.Data.Refinement
import FiberKcp.Memory.Machine
import FiberKcp.Memory.Represents
import FiberKcp.Memory.Transfer
import FiberKcp.Memory.Input
import FiberKcp.Memory.Flush
import FiberKcp.Memory.Calls
import FiberKcp.Memory.Acklist
