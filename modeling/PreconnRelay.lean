import PreconnRelay.Foundation.Transition
import PreconnRelay.Foundation.FreeList
import PreconnRelay.Foundation.Conduit
import PreconnRelay.Config
import PreconnRelay.Token
import PreconnRelay.Kernel
import PreconnRelay.Pump
import PreconnRelay.Connection
import PreconnRelay.Fidelity
import PreconnRelay.Spin
import PreconnRelay.Tcp
import PreconnRelay.Slab
import PreconnRelay.TcpRuns
import PreconnRelay.Interest
import PreconnRelay.Generation
import PreconnRelay.Udp
import PreconnRelay.UdpTable
import PreconnRelay.UdpIsolation
import PreconnRelay.UdpPayload
import PreconnRelay.EventLoop
import PreconnRelay.Stale
import PreconnRelay.UdpEvents
import PreconnRelay.UdpDrain
import PreconnRelay.Foundation.Custody
import PreconnRelay.Pool
import PreconnRelay.PoolThreads
import PreconnRelay.PoolOwnership
import PreconnRelay.Refill
import PreconnRelay.PoolTake
import PreconnRelay.Liveness
import PreconnRelay.Foundation.Sweep
import PreconnRelay.PoolSweep
import PreconnRelay.SweepTake
import PreconnRelay.Foundation.Ledger
import PreconnRelay.Log
import PreconnRelay.LogAccount
import PreconnRelay.Demand
import PreconnRelay.Foundation.Record
import PreconnRelay.Backoff
import PreconnRelay.LogOutput
import PreconnRelay.UdpConnect
import PreconnRelay.PumpReturn
import PreconnRelay.PumpDrain
import PreconnRelay.Timeouts
import PreconnRelay.HalfClose
import PreconnRelay.IdleReap
import PreconnRelay.Foundation.Script
import PreconnRelay.AcceptDrain
import PreconnRelay.Foundation.Xorshift
import PreconnRelay.TtlJitter
import PreconnRelay.TtlRuns
import PreconnRelay.Foundation.Descent
import PreconnRelay.Foundation.Notifier
import PreconnRelay.Delivery
import PreconnRelay.Completion
import PreconnRelay.Answering
import PreconnRelay.Foundation.Patrol
import PreconnRelay.Promptness
import PreconnRelay.Foundation.Ownership
import PreconnRelay.PoolCustody
import PreconnRelay.Program
import PreconnRelay.Foundation.KeyedSlots
import PreconnRelay.UdpSessions
import PreconnRelay.Foundation.Decimal
import PreconnRelay.Foundation.Overrides
import PreconnRelay.Loading
import PreconnRelay.Foundation.Backlog
import PreconnRelay.Replenish
import PreconnRelay.Streams
import PreconnRelay.Foundation.LossyChannel
import PreconnRelay.Conversations
import PreconnRelay.Freshness
