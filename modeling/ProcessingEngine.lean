import ProcessingEngine.Lib.HashMap
import ProcessingEngine.Lib.Exec
import ProcessingEngine.Lib.Transition
import ProcessingEngine.Lib.Slice
import ProcessingEngine.Lib.Joining
import ProcessingEngine.Lib.Permits
import ProcessingEngine.Lib.Worklist
import ProcessingEngine.Lib.Refine
import ProcessingEngine.Lib.Interleave
import ProcessingEngine.Lib.Fold
import ProcessingEngine.Lib.Track
import ProcessingEngine.Common.Text
import ProcessingEngine.Common.Value
import ProcessingEngine.Common.Place
import ProcessingEngine.Common.Types
import ProcessingEngine.Common.Dag
import ProcessingEngine.Common.Order
import ProcessingEngine.Common.Topological
import ProcessingEngine.Common.Injected
import ProcessingEngine.Common.StateStore
import ProcessingEngine.Common.Chain
import ProcessingEngine.Master.Registry
import ProcessingEngine.Master.Scheduler
import ProcessingEngine.Master.Load
import ProcessingEngine.Master.Liveness
import ProcessingEngine.Master.Job
import ProcessingEngine.Master.Operations
import ProcessingEngine.Master.System
import ProcessingEngine.Master.Terminal
import ProcessingEngine.Master.Dispatch
import ProcessingEngine.Master.Delivery
import ProcessingEngine.Master.Snapshot
import ProcessingEngine.Master.Session
import ProcessingEngine.Master.Accounting
import ProcessingEngine.Master.Stages
import ProcessingEngine.Master.Credit
import ProcessingEngine.Master.Persistence
import ProcessingEngine.Master.Recovery
import ProcessingEngine.Master.Metrics
import ProcessingEngine.Master.Reschedule
import ProcessingEngine.Master.Writes
import ProcessingEngine.Master.Atomic
import ProcessingEngine.Master.Refused
import ProcessingEngine.Master.Service
import ProcessingEngine.Master.Detection
import ProcessingEngine.Master.Addresses
import ProcessingEngine.Worker.Partition
import ProcessingEngine.Worker.Read
import ProcessingEngine.Worker.Transform
import ProcessingEngine.Worker.Mapped
import ProcessingEngine.Worker.Doubled
import ProcessingEngine.Worker.Expanded
import ProcessingEngine.Worker.CsvCells
import ProcessingEngine.Worker.CsvFilter
import ProcessingEngine.Worker.KeyText
import ProcessingEngine.Worker.Reduce
import ProcessingEngine.Worker.Join
import ProcessingEngine.Worker.Operator
import ProcessingEngine.Worker.Executor
import ProcessingEngine.Worker.SingleOperator
import ProcessingEngine.Worker.JobRun
import ProcessingEngine.Worker.Numbering
import ProcessingEngine.Worker.Output
import ProcessingEngine.Worker.Memory
import ProcessingEngine.Worker.Shuffled
import ProcessingEngine.Worker.Dealt
import ProcessingEngine.Worker.Content
import ProcessingEngine.Worker.Flow
import ProcessingEngine.Worker.InTree
import ProcessingEngine.Worker.FanOut
import ProcessingEngine.Worker.Arity
import ProcessingEngine.Worker.Orders
import ProcessingEngine.Worker.Linear
import ProcessingEngine.Worker.OwnFiles
import ProcessingEngine.Worker.Transparent
import ProcessingEngine.Worker.Keyed
import ProcessingEngine.Worker.NestedLoop
import ProcessingEngine.Worker.GroupBy
import ProcessingEngine.Worker.PartialReduce
import ProcessingEngine.Worker.CacheRuns
import ProcessingEngine.Worker.CacheBound
import ProcessingEngine.Worker.CacheFaults
import ProcessingEngine.Worker.JobFiles
import ProcessingEngine.Worker.Retries
import ProcessingEngine.Worker.Joined
import ProcessingEngine.Worker.Spilling
import ProcessingEngine.Worker.Alone
import ProcessingEngine.Worker.Calls
import ProcessingEngine.Worker.Slots
import ProcessingEngine.Worker.Tally
import ProcessingEngine.Worker.Progress
import ProcessingEngine.Worker.Remaining
import ProcessingEngine.Master.Genuine
import ProcessingEngine.Master.Scheduled
import ProcessingEngine.Cluster.Network
import ProcessingEngine.Cluster.Provenance
import ProcessingEngine.Cluster.Isolation
import ProcessingEngine.Cluster.Output
import ProcessingEngine.Cluster.Results
import ProcessingEngine.Cluster.Progress
import ProcessingEngine.Master.Promises
import ProcessingEngine.Http.Request
import ProcessingEngine.Http.Handlers
import ProcessingEngine.Client.Dag
