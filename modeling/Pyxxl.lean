import Pyxxl.Lib.Transition
import Pyxxl.Lib.Line
import Pyxxl.Lib.Progress
import Pyxxl.Lib.Tally
import Pyxxl.Lib.Lines
import Pyxxl.Lib.Json
import Pyxxl.Lib.JsonText
import Pyxxl.Lib.PosixPath
import Pyxxl.Lib.Pool
import Pyxxl.Lib.Scopes
import Pyxxl.Lib.Url
import Pyxxl.Model
import Pyxxl.Executor.State
import Pyxxl.Executor.Calls
import Pyxxl.Executor.Task
import Pyxxl.Executor.Machine
import Pyxxl.Executor.Books
import Pyxxl.Executor.BookOps
import Pyxxl.Executor.Phases
import Pyxxl.Executor.Step
import Pyxxl.Executor.Delta
import Pyxxl.Executor.Frame
import Pyxxl.Executor.Ledger
import Pyxxl.Executor.Order
import Pyxxl.Executor.Reports
import Pyxxl.Executor.Free
import Pyxxl.Executor.Sent
import Pyxxl.Executor.Once
import Pyxxl.Executor.Busy
import Pyxxl.Executor.Codes
import Pyxxl.Executor.Moves
import Pyxxl.Executor.Resting
import Pyxxl.Executor.Cover
import Pyxxl.Executor.Cancelled
import Pyxxl.Executor.Outcomes
import Pyxxl.Executor.Killed
import Pyxxl.Executor.Locks
import Pyxxl.Executor.Unblocked
import Pyxxl.Executor.Effort
import Pyxxl.Executor.AtRest
import Pyxxl.Executor.Taken
import Pyxxl.Executor.Observers
import Pyxxl.Executor.Observed
import Pyxxl.Monitoring.Metrics
import Pyxxl.Handlers.Process
import Pyxxl.Handlers.Signalled
import Pyxxl.Handlers.Waiting
import Pyxxl.Handlers.Context
import Pyxxl.Handlers.Registered
import Pyxxl.Handlers.Threads
import Pyxxl.Callbacks.Store
import Pyxxl.Callbacks.Manager
import Pyxxl.Callbacks.Acts
import Pyxxl.Callbacks.Kept
import Pyxxl.Callbacks.Steps
import Pyxxl.Callbacks.Durable
import Pyxxl.Callbacks.Survives
import Pyxxl.Callbacks.Muted
import Pyxxl.Callbacks.Passed
import Pyxxl.Callbacks.Accounts
import Pyxxl.Callbacks.Lifetimes
import Pyxxl.Callbacks.Drained
import Pyxxl.Callbacks.Replay
import Pyxxl.Callbacks.RoundTrip
import Pyxxl.Logger.Backends
import Pyxxl.Logger.Disk
import Pyxxl.Logger.Redis
import Pyxxl.Logger.Sessions
import Pyxxl.Logger.Expiry
import Pyxxl.Logger.Swept
import Pyxxl.Protocol.Requests
import Pyxxl.Protocol.Server
import Pyxxl.Protocol.Served
import Pyxxl.Protocol.AdminClient
import Pyxxl.Protocol.AdminUrl
import Pyxxl.Protocol.Registry
import Pyxxl.Protocol.Failover
import Pyxxl.Callbacks.Posted
import Pyxxl.App.Registration
import Pyxxl.App.Runner
import Pyxxl.App.Teardown
import Pyxxl.App.Delivered
import Pyxxl.App.Restarts
