import Weft.AsyncActivity.Once
import Weft.Attributes.Lookup
import Weft.Attributes.Sortable
import Weft.Attributes.Updates
import Weft.Checkpoint.SideEffects
import Weft.Children.Kept
import Weft.Codec.RoundTrip
import Weft.Concurrency.Limit
import Weft.Conditions.Once
import Weft.Context.Fork
import Weft.Cron.Due
import Weft.EffectLog.Canonical
import Weft.EventLog.Concurrent
import Weft.Feed.Complete
import Weft.Finalizer.SelfHeal
import Weft.Launch.Once
import Weft.Lease.Ceiling
import Weft.Lease.Deposed
import Weft.Lifecycle.Deadline
import Weft.Listing.Equivalence
import Weft.Lock.Fairness
import Weft.Purge.Atomic
import Weft.Purge.Complete
import Weft.Purge.Restart
import Weft.Purge.Sweep
import Weft.Queue.HandOut
import Weft.RateLimit.Withdrawal
import Weft.Reconciliation.Conflict
import Weft.Registry.Dispatch
import Weft.Replay.Historical
import Weft.Reviews.Once
import Weft.Runner.Isolation
import Weft.Scheduler.Progress
import Weft.Schedules.Control
import Weft.Schedules.Interval
import Weft.Schedules.Once
import Weft.Schedules.Overlap
import Weft.Session.State
import Weft.Signals.Order
import Weft.Signals.Wakeup
import Weft.Signature.Exact
import Weft.Speculation.Rollback
import Weft.Start.Convergence
import Weft.Storage.NetEffect
import Weft.Storage.RangesAgree
import Weft.Storage.Unambiguous
import Weft.Tail.Complete
import Weft.Tasks.Authorized
import Weft.Tasks.Envelope
import Weft.Tasks.Exclusive
import Weft.Tasks.Stranded
import Weft.Updates.Keys
import Weft.Visibility.Soundness
