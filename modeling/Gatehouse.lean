import Gatehouse.Audit.Dispatcher
import Gatehouse.Audit.Wire
import Gatehouse.Counter.Scripted
import Gatehouse.Counter.Wire
import Gatehouse.Credential.Argon2Comparator
import Gatehouse.Flow.Loader
import Gatehouse.Flow.Scripted
import Gatehouse.Flow.Wire
import Gatehouse.Guard.Login
import Gatehouse.Guard.Throttle
import Gatehouse.Guard.Verify
import Gatehouse.History.Guard
import Gatehouse.History.Scripted
import Gatehouse.Proofs.Counter.AllOrNothing
import Gatehouse.Proofs.Counter.ColdKey
import Gatehouse.Proofs.Counter.Key
import Gatehouse.Proofs.Counter.Purge
import Gatehouse.Proofs.Counter.SlowWriter
import Gatehouse.Proofs.Counter.TokenBucket
import Gatehouse.Proofs.Counter.Waiting
import Gatehouse.Proofs.Guard.Isolation
import Gatehouse.Proofs.Guard.Lockout
import Gatehouse.Proofs.Guard.Window
import Gatehouse.Proofs.History.LastPasswords
import Gatehouse.Proofs.History.Memory
import Gatehouse.Proofs.Uuid
import Gatehouse.Redis.Connection
import Gatehouse.Redis.Server
import Gatehouse.Response
import Gatehouse.Settings.Load
import Gatehouse.Settings.Wire
import Gatehouse.Proofs.Guard.Decay
import Gatehouse.Proofs.Flow.Memory
import Gatehouse.Proofs.Flow.StaleCopies
import Gatehouse.Proofs.Redis.LastWritten
import Gatehouse.Proofs.Counter.Cleared
import Gatehouse.Proofs.Counter.Coherence
import Gatehouse.Proofs.Counter.Lasting
import Gatehouse.Proofs.Settings.Checked
import Gatehouse.Proofs.Redis.Mirror
import Gatehouse.Proofs.Counter.Effective
import Gatehouse.Proofs.Guard.Throttle
import Gatehouse.Proofs.Audit.Delivery
import Gatehouse.Proofs.Counter.Wire
import Gatehouse.Proofs.Flow.Wire
import Gatehouse.Proofs.Settings.Wire
import Gatehouse.Proofs.Counter.PurgedEarly
import Gatehouse.Proofs.History.FailedChange
import Gatehouse.Proofs.Guard.Thresholds
import Gatehouse.Proofs.Counter.Throughput
import Gatehouse.Proofs.Counter.Refreshing
import Gatehouse.Proofs.Guard.LastToken
import Gatehouse.Proofs.Flow.Rereading
import Gatehouse.Proofs.Counter.FixedLock
import Gatehouse.Proofs.Guard.Refusals
import Gatehouse.Proofs.Counter.LastSecond
import Gatehouse.Proofs.Flow.FoundVersion
import Gatehouse.Proofs.History.Eviction
import Gatehouse.Proofs.History.Overlap
import Gatehouse.Proofs.Counter.Overflow
import Gatehouse.Proofs.Time.Saturation
import Gatehouse.Proofs.Redis.Backoff
