import StowQ.Audit.Beside
import StowQ.Audit.Interrupted
import StowQ.Budget
import StowQ.Changing
import StowQ.Core.Backoff
import StowQ.Core.Entries
import StowQ.Custody.Renewal
import StowQ.Delivery.Verified
import StowQ.Escape
import StowQ.Format.Agreement
import StowQ.Format.RecordWidth
import StowQ.Gc.Payloads
import StowQ.Gc.Survival
import StowQ.Hints
import StowQ.Keys.Order
import StowQ.Math.Jitter
import StowQ.Quiescent.Tail
import StowQ.Resolution
import StowQ.Terminal.Bury
import StowQ.Terminal.Exclusion
import StowQ.Terminal.Exhaustion
import StowQ.Time.Floor
import StowQ.Worker.Fleet
