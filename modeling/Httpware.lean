import Httpware.Lib.Python
import Httpware.Lib.Machine
import Httpware.Lib.BucketRing
import Httpware.Resilience.Budget
import Httpware.Resilience.BudgetReference
import Httpware.Errors
import Httpware.Observability
import Httpware.Resilience.Retry
import Httpware.Resilience.Decide
import Httpware.Resilience.BudgetBound
import Httpware.Resilience.RetryCalls
import Httpware.Resilience.RetryLoop
import Httpware.Resilience.Backoff
import Httpware.Lib.IntLiteral
import Httpware.Resilience.RetryAfter
import Httpware.CircuitBreaker.State
import Httpware.CircuitBreaker.Transitions
import Httpware.CircuitBreaker.Calls
import Httpware.CircuitBreaker.Tickets
import Httpware.CircuitBreaker.ProbeSlot
import Httpware.CircuitBreaker.History
import Httpware.CircuitBreaker.Classic
import Httpware.CircuitBreaker.Rate
import Httpware.CircuitBreaker.Accounting
import Httpware.CircuitBreaker.Keyed
import Httpware.CircuitBreaker.Arithmetic
import Httpware.Resilience.BreakerRetry
import Httpware.Lib.Shared
import Httpware.Lib.Semaphore
import Httpware.Resilience.Bulkhead
import Httpware.Resilience.BulkheadSlots
import Httpware.Lib.Program
import Httpware.BodyCap.Exchange
import Httpware.BodyCap.Read
import Httpware.BodyCap.Send
import Httpware.BodyCap.Bounded
import Httpware.BodyCap.Calls
import Httpware.BodyCap.Loops
import Httpware.BodyCap.Frame
import Httpware.BodyCap.Closed
import Httpware.BodyCap.History
import Httpware.BodyCap.Outcomes
import Httpware.BodyCap.Exact
import Httpware.Lib.Rounds
import Httpware.BodyCap.Terminates
import Httpware.StreamingBody.Request
import Httpware.StreamingBody.Replay
import Httpware.Lib.Urlsplit
import Httpware.Lib.UrlSections
import Httpware.Redaction.Redact
import Httpware.Redaction.Userinfo
import Httpware.Redaction.Noninterference
import Httpware.Redaction.Clean
import Httpware.BuildRequest
import Httpware.Decoding.TypeExpr
import Httpware.Decoding.Caching
import Httpware.Lib.Search
import Httpware.Decoding.Msgspec
import Httpware.Decoding.Client
import Httpware.Decoding.Parity
import Httpware.Lib.Frames
import Httpware.Middleware.Chain
import Httpware.Lib.Lock
import Httpware.Resilience.EventLoopGuard
import Httpware.Resilience.Timeout
import Httpware.Lib.Layers
import Httpware.Lib.Progress
import Httpware.CircuitBreaker.FirstEpoch
import Httpware.Resilience.Stack
import Httpware.Resilience.Composition
import Httpware.Resilience.Progress
import Httpware.Redaction.Emission
import Httpware.Redaction.Runs
import Httpware.Errors.Objects
import Httpware.Errors.Reading
import Httpware.Errors.Traversal
import Httpware.Errors.Renaming
import Httpware.Errors.Copies
import Httpware.Errors.Lazy
import Httpware.Decoding.Concurrent
import Httpware.Lib.Refines
import Httpware.Decoding.Cached
