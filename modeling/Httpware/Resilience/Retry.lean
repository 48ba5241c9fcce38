import Httpware.Observability
import Httpware.Resilience.Budget

/-!
# The retry policy

`_RetryPolicy` of `middleware/resilience/retry.py` and `full_jitter_delay` of `_backoff.py`. `decide`
is the whole decision after a failed attempt: it withdraws from the budget and returns the delay to
sleep, or raises the terminal exception with its note, and it says which events it emitted. The date
form of `Retry-After` is read by the standard library against the wall clock, so its delay is a
parameter (`HttpDate`), and so is the draw of the jitter.
-/

namespace Httpware

open Python (Number)

/-! ## Backoff -/

/-- What `random.random()` draws. -/
structure Draw where
  value : ℚ
  nonneg : 0 ≤ value
  le_one : value ≤ 1

/-- The upper end of `full_jitter_delay`: `2.0 ** attempt_index` overflows from 1024 on. -/
def jitterCeiling (attemptIndex : ℕ) (baseDelay maxDelay : Number) : Number :=
  if attemptIndex < 1024 then Number.pyMin maxDelay (baseDelay.scale (2 ^ attemptIndex))
  else maxDelay

/-- `full_jitter_delay`: `uniform(0.0, ceiling)`. -/
def fullJitterDelay (attemptIndex : ℕ) (baseDelay maxDelay : Number) (draw : Draw) : Number :=
  (jitterCeiling attemptIndex baseDelay maxDelay).scale draw.value

/-! ## `Retry-After` -/

/-- The seconds from now until an HTTP date, or none for text that is not a date. -/
abbrev HttpDate := String → Option ℚ

/-- `_parse_retry_after`. -/
def parseRetryAfter (httpDate : HttpDate) (value : String) : Option Number :=
  match Python.intOfString value with
  | .error _ =>
    if Python.isAsciiDigits value then some .posInf
    else (httpDate value).map fun delta => Number.pyMax (.finite 0) (.finite delta)
  | .ok seconds =>
    match Python.floatOfInt seconds with
    | .ok x => some (Number.pyMax (.finite 0) x)
    | .error _ => some (if seconds > 0 then .posInf else .finite 0)

/-! ## The policy -/

namespace RetryPolicy

/-- The configuration of a retry middleware. -/
structure Options where
  maxAttempts : ℤ := 3
  baseDelay : Number := .finite (1 / 10)
  maxDelay : Number := .finite 5
  retryStatusCodes : List ℤ := [408, 429, 502, 503, 504]
  retryMethods : List String := ["GET", "HEAD", "OPTIONS", "PUT", "DELETE"]
  respectRetryAfter : Bool := true

/-- `_validate_retry_config`: the text of the `ValueError` that it raises. -/
def validateRetryConfig (o : Options) : Except String Unit :=
  if o.maxAttempts < 1 then .error "max_attempts must be >= 1"
  else if ¬ .finite 0 ≤ o.baseDelay then .error "base_delay must be >= 0"
  else if ¬ (.finite 0 ≤ o.maxDelay ∧ o.maxDelay.isFinite) then
    .error "max_delay must be a finite number >= 0"
  else .ok ()

end RetryPolicy

/-- A configuration that `_RetryPolicy` accepts. -/
structure RetryPolicy extends RetryPolicy.Options where
  accepted : RetryPolicy.validateRetryConfig toOptions = .ok ()

namespace RetryPolicy

/-- The policy of a middleware without arguments. -/
def default : RetryPolicy where
  accepted := by decide +kernel

/-- `method in self.retry_methods`: the configured methods are upper-cased. -/
def methodEligible (p : RetryPolicy) (request : Request) : Bool :=
  (p.retryMethods.map String.toUpper).contains request.method

/-- The notes that `decide` adds to the exception that it raises. -/
inductive Note
  | streamingBodyRefusal
  | gaveUp (attempts : ℕ)
  | retryAfterExceedsMaxDelay (retryAfter maxDelay : Number)
deriving DecidableEq, Repr

/-- The text of a note, with the numbers printed by `print`. -/
def Note.text (print : Number → String) : Note → String
  | streamingBodyRefusal =>
    "httpware: not retrying because the request body is a stream that cannot replay across attempts"
  | gaveUp attempts => s!"httpware: gave up after {attempts} attempts"
  | retryAfterExceedsMaxDelay retryAfter maxDelay =>
    s!"httpware: Retry-After ({print retryAfter}s) exceeded max_delay ({print maxDelay}s); giving up"

/-- What `decide` does: returns the delay to sleep, or raises an exception with the notes added to
it. -/
inductive Decision
  | sleep (delay : Number)
  | raise (exc : Exc) (notes : List Note)

/-- The result of `decide`: the decision, the events that it emitted, the answer of `try_withdraw`
if it was called, and the budget. -/
structure Decided where
  decision : Decision
  events : List Event
  withdrawal : Option Bool
  budget : RetryBudget

/-- The event of a refusal to replay a streamed body. -/
def streamingRefusedEvent (request : Request) (exc : Exc) : Event where
  name := "retry.streaming_refused"
  level := WARNING
  message := "retry refused — request body is a stream that cannot replay"
  attributes :=
    [("method", .text request.method), ("url", .text request.url.text),
      ("last_exception_type", .text exc.qualname)]

/-- The attributes that every `retry.giving_up` event starts with. -/
def givingUpAttributes (attempt : ℕ) (request : Request) (exc : Exc)
    (lastResponse : Option Response) (reason : String) : List (String × AttributeValue) :=
  [("attempts", .int (attempt + 1)), ("method", .text request.method),
    ("url", .text request.url.text),
    ("last_status", .ofInt? (lastResponse.map Response.statusCode)),
    ("last_exception_type", .text exc.qualname), ("reason", .text reason)]

/-- The event of the last attempt's failure. -/
def maxAttemptsEvent (attempt : ℕ) (request : Request) (exc : Exc)
    (lastResponse : Option Response) : Event where
  name := "retry.giving_up"
  level := WARNING
  message := s!"retry gave up after {attempt + 1} attempts"
  attributes := givingUpAttributes attempt request exc lastResponse "max_attempts"

/-- The event of a `Retry-After` longer than `max_delay`. -/
def retryAfterEvent (attempt : ℕ) (request : Request) (exc : Exc) (lastResponse : Option Response)
    (retryAfter maxDelay : Number) : Event where
  name := "retry.giving_up"
  level := WARNING
  message := s!"retry gave up after {attempt + 1} attempts: Retry-After exceeded max_delay"
  attributes :=
    givingUpAttributes attempt request exc lastResponse "retry_after_exceeds_max_delay" ++
      [("retry_after", .number retryAfter), ("max_delay", .number maxDelay)]

/-- The event of a refused withdrawal. -/
def budgetRefusedEvent (attempt : ℕ) (request : Request) (lastResponse : Option Response) :
    Event where
  name := "retry.budget_refused"
  level := WARNING
  message := s!"retry budget refused after {attempt + 1} attempts"
  attributes :=
    [("attempts", .int (attempt + 1)), ("method", .text request.method),
      ("url", .text request.url.text),
      ("last_status", .ofInt? (lastResponse.map Response.statusCode))]

/-- The part of `decide` after the refusals: asks the budget, and chooses the delay. -/
def withdrawAndDelay (p : RetryPolicy) (cfg : RetryBudget.Config) (budget : RetryBudget)
    (now : ℚ) (draw : Draw) (attempt : ℕ) (request : Request) (exc : Exc)
    (lastResponse : Option Response) (retryAfter : Option Number) : Decided :=
  match budget.tryWithdraw cfg now with
  | (false, budget) =>
    { decision := .raise (.retryBudgetExhausted lastResponse (some exc) (attempt + 1)) []
      events := [budgetRefusedEvent attempt request lastResponse]
      withdrawal := some false
      budget }
  | (true, budget) =>
    { decision :=
        .sleep (retryAfter.getD (fullJitterDelay attempt p.baseDelay p.maxDelay draw))
      events := []
      withdrawal := some true
      budget }

/-- The response of a `StatusError`. -/
def statusResponse : Exc → Option Response
  | .statusError _ response => some response
  | _ => none

/-- The first test of `decide`: an exception that is not retried at all. -/
def isRetryable (p : RetryPolicy) (request : Request) (exc : Exc) : Bool :=
  match statusResponse exc with
  | some response => p.methodEligible request && p.retryStatusCodes.contains response.statusCode
  | none => p.methodEligible request

/-- The `Retry-After` of the last response, where the policy respects it. -/
def retryAfterOf (p : RetryPolicy) (httpDate : HttpDate) (lastResponse : Option Response) :
    Option Number :=
  if p.respectRetryAfter then
    lastResponse.bind fun response =>
      (response.headers.get "Retry-After").bind (parseRetryAfter httpDate)
  else none

/-- `decide`, for the exception `exc` of attempt number `attempt`. -/
def decide (p : RetryPolicy) (cfg : RetryBudget.Config) (httpDate : HttpDate)
    (budget : RetryBudget) (now : ℚ) (draw : Draw) (attempt : ℕ) (request : Request) (exc : Exc) :
    Decided :=
  let lastResponse := statusResponse exc
  let retryAfter := p.retryAfterOf httpDate lastResponse
  let refuse (notes : List Note) (events : List Event) : Decided :=
    { decision := .raise exc notes, events, withdrawal := none, budget }
  if ¬ p.isRetryable request exc then refuse [] []
  else if (request.extensions.lookup streamingBodyMarker).getD false then
    refuse [.streamingBodyRefusal] [streamingRefusedEvent request exc]
  else if attempt + 1 ≥ p.maxAttempts then
    refuse [.gaveUp (attempt + 1)] [maxAttemptsEvent attempt request exc lastResponse]
  else
    match retryAfter with
    | some seconds =>
      if p.maxDelay < seconds then
        refuse [.retryAfterExceedsMaxDelay seconds p.maxDelay]
          [retryAfterEvent attempt request exc lastResponse seconds p.maxDelay]
      else p.withdrawAndDelay cfg budget now draw attempt request exc lastResponse retryAfter
    | none => p.withdrawAndDelay cfg budget now draw attempt request exc lastResponse none

end RetryPolicy

/-- `_RETRYABLE_EXCEPTIONS`: what the retry loop catches. -/
def Exc.isRetryableClass : Exc → Bool
  | statusError _ _ => true
  | networkError => true
  | timeoutError => true
  | _ => false

end Httpware
