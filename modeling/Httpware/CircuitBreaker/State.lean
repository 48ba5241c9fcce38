import Httpware.CircuitBreaker.Window
import Httpware.Observability

/-!
# The circuit breaker's state machine

`_CircuitBreakerState` of `middleware/resilience/circuit_breaker.py`, which both wrappers and every
circuit of a keyed breaker run. `admit` and `record` are its two critical sections. The clock's
readings are exact rationals, and the numbers of the configuration may be any `Number` that the
constructor accepts.
-/

namespace Httpware

open Python (Error Number)

/-- The state of a circuit. -/
inductive CircuitState
  | CLOSED
  | OPEN
  | HALF_OPEN
deriving DecidableEq, Repr

/-- What the outcome of a call counts as. -/
inductive Outcome
  | success
  | failure
  | foreign
deriving DecidableEq, Repr

namespace CircuitBreakerState

/-- The configuration of a circuit breaker. -/
structure Options where
  failureThreshold : ℤ := 5
  resetTimeout : Number := .finite 30
  successThreshold : ℤ := 1
  failureStatusCodes : Option (List ℤ) := none
  failureRateThreshold : Option Number := none
  windowSeconds : Number := .finite 30
  minimumCalls : ℤ := 20

/-- The checks of the constructor: the text of the `ValueError` that it raises. -/
def validate (o : Options) : Except String Unit :=
  if o.failureThreshold < 1 then .error "failure_threshold must be >= 1"
  else if o.resetTimeout < .finite 0 then .error "reset_timeout must be >= 0"
  else if o.successThreshold < 1 then .error "success_threshold must be >= 1"
  else if ∃ threshold ∈ o.failureRateThreshold,
      ¬ (.finite 0 < threshold ∧ threshold ≤ .finite 1) then
    .error "failure_rate_threshold must be in (0, 1]"
  else if o.windowSeconds ≤ .finite 0 then .error "window_seconds must be > 0"
  else if o.minimumCalls < 1 then .error "minimum_calls must be >= 1"
  else .ok ()

/-- A configuration that the constructor accepts, with the key of a keyed breaker's circuit. -/
structure Config extends Options where
  key : Option String := none
  accepted : validate toOptions = .ok ()

/-- The configuration without arguments. -/
def defaultConfig : Config where
  accepted := by decide +kernel

/-- What the constructor checks. -/
theorem Config.checks (cfg : Config) :
    1 ≤ cfg.failureThreshold ∧ ¬ cfg.resetTimeout < .finite 0 ∧ 1 ≤ cfg.successThreshold ∧
      (∀ threshold ∈ cfg.failureRateThreshold,
        .finite 0 < threshold ∧ threshold ≤ .finite 1) ∧
      ¬ cfg.windowSeconds ≤ .finite 0 ∧ 1 ≤ cfg.minimumCalls := by
  have h := cfg.accepted
  unfold validate at h
  split_ifs at h with h1 h2 h3 h4 h5 h6
  refine ⟨not_lt.mp h1, h2, not_lt.mp h3, fun threshold ht => ?_, h5, not_lt.mp h6⟩
  by_contra hout
  exact h4 ⟨threshold, ht, hout⟩

/-- `self._rate_mode`. -/
def Config.rateMode (cfg : Config) : Bool := cfg.failureRateThreshold.isSome

/-- `status_code in self._failure_status_codes`, which defaults to every 5xx. -/
def Config.isFailureStatus (cfg : Config) (status : ℤ) : Bool :=
  match cfg.failureStatusCodes with
  | some codes => codes.contains status
  | none => 500 ≤ status && status < 600

end CircuitBreakerState

/-- The mutable fields of a `_CircuitBreakerState`. -/
structure CircuitBreakerState where
  state : CircuitState
  consecutiveFailures : ℤ
  consecutiveSuccesses : ℤ
  openedAt : ℚ
  probeInFlight : Bool
  epoch : ℤ
  closedTicket : Option ℤ
  rejectedEmittedAt : Number
  rejectionsSuppressed : ℤ
  episodeRejections : ℤ
  events : Option (List Event)
  window : Option RollingWindow

/-- How `admit` ends: with a ticket, by raising `_HalfOpened`, or by raising `_RejectionError`. -/
inductive Admission
  | ticket (ticket : ℤ)
  | halfOpened (ticket : ℤ) (events : Option (List Event))
  | rejected (retryAfter : Option Number) (events : Option (List Event))

/-- What the clock reads while an outcome is recorded: in `_record_outcome`, and in
`_enter_open`. -/
structure Readings where
  outcome : ℚ
  opened : ℚ

namespace CircuitBreakerState

/-- A new circuit. -/
def init (cfg : Config) : CircuitBreakerState where
  state := .CLOSED
  consecutiveFailures := 0
  consecutiveSuccesses := 0
  openedAt := 0
  probeInFlight := false
  epoch := 0
  closedTicket := some 0
  rejectedEmittedAt := .negInf
  rejectionsSuppressed := 0
  episodeRejections := 0
  events := none
  window := if cfg.rateMode then some (.init cfg.windowSeconds) else none

/-- The event that `_queue` appends. -/
def makeEvent (cfg : Config) (request : Request) (name : String) (level : ℤ) (message : String)
    (attributes : List (String × AttributeValue)) : Event where
  name
  level
  message
  attributes :=
    attributes ++ [("method", .text request.method), ("url", .text request.url.text)] ++
      (cfg.key.map fun key => ("circuit_key", .text key)).toList

/-- `_queue`. -/
def queue (cfg : Config) (st : CircuitBreakerState) (request : Request) (name : String) (level : ℤ)
    (message : String) (attributes : List (String × AttributeValue)) : CircuitBreakerState :=
  { st with
    events := some (st.events.getD [] ++ [makeEvent cfg request name level message attributes]) }

/-- `take_events`. -/
def takeEvents (st : CircuitBreakerState) : Option (List Event) × CircuitBreakerState :=
  (st.events, { st with events := none })

/-- `_move_to`. -/
def moveTo (st : CircuitBreakerState) (state : CircuitState) : CircuitBreakerState :=
  { st with
    state
    epoch := st.epoch + 2
    closedTicket := if state = .CLOSED then some (st.epoch + 2) else none }

/-- `_reject`. -/
def reject (cfg : Config) (st : CircuitBreakerState) (request : Request) (now : ℚ)
    (retryAfter : Option Number) (message : String) : Admission × CircuitBreakerState :=
  let st := { st with episodeRejections := st.episodeRejections + 1 }
  if Number.finite now - st.rejectedEmittedAt < .finite 1 then
    (.rejected retryAfter none, { st with rejectionsSuppressed := st.rejectionsSuppressed + 1 })
  else
    let suppressed := st.rejectionsSuppressed
    let st := { st with rejectedEmittedAt := .finite now, rejectionsSuppressed := 0 }
    let st := st.queue cfg request "circuit.rejected" WARNING message
      [("retry_after", .ofNumber? retryAfter), ("suppressed", .int suppressed)]
    (.rejected retryAfter st.takeEvents.1, st.takeEvents.2)

/-- `admit`, at the clock reading `now`. -/
def admitCall (cfg : Config) (st : CircuitBreakerState) (request : Request) (now : ℚ) :
    Admission × CircuitBreakerState :=
  match st.closedTicket with
  | some ticket => (.ticket ticket, st)
  | none =>
    if st.state = .OPEN then
      let elapsed := now - st.openedAt
      if Number.finite elapsed < cfg.resetTimeout then
        st.reject cfg request now
          (some (Number.pyMax (.finite 0) (cfg.resetTimeout - .finite elapsed)))
          "circuit open — rejecting request"
      else
        let st := st.moveTo .HALF_OPEN
        let st := { st with probeInFlight := true }
        let st := st.queue cfg request "circuit.half_open" INFO
          "circuit half-open — admitting probe" []
        (.halfOpened (st.epoch + 1) st.takeEvents.1, st.takeEvents.2)
    else if st.probeInFlight then
      st.reject cfg request now none
        "circuit half-open — rejecting request (probe in flight)"
    else (.ticket (st.epoch + 1), { st with probeInFlight := true })

/-- `classify`, for an exception that `next` raised. -/
def classify (cfg : Config) (exc : Exc) : Outcome :=
  let exc :=
    match exc with
    | .retryBudgetExhausted _ lastException _ => lastException
    | exc => some exc
  match exc with
  | some (.statusError _ response) =>
    if cfg.isFailureStatus response.statusCode then .failure else .success
  | some .networkError => .failure
  | some .timeoutError => .failure
  | _ => .foreign

/-- `_enter_open`, at the clock reading `now`. -/
def enterOpen (cfg : Config) (st : CircuitBreakerState) (request : Request) (now : ℚ)
    (message : String) (attributes : List (String × AttributeValue)) : CircuitBreakerState :=
  let st :=
    if st.state = .CLOSED then
      { st with rejectedEmittedAt := .negInf, rejectionsSuppressed := 0, episodeRejections := 0 }
    else st
  let st := st.moveTo .OPEN
  let st := { st with openedAt := now, consecutiveFailures := 0, consecutiveSuccesses := 0 }
  st.queue cfg request "circuit.opened" WARNING message attributes

/-- `_open`. -/
def openCircuit (cfg : Config) (st : CircuitBreakerState) (request : Request) (failures : ℤ)
    (now : ℚ) : CircuitBreakerState :=
  st.enterOpen cfg request now "circuit opened — failure threshold reached"
    [("failure_threshold", .int cfg.failureThreshold), ("failures", .int failures)]

/-- `_open_rate`. -/
def openRate (cfg : Config) (st : CircuitBreakerState) (request : Request) (total failures : ℤ)
    (threshold : Number) (now : ℚ) : Except Error CircuitBreakerState := do
  let rate ← Python.trueDiv failures total
  return st.enterOpen cfg request now "circuit opened — failure rate threshold reached"
    [("failure_rate", .number rate), ("failure_rate_threshold", .number threshold),
      ("window_seconds", .number cfg.windowSeconds), ("observed_calls", .int total)]

/-- The end of `_record_outcome`, after the totals: the test of the failure rate. -/
def testRate (cfg : Config) (st : CircuitBreakerState) (request : Request) (total failures : ℤ)
    (now : ℚ) : Except Error CircuitBreakerState :=
  match cfg.failureRateThreshold with
  | none => .ok st
  | some threshold =>
    if total < cfg.minimumCalls then .ok st
    else do
      let rate ← Python.trueDiv failures total
      if threshold ≤ rate then st.openRate cfg request total failures threshold now else return st

/-- `_record_outcome`. -/
def recordOutcome (cfg : Config) (st : CircuitBreakerState) (request : Request) (failed : Bool)
    (clock : Readings) : Except Error CircuitBreakerState :=
  match st.window with
  | none => .error .attributeError
  | some window => do
    let window ← window.record clock.outcome failed
    let ((total, failures), window) ← window.totals clock.outcome
    { st with window := some window }.testRate cfg request total failures clock.opened

/-- `_record_closed`. -/
def recordClosed (cfg : Config) (st : CircuitBreakerState) (request : Request) (failed : Bool)
    (clock : Readings) : Except Error CircuitBreakerState :=
  if cfg.rateMode then st.recordOutcome cfg request failed clock
  else if failed then
    let st := { st with consecutiveFailures := st.consecutiveFailures + 1 }
    if st.consecutiveFailures ≥ cfg.failureThreshold then
      .ok (st.openCircuit cfg request st.consecutiveFailures clock.opened)
    else .ok st
  else .ok st

/-- `_record_probe_success`. -/
def recordProbeSuccess (cfg : Config) (st : CircuitBreakerState) (request : Request) :
    CircuitBreakerState :=
  let st := { st with consecutiveSuccesses := st.consecutiveSuccesses + 1 }
  if st.consecutiveSuccesses ≥ cfg.successThreshold then
    let st := st.moveTo .CLOSED
    let st :=
      { st with
        consecutiveFailures := 0
        consecutiveSuccesses := 0
        window := if cfg.rateMode then st.window.map RollingWindow.clear else st.window }
    st.queue cfg request "circuit.closed" INFO "circuit closed — service recovered"
      [("rejected", .int st.episodeRejections)]
  else st

/-- The part of `record` before it takes the events: applies the outcome of a call that was admitted
with `ticket`. -/
def applyOutcome (cfg : Config) (st : CircuitBreakerState) (ticket : ℤ) (outcome : Outcome)
    (request : Request) (clock : Readings) : Except Error CircuitBreakerState :=
  if ticket = st.epoch then
    if outcome = .success ∧ ¬ cfg.rateMode then .ok { st with consecutiveFailures := 0 }
    else if outcome ≠ .foreign then st.recordClosed cfg request (outcome = .failure) clock
    else .ok st
  else if ticket = st.epoch + 1 then
    let st := { st with probeInFlight := false }
    match outcome with
    | .success => .ok (st.recordProbeSuccess cfg request)
    | .failure => .ok (st.openCircuit cfg request 1 clock.opened)
    | .foreign => .ok st
  else .ok st

/-- `record`: the events that it returns, with the state after. An exception of the window's
arithmetic comes before the first field is changed, so the circuit stays as it was. -/
def record (cfg : Config) (st : CircuitBreakerState) (ticket : ℤ) (outcome : Outcome)
    (request : Request) (clock : Readings) :
    Except Error (Option (List Event) × CircuitBreakerState) :=
  (st.applyOutcome cfg ticket outcome request clock).map takeEvents

end CircuitBreakerState

end Httpware
