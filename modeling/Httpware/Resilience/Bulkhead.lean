import Httpware.Lib.Semaphore
import Httpware.Lib.Shared
import Httpware.Observability

/-!
# The bulkheads

`AsyncBulkhead` and `Bulkhead` of `middleware/resilience/bulkhead.py`, as steps of the calls that
share one instance. An async call runs from its start to its first suspension in one step: the guard
of the event loop, the look at `locked()` that chooses between a bounded and an unbounded wait, and
`acquire`. While it waits, its timeout can expire and its task can be cancelled, in any order and also
after a slot was handed to it; the outcome is decided when the task resumes. A sync call waits on a
condition, and looks for a slot whenever it wakes up.
-/

namespace Httpware

open Python (AsyncSemaphore Number)

namespace Bulkhead

/-- The arguments of a bulkhead. -/
structure Options where
  maxConcurrent : ℤ
  acquireTimeout : Option Number := some (.finite 1)

/-- `_validate_bulkhead_config`: the text of the `ValueError` that it raises. -/
def validateBulkheadConfig (o : Options) : Except String Unit :=
  if o.maxConcurrent < 1 then .error "max_concurrent must be >= 1"
  else if ∃ timeout ∈ o.acquireTimeout, timeout < .finite 0 then
    .error "acquire_timeout must be >= 0"
  else .ok ()

/-- Arguments that the constructor accepts. -/
structure Config extends Options where
  accepted : validateBulkheadConfig toOptions = .ok ()

/-- An accepted bulkhead has a slot. -/
theorem Config.maxConcurrent_pos (cfg : Config) : 1 ≤ cfg.maxConcurrent := by
  have h := cfg.accepted
  unfold validateBulkheadConfig at h
  split_ifs at h with h1
  omega

/-- `BulkheadFullError`. -/
structure FullError where
  maxConcurrent : ℤ
  acquireTimeout : Option Number
deriving DecidableEq, Repr

/-- The error of a bulkhead. -/
def Config.fullError (cfg : Config) : FullError := ⟨cfg.maxConcurrent, cfg.acquireTimeout⟩

/-- The event of a rejection. -/
def rejectedEvent (cfg : Config) (request : Request) : Event where
  name := "bulkhead.rejected"
  level := WARNING
  message := "bulkhead rejected request — acquire_timeout exceeded"
  attributes :=
    [("max_concurrent", .int cfg.maxConcurrent),
      ("acquire_timeout", .ofNumber? cfg.acquireTimeout),
      ("method", .text request.method), ("url", .text request.url.text)]

/-- An event loop. -/
abbrev LoopId := ℕ

/-- How a call through a bulkhead ends. -/
inductive CallEnding
  /-- As `next` ended. -/
  | next (ending : Ending)
  | full (error : FullError)
  /-- Cancelled, or interrupted, while it waited. -/
  | cancelled
  /-- With the `RuntimeError` of a call from another event loop. -/
  | crossLoop (first current : LoopId)
  /-- With the exception of a handler of the event. -/
  | escaped

/-- What is known of a wait: whether `asyncio.timeout` bounds it, whether it has expired, and whether
the task was cancelled. -/
structure Wait where
  bounded : Bool
  expired : Bool := false
  cancelled : Bool := false
deriving DecidableEq, Repr

/-- Where a call is. -/
inductive CallPhase
  | idle
  /-- In `acquire`. -/
  | waiting (wait : Wait)
  /-- Inside `next`. -/
  | inNext
  | finished (ending : CallEnding)

/-- The call has begun and not ended. -/
def CallPhase.inProgress : CallPhase → Bool
  | idle => false
  | finished _ => false
  | _ => true

/-- How a rejected call ends, by an exception of a handler where one raises. -/
def rejection (cfg : Config) (escapes : Bool) : CallEnding :=
  if escapes then .escaped else .full cfg.fullError

/-! ## The async bulkhead -/

/-- What can happen to an async call. -/
inductive AsyncAction
  /-- It starts, in this event loop. -/
  | start (loop : LoopId)
  /-- Its timeout expires, and cancels the task. -/
  | expire
  /-- Its task is cancelled while it waits. -/
  | cancel
  /-- Its task resumes; `escapes` when a handler of the event of a rejection raises. -/
  | resume (escapes : Bool)
  /-- `next` ends. -/
  | finish (ending : Ending)

/-- The mutable fields of an `AsyncBulkhead`. -/
structure AsyncState where
  loop : Option LoopId
  sem : AsyncSemaphore CallId

/-- `check_event_loop`: binds the first loop, and refuses another. -/
def checkEventLoop (cached : Option LoopId) (current : LoopId) : Except LoopId (Option LoopId) :=
  match cached with
  | none => .ok (some current)
  | some first => if first = current then .ok cached else .error first

/-- One step of a call: `__call__` of `AsyncBulkhead`. -/
def asyncCallStep (cfg : Config) (request : Request) (c : CallId) (st : AsyncState) :
    CallPhase → AsyncAction → Option (List Event × AsyncState × CallPhase)
  | .idle, .start loop =>
    match checkEventLoop st.loop loop with
    | .error first => some ([], st, .finished (.crossLoop first loop))
    | .ok bound =>
      -- Nothing is awaited between this look and the one of `acquire`.
      let bounded := !(cfg.acquireTimeout.isNone || !st.sem.locked)
      match st.sem.acquire c with
      | (true, sem) => some ([], ⟨bound, sem⟩, .inNext)
      | (false, sem) => some ([], ⟨bound, sem⟩, .waiting { bounded })
  | .waiting wait, .expire =>
    if wait.bounded ∧ ¬ wait.expired then
      some ([], { st with sem := st.sem.cancel c }, .waiting { wait with expired := true })
    else none
  | .waiting wait, .cancel =>
    some ([], { st with sem := st.sem.cancel c }, .waiting { wait with cancelled := true })
  | .waiting wait, .resume escapes =>
    match st.sem.stateOf c with
    | none => none
    | some .pending => none
    | some state =>
      let thrown := state = .cancelled || wait.expired || wait.cancelled
      let st := { st with sem := st.sem.resume c thrown }
      if ¬ thrown then some ([], st, .inNext)
      -- `asyncio.timeout` raises `TimeoutError` only if nobody else cancelled the task.
      else if wait.expired ∧ ¬ wait.cancelled then
        some ([rejectedEvent cfg request], st, .finished (rejection cfg escapes))
      else some ([], st, .finished .cancelled)
  | .inNext, .finish ending =>
    some ([], { st with sem := st.sem.release }, .finished (.next ending))
  | _, _ => none

/-- Calls through one `AsyncBulkhead`, in any order. -/
def asyncBulkhead (cfg : Config) (request : CallId → Request) :
    Machine (Shared AsyncState CallId CallPhase) (CallId × AsyncAction) (List Event) :=
  Shared.machine ⟨none, .init cfg.maxConcurrent⟩ .idle fun c st =>
    asyncCallStep cfg (request c) c st

/-! ## The sync bulkhead -/

/-- What can happen to a sync call. -/
inductive SyncAction
  | start
  /-- It wakes up and looks for a slot. -/
  | wake
  /-- Its timeout has passed when it looks; `escapes` when a handler of the event raises. -/
  | expire (escapes : Bool)
  /-- Its wait is interrupted by an exception. -/
  | interrupt
  /-- `next` ends. -/
  | finish (ending : Ending)

/-- One step of a call: `__call__` of `Bulkhead`, over the value of its `threading.Semaphore`. -/
def syncCallStep (cfg : Config) (request : Request) (value : ℤ) :
    CallPhase → SyncAction → Option (List Event × ℤ × CallPhase)
  | .idle, .start =>
    if value = 0 then some ([], value, .waiting { bounded := cfg.acquireTimeout.isSome })
    else some ([], value - 1, .inNext)
  | .waiting wait, .wake =>
    if value = 0 then some ([], value, .waiting wait) else some ([], value - 1, .inNext)
  | .waiting wait, .expire escapes =>
    if ¬ wait.bounded then none
    else if value = 0 then
      some ([rejectedEvent cfg request], value, .finished (rejection cfg escapes))
    else some ([], value - 1, .inNext)
  | .waiting _, .interrupt => some ([], value, .finished .cancelled)
  | .inNext, .finish ending => some ([], value + 1, .finished (.next ending))
  | _, _ => none

/-- Calls through one `Bulkhead`, in any order. -/
def bulkhead (cfg : Config) (request : CallId → Request) :
    Machine (Shared ℤ CallId CallPhase) (CallId × SyncAction) (List Event) :=
  Shared.machine cfg.maxConcurrent .idle fun c => syncCallStep cfg (request c)

end Bulkhead

end Httpware
