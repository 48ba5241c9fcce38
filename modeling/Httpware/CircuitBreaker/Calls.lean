import Httpware.CircuitBreaker.Transitions
import Httpware.Lib.Machine

/-!
# Calls through a circuit breaker

`_call_sync` and `_call_async` as steps of a call (`callStep`): the unlocked read of
`closed_ticket`, the admission in its critical section, the end of `next` with the record of the
outcome in its critical section, and the emission of the events that either section handed to the
call. The steps of any number of calls interleave in any order (`calls`). Emission runs handlers and
filters of the program, outside every lock and with the call's other steps still to come: a handler
that sends requests through the same breaker is other calls whose steps come between, and `emit true`
is an exception that escapes a handler or a filter.
-/

namespace Httpware.CircuitBreakerState

open Python (Error Number)

/-- How a call through a breaker ends. -/
inductive CallEnding
  /-- As `next` ended. -/
  | next (ending : Ending)
  /-- With `CircuitOpenError`. -/
  | rejected (retryAfter : Option Number)
  /-- With an exception of the window's arithmetic. -/
  | error (e : Error)
  /-- With the exception of a handler; the ticket is that of an admission without a record. -/
  | escaped (ticket : Option ℤ)

/-- Where a call is. -/
inductive CallPhase
  | idle
  /-- The read found no ticket. -/
  | unticketed
  /-- In `_half_opened`, with the probe's ticket. -/
  | emittingHalfOpen (ticket : ℤ) (events : List Event)
  /-- In `_rejected`. -/
  | emittingRejection (retryAfter : Option Number) (events : List Event)
  /-- Inside `next`. -/
  | inNext (ticket : ℤ)
  /-- After `record`. -/
  | emittingRecord (ending : Ending) (events : List Event)
  | finished (ending : CallEnding)

namespace CallPhase

/-- The ticket of an admission whose outcome has not been recorded. -/
def unrecorded : CallPhase → Option ℤ
  | emittingHalfOpen ticket _ => some ticket
  | inNext ticket => some ticket
  | finished (.escaped ticket) => ticket
  | _ => none

/-- The ticket that an unfinished call holds. -/
def holds : CallPhase → Option ℤ
  | emittingHalfOpen ticket _ => some ticket
  | inNext ticket => some ticket
  | _ => none

/-- The call has begun and not ended. -/
def inProgress : CallPhase → Bool
  | idle => false
  | finished _ => false
  | _ => true

/-- The events that were handed to the call and are still to be emitted. -/
def handed : CallPhase → List Event
  | emittingHalfOpen _ events => events
  | emittingRejection _ events => events
  | emittingRecord _ events => events
  | _ => []

end CallPhase

/-- What can happen to a call. -/
inductive CallAction
  /-- `ticket = state.closed_ticket`. -/
  | read
  /-- `_admit`, at this reading of the clock. -/
  | admitCall (now : ℚ)
  /-- `_emit_events`; `escapes` when a handler or a filter raises. -/
  | emit (escapes : Bool)
  /-- `next` ends, and its outcome is recorded. -/
  | finish (ending : Ending) (clock : Readings)

/-- The readings of the clock that a step may use. -/
def CallAction.readings : CallAction → List ℚ
  | admitCall now => [now]
  | finish _ clock => [clock.outcome, clock.opened]
  | _ => []

/-- What a step did. -/
inductive CallResult
  | read (ticket : Option ℤ)
  | admitted (ticket : ℤ)
  | halfOpened (ticket : ℤ)
  | rejected (retryAfter : Option Number)
  | recorded (outcome : Outcome)
  | failed (e : Error)
  | emitted (events : List Event)
deriving DecidableEq

/-- What a step shows: what it did, the events that a critical section handed to the call, and the
state of the circuit after. -/
structure Shown where
  result : CallResult
  events : List Event
  state : CircuitState
deriving DecidableEq

/-- What the ending of `next` counts as. -/
def outcomeOf (cfg : Config) : Ending → Outcome
  | .returned _ => .success
  | .raised exc => classify cfg exc

/-- Where a call is after a critical section: it emits the events that it was handed, if any. -/
def afterSection (events : Option (List Event)) (emitting : List Event → CallPhase)
    (next : CallPhase) : CallPhase :=
  match events with
  | some events => emitting events
  | none => next

/-- One step of a call: `_call_sync` and `_call_async`. -/
def callStep (cfg : Config) (request : Request) (st : CircuitBreakerState) :
    CallPhase → CallAction → Option (Shown × CircuitBreakerState × CallPhase)
  | .idle, .read =>
    match st.closedTicket with
    | some ticket => some (⟨.read (some ticket), [], st.state⟩, st, .inNext ticket)
    | none => some (⟨.read none, [], st.state⟩, st, .unticketed)
  | .unticketed, .admitCall now =>
    match st.admitCall cfg request now with
    | (.ticket ticket, st) => some (⟨.admitted ticket, [], st.state⟩, st, .inNext ticket)
    | (.halfOpened ticket events, st) =>
      some (⟨.halfOpened ticket, events.getD [], st.state⟩, st,
        afterSection events (.emittingHalfOpen ticket) (.inNext ticket))
    | (.rejected retryAfter events, st) =>
      some (⟨.rejected retryAfter, events.getD [], st.state⟩, st,
        afterSection events (.emittingRejection retryAfter) (.finished (.rejected retryAfter)))
  | .emittingHalfOpen ticket events, .emit escapes =>
    some (⟨.emitted events, [], st.state⟩, st,
      if escapes then .finished (.escaped (some ticket)) else .inNext ticket)
  | .emittingRejection retryAfter events, .emit escapes =>
    some (⟨.emitted events, [], st.state⟩, st,
      .finished (if escapes then .escaped none else .rejected retryAfter))
  | .inNext ticket, .finish ending clock =>
    match st.record cfg ticket (outcomeOf cfg ending) request clock with
    | .error e => some (⟨.failed e, [], st.state⟩, st, .finished (.error e))
    | .ok (events, st) =>
      some (⟨.recorded (outcomeOf cfg ending), events.getD [], st.state⟩, st,
        afterSection events (.emittingRecord ending) (.finished (.next ending)))
  | .emittingRecord ending events, .emit escapes =>
    some (⟨.emitted events, [], st.state⟩, st,
      .finished (if escapes then .escaped none else .next ending))
  | _, _ => none

/-- A circuit, and where each call is. -/
structure System where
  circuit : CircuitBreakerState
  calls : CallId → CallPhase

/-- The steps of any number of calls through one circuit, in any order. -/
def calls (cfg : Config) (request : CallId → Request) :
    Machine System (CallId × CallAction) Shown where
  init := ⟨init cfg, fun _ => .idle⟩
  step s a :=
    (callStep cfg (request a.1) s.circuit (s.calls a.1) a.2).map
      fun r => (r.1, ⟨r.2.1, Function.update s.calls a.1 r.2.2⟩)

/-! ## The steps of a call by cases -/

/-- The ways in which a call can take a step. -/
inductive CallSteps (cfg : Config) (request : Request) (st : CircuitBreakerState) :
    CallPhase → CallAction → Shown → CircuitBreakerState → CallPhase → Prop
  | readTicket {ticket : ℤ} (h : st.closedTicket = some ticket) :
      CallSteps cfg request st .idle .read ⟨.read (some ticket), [], st.state⟩ st (.inNext ticket)
  | readNone (h : st.closedTicket = none) :
      CallSteps cfg request st .idle .read ⟨.read none, [], st.state⟩ st .unticketed
  | admitted {now : ℚ} {ticket : ℤ} {st' : CircuitBreakerState}
      (h : Admits cfg st request now (.ticket ticket) st') :
      CallSteps cfg request st .unticketed (.admitCall now) ⟨.admitted ticket, [], st'.state⟩ st'
        (.inNext ticket)
  | halfOpened {now : ℚ} {ticket : ℤ} {events : Option (List Event)} {st' : CircuitBreakerState}
      (h : Admits cfg st request now (.halfOpened ticket events) st') :
      CallSteps cfg request st .unticketed (.admitCall now)
        ⟨.halfOpened ticket, events.getD [], st'.state⟩ st'
        (afterSection events (.emittingHalfOpen ticket) (.inNext ticket))
  | rejected {now : ℚ} {retryAfter : Option Number} {events : Option (List Event)}
      {st' : CircuitBreakerState} (h : Admits cfg st request now (.rejected retryAfter events) st') :
      CallSteps cfg request st .unticketed (.admitCall now)
        ⟨.rejected retryAfter, events.getD [], st'.state⟩ st'
        (afterSection events (.emittingRejection retryAfter) (.finished (.rejected retryAfter)))
  | recorded {ticket : ℤ} {ending : Ending} {clock : Readings} {events : Option (List Event)}
      {st' : CircuitBreakerState}
      (h : Records cfg st request clock ticket (outcomeOf cfg ending) events st') :
      CallSteps cfg request st (.inNext ticket) (.finish ending clock)
        ⟨.recorded (outcomeOf cfg ending), events.getD [], st'.state⟩ st'
        (afterSection events (.emittingRecord ending) (.finished (.next ending)))
  | failed {ticket : ℤ} {ending : Ending} {clock : Readings} {e : Error}
      (h : st.record cfg ticket (outcomeOf cfg ending) request clock = .error e) :
      CallSteps cfg request st (.inNext ticket) (.finish ending clock) ⟨.failed e, [], st.state⟩ st
        (.finished (.error e))
  | emittedHalfOpen {ticket : ℤ} {events : List Event} {escapes : Bool} :
      CallSteps cfg request st (.emittingHalfOpen ticket events) (.emit escapes)
        ⟨.emitted events, [], st.state⟩ st
        (if escapes then .finished (.escaped (some ticket)) else .inNext ticket)
  | emittedRejection {retryAfter : Option Number} {events : List Event} {escapes : Bool} :
      CallSteps cfg request st (.emittingRejection retryAfter events) (.emit escapes)
        ⟨.emitted events, [], st.state⟩ st
        (.finished (if escapes then .escaped none else .rejected retryAfter))
  | emittedRecord {ending : Ending} {events : List Event} {escapes : Bool} :
      CallSteps cfg request st (.emittingRecord ending events) (.emit escapes)
        ⟨.emitted events, [], st.state⟩ st
        (.finished (if escapes then .escaped none else .next ending))

/-- A call takes a step in one of the listed ways. -/
theorem callStep_cases {cfg : Config} {request : Request} {st st' : CircuitBreakerState}
    {phase phase' : CallPhase} {action : CallAction} {o : Shown} (hev : st.events = none)
    (h : callStep cfg request st phase action = some (o, st', phase')) :
    CallSteps cfg request st phase action o st' phase' := by
  unfold callStep at h
  split at h
  · -- `state.closed_ticket`: the call has its ticket, or goes to `_admit`.
    split at h
    · next ticket hticket =>
      obtain ⟨rfl, rfl, rfl⟩ : _ = o ∧ st = st' ∧ _ = phase' := by simpa using h
      exact .readTicket hticket
    · next hticket =>
      obtain ⟨rfl, rfl, rfl⟩ : _ = o ∧ st = st' ∧ _ = phase' := by simpa using h
      exact .readNone hticket
  · next now =>
    -- `_admit`, by what it hands back.
    have hadmits := admit_cases cfg request hev now
    split at h
    · next ticket st₁ hadm =>
      rw [hadm] at hadmits
      obtain ⟨rfl, rfl, rfl⟩ : _ = o ∧ st₁ = st' ∧ _ = phase' := by simpa using h
      exact .admitted hadmits
    · next ticket events st₁ hadm =>
      rw [hadm] at hadmits
      obtain ⟨rfl, rfl, rfl⟩ : _ = o ∧ st₁ = st' ∧ _ = phase' := by simpa using h
      exact .halfOpened hadmits
    · next retryAfter events st₁ hadm =>
      rw [hadm] at hadmits
      obtain ⟨rfl, rfl, rfl⟩ : _ = o ∧ st₁ = st' ∧ _ = phase' := by simpa using h
      exact .rejected hadmits
  · -- The emission after a move to HALF_OPEN.
    obtain ⟨rfl, rfl, rfl⟩ : _ = o ∧ st = st' ∧ _ = phase' := by simpa using h
    exact .emittedHalfOpen
  · obtain ⟨rfl, rfl, rfl⟩ : _ = o ∧ st = st' ∧ _ = phase' := by simpa using h
    exact .emittedRejection
  · split at h
    · next e herror =>
      obtain ⟨rfl, rfl, rfl⟩ : _ = o ∧ st = st' ∧ _ = phase' := by simpa using h
      exact .failed herror
    · next events st₁ hrecord =>
      obtain ⟨rfl, rfl, rfl⟩ : _ = o ∧ st₁ = st' ∧ _ = phase' := by simpa using h
      exact .recorded (record_cases hev hrecord)
  · obtain ⟨rfl, rfl, rfl⟩ : _ = o ∧ st = st' ∧ _ = phase' := by simpa using h
    exact .emittedRecord
  · cases h

/-- A step of the system is a step of one call. -/
theorem calls_step {cfg : Config} {request : CallId → Request} {s s' : System} {c : CallId}
    {action : CallAction} {o : Shown}
    (h : (calls cfg request).step s (c, action) = some (o, s')) :
    ∃ st phase, callStep cfg (request c) s.circuit (s.calls c) action = some (o, st, phase) ∧
      s' = ⟨st, Function.update s.calls c phase⟩ := by
  simp only [calls, Option.map_eq_some_iff] at h
  obtain ⟨⟨o, st, phase⟩, hcall, hr⟩ := h
  simp only [Prod.mk.injEq] at hr
  obtain ⟨rfl, rfl⟩ := hr
  exact ⟨st, phase, hcall, rfl⟩

/-- A step of a call is a step of the system. -/
theorem step_of_callStep {cfg : Config} {request : CallId → Request} {s : System} {c : CallId}
    {action : CallAction} {o : Shown} {st : CircuitBreakerState} {phase : CallPhase}
    (h : callStep cfg (request c) s.circuit (s.calls c) action = some (o, st, phase)) :
    (calls cfg request).step s (c, action) =
      some (o, ⟨st, Function.update s.calls c phase⟩) := by
  simp [calls, h]

/-- A step of a call leaves the queue of events empty. -/
theorem CallSteps.events {cfg : Config} {request : Request} {st st' : CircuitBreakerState}
    {phase phase' : CallPhase} {action : CallAction} {o : Shown}
    (h : CallSteps cfg request st phase action o st' phase') (hev : st.events = none) :
    st'.events = none := by
  cases h with
  | admitted h => exact h.events hev
  | halfOpened h => exact h.events hev
  | rejected h => exact h.events hev
  | recorded h => exact h.events hev
  | _ => exact hev

/-- The queue of events is empty between critical sections. -/
theorem events_of_runs {cfg : Config} {request : CallId → Request}
    {run : List ((CallId × CallAction) × Shown)} {s : System}
    (h : (calls cfg request).Runs run s) : s.circuit.events = none := by
  refine h.state_invariant (I := fun s => s.circuit.events = none) rfl ?_
  rintro s ⟨c, action⟩ o s' hev hstep
  obtain ⟨st, phase, hcall, rfl⟩ := calls_step hstep
  exact (callStep_cases hev hcall).events hev

/-- A call without a step is where it began. -/
theorem idle_of_not_mem_parties {cfg : Config} {request : CallId → Request}
    {run : List ((CallId × CallAction) × Shown)} {s : System} (h : (calls cfg request).Runs run s) :
    ∀ c, c ∉ Machine.parties run → s.calls c = .idle := by
  refine h.invariant (I := fun run s => ∀ c, c ∉ Machine.parties run → s.calls c = .idle)
    (fun _ _ => rfl) ?_
  rintro run s ⟨d, action⟩ o s' - ih hstep c hc
  -- A step moves its own call only.
  obtain ⟨st, phase, -, rfl⟩ := calls_step hstep
  rw [Machine.mem_parties_snoc, not_or] at hc
  dsimp only
  rw [Function.update_of_ne hc.2]
  exact ih c hc.1

/-- Every step of a run is one of the listed steps of a call. -/
theorem step_cases {cfg : Config} {request : CallId → Request}
    {run : List ((CallId × CallAction) × Shown)} {s s' : System} {c : CallId}
    {action : CallAction} {o : Shown} (h : (calls cfg request).Runs run s)
    (hstep : (calls cfg request).step s (c, action) = some (o, s')) :
    ∃ st phase, CallSteps cfg (request c) s.circuit (s.calls c) action o st phase ∧
      s' = ⟨st, Function.update s.calls c phase⟩ := by
  obtain ⟨st, phase, hcall, hs⟩ := calls_step hstep
  exact ⟨st, phase, callStep_cases (events_of_runs h) hcall, hs⟩

/-- A step shows the state after it. -/
theorem state_of_step {cfg : Config} {request : CallId → Request}
    {run : List ((CallId × CallAction) × Shown)} {s s' : System} {c : CallId}
    {action : CallAction} {o : Shown} (h : (calls cfg request).Runs run s)
    (hstep : (calls cfg request).step s (c, action) = some (o, s')) :
    o.state = s'.circuit.state := by
  obtain ⟨st, phase, hcases, rfl⟩ := step_cases h hstep
  generalize s.calls c = before at hcases
  cases hcases <;> rfl

/-- The `retry_after` of a rejection, where there is one, is positive. -/
theorem retryAfter_pos {cfg : Config} {request : CallId → Request}
    {run : List ((CallId × CallAction) × Shown)} {s : System} (h : (calls cfg request).Runs run s) :
    ∀ x ∈ run, ∀ retryAfter, x.2.result = .rejected (some retryAfter) →
      Number.finite 0 < retryAfter := by
  refine h.invariant (I := fun run _ => ∀ x ∈ run, ∀ retryAfter,
    x.2.result = .rejected (some retryAfter) → Number.finite 0 < retryAfter) nofun ?_
  rintro run s ⟨c, action⟩ o s' hrun ih hstep x hx retryAfter hresult
  rcases List.mem_append.mp hx with hx | hx
  · exact ih x hx retryAfter hresult
  · rw [List.mem_singleton.mp hx] at hresult
    obtain ⟨st, phase, hcases, -⟩ := step_cases hrun hstep
    generalize s.calls c = before at hcases
    cases hcases with
    | rejected hadmission =>
      obtain rfl := CallResult.rejected.inj hresult
      cases hadmission with
      | rejectedOpen _ _ hearly _ =>
        -- A rejection by `max(0, …)` while the timeout has not elapsed.
        have hpos := Number.sub_finite_pos hearly
        rw [Number.pyMax_of_lt hpos]
        exact hpos
    | _ => cases hresult

end Httpware.CircuitBreakerState
