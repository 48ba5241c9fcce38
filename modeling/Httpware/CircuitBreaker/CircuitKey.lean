import Httpware.CircuitBreaker.Calls

/-!
# The label of a circuit

The circuit of a keyed breaker has a label, which `_queue` writes as `circuit_key` on its events. The
label reaches the events and nothing else: every function of the circuit, run with a label, does what
it does without one, with the label on the events (`callStep_withKey`).
-/

namespace Httpware

open Python (Error Number)

/-- The event with a circuit's label. -/
def Event.withKey (label : String) (e : Event) : Event :=
  { e with attributes := e.attributes ++ [("circuit_key", .text label)] }

/-- The admission with a circuit's label on its events. -/
def Admission.withKey (label : String) : Admission → Admission
  | .ticket n => .ticket n
  | .halfOpened n events => .halfOpened n (events.map (List.map (Event.withKey label)))
  | .rejected retryAfter events =>
    .rejected retryAfter (events.map (List.map (Event.withKey label)))

namespace CircuitBreakerState

/-- The configuration of a keyed breaker's circuit. -/
def Config.withKey (cfg : Config) (label : String) : Config := { cfg with key := some label }

/-- The same configuration in a plain breaker. -/
def Config.plain (cfg : Config) : Config := { cfg with key := none }

variable {cfg : Config} {label : String} {request : Request} {st : CircuitBreakerState}

/-- The queue with a circuit's label on its events. -/
def withKey (label : String) (st : CircuitBreakerState) : CircuitBreakerState :=
  { st with events := st.events.map (List.map (Event.withKey label)) }

/-- The phase with a circuit's label on the events that are still to be emitted. -/
def CallPhase.withKey (label : String) : CallPhase → CallPhase
  | .emittingHalfOpen ticket events => .emittingHalfOpen ticket (events.map (Event.withKey label))
  | .emittingRejection retryAfter events =>
    .emittingRejection retryAfter (events.map (Event.withKey label))
  | .emittingRecord ending events => .emittingRecord ending (events.map (Event.withKey label))
  | phase => phase

/-- What a step did, with a circuit's label on the events. -/
def Shown.withKey (label : String) (shown : Shown) : Shown where
  result :=
    match shown.result with
    | .emitted events => .emitted (events.map (Event.withKey label))
    | result => result
  events := shown.events.map (Event.withKey label)
  state := shown.state

/-- A circuit without queued events shows no label. -/
theorem withKey_of_events (h : st.events = none) : st.withKey label = st := by
  unfold withKey
  rw [h]
  exact congrArg (fun events => { st with events }) h.symm

variable (cfg label request st) in
/-- `_queue` labels its event. -/
theorem queue_withKey (name : String) (level : ℤ) (message : String)
    (attributes : List (String × AttributeValue)) :
    (st.withKey label).queue (cfg.withKey label) request name level message attributes =
      (st.queue cfg.plain request name level message attributes).withKey label := by
  have hevent : makeEvent (cfg.withKey label) request name level message attributes =
      (makeEvent cfg.plain request name level message attributes).withKey label := by
    simp [makeEvent, Event.withKey, Config.withKey, Config.plain]
  unfold queue withKey
  rw [hevent]
  cases h : st.events <;> simp

variable (st) in
/-- `_enter_open` labels its event. -/
theorem enterOpen_withKey (now : ℚ) (message : String)
    (attributes : List (String × AttributeValue)) :
    (st.withKey label).enterOpen (cfg.withKey label) request now message attributes =
      (st.enterOpen cfg.plain request now message attributes).withKey label := by
  unfold enterOpen
  by_cases h : st.state = .CLOSED
  · have h' : (st.withKey label).state = .CLOSED := h
    simp only [if_pos h, if_pos h', ← queue_withKey]
    rfl
  · have h' : ¬ (st.withKey label).state = .CLOSED := h
    simp only [if_neg h, if_neg h', ← queue_withKey]
    rfl

/-- `_reject` labels its event. -/
theorem reject_withKey (now : ℚ) (retryAfter : Option Number) (message : String) :
    (st.withKey label).reject (cfg.withKey label) request now retryAfter message =
      Prod.map (Admission.withKey label) (withKey label)
        (st.reject cfg.plain request now retryAfter message) := by
  have hlast : (st.withKey label).rejectedEmittedAt = st.rejectedEmittedAt := rfl
  unfold reject
  dsimp only
  rw [hlast]
  split_ifs
  · rfl
  · have key := queue_withKey cfg label request
      { st with
        episodeRejections := st.episodeRejections + 1
        rejectedEmittedAt := .finite now
        rejectionsSuppressed := 0 }
      "circuit.rejected" WARNING message
      [("retry_after", .ofNumber? retryAfter), ("suppressed", .int st.rejectionsSuppressed)]
    exact congrArg (fun st => (Admission.rejected retryAfter st.takeEvents.1, st.takeEvents.2)) key

/-- `admit` labels its events. -/
theorem admit_withKey (now : ℚ) :
    (st.withKey label).admitCall (cfg.withKey label) request now =
      Prod.map (Admission.withKey label) (withKey label) (st.admitCall cfg.plain request now) := by
  have hclosed : (st.withKey label).closedTicket = st.closedTicket := rfl
  have hstate : (st.withKey label).state = st.state := rfl
  have hprobe : (st.withKey label).probeInFlight = st.probeInFlight := rfl
  have hopened : (st.withKey label).openedAt = st.openedAt := rfl
  have hreset : (cfg.withKey label).resetTimeout = cfg.plain.resetTimeout := rfl
  unfold admitCall
  rw [hclosed, hstate, hprobe, hopened, hreset]
  split
  · rfl
  · dsimp only
    split_ifs
    · exact reject_withKey _ _ _
    · have key := queue_withKey cfg label request
        { st.moveTo .HALF_OPEN with probeInFlight := true } "circuit.half_open" INFO
        "circuit half-open — admitting probe" []
      exact congrArg
        (fun st => (Admission.halfOpened (st.epoch + 1) st.takeEvents.1, st.takeEvents.2)) key
    · exact reject_withKey _ _ _
    · rfl

variable (st) in
/-- The test of the failure rate labels its event. -/
theorem testRate_withKey (total failures : ℤ) (now : ℚ) :
    (st.withKey label).testRate (cfg.withKey label) request total failures now =
      (st.testRate cfg.plain request total failures now).map (withKey label) := by
  -- The label does not change the test: only the event of a trip.
  have hthreshold : (cfg.withKey label).failureRateThreshold =
      cfg.plain.failureRateThreshold := rfl
  have hminimum : (cfg.withKey label).minimumCalls = cfg.plain.minimumCalls := rfl
  unfold testRate openRate
  rw [hthreshold, hminimum]
  split
  · rfl
  · next threshold _ =>
    split_ifs
    · rfl
    · cases Python.trueDiv failures total with
      | error e => rfl
      | ok rate =>
        simp only [bind, Except.bind]
        split_ifs
        · exact congrArg Except.ok (enterOpen_withKey st _ _ _)
        · rfl

/-- `_record_outcome` labels its event. -/
theorem recordOutcome_withKey (failed : Bool) (clock : Readings) :
    (st.withKey label).recordOutcome (cfg.withKey label) request failed clock =
      (st.recordOutcome cfg.plain request failed clock).map (withKey label) := by
  have hwindow : (st.withKey label).window = st.window := rfl
  unfold recordOutcome
  rw [hwindow]
  split
  · rfl
  · next window _ =>
    cases hrecord : window.record clock.outcome failed with
    | error e => rfl
    | ok window₁ =>
      simp only [bind, Except.bind]
      cases window₁.totals clock.outcome with
      | error e => rfl
      | ok r =>
        exact testRate_withKey { st with window := some r.2 } r.1.1 r.1.2 clock.opened

/-- `_record_closed` labels its event. -/
theorem recordClosed_withKey (failed : Bool) (clock : Readings) :
    (st.withKey label).recordClosed (cfg.withKey label) request failed clock =
      (st.recordClosed cfg.plain request failed clock).map (withKey label) := by
  have hmode : (cfg.withKey label).rateMode = cfg.plain.rateMode := rfl
  have hfailures : (st.withKey label).consecutiveFailures = st.consecutiveFailures := rfl
  have hthreshold : (cfg.withKey label).failureThreshold = cfg.plain.failureThreshold := rfl
  unfold recordClosed
  dsimp only
  rw [hmode, hfailures, hthreshold]
  split_ifs
  · exact recordOutcome_withKey _ _
  · exact congrArg Except.ok (enterOpen_withKey
      { st with consecutiveFailures := st.consecutiveFailures + 1 } _ _ _)
  · rfl
  · rfl

variable (st) in
/-- `_record_probe_success` labels its event. -/
theorem recordProbeSuccess_withKey :
    (st.withKey label).recordProbeSuccess (cfg.withKey label) request =
      (st.recordProbeSuccess cfg.plain request).withKey label := by
  have key := queue_withKey cfg label request
    { ({ st with consecutiveSuccesses := st.consecutiveSuccesses + 1 }.moveTo .CLOSED) with
      consecutiveFailures := 0
      consecutiveSuccesses := 0
      window := if cfg.rateMode then st.window.map RollingWindow.clear else st.window }
    "circuit.closed" INFO "circuit closed — service recovered"
    [("rejected", .int st.episodeRejections)]
  by_cases hge : st.consecutiveSuccesses + 1 ≥ cfg.successThreshold
  · have hplain : st.recordProbeSuccess cfg.plain request = _ := if_pos hge
    have hkeyed : (st.withKey label).recordProbeSuccess (cfg.withKey label) request = _ :=
      if_pos hge
    rw [hplain, hkeyed]
    exact key
  · have hplain : st.recordProbeSuccess cfg.plain request = _ := if_neg hge
    have hkeyed : (st.withKey label).recordProbeSuccess (cfg.withKey label) request = _ :=
      if_neg hge
    rw [hplain, hkeyed]
    rfl

/-- `record` labels its event. -/
theorem applyOutcome_withKey (ticket : ℤ) (outcome : Outcome) (clock : Readings) :
    (st.withKey label).applyOutcome (cfg.withKey label) ticket outcome request clock =
      (st.applyOutcome cfg.plain ticket outcome request clock).map (withKey label) := by
  have hepoch : (st.withKey label).epoch = st.epoch := rfl
  have hmode : (cfg.withKey label).rateMode = cfg.plain.rateMode := rfl
  unfold applyOutcome
  rw [hepoch, hmode]
  split_ifs
  · rfl
  · exact recordClosed_withKey _ _
  · rfl
  · cases outcome
    · exact congrArg Except.ok (recordProbeSuccess_withKey { st with probeInFlight := false })
    · exact congrArg Except.ok (enterOpen_withKey { st with probeInFlight := false } _ _ _)
    · rfl
  · rfl

variable (cfg label request st) in
/-- A step of a call labels its events, and the label changes nothing else. -/
theorem callStep_withKey (phase : CallPhase) (action : CallAction) :
    callStep (cfg.withKey label) request (st.withKey label) (phase.withKey label) action =
      (callStep cfg.plain request st phase action).map fun r =>
        (r.1.withKey label, r.2.1.withKey label, r.2.2.withKey label) := by
  cases phase with
  | idle =>
    cases action with
    | read =>
      -- The unlocked read finds the same ticket.
      have hclosed : (st.withKey label).closedTicket = st.closedTicket := rfl
      simp only [CallPhase.withKey, callStep, hclosed]
      split <;> rfl
    | _ => rfl
  | unticketed =>
    cases action with
    | admitCall now =>
      simp only [CallPhase.withKey, callStep, admit_withKey]
      -- What `_admit` hands back keeps its form, with labelled events.
      rcases st.admitCall cfg.plain request now with ⟨_ | ⟨ticket, events⟩ | ⟨retryAfter, events⟩, st'⟩
      · rfl
      · cases events <;> rfl
      · cases events <;> rfl
    | _ => rfl
  | emittingHalfOpen ticket events =>
    cases action with
    | emit escapes => cases escapes <;> rfl
    | _ => rfl
  | emittingRejection retryAfter events =>
    cases action with
    | emit escapes => rfl
    | _ => rfl
  | inNext ticket =>
    cases action with
    | finish ending clock =>
      have houtcome : outcomeOf (cfg.withKey label) ending = outcomeOf cfg.plain ending := rfl
      simp only [CallPhase.withKey, callStep, record, houtcome, applyOutcome_withKey]
      rcases st.applyOutcome cfg.plain ticket (outcomeOf cfg.plain ending) request clock with e | st'
      · rfl
      · rcases hevents : st'.events with _ | events
        · simp only [Except.map, takeEvents, withKey, hevents]
          rfl
        · simp only [Except.map, takeEvents, withKey, hevents]
          rfl
    | _ => rfl
  | emittingRecord ending events =>
    cases action with
    | emit escapes => rfl
    | _ => rfl
  | finished ending => cases action <;> rfl

end CircuitBreakerState

end Httpware
