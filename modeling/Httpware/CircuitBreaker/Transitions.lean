import Httpware.CircuitBreaker.State

/-!
# What `admit` and `record` can do

The two critical sections of a circuit by cases: `Admits` lists every way in which `admit` can end,
and `Records` every way in which `record` can, each with the events handed out and the state after
as an explicit record. `admit_cases` and `record_cases` say that these are all, for a circuit whose
queue of events is empty, as it is between critical sections. Every invariant of the breaker is
proved from these two lists.
-/

namespace Httpware.CircuitBreakerState

open Python (Error Number)

variable {cfg : Config} {st st' : CircuitBreakerState} {request : Request}

/-! ## `admit` -/

/-- The event of an emitted rejection. -/
def rejectedEvent (cfg : Config) (request : Request) (message : String)
    (retryAfter : Option Number) (suppressed : ℤ) : Event :=
  makeEvent cfg request "circuit.rejected" WARNING message
    [("retry_after", .ofNumber? retryAfter), ("suppressed", .int suppressed)]

/-- The event of the move to HALF_OPEN. -/
def halfOpenEvent (cfg : Config) (request : Request) : Event :=
  makeEvent cfg request "circuit.half_open" INFO "circuit half-open — admitting probe" []

/-- The two ways to reject: without an event less than a second after the last emitted one, and with
an event otherwise. -/
inductive Rejects (cfg : Config) (st : CircuitBreakerState) (request : Request) (now : ℚ)
    (retryAfter : Option Number) (message : String) :
    Option (List Event) → CircuitBreakerState → Prop
  | suppressed (h : Number.finite now - st.rejectedEmittedAt < .finite 1) :
      Rejects cfg st request now retryAfter message none
        { st with
          episodeRejections := st.episodeRejections + 1
          rejectionsSuppressed := st.rejectionsSuppressed + 1 }
  | emitted (h : ¬ Number.finite now - st.rejectedEmittedAt < .finite 1) :
      Rejects cfg st request now retryAfter message
        (some [rejectedEvent cfg request message retryAfter st.rejectionsSuppressed])
        { st with
          episodeRejections := st.episodeRejections + 1
          rejectedEmittedAt := .finite now
          rejectionsSuppressed := 0 }

/-- The ways in which `admit` can end. -/
inductive Admits (cfg : Config) (st : CircuitBreakerState) (request : Request) (now : ℚ) :
    Admission → CircuitBreakerState → Prop
  | closed {ticket : ℤ} (h : st.closedTicket = some ticket) :
      Admits cfg st request now (.ticket ticket) st
  | rejectedOpen {events : Option (List Event)} {st' : CircuitBreakerState}
      (h : st.closedTicket = none) (hopen : st.state = .OPEN)
      (hearly : Number.finite (now - st.openedAt) < cfg.resetTimeout)
      (hreject : Rejects cfg st request now
        (some (Number.pyMax (.finite 0) (cfg.resetTimeout - .finite (now - st.openedAt))))
        "circuit open — rejecting request" events st') :
      Admits cfg st request now
        (.rejected
          (some (Number.pyMax (.finite 0) (cfg.resetTimeout - .finite (now - st.openedAt))))
          events) st'
  | halfOpened (h : st.closedTicket = none) (hopen : st.state = .OPEN)
      (hlate : ¬ Number.finite (now - st.openedAt) < cfg.resetTimeout) :
      Admits cfg st request now
        (.halfOpened (st.epoch + 2 + 1) (some [halfOpenEvent cfg request]))
        { st with
          state := .HALF_OPEN
          epoch := st.epoch + 2
          closedTicket := none
          probeInFlight := true }
  | rejectedProbe {events : Option (List Event)} {st' : CircuitBreakerState}
      (h : st.closedTicket = none) (hopen : st.state ≠ .OPEN) (hprobe : st.probeInFlight = true)
      (hreject : Rejects cfg st request now none
        "circuit half-open — rejecting request (probe in flight)" events st') :
      Admits cfg st request now (.rejected none events) st'
  | probe (h : st.closedTicket = none) (hopen : st.state ≠ .OPEN)
      (hprobe : st.probeInFlight = false) :
      Admits cfg st request now (.ticket (st.epoch + 1)) { st with probeInFlight := true }

/-- `_reject` rejects in one of the two ways. -/
theorem reject_cases (cfg : Config) (request : Request) (hev : st.events = none) (now : ℚ)
    (retryAfter : Option Number) (message : String) :
    ∃ events, (st.reject cfg request now retryAfter message).1 = .rejected retryAfter events ∧
      Rejects cfg st request now retryAfter message events
        (st.reject cfg request now retryAfter message).2 := by
  unfold reject
  dsimp only
  split_ifs with h
  · exact ⟨none, rfl, .suppressed h⟩
  · refine ⟨_, rfl, ?_⟩
    have key : Rejects cfg st request now retryAfter message _ _ := .emitted h
    simpa [queue, takeEvents, hev, rejectedEvent] using key

/-- `admit` ends in one of the listed ways. -/
theorem admit_cases (cfg : Config) (request : Request) (hev : st.events = none) (now : ℚ) :
    Admits cfg st request now (st.admitCall cfg request now).1 (st.admitCall cfg request now).2 := by
  unfold admitCall
  split
  · next ticket h => exact .closed h
  · next h =>
    dsimp only
    split_ifs with hopen hearly hprobe
    · obtain ⟨events, hadm, hrej⟩ := reject_cases cfg request hev now
        (some (Number.pyMax (.finite 0) (cfg.resetTimeout - .finite (now - st.openedAt))))
        "circuit open — rejecting request"
      rw [hadm]
      exact .rejectedOpen h hopen hearly hrej
    · have key : Admits cfg st request now _ _ := .halfOpened h hopen hearly
      simpa [queue, takeEvents, moveTo, hev, halfOpenEvent] using key
    · obtain ⟨events, hadm, hrej⟩ := reject_cases cfg request hev now none
        "circuit half-open — rejecting request (probe in flight)"
      rw [hadm]
      exact .rejectedProbe h hopen hprobe hrej
    · exact .probe h hopen (by simpa using hprobe)

/-- A rejection leaves the queue of events empty. -/
theorem Rejects.events {now : ℚ} {retryAfter : Option Number} {message : String}
    {events : Option (List Event)} (h : Rejects cfg st request now retryAfter message events st')
    (hev : st.events = none) : st'.events = none := by
  cases h <;> exact hev

/-- An admission leaves the queue of events empty. -/
theorem Admits.events {now : ℚ} {admission : Admission} (h : Admits cfg st request now admission st')
    (hev : st.events = none) : st'.events = none := by
  cases h with
  | rejectedOpen _ _ _ hreject => exact hreject.events hev
  | rejectedProbe _ _ _ hreject => exact hreject.events hev
  | _ => exact hev

/-! ## `record` -/

/-- The state after the circuit opened at `now`, with its event handed out. The counts of the
rejections start anew only when it opened from CLOSED. -/
def afterOpen (st : CircuitBreakerState) (now : ℚ) : CircuitBreakerState where
  state := .OPEN
  consecutiveFailures := 0
  consecutiveSuccesses := 0
  openedAt := now
  probeInFlight := st.probeInFlight
  epoch := st.epoch + 2
  closedTicket := none
  rejectedEmittedAt := if st.state = .CLOSED then .negInf else st.rejectedEmittedAt
  rejectionsSuppressed := if st.state = .CLOSED then 0 else st.rejectionsSuppressed
  episodeRejections := if st.state = .CLOSED then 0 else st.episodeRejections
  events := none
  window := st.window

/-- The event of an opening. -/
def openedEvent (cfg : Config) (request : Request) (message : String)
    (attributes : List (String × AttributeValue)) : Event :=
  makeEvent cfg request "circuit.opened" WARNING message attributes

/-- The event of a close. -/
def closedEvent (cfg : Config) (request : Request) (rejected : ℤ) : Event :=
  makeEvent cfg request "circuit.closed" INFO "circuit closed — service recovered"
    [("rejected", .int rejected)]

/-- An empty queue hands out nothing. -/
theorem takeEvents_of_none (hev : st.events = none) : st.takeEvents = (none, st) := by
  rw [takeEvents, hev]
  exact congrArg (Prod.mk none) (by rw [← hev])

/-- `_enter_open` queues its event and leaves the opened circuit. -/
theorem enterOpen_takeEvents (hev : st.events = none) (now : ℚ) (message : String)
    (attributes : List (String × AttributeValue)) :
    (st.enterOpen cfg request now message attributes).takeEvents =
      (some [openedEvent cfg request message attributes], st.afterOpen now) := by
  unfold enterOpen takeEvents queue moveTo afterOpen openedEvent
  by_cases h : st.state = .CLOSED <;> simp [h, hev]

/-- The test of the failure rate. -/
def Config.rateExceeded (cfg : Config) (threshold : Number) (total failures : ℤ) : Prop :=
  cfg.minimumCalls ≤ total ∧ threshold ≤ .finite (failures / total)

instance (cfg : Config) (threshold : Number) (total failures : ℤ) :
    Decidable (cfg.rateExceeded threshold total failures) :=
  inferInstanceAs (Decidable (_ ∧ _))

/-- What `_record_outcome` does to the window: records the outcome, and reads the totals. -/
def windowAfter (window : RollingWindow) (now : ℚ) (failed : Bool) :
    Except Error ((ℤ × ℤ) × RollingWindow) :=
  window.record now failed >>= fun window => window.totals now

/-- The ways in which `record` can end. -/
inductive Records (cfg : Config) (st : CircuitBreakerState) (request : Request)
    (clock : Readings) : ℤ → Outcome → Option (List Event) → CircuitBreakerState → Prop
  /-- A ticket of an earlier epoch. -/
  | stale {ticket : ℤ} {outcome : Outcome} (hticket : ticket ≠ st.epoch)
      (hprobe : ticket ≠ st.epoch + 1) : Records cfg st request clock ticket outcome none st
  /-- A foreign outcome of a call that was admitted while CLOSED. -/
  | foreign : Records cfg st request clock st.epoch .foreign none st
  /-- A success in the classic mode. -/
  | reset (hmode : cfg.rateMode = false) :
      Records cfg st request clock st.epoch .success none { st with consecutiveFailures := 0 }
  /-- A failure in the classic mode, below the threshold. -/
  | counted (hmode : cfg.rateMode = false)
      (hlt : st.consecutiveFailures + 1 < cfg.failureThreshold) :
      Records cfg st request clock st.epoch .failure none
        { st with consecutiveFailures := st.consecutiveFailures + 1 }
  /-- A failure in the classic mode that reaches the threshold. -/
  | tripped {message : String} {attributes : List (String × AttributeValue)}
      (hmode : cfg.rateMode = false)
      (hge : cfg.failureThreshold ≤ st.consecutiveFailures + 1) :
      Records cfg st request clock st.epoch .failure
        (some [openedEvent cfg request message attributes]) (st.afterOpen clock.opened)
  /-- An outcome in the rate mode, without a trip. -/
  | windowed {outcome : Outcome} {threshold : Number} {window window' : RollingWindow}
      {total failures : ℤ} (hne : outcome ≠ .foreign)
      (hmode : cfg.failureRateThreshold = some threshold) (hwindow : st.window = some window)
      (hafter : windowAfter window clock.outcome (outcome = .failure) =
        .ok ((total, failures), window'))
      (hlow : ¬ cfg.rateExceeded threshold total failures) :
      Records cfg st request clock st.epoch outcome none { st with window := some window' }
  /-- An outcome in the rate mode that trips the circuit. -/
  | rateTripped {outcome : Outcome} {threshold : Number} {window window' : RollingWindow}
      {total failures : ℤ} {message : String} {attributes : List (String × AttributeValue)}
      (hne : outcome ≠ .foreign)
      (hmode : cfg.failureRateThreshold = some threshold) (hwindow : st.window = some window)
      (hafter : windowAfter window clock.outcome (outcome = .failure) =
        .ok ((total, failures), window'))
      (hhigh : cfg.rateExceeded threshold total failures) :
      Records cfg st request clock st.epoch outcome
        (some [openedEvent cfg request message attributes])
        (afterOpen { st with window := some window' } clock.opened)
  /-- A foreign outcome of a probe. -/
  | probeForeign :
      Records cfg st request clock (st.epoch + 1) .foreign none { st with probeInFlight := false }
  /-- A successful probe, below the threshold. -/
  | probeSucceeded (hlt : st.consecutiveSuccesses + 1 < cfg.successThreshold) :
      Records cfg st request clock (st.epoch + 1) .success none
        { st with
          probeInFlight := false
          consecutiveSuccesses := st.consecutiveSuccesses + 1 }
  /-- A successful probe that reaches the threshold. -/
  | probeClosed (hge : cfg.successThreshold ≤ st.consecutiveSuccesses + 1) :
      Records cfg st request clock (st.epoch + 1) .success
        (some [closedEvent cfg request st.episodeRejections])
        { st with
          state := .CLOSED
          epoch := st.epoch + 2
          closedTicket := some (st.epoch + 2)
          probeInFlight := false
          consecutiveFailures := 0
          consecutiveSuccesses := 0
          window := if cfg.rateMode then st.window.map RollingWindow.clear else st.window }
  /-- A failed probe. -/
  | probeFailed {message : String} {attributes : List (String × AttributeValue)} :
      Records cfg st request clock (st.epoch + 1) .failure
        (some [openedEvent cfg request message attributes])
        (afterOpen { st with probeInFlight := false } clock.opened)

/-- A record leaves the queue of events empty. -/
theorem Records.events {clock : Readings} {ticket : ℤ} {outcome : Outcome}
    {events : Option (List Event)} (h : Records cfg st request clock ticket outcome events st')
    (hev : st.events = none) : st'.events = none := by
  cases h with
  | tripped => rfl
  | rateTripped => rfl
  | probeFailed => rfl
  | _ => exact hev

variable (st request) in
/-- The test of the failure rate does not raise: a total that reaches `minimum_calls` is positive. -/
theorem testRate_eq {threshold : Number} (hmode : cfg.failureRateThreshold = some threshold)
    (total failures : ℤ) (now : ℚ) : ∃ message attributes,
      st.testRate cfg request total failures now =
        .ok (if cfg.rateExceeded threshold total failures then
          st.enterOpen cfg request now message attributes else st) := by
  refine ⟨"circuit opened — failure rate threshold reached",
    [("failure_rate", .number (.finite (failures / total))),
      ("failure_rate_threshold", .number threshold),
      ("window_seconds", .number cfg.windowSeconds), ("observed_calls", .int total)], ?_⟩
  unfold testRate
  rw [hmode]
  dsimp only
  by_cases hlow : total < cfg.minimumCalls
  · -- Too few calls: no quotient is taken.
    have hnot : ¬ cfg.rateExceeded threshold total failures := fun h => absurd h.1 (not_le.mpr hlow)
    rw [if_pos hlow, if_neg hnot]
  · have hmin : cfg.minimumCalls ≤ total := not_lt.mp hlow
    have hpos : 1 ≤ cfg.minimumCalls := cfg.checks.2.2.2.2.2
    have hdiv := Python.trueDiv_of_ne failures (show total ≠ 0 by omega)
    have hiff : cfg.rateExceeded threshold total failures ↔
        threshold ≤ .finite (failures / total) := and_iff_right hmin
    rw [if_neg hlow, Python.bind_of_ok hdiv]
    by_cases hrate : threshold ≤ .finite (failures / total)
    · rw [if_pos hrate, if_pos (hiff.mpr hrate), openRate, Python.bind_of_ok hdiv]
      rfl
    · rw [if_neg hrate, if_neg (mt hiff.mp hrate)]
      rfl

/-- `_record_outcome` by cases: an error, or the outcome in the window with or without a trip. -/
theorem recordOutcome_cases {threshold : Number} {outcome : Outcome} {clock : Readings}
    (hne : outcome ≠ .foreign) (hmode : cfg.failureRateThreshold = some threshold)
    (hev : st.events = none)
    (h : st.recordOutcome cfg request (outcome = .failure) clock = .ok st') :
    Records cfg st request clock st.epoch outcome st'.takeEvents.1 st'.takeEvents.2 := by
  unfold recordOutcome at h
  split at h
  · cases h
  · next window hwindow =>
    obtain ⟨window₁, hrecord, h⟩ := Python.ok_of_bind h
    obtain ⟨⟨⟨total, failures⟩, window₂⟩, htotals, h⟩ := Python.ok_of_bind h
    have hafter : windowAfter window clock.outcome (outcome = .failure) =
        .ok ((total, failures), window₂) := by
      rw [windowAfter, hrecord]
      exact htotals
    obtain ⟨message, attributes, htest⟩ := testRate_eq { st with window := some window₂ } request
      hmode total failures clock.opened
    obtain rfl := Except.ok.inj (htest.symm.trans h)
    split_ifs with hrate
    · have hev' : { st with window := some window₂ }.events = none := hev
      rw [enterOpen_takeEvents hev']
      exact .rateTripped hne hmode hwindow hafter hrate
    · have key : Records cfg st request clock st.epoch outcome _ _ :=
        .windowed hne hmode hwindow hafter hrate
      simpa [takeEvents, hev] using key

/-- `record` ends in one of the listed ways, unless the window's arithmetic raises. -/
theorem record_cases {ticket : ℤ} {outcome : Outcome} {clock : Readings}
    {events : Option (List Event)} (hev : st.events = none)
    (h : st.record cfg ticket outcome request clock = .ok (events, st')) :
    Records cfg st request clock ticket outcome events st' := by
  obtain ⟨st₁, hst, htook⟩ : ∃ st₁, st.applyOutcome cfg ticket outcome request clock = .ok st₁ ∧
      st₁.takeEvents = (events, st') := by
    unfold record at h
    obtain ⟨st₁, hst, h⟩ := Python.ok_of_bind h
    exact ⟨st₁, hst, Except.ok.inj h⟩
  obtain ⟨rfl, rfl⟩ : st₁.takeEvents.1 = events ∧ st₁.takeEvents.2 = st' := by
    rw [htook]
    exact ⟨rfl, rfl⟩
  unfold applyOutcome at hst
  split_ifs at hst with hepoch hsuccess hforeign hprobe
  · -- A success in the classic mode.
    subst hepoch
    obtain rfl := Except.ok.inj hst
    obtain ⟨rfl, hmode⟩ := hsuccess
    have key : Records cfg st request clock st.epoch .success _ _ := .reset (by simpa using hmode)
    simpa [takeEvents, hev] using key
  · -- An outcome that counts.
    subst hepoch
    unfold recordClosed at hst
    cases hmode : cfg.failureRateThreshold with
    | some threshold =>
      rw [if_pos (by simp [Config.rateMode, hmode])] at hst
      exact recordOutcome_cases hforeign hmode hev hst
    | none =>
      have hclassic : cfg.rateMode = false := by simp [Config.rateMode, hmode]
      have hfailure : outcome = .failure := by
        cases outcome with
        | success => exact absurd ⟨rfl, by simp [hclassic]⟩ hsuccess
        | failure => rfl
        | foreign => exact absurd rfl hforeign
      subst hfailure
      simp only [hclassic, Bool.false_eq_true, if_false, decide_true, if_true] at hst
      split_ifs at hst with hge
      · obtain rfl := Except.ok.inj hst
        have hev' : { st with consecutiveFailures := st.consecutiveFailures + 1 }.events = none :=
          hev
        rw [openCircuit, enterOpen_takeEvents hev']
        exact .tripped hclassic hge
      · obtain rfl := Except.ok.inj hst
        have key : Records cfg st request clock st.epoch .failure _ _ :=
          .counted hclassic (not_le.mp hge)
        simpa [takeEvents, hev] using key
  · -- A foreign outcome.
    subst hepoch
    obtain rfl := Except.ok.inj hst
    obtain rfl := not_not.mp hforeign
    rw [takeEvents_of_none hev]
    exact .foreign
  · -- A probe.
    subst hprobe
    cases outcome with
    | foreign =>
      obtain rfl := Except.ok.inj hst
      have key : Records cfg st request clock (st.epoch + 1) .foreign _ _ := .probeForeign
      simpa [takeEvents, hev] using key
    | failure =>
      obtain rfl := Except.ok.inj hst
      have hev' : { st with probeInFlight := false }.events = none := hev
      rw [openCircuit, enterOpen_takeEvents hev']
      exact .probeFailed
    | success =>
      obtain rfl := Except.ok.inj hst
      unfold recordProbeSuccess
      by_cases hge : cfg.successThreshold ≤ st.consecutiveSuccesses + 1
      · have key : Records cfg st request clock (st.epoch + 1) .success _ _ := .probeClosed hge
        simpa [takeEvents, queue, moveTo, hev, hge, closedEvent] using key
      · have key : Records cfg st request clock (st.epoch + 1) .success _ _ :=
          .probeSucceeded (not_le.mp hge)
        simpa [takeEvents, hev, hge] using key
  · -- A ticket of an earlier epoch.
    obtain rfl := Except.ok.inj hst
    rw [takeEvents_of_none hev]
    exact .stale hepoch hprobe

/-- `record` raises only where the window's arithmetic does, on an outcome of the current epoch. -/
theorem record_error {ticket : ℤ} {outcome : Outcome} {clock : Readings} {e : Error}
    (h : st.record cfg ticket outcome request clock = .error e) :
    cfg.rateMode = true ∧ ticket = st.epoch ∧
      st.recordOutcome cfg request (outcome = .failure) clock = .error e := by
  have happly : st.applyOutcome cfg ticket outcome request clock = .error e := by
    unfold record at h
    obtain happly | ⟨st', -, h⟩ := Python.error_of_bind h
    · exact happly
    · cases h
  unfold applyOutcome at happly
  split_ifs at happly with hepoch hsuccess hforeign hprobe
  · -- An outcome that counts: the classic mode does not raise.
    unfold recordClosed at happly
    split_ifs at happly with hmode hfailed
    · exact ⟨hmode, hepoch, happly⟩
    · dsimp only at happly
      split_ifs at happly
  · -- Nor does a probe.
    cases outcome <;> cases happly

/-- An error of `_record_outcome` is one of the window's. -/
theorem recordOutcome_error {failed : Bool} {clock : Readings} {window : RollingWindow} {e : Error}
    (hwindow : st.window = some window)
    (h : st.recordOutcome cfg request failed clock = .error e) :
    windowAfter window clock.outcome failed = .error e := by
  unfold recordOutcome at h
  rw [hwindow] at h
  obtain hrecord | ⟨window₁, hrecord, h⟩ := Python.error_of_bind h
  · exact Python.bind_of_error hrecord
  · obtain htotals | ⟨⟨⟨total, failures⟩, window₂⟩, -, h⟩ := Python.error_of_bind h
    · rw [windowAfter, hrecord]
      exact htotals
    · -- After the totals nothing raises.
      cases hmode : cfg.failureRateThreshold with
      | none =>
        unfold testRate at h
        rw [hmode] at h
        cases h
      | some threshold =>
        obtain ⟨message, attributes, htest⟩ := testRate_eq { st with window := some window₂ }
          request hmode total failures clock.opened
        cases htest.symm.trans h

end Httpware.CircuitBreakerState
