import Httpware.CircuitBreaker.Keyed
import Httpware.Redaction.Emission
import Httpware.Resilience.Bulkhead
import Httpware.Resilience.RetryCalls
import Httpware.Resilience.Timeout

/-!
# What the middleware emits over a run

Every middleware that emits events writes the URL of its request on them and does nothing else with it:
its run over requests with other URLs is the same run, with the URLs replaced on the events
(`callStep_withUrl`, `keyedStep_withUrl`, `decide_withUrl`, `asyncCallStep_withUrl`,
`syncCallStep_withUrl`, `taskStep_withUrl`). With `_emit_event` in between, what a program logs and
records over a run says nothing of the secrets in its URLs (`emissions_public`).
-/

namespace Httpware

open Python (Error Number UrlLibrary)
open Redaction

/-- What a list of actions emits step by step, where each is taken. -/
def emissions {σ α ω : Type*} (lib : UrlLibrary) (channels : Channels) (M : Machine σ α ω)
    (emitted : ω → List Event) (actions : List α) : Option (List Emission) :=
  (M.exec M.init actions).map fun r => r.1.map fun x => emitEvents lib channels (emitted x.2)

section Emissions

variable {σ α β ω : Type*} {lib : UrlLibrary} {f : String → String}

/-- A machine that takes the same steps, with other URLs on the events that are redacted alike, emits the
same. -/
theorem emissions_eq (hf : ∀ url, redactUrl lib (f url).toList = redactUrl lib url.toList)
    (M : Machine σ α ω) (N : Machine σ β ω) (F : σ → σ) (K : α → β) (G : ω → ω)
    (emitted : ω → List Event) (hinit : F M.init = N.init)
    (hstep : ∀ s a, N.step (F s) (K a) = (M.step s a).map fun r => (G r.1, F r.2))
    (hemitted : ∀ o, emitted (G o) = (emitted o).map (Event.withUrl f)) (channels : Channels)
    (actions : List α) :
    emissions lib channels N emitted (actions.map K) = emissions lib channels M emitted actions := by
  unfold emissions
  rw [← hinit, Machine.exec_map F K G hstep, Option.map_map]
  simp only [Function.comp_def, List.map_map, hemitted, emitEvents_withUrl hf]

/-- So does one that takes the same actions. -/
theorem emissions_eq_of_actions
    (hf : ∀ url, redactUrl lib (f url).toList = redactUrl lib url.toList)
    (M N : Machine σ α ω) (F : σ → σ) (G : ω → ω) (emitted : ω → List Event)
    (hinit : F M.init = N.init)
    (hstep : ∀ s a, N.step (F s) a = (M.step s a).map fun r => (G r.1, F r.2))
    (hemitted : ∀ o, emitted (G o) = (emitted o).map (Event.withUrl f)) (channels : Channels)
    (actions : List α) :
    emissions lib channels N emitted actions = emissions lib channels M emitted actions := by
  have key := emissions_eq hf M N F id G emitted hinit hstep hemitted channels actions
  rwa [List.map_id] at key

end Emissions

/-! ## Circuit breakers -/

namespace CircuitBreakerState

variable {cfg : Config} {request : Request} {st : CircuitBreakerState} (f : String → String)

/-- The queue with the URLs of its events replaced. -/
def withUrl (st : CircuitBreakerState) : CircuitBreakerState :=
  { st with events := st.events.map (List.map (Event.withUrl f)) }

/-- The phase with the URLs replaced on the events that are still to be emitted. -/
def CallPhase.withUrl : CallPhase → CallPhase
  | .emittingHalfOpen ticket events => .emittingHalfOpen ticket (events.map (Event.withUrl f))
  | .emittingRejection retryAfter events =>
    .emittingRejection retryAfter (events.map (Event.withUrl f))
  | .emittingRecord ending events => .emittingRecord ending (events.map (Event.withUrl f))
  | phase => phase

/-- What a step did, with the URLs of the events replaced. -/
def Shown.withUrl (shown : Shown) : Shown where
  result :=
    match shown.result with
    | .emitted events => .emitted (events.map (Event.withUrl f))
    | result => result
  events := shown.events.map (Event.withUrl f)
  state := shown.state

/-- The events that a step emitted. -/
def Shown.emitted (shown : Shown) : List Event :=
  match shown.result with
  | .emitted events => events
  | _ => []

end CircuitBreakerState

/-- The admission with the URLs of its events replaced. -/
def Admission.withUrl (f : String → String) : Admission → Admission
  | .ticket n => .ticket n
  | .halfOpened n events => .halfOpened n (events.map (List.map (Event.withUrl f)))
  | .rejected retryAfter events => .rejected retryAfter (events.map (List.map (Event.withUrl f)))

namespace CircuitBreakerState

variable {cfg : Config} {request : Request} {st : CircuitBreakerState} {f : String → String}

/-- The events that are emitted have their URLs replaced. -/
theorem Shown.emitted_withUrl (shown : Shown) :
    (shown.withUrl f).emitted = shown.emitted.map (Event.withUrl f) := by
  obtain ⟨result, events, state⟩ := shown
  cases result <;> rfl

/-- `_queue` writes the URL of the request. -/
theorem makeEvent_withUrl (name : String) (level : ℤ) (message : String)
    {attributes : List (String × AttributeValue)} (h : ∀ x ∈ attributes, x.1 ≠ "url") :
    makeEvent cfg (request.withUrl f) name level message attributes =
      (makeEvent cfg request name level message attributes).withUrl f := by
  let before := attributes ++ [("method", AttributeValue.text request.method)]
  let after := (cfg.key.map fun key => ("circuit_key", AttributeValue.text key)).toList
  have hbefore : ∀ x ∈ before, x.1 ≠ "url" := by
    simp only [before, List.forall_mem_append, List.forall_mem_singleton]
    exact ⟨h, by decide⟩
  have hevent (request' : Request) (hmethod : request'.method = request.method) :
      makeEvent cfg request' name level message attributes =
        ⟨name, level, message, before ++ ("url", .text request'.url.text) :: after⟩ := by
    unfold makeEvent
    simp [before, after, hmethod]
  rw [hevent (request.withUrl f) rfl, hevent request rfl, Event.withUrl_eq f name level message hbefore]
  rfl

variable (cfg request f) in
/-- The queue has the event with the other URL. -/
theorem queue_withUrl (st : CircuitBreakerState) (name : String) (level : ℤ) (message : String)
    (attributes : List (String × AttributeValue)) (h : ∀ x ∈ attributes, x.1 ≠ "url") :
    (st.withUrl f).queue cfg (request.withUrl f) name level message attributes =
      (st.queue cfg request name level message attributes).withUrl f := by
  unfold queue withUrl
  rw [makeEvent_withUrl name level message h]
  cases st.events <;> simp

/-- `_enter_open` writes the URL on its event. -/
theorem enterOpen_withUrl (st : CircuitBreakerState) (now : ℚ) (message : String)
    (attributes : List (String × AttributeValue)) (h : ∀ x ∈ attributes, x.1 ≠ "url") :
    (st.withUrl f).enterOpen cfg (request.withUrl f) now message attributes =
      (st.enterOpen cfg request now message attributes).withUrl f := by
  have hstate : (st.withUrl f).state = st.state := rfl
  unfold enterOpen
  simp only [hstate, ← queue_withUrl cfg request f _ _ _ _ _ h]
  split_ifs <;> rfl

/-- `_reject` writes the URL on its event. -/
theorem reject_withUrl (now : ℚ) (retryAfter : Option Number) (message : String) :
    (st.withUrl f).reject cfg (request.withUrl f) now retryAfter message =
      Prod.map (Admission.withUrl f) (withUrl f) (st.reject cfg request now retryAfter message) := by
  have hlast : (st.withUrl f).rejectedEmittedAt = st.rejectedEmittedAt := rfl
  unfold reject
  dsimp only
  rw [hlast]
  split_ifs
  · rfl
  · have key := queue_withUrl cfg request f
      { st with
        episodeRejections := st.episodeRejections + 1
        rejectedEmittedAt := .finite now
        rejectionsSuppressed := 0 }
      "circuit.rejected" WARNING message
      [("retry_after", .ofNumber? retryAfter), ("suppressed", .int st.rejectionsSuppressed)]
      (by simp)
    exact congrArg (fun st => (Admission.rejected retryAfter st.takeEvents.1, st.takeEvents.2)) key

/-- `admit` writes the URL on its events. -/
theorem admit_withUrl (now : ℚ) :
    (st.withUrl f).admitCall cfg (request.withUrl f) now =
      Prod.map (Admission.withUrl f) (withUrl f) (st.admitCall cfg request now) := by
  have hclosed : (st.withUrl f).closedTicket = st.closedTicket := rfl
  have hstate : (st.withUrl f).state = st.state := rfl
  have hprobe : (st.withUrl f).probeInFlight = st.probeInFlight := rfl
  have hopened : (st.withUrl f).openedAt = st.openedAt := rfl
  unfold admitCall
  rw [hclosed, hstate, hprobe, hopened]
  split
  · rfl
  · dsimp only
    split_ifs
    · exact reject_withUrl _ _ _
    · have key := queue_withUrl cfg request f
        { st.moveTo .HALF_OPEN with probeInFlight := true } "circuit.half_open" INFO
        "circuit half-open — admitting probe" [] (by simp)
      exact congrArg
        (fun st => (Admission.halfOpened (st.epoch + 1) st.takeEvents.1, st.takeEvents.2)) key
    · exact reject_withUrl _ _ _
    · rfl

/-- So does the test of the failure rate. -/
theorem testRate_withUrl (st : CircuitBreakerState) (total failures : ℤ) (now : ℚ) :
    (st.withUrl f).testRate cfg (request.withUrl f) total failures now =
      (st.testRate cfg request total failures now).map (withUrl f) := by
  unfold testRate openRate
  split
  · rfl
  · next threshold _ =>
    split_ifs
    · rfl
    · cases Python.trueDiv failures total with
      | error e => rfl
      | ok rate =>
        simp only [bind, Except.bind]
        split_ifs
        · exact congrArg Except.ok (enterOpen_withUrl st _ _ _ (by simp))
        · rfl

/-- So does `_record_closed`. -/
theorem recordClosed_withUrl (st : CircuitBreakerState) (failed : Bool) (clock : Readings) :
    (st.withUrl f).recordClosed cfg (request.withUrl f) failed clock =
      (st.recordClosed cfg request failed clock).map (withUrl f) := by
  have hwindow : (st.withUrl f).window = st.window := rfl
  have hfailures : (st.withUrl f).consecutiveFailures = st.consecutiveFailures := rfl
  unfold recordClosed
  dsimp only
  rw [hfailures]
  split_ifs
  · -- The window counts the outcome, and then its rate is tested.
    unfold recordOutcome
    rw [hwindow]
    split
    · rfl
    · next window _ =>
      cases window.record clock.outcome failed with
      | error e => rfl
      | ok window₁ =>
        simp only [bind, Except.bind]
        cases window₁.totals clock.outcome with
        | error e => rfl
        | ok r => exact testRate_withUrl { st with window := some r.2 } r.1.1 r.1.2 clock.opened
  · exact congrArg Except.ok (enterOpen_withUrl
      { st with consecutiveFailures := st.consecutiveFailures + 1 } _ _ _ (by simp))
  · rfl
  · rfl

/-- So does `_record_probe_success`. -/
theorem recordProbeSuccess_withUrl (st : CircuitBreakerState) :
    (st.withUrl f).recordProbeSuccess cfg (request.withUrl f) =
      (st.recordProbeSuccess cfg request).withUrl f := by
  have key := queue_withUrl cfg request f
    { ({ st with consecutiveSuccesses := st.consecutiveSuccesses + 1 }.moveTo .CLOSED) with
      consecutiveFailures := 0
      consecutiveSuccesses := 0
      window := if cfg.rateMode then st.window.map RollingWindow.clear else st.window }
    "circuit.closed" INFO "circuit closed — service recovered"
    [("rejected", .int st.episodeRejections)] (by simp)
  by_cases hge : st.consecutiveSuccesses + 1 ≥ cfg.successThreshold
  · have hone : st.recordProbeSuccess cfg request = _ := if_pos hge
    have hother : (st.withUrl f).recordProbeSuccess cfg (request.withUrl f) = _ := if_pos hge
    rw [hone, hother]
    exact key
  · have hone : st.recordProbeSuccess cfg request = _ := if_neg hge
    have hother : (st.withUrl f).recordProbeSuccess cfg (request.withUrl f) = _ := if_neg hge
    rw [hone, hother]
    rfl

/-- So does all that `record` does. -/
theorem applyOutcome_withUrl (ticket : ℤ) (outcome : Outcome) (clock : Readings) :
    (st.withUrl f).applyOutcome cfg ticket outcome (request.withUrl f) clock =
      (st.applyOutcome cfg ticket outcome request clock).map (withUrl f) := by
  have hepoch : (st.withUrl f).epoch = st.epoch := rfl
  unfold applyOutcome
  rw [hepoch]
  split_ifs
  · rfl
  · exact recordClosed_withUrl st _ _
  · rfl
  · cases outcome
    · exact congrArg Except.ok (recordProbeSuccess_withUrl { st with probeInFlight := false })
    · exact congrArg Except.ok (enterOpen_withUrl { st with probeInFlight := false } _ _ _ (by simp))
    · rfl
  · rfl

/-- A step of a call writes the URL on its events, and does nothing else with it. -/
theorem callStep_withUrl (cfg : Config) (f : String → String) (request : Request)
    (st : CircuitBreakerState) (phase : CallPhase) (action : CallAction) :
    callStep cfg (request.withUrl f) (st.withUrl f) (phase.withUrl f) action =
      (callStep cfg request st phase action).map fun r =>
        (r.1.withUrl f, r.2.1.withUrl f, r.2.2.withUrl f) := by
  cases phase with
  | idle =>
    cases action with
    | read =>
      -- The unlocked read finds the same ticket.
      have hclosed : (st.withUrl f).closedTicket = st.closedTicket := rfl
      simp only [CallPhase.withUrl, callStep, hclosed]
      split <;> rfl
    | _ => rfl
  | unticketed =>
    cases action with
    | admitCall now =>
      simp only [CallPhase.withUrl, callStep, admit_withUrl]
      -- What `_admit` hands back keeps its form, with other URLs on the events.
      rcases st.admitCall cfg request now with ⟨_ | ⟨ticket, events⟩ | ⟨retryAfter, events⟩, st'⟩
      · rfl
      · cases events <;> rfl
      · cases events <;> rfl
    | _ => rfl
  | emittingHalfOpen ticket events =>
    cases action with
    | emit escapes => cases escapes <;> rfl
    | _ => rfl
  | emittingRejection retryAfter events => cases action <;> rfl
  | inNext ticket =>
    cases action with
    | finish ending clock =>
      simp only [CallPhase.withUrl, callStep, record, applyOutcome_withUrl]
      rcases st.applyOutcome cfg ticket (outcomeOf cfg ending) request clock with e | st'
      · rfl
      · rcases hevents : st'.events with _ | events
        · simp only [Except.map, takeEvents, withUrl, hevents]
          rfl
        · simp only [Except.map, takeEvents, withUrl, hevents]
          rfl
    | _ => rfl
  | emittingRecord ending events => cases action <;> rfl
  | finished ending => cases action <;> rfl

/-- A circuit and its calls, with the URLs of the events replaced. -/
def System.withUrl (f : String → String) (s : System) : System :=
  ⟨s.circuit.withUrl f, fun c => (s.calls c).withUrl f⟩

/-- A breaker emits the same for URLs that are redacted alike. -/
theorem calls_emissions {lib : UrlLibrary}
    (hf : ∀ url, redactUrl lib (f url).toList = redactUrl lib url.toList) (cfg : Config)
    (request : CallId → Request) (channels : Channels) (actions : List (CallId × CallAction)) :
    emissions lib channels (calls cfg fun c => (request c).withUrl f) Shown.emitted actions =
      emissions lib channels (calls cfg request) Shown.emitted actions := by
  have hstep (s : System) (a : CallId × CallAction) :
      (calls cfg fun c => (request c).withUrl f).step (s.withUrl f) a =
        ((calls cfg request).step s a).map fun r => (r.1.withUrl f, r.2.withUrl f) := by
    simp only [calls, System.withUrl, callStep_withUrl, Option.map_map]
    congr 1
    funext r
    -- The step of one call leaves the others where they were.
    have hcalls : Function.update (fun c => (s.calls c).withUrl f) a.1 (r.2.2.withUrl f) =
        fun c => (Function.update s.calls a.1 r.2.2 c).withUrl f := by
      funext c
      exact (Function.apply_update (fun _ => CallPhase.withUrl f) s.calls a.1 r.2.2 c).symm
    simp only [Function.comp_apply, hcalls]
  exact emissions_eq_of_actions hf (calls cfg request) (calls cfg fun c => (request c).withUrl f)
    (System.withUrl f) (Shown.withUrl f) Shown.emitted rfl hstep Shown.emitted_withUrl channels actions

end CircuitBreakerState

namespace KeyedStates

open CircuitBreakerState

variable {κ : Type*} {f : String → String} {keys : KeyFunction κ}

/-- The phase with the URLs replaced on the events that are still to be emitted. -/
def KeyedPhase.withUrl (f : String → String) : KeyedPhase κ → KeyedPhase κ
  | .inCall circuit phase => .inCall circuit (phase.withUrl f)
  | phase => phase

/-- The circuits and the calls with the URLs of the events replaced. -/
def KeyedSystem.withUrl (f : String → String) (s : KeyedSystem κ) : KeyedSystem κ where
  states := s.states
  circuits := s.circuits.map fun x => (x.1, x.2.withUrl f)
  calls c := (s.calls c).withUrl f

/-- What a step did, with the URLs of the events replaced. -/
def KeyedShown.withUrl (f : String → String) : KeyedShown → KeyedShown
  | .called circuit shown => .called circuit (shown.withUrl f)
  | shown => shown

/-- The events that a step emitted. -/
def KeyedShown.emitted : KeyedShown → List Event
  | .called _ shown => shown.emitted
  | _ => []

/-- The events that are emitted have their URLs replaced. -/
theorem KeyedShown.emitted_withUrl (shown : KeyedShown) :
    (shown.withUrl f).emitted = shown.emitted.map (Event.withUrl f) := by
  cases shown with
  | called circuit shown => exact shown.emitted_withUrl
  | _ => rfl

/-- The key and the label come from other parts of the request than the text of its URL. -/
structure KeyFunction.IgnoresText (keys : KeyFunction κ) : Prop where
  key : ∀ f c request, keys.key c (request.withUrl f) = keys.key c request
  label : ∀ f c request k, keys.label c (request.withUrl f) k = keys.label c request k

/-- The default key function reads the scheme, the host and the port. -/
theorem byOrigin_ignoresText : byOrigin.IgnoresText := ⟨fun _ _ _ => rfl, fun _ _ _ _ => rfl⟩

/-- A call that goes on leaves the others where they were. -/
theorem withUrl_update (calls : CallId → KeyedPhase κ) (c : CallId) (phase : KeyedPhase κ) :
    (fun d => (Function.update calls c phase d).withUrl f) =
      Function.update (fun d => (calls d).withUrl f) c (phase.withUrl f) := by
  funext d
  exact Function.apply_update (fun _ => KeyedPhase.withUrl f) calls c phase d

variable (f) in
/-- The same of the system. -/
theorem goto_withUrl (s : KeyedSystem κ) (c : CallId) (phase : KeyedPhase κ) :
    (s.goto c phase).withUrl f = (s.withUrl f).goto c (phase.withUrl f) := by
  unfold KeyedSystem.goto KeyedSystem.withUrl
  rw [withUrl_update]

/-- `get` does not look at the text of the URL. -/
theorem get_withUrl (hkeys : keys.IgnoresText) (request : Request) (s : KeyedSystem κ) (c : CallId) :
    get keys (request.withUrl f) (s.withUrl f) c =
      Prod.map (KeyedShown.withUrl f) (KeyedSystem.withUrl f) (get keys request s c) := by
  have hstates : (s.withUrl f).states = s.states := rfl
  unfold get
  rw [hkeys.key, hstates]
  rcases keys.key c request with _ | k
  · exact congrArg (Prod.mk _) (goto_withUrl f s c .failed).symm
  · dsimp only
    rcases s.states k with _ | circuit
    · exact congrArg (Prod.mk _) (goto_withUrl f s c (.creating k)).symm
    · exact congrArg (Prod.mk _) (goto_withUrl f s c (.inCall circuit .idle)).symm

/-- Neither does `_create`. -/
theorem create_withUrl [DecidableEq κ] (hkeys : keys.IgnoresText) (cfg : Config) (request : Request)
    (s : KeyedSystem κ) (c : CallId) (k : κ) :
    create cfg keys (request.withUrl f) (s.withUrl f) c k =
      Prod.map (KeyedShown.withUrl f) (KeyedSystem.withUrl f) (create cfg keys request s c k) := by
  have hstates : (s.withUrl f).states = s.states := rfl
  unfold create
  rw [hkeys.label, hstates]
  rcases keys.label c request k with _ | label
  · exact congrArg (Prod.mk _) (goto_withUrl f s c .failed).symm
  · dsimp only
    rcases s.states k with _ | circuit
    · -- The new circuit has no events.
      simp only [Prod.map, KeyedSystem.withUrl, KeyedShown.withUrl, withUrl_update, List.map_append,
        List.length_map]
      rfl
    · exact congrArg (Prod.mk _) (goto_withUrl f s c (.inCall circuit .idle)).symm

/-- A step through a circuit writes the URL on its events. -/
theorem call_withUrl (cfg : Config) (request : Request) (s : KeyedSystem κ) (c : CallId)
    (circuit : ℕ) (phase : CallPhase) (action : CallAction) :
    call cfg (request.withUrl f) (s.withUrl f) c circuit (phase.withUrl f) action =
      (call cfg request s c circuit phase action).map
        (Prod.map (KeyedShown.withUrl f) (KeyedSystem.withUrl f)) := by
  have hcircuit : (s.withUrl f).circuits[circuit]? =
      s.circuits[circuit]?.map fun x => (x.1, x.2.withUrl f) := List.getElem?_map
  unfold call
  rw [hcircuit]
  rcases s.circuits[circuit]? with _ | ⟨label, st⟩
  · rfl
  · simp only [Option.map_some, callStep_withUrl, Option.map_map]
    congr 1
    funext r
    simp only [Function.comp_apply, Prod.map, KeyedSystem.withUrl, KeyedShown.withUrl,
      withUrl_update, List.map_set]
    rfl

/-- A keyed breaker emits the same for URLs that are redacted alike. -/
theorem keyedCalls_emissions [DecidableEq κ] {lib : UrlLibrary}
    (hf : ∀ url, redactUrl lib (f url).toList = redactUrl lib url.toList) (hkeys : keys.IgnoresText)
    (cfg : Config) (request : CallId → Request) (channels : Channels)
    (actions : List (CallId × KeyedAction)) :
    emissions lib channels (keyedCalls cfg keys fun c => (request c).withUrl f) KeyedShown.emitted
        actions =
      emissions lib channels (keyedCalls cfg keys request) KeyedShown.emitted actions := by
  have hstep (s : KeyedSystem κ) (a : CallId × KeyedAction) :
      (keyedCalls cfg keys fun c => (request c).withUrl f).step (s.withUrl f) a =
        ((keyedCalls cfg keys request).step s a).map fun r => (r.1.withUrl f, r.2.withUrl f) := by
    obtain ⟨c, action⟩ := a
    have hcall : (s.withUrl f).calls c = (s.calls c).withUrl f := rfl
    simp only [keyedCalls, hcall]
    cases s.calls c with
    | idle =>
      cases action with
      | get => exact congrArg some (get_withUrl hkeys _ s c)
      | _ => rfl
    | creating k =>
      cases action with
      | create => exact congrArg some (create_withUrl hkeys cfg _ s c k)
      | _ => rfl
    | inCall circuit phase =>
      cases action with
      | call action => exact call_withUrl cfg _ s c circuit phase action
      | _ => rfl
    | failed => cases action <;> rfl
  exact emissions_eq_of_actions hf (keyedCalls cfg keys request)
    (keyedCalls cfg keys fun c => (request c).withUrl f) (KeyedSystem.withUrl f)
    (KeyedShown.withUrl f) KeyedShown.emitted rfl hstep KeyedShown.emitted_withUrl channels actions

end KeyedStates

/-! ## Retry -/

namespace RetryPolicy

variable {f : String → String}

/-- The result of `decide` with the URLs of its events replaced. -/
def Decided.withUrl (f : String → String) (d : Decided) : Decided :=
  { d with events := d.events.map (Event.withUrl f) }

variable (f) in
/-- An event with the URL after the number of attempts and the method, as most of retry's have it. -/
theorem attempts_withUrl (name : String) (level : ℤ) (message : String) (attempts : ℤ)
    (method url : String) (after : List (String × AttributeValue)) :
    (Event.mk name level message (("attempts", .int attempts) :: ("method", .text method) ::
        ("url", .text url) :: after)).withUrl f =
      ⟨name, level, message, ("attempts", .int attempts) :: ("method", .text method) ::
        ("url", .text (f url)) :: after⟩ := by
  have hbefore : ∀ x ∈ [("attempts", AttributeValue.int attempts), ("method", .text method)],
      x.1 ≠ "url" := by simp
  exact Event.withUrl_eq f name level message hbefore url after

/-- A refused replay writes the URL on its event. -/
theorem streamingRefusedEvent_withUrl (request : Request) (exc : Exc) :
    streamingRefusedEvent (request.withUrl f) exc = (streamingRefusedEvent request exc).withUrl f := by
  have hbefore : ∀ x ∈ [("method", AttributeValue.text request.method)], x.1 ≠ "url" := by simp
  exact (Event.withUrl_eq f _ _ _ hbefore _ _).symm

/-- The part after the refusals writes the URL on its event. -/
theorem withdrawAndDelay_withUrl (p : RetryPolicy) (cfg : RetryBudget.Config) (budget : RetryBudget)
    (now : ℚ) (draw : Draw) (attempt : ℕ) (request : Request) (exc : Exc)
    (lastResponse : Option Response) (retryAfter : Option Number) :
    p.withdrawAndDelay cfg budget now draw attempt (request.withUrl f) exc lastResponse retryAfter =
      (p.withdrawAndDelay cfg budget now draw attempt request exc lastResponse retryAfter).withUrl
        f := by
  unfold withdrawAndDelay
  rcases budget.tryWithdraw cfg now with ⟨granted, budget'⟩
  cases granted with
  | false =>
    have hevent : budgetRefusedEvent attempt (request.withUrl f) lastResponse =
        (budgetRefusedEvent attempt request lastResponse).withUrl f :=
      (attempts_withUrl f _ _ _ _ _ _ _).symm
    simp [Decided.withUrl, hevent]
  | true => rfl

/-- `decide` writes the URL on its events, and does nothing else with it. -/
theorem decide_withUrl (p : RetryPolicy) (cfg : RetryBudget.Config) (httpDate : HttpDate)
    (budget : RetryBudget) (now : ℚ) (draw : Draw) (attempt : ℕ) (request : Request) (exc : Exc) :
    p.decide cfg httpDate budget now draw attempt (request.withUrl f) exc =
      (p.decide cfg httpDate budget now draw attempt request exc).withUrl f := by
  have hretryable : p.isRetryable (request.withUrl f) exc = p.isRetryable request exc := rfl
  have hextensions : (request.withUrl f).extensions = request.extensions := rfl
  unfold decide
  dsimp only
  rw [hretryable, hextensions]
  split_ifs
  · simp [Decided.withUrl, streamingRefusedEvent_withUrl]
  · have hevent : maxAttemptsEvent attempt (request.withUrl f) exc (statusResponse exc) =
        (maxAttemptsEvent attempt request exc (statusResponse exc)).withUrl f :=
      (attempts_withUrl f _ _ _ _ _ _ _).symm
    simp [Decided.withUrl, hevent]
  · split
    · next seconds _ =>
      split_ifs
      · have hevent : retryAfterEvent attempt (request.withUrl f) exc (statusResponse exc) seconds
            p.maxDelay = (retryAfterEvent attempt request exc (statusResponse exc) seconds
              p.maxDelay).withUrl f := (attempts_withUrl f _ _ _ _ _ _ _).symm
        simp [Decided.withUrl, hevent]
      · exact withdrawAndDelay_withUrl p cfg budget now draw attempt request exc _ _
    · exact withdrawAndDelay_withUrl p cfg budget now draw attempt request exc _ _
  · rfl

end RetryPolicy

/-- What a step shows, with the URLs of its events replaced. -/
def RetryOutput.withUrl (f : String → String) : RetryOutput → RetryOutput
  | .decided now withdrawal events => .decided now withdrawal (events.map (Event.withUrl f))
  | o => o

/-- The events that a step emitted. -/
def RetryOutput.emitted : RetryOutput → List Event
  | .decided _ _ events => events
  | _ => []

/-- The events that are emitted have their URLs replaced. -/
theorem RetryOutput.emitted_withUrl {f : String → String} (o : RetryOutput) :
    (o.withUrl f).emitted = o.emitted.map (Event.withUrl f) := by
  cases o <;> rfl

/-- A step of a call through retry middleware writes the URL on its events. -/
theorem retryStep_withUrl (cfg : RetryBudget.Config) (httpDate : HttpDate) (p : RetryPolicy)
    (f : String → String) (request : Request) (budget : RetryBudget) (phase : RetryPhase)
    (action : RetryAction) :
    retryStep cfg httpDate p (request.withUrl f) budget phase action =
      (retryStep cfg httpDate p request budget phase action).map fun r => (r.1.withUrl f, r.2) := by
  cases phase with
  | idle => cases action <;> rfl
  | ready attempt =>
    cases action with
    | forward =>
      simp only [retryStep]
      split_ifs <;> rfl
    | _ => rfl
  | attempting attempt =>
    cases action with
    | finish ending =>
      cases ending with
      | returned response => rfl
      | raised exc =>
        simp only [retryStep]
        split_ifs <;> rfl
    | _ => rfl
  | deciding attempt exc =>
    cases action with
    | decide now draw =>
      simp only [retryStep, RetryPolicy.decide_withUrl]
      rfl
    | _ => rfl
  | sleeping attempt delay => cases action <;> rfl
  | done ending => cases action <;> rfl

/-- Retry middleware emits the same for URLs that are redacted alike. -/
theorem retryCalls_emissions {lib : UrlLibrary} {f : String → String}
    (hf : ∀ url, redactUrl lib (f url).toList = redactUrl lib url.toList) (cfg : RetryBudget.Config)
    (httpDate : HttpDate) (policy : CallId → RetryPolicy) (request : CallId → Request)
    (channels : Channels) (actions : List (CallId × RetryAction)) :
    emissions lib channels (retryCalls cfg httpDate policy fun c => (request c).withUrl f)
        RetryOutput.emitted actions =
      emissions lib channels (retryCalls cfg httpDate policy request) RetryOutput.emitted actions := by
  have hstep (s : RetrySystem) (a : CallId × RetryAction) :
      (retryCalls cfg httpDate policy fun c => (request c).withUrl f).step s a =
        ((retryCalls cfg httpDate policy request).step s a).map fun r => (r.1.withUrl f, r.2) := by
    simp only [retryCalls, retryStep_withUrl, Option.map_map]
    rfl
  exact emissions_eq_of_actions hf (retryCalls cfg httpDate policy request)
    (retryCalls cfg httpDate policy fun c => (request c).withUrl f) id (RetryOutput.withUrl f)
    RetryOutput.emitted rfl hstep RetryOutput.emitted_withUrl channels actions

/-! ## Bulkheads -/

namespace Bulkhead

variable {f : String → String}

variable (f) in
/-- A rejection writes the URL on its event. -/
theorem rejectedEvent_withUrl (cfg : Config) (request : Request) :
    rejectedEvent cfg (request.withUrl f) = (rejectedEvent cfg request).withUrl f := by
  have hbefore : ∀ x ∈ [("max_concurrent", AttributeValue.int cfg.maxConcurrent),
      ("acquire_timeout", .ofNumber? cfg.acquireTimeout), ("method", .text request.method)],
      x.1 ≠ "url" := by simp
  exact (Event.withUrl_eq f _ _ _ hbefore _ _).symm

/-- A step of an async call writes the URL on its events. -/
theorem asyncCallStep_withUrl (cfg : Config) (request : Request) (c : CallId) (st : AsyncState)
    (phase : CallPhase) (action : AsyncAction) :
    asyncCallStep cfg (request.withUrl f) c st phase action =
      (asyncCallStep cfg request c st phase action).map fun r =>
        (r.1.map (Event.withUrl f), r.2) := by
  cases phase with
  | idle =>
    cases action with
    | start loop =>
      simp only [asyncCallStep]
      rcases checkEventLoop st.loop loop with first | bound
      · rfl
      · rcases st.sem.acquire c with ⟨_ | _, sem⟩ <;> rfl
    | _ => rfl
  | waiting wait =>
    cases action with
    | expire =>
      simp only [asyncCallStep]
      split_ifs <;> rfl
    | resume escapes =>
      simp only [asyncCallStep, rejectedEvent_withUrl]
      rcases st.sem.stateOf c with _ | state
      · rfl
      · cases state with
        | pending => rfl
        | _ =>
          dsimp only
          split_ifs <;> rfl
    | _ => rfl
  | inNext => cases action <;> rfl
  | finished ending => cases action <;> rfl

/-- A step of a sync call writes the URL on its events. -/
theorem syncCallStep_withUrl (cfg : Config) (request : Request) (value : ℤ) (phase : CallPhase)
    (action : SyncAction) :
    syncCallStep cfg (request.withUrl f) value phase action =
      (syncCallStep cfg request value phase action).map fun r =>
        (r.1.map (Event.withUrl f), r.2) := by
  cases phase with
  | idle =>
    cases action with
    | start =>
      simp only [syncCallStep]
      split_ifs <;> rfl
    | _ => rfl
  | waiting wait =>
    cases action with
    | wake =>
      simp only [syncCallStep]
      split_ifs <;> rfl
    | expire escapes =>
      simp only [syncCallStep, rejectedEvent_withUrl]
      split_ifs <;> rfl
    | _ => rfl
  | inNext => cases action <;> rfl
  | finished ending => cases action <;> rfl

/-- The async bulkhead emits the same for URLs that are redacted alike. -/
theorem asyncBulkhead_emissions {lib : UrlLibrary}
    (hf : ∀ url, redactUrl lib (f url).toList = redactUrl lib url.toList) (cfg : Config)
    (request : CallId → Request) (channels : Channels) (actions : List (CallId × AsyncAction)) :
    emissions lib channels (asyncBulkhead cfg fun c => (request c).withUrl f) id actions =
      emissions lib channels (asyncBulkhead cfg request) id actions := by
  have hstep (s : Shared AsyncState CallId CallPhase) (a : CallId × AsyncAction) :
      (asyncBulkhead cfg fun c => (request c).withUrl f).step s a =
        ((asyncBulkhead cfg request).step s a).map fun r => (r.1.map (Event.withUrl f), r.2) := by
    simp only [asyncBulkhead, Shared.machine, asyncCallStep_withUrl, Option.map_map]
    rfl
  exact emissions_eq_of_actions hf (asyncBulkhead cfg request)
    (asyncBulkhead cfg fun c => (request c).withUrl f) id (List.map (Event.withUrl f)) id rfl hstep
    (fun _ => rfl) channels actions

/-- So does the sync bulkhead. -/
theorem bulkhead_emissions {lib : UrlLibrary}
    (hf : ∀ url, redactUrl lib (f url).toList = redactUrl lib url.toList) (cfg : Config)
    (request : CallId → Request) (channels : Channels) (actions : List (CallId × SyncAction)) :
    emissions lib channels (bulkhead cfg fun c => (request c).withUrl f) id actions =
      emissions lib channels (bulkhead cfg request) id actions := by
  have hstep (s : Shared ℤ CallId CallPhase) (a : CallId × SyncAction) :
      (bulkhead cfg fun c => (request c).withUrl f).step s a =
        ((bulkhead cfg request).step s a).map fun r => (r.1.map (Event.withUrl f), r.2) := by
    simp only [bulkhead, Shared.machine, syncCallStep_withUrl, Option.map_map]
    rfl
  exact emissions_eq_of_actions hf (bulkhead cfg request)
    (bulkhead cfg fun c => (request c).withUrl f) id (List.map (Event.withUrl f)) id rfl hstep
    (fun _ => rfl) channels actions

end Bulkhead

/-! ## Deadlines -/

namespace AsyncTimeout

variable {f : String → String}

/-- The block with the URL of its request replaced. -/
def Block.withUrl (f : String → String) (l : Block) : Block :=
  { l with request := l.request.withUrl f }

/-- The task with the URLs of its blocks replaced. -/
def Task.withUrl (f : String → String) (s : Task) : Task :=
  { s with blocks := s.blocks.map (Block.withUrl f) }

/-- The action with the URL of its request replaced. -/
def Action.withUrl (f : String → String) : Action → Action
  | .enter cfg request => .enter cfg (request.withUrl f)
  | a => a

/-- The `except` clause writes the URL on its event. -/
theorem exceptClause_withUrl (kinds : Kinds) (l : Block) (escapes : Option Exc) (ending : Ending) :
    (l.withUrl f).exceptClause kinds escapes ending =
      Prod.map (List.map (Event.withUrl f)) id (l.exceptClause kinds escapes ending) := by
  have hevent : exceededEvent l.cfg (l.request.withUrl f) =
      (exceededEvent l.cfg l.request).withUrl f := by
    have hbefore : ∀ x ∈ [("timeout", AttributeValue.number l.cfg.timeout),
        ("method", .text l.request.method)], x.1 ≠ "url" := by simp
    exact (Event.withUrl_eq f _ _ _ hbefore _ _).symm
  simp only [Block.exceptClause, Block.withUrl, hevent]
  split_ifs <;> rfl

/-- A deadline expires for any URL. -/
theorem expireAt_withUrl (i : ℕ) (blocks : List Block) :
    expireAt i (blocks.map (Block.withUrl f)) =
      (expireAt i blocks).map (List.map (Block.withUrl f)) := by
  induction blocks generalizing i with
  | nil => cases i <;> rfl
  | cons l ls ih =>
    cases i with
    | zero =>
      have hexpiring : (l.withUrl f).expiring = l.expiring := rfl
      rw [List.map_cons, expireAt, expireAt, hexpiring]
      split_ifs <;> rfl
    | succ i =>
      rw [List.map_cons, expireAt, expireAt, ih, Option.map_map, Option.map_map]
      rfl

/-- A step of a task writes the URLs on its events. -/
theorem taskStep_withUrl (kinds : Kinds) (s : Task) (a : Action) :
    taskStep kinds (s.withUrl f) (a.withUrl f) =
      (taskStep kinds s a).map fun r => (r.1.map (Event.withUrl f), r.2.withUrl f) := by
  obtain ⟨cancelling, blocks, control⟩ := s
  cases a with
  | enter cfg request => cases control <;> rfl
  | expire i =>
    simp only [Action.withUrl, taskStep, Task.withUrl, expireAt_withUrl, Option.map_map]
    rfl
  | cancel =>
    simp only [Action.withUrl, taskStep, Task.withUrl, List.map_map, Option.map_some]
    rfl
  | finish ending => cases control <;> rfl
  | leave escapes =>
    cases blocks with
    | nil => rfl
    | cons l ls =>
      cases control with
      | running => rfl
      | leaving ending =>
        have haexit : (l.withUrl f).aexit kinds cancelling ending = l.aexit kinds cancelling ending :=
          rfl
        simp only [Action.withUrl, taskStep, Task.withUrl, List.map_cons, haexit,
          exceptClause_withUrl, Option.map_some]
        rfl
  | resume => cases control <;> rfl

/-- A task emits the same for URLs that are redacted alike. -/
theorem task_emissions {lib : UrlLibrary}
    (hf : ∀ url, redactUrl lib (f url).toList = redactUrl lib url.toList) (kinds : Kinds)
    (channels : Channels) (actions : List Action) :
    emissions lib channels (task kinds) id (actions.map (Action.withUrl f)) =
      emissions lib channels (task kinds) id actions :=
  emissions_eq hf (task kinds) (task kinds) (Task.withUrl f) (Action.withUrl f)
    (List.map (Event.withUrl f)) id rfl (taskStep_withUrl kinds) (fun _ => rfl) channels actions

/-- The same action, on requests that differ in the secrets of their URL only. -/
def Action.SameButSecrets (lib : UrlLibrary) (a a' : Action) : Prop :=
  a = a' ∨ ∃ cfg request request', Httpware.SameButSecrets lib request request' ∧
    a = .enter cfg request ∧ a' = .enter cfg request'

/-- With one URL for all that are redacted alike they are one action. -/
theorem Action.SameButSecrets.withUrl_eq {lib : UrlLibrary} (hlib : lib.KeepsReservedOut)
    {a a' : Action} (h : a.SameButSecrets lib a') :
    a.withUrl (canonicalUrl lib) = a'.withUrl (canonicalUrl lib) := by
  obtain rfl | ⟨cfg, request, request', hsame, rfl, rfl⟩ := h
  · rfl
  · exact congrArg (Action.enter cfg) (hsame.withUrl_eq hlib)

end AsyncTimeout

/-! ## What a program shows -/

/-- What a family of machines emits for requests depends on their URLs by what `redact_url` makes of
them, so two programs whose requests differ in secrets emit the same. -/
theorem emissions_congr {σ α ω : Type*} {lib : UrlLibrary} (hlib : lib.KeepsReservedOut)
    {M : (CallId → Request) → Machine σ α ω} {emitted : ω → List Event} {channels : Channels}
    {actions : List α}
    (hM : ∀ request, emissions lib channels (M fun c => (request c).withUrl (canonicalUrl lib))
      emitted actions = emissions lib channels (M request) emitted actions)
    {request request' : CallId → Request} (h : ∀ c, SameButSecrets lib (request c) (request' c)) :
    emissions lib channels (M request) emitted actions =
      emissions lib channels (M request') emitted actions := by
  have hsame : (fun c => (request c).withUrl (canonicalUrl lib)) =
      fun c => (request' c).withUrl (canonicalUrl lib) := funext fun c => (h c).withUrl_eq hlib
  rw [← hM request, hsame, hM request']

/-- Over any order of steps of any number of calls, what circuit breakers, keyed circuit breakers whose
keys are not taken from the text of the URL, retry middleware, bulkheads and deadlines log and record
says nothing of the secrets in the URLs of the requests: with other userinfo and other values of the
parameters every step is taken or refused as before, and emits the same. -/
theorem emissions_public {κ : Type*} [DecidableEq κ] {lib : UrlLibrary} (hlib : lib.KeepsReservedOut)
    (channels : Channels) {request request' : CallId → Request}
    (h : ∀ c, SameButSecrets lib (request c) (request' c)) :
    (∀ cfg actions,
      emissions lib channels (CircuitBreakerState.calls cfg request)
          CircuitBreakerState.Shown.emitted actions =
        emissions lib channels (CircuitBreakerState.calls cfg request')
          CircuitBreakerState.Shown.emitted actions) ∧
    (∀ cfg (keys : KeyedStates.KeyFunction κ) actions, keys.IgnoresText →
      emissions lib channels (KeyedStates.keyedCalls cfg keys request)
          KeyedStates.KeyedShown.emitted actions =
        emissions lib channels (KeyedStates.keyedCalls cfg keys request')
          KeyedStates.KeyedShown.emitted actions) ∧
    (∀ cfg httpDate policy actions,
      emissions lib channels (retryCalls cfg httpDate policy request) RetryOutput.emitted actions =
        emissions lib channels (retryCalls cfg httpDate policy request') RetryOutput.emitted
          actions) ∧
    (∀ cfg actions,
      emissions lib channels (Bulkhead.asyncBulkhead cfg request) id actions =
        emissions lib channels (Bulkhead.asyncBulkhead cfg request') id actions) ∧
    (∀ cfg actions,
      emissions lib channels (Bulkhead.bulkhead cfg request) id actions =
        emissions lib channels (Bulkhead.bulkhead cfg request') id actions) ∧
    (∀ kinds actions actions',
      List.Forall₂ (AsyncTimeout.Action.SameButSecrets lib) actions actions' →
      emissions lib channels (AsyncTimeout.task kinds) id actions =
        emissions lib channels (AsyncTimeout.task kinds) id actions') := by
  have hf := redactUrl_canonicalUrl lib
  refine ⟨fun cfg actions => ?_, fun cfg keys actions hkeys => ?_,
    fun cfg httpDate policy actions => ?_, fun cfg actions => ?_, fun cfg actions => ?_,
    fun kinds actions actions' hsame => ?_⟩
  · exact emissions_congr hlib (fun request => CircuitBreakerState.calls_emissions hf cfg request
      channels actions) h
  · exact emissions_congr hlib (fun request => KeyedStates.keyedCalls_emissions hf hkeys cfg request
      channels actions) h
  · exact emissions_congr hlib (fun request => retryCalls_emissions hf cfg httpDate policy request
      channels actions) h
  · exact emissions_congr hlib (fun request => Bulkhead.asyncBulkhead_emissions hf cfg request
      channels actions) h
  · exact emissions_congr hlib (fun request => Bulkhead.bulkhead_emissions hf cfg request
      channels actions) h
  · have hmap : actions.map (AsyncTimeout.Action.withUrl (canonicalUrl lib)) =
        actions'.map (AsyncTimeout.Action.withUrl (canonicalUrl lib)) := by
      induction hsame with
      | nil => rfl
      | cons ha _ ih => rw [List.map_cons, List.map_cons, ha.withUrl_eq hlib, ih]
    rw [← AsyncTimeout.task_emissions hf kinds channels actions, hmap,
      AsyncTimeout.task_emissions hf kinds channels actions']

/-- A logger without handlers, and no spans. -/
def quiet : Channels where
  log _ := none
  addEvent := none
  isException _ := true

/-- A request with a user, a password and a parameter. -/
def loginRequest : Request where
  method := "GET"
  url := ⟨"https", "h", none, "h", String.ofList SecretUrl.loginUrl.text⟩

/-- The same request with other secrets. -/
def otherLoginRequest : Request :=
  loginRequest.withUrl fun _ => String.ofList SecretUrl.otherLoginUrl.text

/-- They differ in their secrets only. -/
theorem login_sameButSecrets : SameButSecrets UrlLibrary.ascii loginRequest otherLoginRequest :=
  ⟨SecretUrl.loginUrl, SecretUrl.otherLoginUrl, rfl, by decide, rfl, rfl⟩

/-- A call whose deadline expires. -/
def exceeded (request : Request) : List AsyncTimeout.Action :=
  [.enter AsyncTimeout.second request, .expire 0, .finish (.raised (.other "CancelledError")),
    .leave none]

/-- The event of the expired deadline is the same for both, and so is all that the breakers by origin
emit. -/
theorem emissions_public_login :
    (emissions UrlLibrary.ascii quiet (AsyncTimeout.task AsyncTimeout.standardKinds) id
        (exceeded loginRequest)).isSome = true ∧
      emissions UrlLibrary.ascii quiet (AsyncTimeout.task AsyncTimeout.standardKinds) id
          (exceeded loginRequest) =
        emissions UrlLibrary.ascii quiet (AsyncTimeout.task AsyncTimeout.standardKinds) id
          (exceeded otherLoginRequest) ∧
      ∀ cfg actions,
        emissions UrlLibrary.ascii quiet (KeyedStates.keyedCalls cfg KeyedStates.byOrigin fun _ =>
            loginRequest) KeyedStates.KeyedShown.emitted actions =
          emissions UrlLibrary.ascii quiet (KeyedStates.keyedCalls cfg KeyedStates.byOrigin fun _ =>
            otherLoginRequest) KeyedStates.KeyedShown.emitted actions := by
  obtain ⟨-, hkeyed, -, -, -, hdeadline⟩ := @emissions_public (String × String × Option ℤ) _
    UrlLibrary.ascii UrlLibrary.ascii_keepsReservedOut quiet _ _ fun _ => login_sameButSecrets
  refine ⟨rfl, ?_, fun cfg actions => hkeyed cfg _ actions KeyedStates.byOrigin_ignoresText⟩
  apply hdeadline
  exact .cons (.inr ⟨_, _, _, login_sameButSecrets, rfl, rfl⟩)
    (.cons (.inl rfl) (.cons (.inl rfl) (.cons (.inl rfl) .nil)))

end Httpware
