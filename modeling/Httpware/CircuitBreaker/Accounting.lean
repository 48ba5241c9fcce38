import Httpware.CircuitBreaker.Tickets

/-!
# The events account for what happened

`Episode.ofRun` counts from the outside: the rejected admissions of the current outage episode and its
emitted `circuit.rejected` events, each with the time of its decision and its `suppressed` attribute.
An episode begins with a change from CLOSED to OPEN and with nothing else. `Accounts` says that the
three counters of the circuit agree with this account, and every critical section keeps it.
`HandsOut` says which events a step hands to its call. `events_account` is both, for every run and its
next step.
-/

namespace Httpware.CircuitBreakerState

open Python (Error Number)

/-! ## The account of an episode -/

/-- An outage episode: the state of the circuit, the number of rejected admissions, and the time and
the `suppressed` attribute of each emitted rejection, in order. -/
structure Episode where
  state : CircuitState
  rejected : ℕ
  emitted : List (ℚ × ℤ)

/-- The `suppressed` attribute of an emitted rejection. -/
def suppressedOf (e : Event) : Option ℤ :=
  if e.name = "circuit.rejected" then
    match e.get "suppressed" with
    | some (.int n) => some n
    | _ => none
  else none

namespace Episode

/-- Before the first episode. -/
def none : Episode := ⟨.CLOSED, 0, []⟩

/-- The account after one more step: a change from CLOSED to OPEN begins an episode, and a rejected
admission counts in the current one. -/
def record (ep : Episode) : (CallId × CallAction) × Shown → Episode
  | ((_, action), shown) =>
    if ep.state = .CLOSED ∧ shown.state = .OPEN then ⟨.OPEN, 0, []⟩
    else
      match action, shown.result with
      | .admitCall now, .rejected _ =>
        ⟨shown.state, ep.rejected + 1,
          ep.emitted ++ (shown.events.filterMap suppressedOf).map fun n => (now, n)⟩
      | _, _ => { ep with state := shown.state }

/-- The account of the last episode of a run. -/
def ofRun (run : List ((CallId × CallAction) × Shown)) : Episode := run.foldl record none

/-- The account of a longer run. -/
theorem ofRun_snoc (run : List ((CallId × CallAction) × Shown))
    (x : (CallId × CallAction) × Shown) : ofRun (run ++ [x]) = (ofRun run).record x := by
  simp [ofRun]

/-- The sum of the `suppressed` attributes. -/
def suppressed (ep : Episode) : ℤ := (ep.emitted.map Prod.snd).sum

/-- The counters of a circuit agree with the account of its episode. -/
structure Accounts (ep : Episode) (st : CircuitBreakerState) : Prop where
  /-- The account is of the circuit's state. -/
  state : ep.state = st.state
  /-- The circuit counts every rejected admission. -/
  total : st.episodeRejections = ep.rejected
  /-- Each is emitted, counted as suppressed in an emitted one, or pending. -/
  balance : (ep.rejected : ℤ) = ep.emitted.length + ep.suppressed + st.rejectionsSuppressed
  /-- The first rejection is emitted. -/
  first : 0 < ep.rejected → ep.emitted ≠ []
  /-- Nothing is suppressed before it. -/
  head : ∀ x ∈ ep.emitted.head?, x.2 = 0
  /-- Any two emitted rejections are decided at least a second apart. -/
  spaced : ep.emitted.Pairwise fun a b => a.1 + 1 ≤ b.1
  /-- The circuit remembers when it emitted the last one. -/
  last : (ep.emitted = [] ∧ st.rejectedEmittedAt = .negInf) ∨
    ∃ earlier now n, ep.emitted = earlier ++ [(now, n)] ∧ st.rejectedEmittedAt = .finite now

end Episode

section Accounts

variable {cfg : Config} {st st' : CircuitBreakerState} {request : Request} {ep : Episode}

/-- The event of a rejection shows what it suppressed. -/
theorem suppressedOf_rejectedEvent (message : String) (retryAfter : Option Number) (n : ℤ) :
    suppressedOf (rejectedEvent cfg request message retryAfter n) = some n := by
  have hget : (rejectedEvent cfg request message retryAfter n).get "suppressed" =
      some (.int n) := by
    simp [rejectedEvent, makeEvent, Event.get, List.lookup_cons]
  unfold suppressedOf
  rw [hget]
  rfl

namespace Episode.Accounts

/-- Only some fields matter. -/
theorem of_fields (h : ep.Accounts st) {state : CircuitState} (hstate : st'.state = state)
    (htotal : st'.episodeRejections = st.episodeRejections)
    (hpending : st'.rejectionsSuppressed = st.rejectionsSuppressed)
    (hlast : st'.rejectedEmittedAt = st.rejectedEmittedAt) :
    Accounts { ep with state } st' where
  state := hstate.symm
  total := htotal.trans h.total
  balance := by rw [hpending]; exact h.balance
  first := h.first
  head := h.head
  spaced := h.spaced
  last := by rw [hlast]; exact h.last

/-- Every emitted rejection is a second before any time that is a second after the last one. -/
theorem spaced_of_last {emitted earlier : List (ℚ × ℤ)} {now t : ℚ} {n : ℤ}
    (hspaced : emitted.Pairwise fun a b => a.1 + 1 ≤ b.1) (hlast : emitted = earlier ++ [(t, n)])
    (hlate : t + 1 ≤ now) : ∀ a ∈ emitted, a.1 + 1 ≤ now := by
  subst hlast
  intro a ha
  rcases List.mem_append.mp ha with ha | ha
  · have hbefore : a.1 + 1 ≤ t :=
      (List.pairwise_append.mp hspaced).2.2 a ha (t, n) (List.mem_singleton_self _)
    linarith
  · rw [List.mem_singleton.mp ha]
    exact hlate

/-- A rejection is accounted for. -/
theorem rejects (h : ep.Accounts st) {now : ℚ} {retryAfter : Option Number} {message : String}
    {events : Option (List Event)}
    (hreject : Rejects cfg st request now retryAfter message events st') :
    Accounts ⟨st'.state, ep.rejected + 1, ep.emitted ++
      ((events.getD []).filterMap suppressedOf).map fun n => (now, n)⟩ st' := by
  have hbalance := h.balance
  unfold suppressed at hbalance
  cases hreject with
  | suppressed hsoon =>
    -- Within a second of an emitted one, which is there.
    have hemitted : ep.emitted ≠ [] := by
      rintro hnil
      rcases h.last with ⟨-, hlast⟩ | ⟨_, _, _, hsome, -⟩
      · rw [hlast, Number.finite_sub_negInf] at hsoon
        exact Number.not_posInf_lt _ hsoon
      · simp [hnil] at hsome
    simp only [Option.getD_none, List.filterMap_nil, List.map_nil, List.append_nil]
    refine ⟨rfl, ?_, ?_, fun _ => hemitted, h.head, h.spaced, h.last⟩
    · dsimp only
      rw [h.total]
      push_cast
      rfl
    · dsimp only [suppressed]
      push_cast
      omega
  | emitted hlate =>
    simp only [Option.getD_some, List.filterMap_cons, suppressedOf_rejectedEvent,
      List.filterMap_nil, List.map_cons, List.map_nil]
    refine ⟨rfl, ?_, ?_, by simp, ?_, ?_, .inr ⟨ep.emitted, now, _, rfl, rfl⟩⟩
    · dsimp only
      rw [h.total]
      push_cast
      rfl
    · simp only [suppressed, List.map_append, List.map_cons, List.map_nil, List.sum_append,
        List.sum_singleton, List.length_append, List.length_singleton]
      push_cast
      omega
    · -- The first rejection of the episode finds nothing suppressed.
      intro x hx
      rcases List.eq_nil_or_concat' ep.emitted with hnil | ⟨earlier, y, hsome⟩
      · have hzero : ep.rejected = 0 := by
          by_contra hne
          exact h.first (Nat.pos_of_ne_zero hne) hnil
        rw [hnil, List.nil_append, List.head?_cons, Option.mem_some_iff] at hx
        rw [hnil, hzero] at hbalance
        rw [← hx]
        simpa using hbalance.symm
      · refine h.head x ?_
        rwa [List.head?_append_of_ne_nil _ (by simp [hsome])] at hx
    · refine List.pairwise_append.mpr ⟨h.spaced, List.pairwise_singleton _ _, fun a ha b hb => ?_⟩
      rw [List.mem_singleton.mp hb]
      rcases h.last with ⟨hnil, -⟩ | ⟨earlier, t, n, hsome, hlast⟩
      · rw [hnil] at ha
        cases ha
      · rw [hlast, Number.finite_sub_finite, Number.finite_lt_finite, not_lt] at hlate
        exact spaced_of_last h.spaced hsome (by linarith) a ha

/-- A new episode begins with nothing. -/
theorem opened (hstate : st'.state = .OPEN) (htotal : st'.episodeRejections = 0)
    (hpending : st'.rejectionsSuppressed = 0) (hlast : st'.rejectedEmittedAt = .negInf) :
    Accounts ⟨.OPEN, 0, []⟩ st' where
  state := hstate.symm
  total := htotal
  balance := by simp [suppressed, hpending]
  first := nofun
  head := nofun
  spaced := List.Pairwise.nil
  last := .inl ⟨rfl, hlast⟩

/-- A step that rejects nobody and does not begin an episode. -/
theorem other (h : ep.Accounts st) {x : (CallId × CallAction) × Shown}
    (hbegin : ¬ (st.state = .CLOSED ∧ x.2.state = .OPEN))
    (hresult : ∀ retryAfter, x.2.result ≠ .rejected retryAfter) (hstate : st'.state = x.2.state)
    (htotal : st'.episodeRejections = st.episodeRejections)
    (hpending : st'.rejectionsSuppressed = st.rejectionsSuppressed)
    (hlast : st'.rejectedEmittedAt = st.rejectedEmittedAt) : (ep.record x).Accounts st' := by
  have hrecord : ep.record x = { ep with state := x.2.state } := by
    obtain ⟨⟨c, action⟩, result, events, state⟩ := x
    unfold record
    dsimp only at hbegin ⊢
    rw [if_neg (by rw [h.state]; exact hbegin)]
    cases action with
    | admitCall now =>
      cases result with
      | rejected retryAfter => exact absurd rfl (hresult retryAfter)
      | _ => rfl
    | _ => rfl
  rw [hrecord]
  exact h.of_fields hstate htotal hpending hlast

/-- A change from CLOSED to OPEN begins an episode. -/
theorem begins (h : ep.Accounts st) {x : (CallId × CallAction) × Shown} {now : ℚ}
    (hclosed : st.state = .CLOSED) (hopen : x.2.state = .OPEN) :
    (ep.record x).Accounts (st.afterOpen now) := by
  obtain ⟨⟨c, action⟩, shown⟩ := x
  unfold record
  dsimp only at hopen ⊢
  rw [if_pos ⟨h.state.trans hclosed, hopen⟩]
  exact opened rfl (if_pos hclosed) (if_pos hclosed) (if_pos hclosed)

/-- A state that stays does not go from CLOSED to OPEN. -/
theorem not_begins (state : CircuitState) : ¬ (state = .CLOSED ∧ state = .OPEN) := by
  rintro ⟨rfl, hopen⟩
  cases hopen

/-- Every record is accounted for. -/
theorem recorded (h : ep.Accounts st) {clock : Readings} {ticket : ℤ} {outcome : Outcome}
    {events : Option (List Event)} {c : CallId} {ending : Ending}
    (hclosed : ticket = st.epoch → st.state = .CLOSED)
    (hhalfOpen : ticket = st.epoch + 1 → st.state = .HALF_OPEN)
    (hrecord : Records cfg st request clock ticket outcome events st') :
    (ep.record ((c, .finish ending clock),
      ⟨.recorded outcome, events.getD [], st'.state⟩)).Accounts st' := by
  cases hrecord with
  | tripped _ _ => exact h.begins (hclosed rfl) rfl
  | @rateTripped _ _ _ window' _ _ _ _ _ _ _ _ _ =>
    have hwindow : ep.Accounts { st with window := some window' } :=
      h.of_fields h.state.symm rfl rfl rfl
    exact hwindow.begins (hclosed rfl) rfl
  | probeClosed _ => exact h.other (fun hp => nomatch hp.2) nofun rfl rfl rfl rfl
  | probeFailed =>
    -- A reopening continues the episode.
    have hne : st.state ≠ .CLOSED := by
      rw [hhalfOpen rfl]
      exact nofun
    exact h.other (fun hp => hne hp.1) nofun rfl (if_neg hne) (if_neg hne) (if_neg hne)
  | _ => exact h.other (not_begins _) nofun rfl rfl rfl rfl

/-- Every step of a call is accounted for. -/
theorem step {phases : CallId → CallPhase} {c : CallId} {phase' : CallPhase} {action : CallAction}
    {o : Shown} (h : ep.Accounts st) (ht : Tickets cfg st fun c => (phases c).unrecorded)
    (hstep : CallSteps cfg request st (phases c) action o st' phase') :
    (ep.record ((c, action), o)).Accounts st' := by
  generalize hbefore : phases c = before at hstep
  cases hstep with
  | admitted hadmission =>
    cases hadmission with
    | closed _ => exact h.other (not_begins _) nofun rfl rfl rfl rfl
    | probe _ _ _ => exact h.other (not_begins _) nofun rfl rfl rfl rfl
  | halfOpened hadmission =>
    cases hadmission with
    | halfOpened _ _ _ => exact h.other (fun hp => nomatch hp.2) nofun rfl rfl rfl rfl
  | rejected hadmission =>
    -- A rejection is counted in the episode, whether it is emitted or suppressed.
    have hrejects : ∀ {now retryAfter message events st'},
        Rejects cfg st request now retryAfter message events st' →
          (ep.record ((c, .admitCall now),
            ⟨.rejected retryAfter, events.getD [], st'.state⟩)).Accounts st' := by
      intro now retryAfter message events st' hreject
      have hstate : st'.state = st.state := by cases hreject <;> rfl
      unfold record
      dsimp only
      rw [if_neg (by rw [h.state, hstate]; exact not_begins _)]
      exact h.rejects hreject
    cases hadmission with
    | rejectedOpen _ _ _ hreject => exact hrejects hreject
    | rejectedProbe _ _ _ hreject => exact hrejects hreject
  | recorded hrecord =>
    -- The ticket says in which state the call was admitted.
    refine h.recorded (fun hticket => ht.closed c ?_) (fun hticket => ht.halfOpen c ?_) hrecord
    · rw [hbefore, ← hticket]
      rfl
    · rw [hbefore, ← hticket]
      rfl
  | _ => exact h.other (not_begins _) nofun rfl rfl rfl rfl

end Episode.Accounts

end Accounts

/-! ## The events that a step hands out -/

/-- The name of the event of a change to a state. -/
def changeName : CircuitState → String
  | .CLOSED => "circuit.closed"
  | .OPEN => "circuit.opened"
  | .HALF_OPEN => "circuit.half_open"

/-- The action is one of the two critical sections. -/
def CallAction.isSection : CallAction → Bool
  | admitCall _ => true
  | finish _ _ => true
  | _ => false

/-- What a step of call `c` does with events. -/
structure HandsOut (cfg : Config) (request : CallId → Request) (ep : Episode) (s s' : System)
    (c : CallId) (action : CallAction) (o : Shown) : Prop where
  /-- A state change queues exactly one event, its own. -/
  change : s'.circuit.state ≠ s.circuit.state →
    ∃ e, o.events = [e] ∧ e.name = changeName s'.circuit.state
  /-- Without a state change, only a rejection queues an event, and at most one. -/
  same : s'.circuit.state = s.circuit.state → o.events = [] ∨
    ∃ e retryAfter, o.events = [e] ∧ e.name = "circuit.rejected" ∧ o.result = .rejected retryAfter
  /-- A critical section hands all the events that it queued to its own call. -/
  handed : action.isSection = true → (s'.calls c).handed = o.events
  /-- Nothing else hands out events. -/
  silent : action.isSection = false → o.events = []
  /-- The call emits what it was handed, once. -/
  emitted : ∀ escapes, action = .emit escapes →
    o.result = .emitted (s.calls c).handed ∧ (s'.calls c).handed = []
  /-- No other call is handed anything. -/
  others : ∀ d, d ≠ c → s'.calls d = s.calls d
  /-- The close reports the rejections of the episode. -/
  closed : s'.circuit.state = .CLOSED → s.circuit.state ≠ .CLOSED →
    o.events = [closedEvent cfg (request c) ep.rejected]

section HandsOut

variable {cfg : Config} {request : CallId → Request} {ep : Episode} {s : System} {c : CallId}
  {st' : CircuitBreakerState} {phase : CallPhase} {o : Shown}

/-- A step that queues nothing and leaves the state as it is. -/
theorem HandsOut.of_none {action : CallAction} (hstate : st'.state = s.circuit.state)
    (hevents : o.events = []) (hhanded : action.isSection = true → phase.handed = [])
    (hemitted : ∀ escapes, action = .emit escapes →
      o.result = .emitted (s.calls c).handed ∧ phase.handed = []) :
    HandsOut cfg request ep s ⟨st', Function.update s.calls c phase⟩ c action o where
  change hne := absurd hstate hne
  same _ := .inl hevents
  handed hsection := by
    rw [hevents]
    simpa using hhanded hsection
  silent _ := hevents
  emitted escapes haction := by simpa using hemitted escapes haction
  others d hd := Function.update_of_ne hd _ _
  closed hclosed hne := absurd (hstate.symm.trans hclosed) hne

/-- A critical section that hands out one event. -/
theorem HandsOut.of_some {action : CallAction} {e : Event} (hsection : action.isSection = true)
    (hevents : o.events = [e]) (hhanded : phase.handed = [e])
    (hchange : st'.state ≠ s.circuit.state → e.name = changeName st'.state)
    (hsame : st'.state = s.circuit.state →
      e.name = "circuit.rejected" ∧ ∃ retryAfter, o.result = .rejected retryAfter)
    (hclosed : st'.state = .CLOSED → s.circuit.state ≠ .CLOSED →
      e = closedEvent cfg (request c) ep.rejected) :
    HandsOut cfg request ep s ⟨st', Function.update s.calls c phase⟩ c action o where
  change hne := ⟨e, hevents, hchange hne⟩
  same hstate := by
    obtain ⟨hname, retryAfter, hresult⟩ := hsame hstate
    exact .inr ⟨e, retryAfter, hevents, hname, hresult⟩
  handed _ := by
    rw [hevents]
    simpa using hhanded
  silent hno := by
    rw [hsection] at hno
    cases hno
  emitted escapes haction := by
    rw [haction] at hsection
    cases hsection
  others d hd := Function.update_of_ne hd _ _
  closed hclosed' hne := by rw [hevents, hclosed hclosed' hne]

/-- A critical section that changes the state hands out the event of the change. -/
theorem HandsOut.of_change {action : CallAction} {e : Event} {before : CircuitState}
    (hsection : action.isSection = true) (hevents : o.events = [e]) (hhanded : phase.handed = [e])
    (hname : e.name = changeName st'.state) (hbefore : s.circuit.state = before)
    (hne : st'.state ≠ before)
    (hclosed : st'.state = .CLOSED → s.circuit.state ≠ .CLOSED →
      e = closedEvent cfg (request c) ep.rejected) :
    HandsOut cfg request ep s ⟨st', Function.update s.calls c phase⟩ c action o :=
  .of_some hsection hevents hhanded (fun _ => hname)
    (fun hsame => absurd (hsame.trans hbefore) hne) hclosed

/-- A rejection hands out its event or nothing. -/
theorem HandsOut.of_rejects {now : ℚ} {retryAfter : Option Number} {message : String}
    {events : Option (List Event)}
    (hreject : Rejects cfg s.circuit (request c) now retryAfter message events st') :
    HandsOut cfg request ep s
      ⟨st', Function.update s.calls c (afterSection events (.emittingRejection retryAfter)
        (.finished (.rejected retryAfter)))⟩ c (.admitCall now)
      ⟨.rejected retryAfter, events.getD [], st'.state⟩ := by
  cases hreject with
  | suppressed _ => exact .of_none rfl rfl (fun _ => rfl) nofun
  | emitted _ =>
    exact .of_some rfl rfl rfl (fun hne => absurd rfl hne) (fun _ => ⟨rfl, _, rfl⟩)
      fun hclosed hne => absurd hclosed hne

/-- A record hands out the event of its state change, or nothing. -/
theorem HandsOut.of_records {clock : Readings} {ticket : ℤ} {outcome : Outcome}
    {events : Option (List Event)} {ending : Ending} (hep : ep.Accounts s.circuit)
    (hclosed : ticket = s.circuit.epoch → s.circuit.state = .CLOSED)
    (hhalfOpen : ticket = s.circuit.epoch + 1 → s.circuit.state = .HALF_OPEN)
    (hrecord : Records cfg s.circuit (request c) clock ticket outcome events st') :
    HandsOut cfg request ep s
      ⟨st', Function.update s.calls c
        (afterSection events (.emittingRecord ending) (.finished (.next ending)))⟩ c
      (.finish ending clock) ⟨.recorded outcome, events.getD [], st'.state⟩ := by
  -- Only the records that change the state hand out an event.
  cases hrecord with
  | tripped _ _ => exact .of_change rfl rfl rfl rfl (hclosed rfl) nofun nofun
  | rateTripped _ _ _ _ _ => exact .of_change rfl rfl rfl rfl (hclosed rfl) nofun nofun
  | probeClosed _ =>
    exact .of_change rfl rfl rfl rfl (hhalfOpen rfl) nofun fun _ _ => by rw [hep.total]
  | probeFailed => exact .of_change rfl rfl rfl rfl (hhalfOpen rfl) nofun nofun
  | _ => exact .of_none rfl rfl (fun _ => rfl) nofun

/-- Every step of a call hands out the events of what it did. -/
theorem HandsOut.of_step {action : CallAction} (hep : ep.Accounts s.circuit)
    (ht : Tickets cfg s.circuit fun c => (s.calls c).unrecorded)
    (hstep : CallSteps cfg (request c) s.circuit (s.calls c) action o st' phase) :
    HandsOut cfg request ep s ⟨st', Function.update s.calls c phase⟩ c action o := by
  generalize hbefore : s.calls c = before at hstep
  cases hstep with
  | readTicket _ => exact .of_none rfl rfl nofun nofun
  | readNone _ => exact .of_none rfl rfl nofun nofun
  | admitted hadmission =>
    cases hadmission with
    | closed _ => exact .of_none rfl rfl (fun _ => rfl) nofun
    | probe _ _ _ => exact .of_none rfl rfl (fun _ => rfl) nofun
  | halfOpened hadmission =>
    cases hadmission with
    | halfOpened _ hopen _ => exact .of_change rfl rfl rfl rfl hopen nofun nofun
  | rejected hadmission =>
    cases hadmission with
    | rejectedOpen _ _ _ hreject => exact .of_rejects hreject
    | rejectedProbe _ _ _ hreject => exact .of_rejects hreject
  | recorded hrecord =>
    refine .of_records hep (fun hticket => ht.closed c ?_) (fun hticket => ht.halfOpen c ?_) hrecord
    · rw [hbefore, ← hticket]
      rfl
    · rw [hbefore, ← hticket]
      rfl
  | failed _ => exact .of_none rfl rfl (fun _ => rfl) nofun
  | @emittedHalfOpen _ _ escapes =>
    refine .of_none rfl rfl nofun fun _ _ => ⟨by rw [hbefore]; rfl, ?_⟩
    cases escapes <;> rfl
  | @emittedRejection _ _ escapes =>
    exact .of_none rfl rfl nofun fun _ _ => ⟨by rw [hbefore]; rfl, rfl⟩
  | @emittedRecord _ _ escapes =>
    exact .of_none rfl rfl nofun fun _ _ => ⟨by rw [hbefore]; rfl, rfl⟩

end HandsOut

/-! ## Every run -/

variable {cfg : Config} {request : CallId → Request}
  {run : List ((CallId × CallAction) × Shown)} {s : System}

/-- The counters agree with the account after every run. -/
theorem accounts_of_runs (h : (calls cfg request).Runs run s) :
    (Episode.ofRun run).Accounts s.circuit := by
  refine h.invariant (I := fun run s => (Episode.ofRun run).Accounts s.circuit) ?_ ?_
  · exact ⟨rfl, rfl, rfl, nofun, nofun, List.Pairwise.nil, .inl ⟨rfl, rfl⟩⟩
  · rintro run s ⟨c, action⟩ o s' hrun ih hstep
    obtain ⟨st, phase, hcases, rfl⟩ := step_cases hrun hstep
    rw [Episode.ofRun_snoc]
    exact ih.step (tickets_of_runs hrun) hcases

/-- Breaker events account exactly for what happened. After every run the queue of events is empty and
the counters agree with the account of the episode, and every next step hands out exactly the events
of what it did, to its own call. -/
theorem events_account (h : (calls cfg request).Runs run s) :
    s.circuit.events = none ∧ (Episode.ofRun run).Accounts s.circuit ∧
      ∀ c action o s', (calls cfg request).step s (c, action) = some (o, s') →
        HandsOut cfg request (Episode.ofRun run) s s' c action o := by
  refine ⟨events_of_runs h, accounts_of_runs h, fun c action o s' hstep => ?_⟩
  obtain ⟨st, phase, hcases, rfl⟩ := step_cases h hstep
  exact .of_step (accounts_of_runs h) (tickets_of_runs h) hcases

/-- A third call, which arrives during the probe and emits its rejection. -/
def rejectedDuringProbe : List (CallId × CallAction) :=
  openThenProbe ++ [(2, .read), (2, .admitCall 0), (2, .emit false)]

/-- What these steps show. -/
def rejectedDuringProbeShown : List Shown :=
  let rejected := rejectedEvent hairTrigger getRequest
    "circuit half-open — rejecting request (probe in flight)" none 0
  openThenProbeShown ++ [⟨.read none, [], .HALF_OPEN⟩, ⟨.rejected none, [rejected], .HALF_OPEN⟩,
    ⟨.emitted [rejected], [], .HALF_OPEN⟩]

/-- After these steps the circuit has counted one rejection. -/
theorem events_account_rejection : ∃ s, (calls hairTrigger fun _ => getRequest).Runs
    (rejectedDuringProbe.zip rejectedDuringProbeShown) s ∧ s.circuit.episodeRejections = 1 := by
  obtain ⟨s, hrun, -⟩ := Machine.exists_runs_of_observe (calls hairTrigger fun _ => getRequest)
    (fun s => s.circuit.state) rejectedDuringProbe rejectedDuringProbeShown .HALF_OPEN
    (by decide +kernel)
  have hrejected : (Episode.ofRun
      (rejectedDuringProbe.zip rejectedDuringProbeShown)).rejected = 1 := by decide +kernel
  refine ⟨s, hrun, ?_⟩
  rw [(events_account hrun).2.1.total, hrejected]
  rfl

end Httpware.CircuitBreakerState
