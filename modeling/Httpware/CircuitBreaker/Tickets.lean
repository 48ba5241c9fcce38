import Httpware.CircuitBreaker.Calls

/-!
# Tickets and the probe slot

`Tickets` ties the fields of a circuit to the tickets of the calls whose outcome is not recorded
yet: tickets of the current epoch belong to CLOSED, the probe's ticket belongs to HALF_OPEN and to
one call at most, and the probe slot is taken exactly while a call has that ticket. Every critical
section keeps it (`Tickets.admits`, `Tickets.record`), so it holds after every run of interleaved
calls (`tickets_of_runs`), whatever the handlers do. `tickets_spec` reads it for runs in which no
handler raises: there the calls with an admission that is not recorded are the unfinished calls that
hold a ticket (`unrecorded_eq_holds`).
-/

namespace Httpware.CircuitBreakerState

open Python (Error Number)

/-- The fields of a circuit agree with the tickets of the calls that were admitted and whose outcome
has not been recorded. -/
structure Tickets (cfg : Config) (st : CircuitBreakerState) (unrecorded : CallId → Option ℤ) :
    Prop where
  /-- The unlocked read finds the epoch while CLOSED, and nothing otherwise. -/
  closedTicket : st.closedTicket = if st.state = .CLOSED then some st.epoch else none
  /-- No ticket is from a later epoch. -/
  le : ∀ c t, unrecorded c = some t → t ≤ st.epoch + 1
  /-- The epoch itself is the ticket of CLOSED. -/
  closed : ∀ c, unrecorded c = some st.epoch → st.state = .CLOSED
  /-- The probe's ticket is that of HALF_OPEN. -/
  halfOpen : ∀ c, unrecorded c = some (st.epoch + 1) → st.state = .HALF_OPEN
  /-- One call at most has the probe's ticket. -/
  unique : ∀ c d, unrecorded c = some (st.epoch + 1) → unrecorded d = some (st.epoch + 1) → c = d
  /-- The slot is taken exactly while a call has the probe's ticket. -/
  probe : st.probeInFlight = true ↔ ∃ c, unrecorded c = some (st.epoch + 1)
  /-- The failures in a row are below the threshold. -/
  failures : 0 ≤ st.consecutiveFailures ∧ st.consecutiveFailures < cfg.failureThreshold
  /-- The successes in a row are below the threshold. -/
  successes : 0 ≤ st.consecutiveSuccesses ∧ st.consecutiveSuccesses < cfg.successThreshold

namespace Tickets

variable {cfg : Config} {st st' : CircuitBreakerState} {unrecorded : CallId → Option ℤ}
  {request : Request} {c : CallId}

/-- A new circuit has no tickets out. -/
theorem init (cfg : Config) : Tickets cfg (init cfg) fun _ => none where
  closedTicket := rfl
  le := nofun
  closed := nofun
  halfOpen := nofun
  unique := nofun
  probe := iff_of_false Bool.false_ne_true (by simp)
  failures := by
    have := cfg.checks.1
    exact ⟨le_rfl, by change 0 < cfg.failureThreshold; omega⟩
  successes := by
    have := cfg.checks.2.2.1
    exact ⟨le_rfl, by change 0 < cfg.successThreshold; omega⟩

/-- Only some fields matter. -/
theorem of_fields (h : Tickets cfg st unrecorded) (hstate : st'.state = st.state)
    (hepoch : st'.epoch = st.epoch) (hclosed : st'.closedTicket = st.closedTicket)
    (hprobe : st'.probeInFlight = st.probeInFlight)
    (hfailures : 0 ≤ st'.consecutiveFailures ∧ st'.consecutiveFailures < cfg.failureThreshold)
    (hsuccesses : 0 ≤ st'.consecutiveSuccesses ∧ st'.consecutiveSuccesses < cfg.successThreshold) :
    Tickets cfg st' unrecorded where
  closedTicket := by rw [hclosed, hstate, hepoch, h.closedTicket]
  le := by rw [hepoch]; exact h.le
  closed := by rw [hepoch, hstate]; exact h.closed
  halfOpen := by rw [hepoch, hstate]; exact h.halfOpen
  unique := by rw [hepoch]; exact h.unique
  probe := by rw [hprobe, hepoch]; exact h.probe
  failures := hfailures
  successes := hsuccesses

/-- The slot is free outside HALF_OPEN. -/
theorem probe_free (h : Tickets cfg st unrecorded) (hstate : st.state ≠ .HALF_OPEN) :
    st.probeInFlight = false := by
  rw [← Bool.not_eq_true, h.probe]
  rintro ⟨c, hc⟩
  exact hstate (h.halfOpen c hc)

/-- A ticket that the unlocked read finds is that of CLOSED. -/
theorem of_closedTicket (h : Tickets cfg st unrecorded) {t : ℤ} (ht : st.closedTicket = some t) :
    st.state = .CLOSED ∧ t = st.epoch := by
  rw [h.closedTicket] at ht
  split_ifs at ht with hstate
  exact ⟨hstate, (Option.some.inj ht).symm⟩

/-- Where the unlocked read finds nothing, the circuit is OPEN or HALF_OPEN. -/
theorem not_closed (h : Tickets cfg st unrecorded) (ht : st.closedTicket = none) :
    st.state ≠ .CLOSED := by
  intro hstate
  rw [h.closedTicket, if_pos hstate] at ht
  cases ht

/-- Where `admit` looks at the probe slot, the circuit is HALF_OPEN. -/
theorem eq_halfOpen (h : Tickets cfg st unrecorded) (ht : st.closedTicket = none)
    (hopen : st.state ≠ .OPEN) : st.state = .HALF_OPEN := by
  have hnot := h.not_closed ht
  cases hst : st.state with
  | CLOSED => exact absurd hst hnot
  | OPEN => exact absurd hst hopen
  | HALF_OPEN => rfl

/-- A move to CLOSED or OPEN starts a new epoch, of which no ticket is out. -/
theorem moved (h : Tickets cfg st unrecorded) (hepoch : st'.epoch = st.epoch + 2)
    (hclosed : st'.closedTicket = if st'.state = .CLOSED then some (st.epoch + 2) else none)
    (hprobe : st'.probeInFlight = false)
    (hfailures : 0 ≤ st'.consecutiveFailures ∧ st'.consecutiveFailures < cfg.failureThreshold)
    (hsuccesses : 0 ≤ st'.consecutiveSuccesses ∧ st'.consecutiveSuccesses < cfg.successThreshold) :
    Tickets cfg st' unrecorded := by
  have hold : ∀ c t, unrecorded c = some t → t < st'.epoch := by
    intro c t ht
    have := h.le c t ht
    omega
  refine ⟨by rw [hclosed, hepoch], fun c t ht => ?_, fun c hc => ?_, fun c hc => ?_,
    fun c d hc => ?_, ?_, hfailures, hsuccesses⟩
  · have := hold c t ht
    omega
  · exact absurd (hold c _ hc) (lt_irrefl _)
  · have := hold c _ hc
    omega
  · have := hold c _ hc
    omega
  · refine iff_of_false (by simp [hprobe]) ?_
    rintro ⟨c, hc⟩
    have := hold c _ hc
    omega

/-- The tickets of the other calls, and the ticket of a call after an update. -/
theorem update_eq_some {ticket : Option ℤ} {d : CallId} {t : ℤ} :
    Function.update unrecorded c ticket d = some t ↔
      (d = c ∧ ticket = some t) ∨ (d ≠ c ∧ unrecorded d = some t) := by
  by_cases h : d = c
  · subst h
    simp
  · simp [h]

/-- The tickets that are out after a call has given up its own. -/
theorem of_update_none {d : CallId} {t : ℤ} (hd : Function.update unrecorded c none d = some t) :
    d ≠ c ∧ unrecorded d = some t := by
  rcases update_eq_some.mp hd with ⟨-, hd⟩ | hd
  · cases hd
  · exact hd

/-- A call that gives up a ticket other than the probe's. -/
theorem drop (h : Tickets cfg st unrecorded) {t : ℤ} (hc : unrecorded c = some t)
    (ht : t ≠ st.epoch + 1) : Tickets cfg st (Function.update unrecorded c none) where
  closedTicket := h.closedTicket
  le d t hd := h.le d t (of_update_none hd).2
  closed d hd := h.closed d (of_update_none hd).2
  halfOpen d hd := h.halfOpen d (of_update_none hd).2
  unique d e hd he := h.unique d e (of_update_none hd).2 (of_update_none he).2
  probe := by
    rw [h.probe]
    constructor
    · rintro ⟨d, hd⟩
      have hne : d ≠ c := by
        rintro rfl
        rw [hc, Option.some.injEq] at hd
        exact ht hd
      exact ⟨d, update_eq_some.mpr (.inr ⟨hne, hd⟩)⟩
    · rintro ⟨d, hd⟩
      exact ⟨d, (of_update_none hd).2⟩
  failures := h.failures
  successes := h.successes

/-- The probe gives up its ticket and the slot. -/
theorem release (h : Tickets cfg st unrecorded) (hc : unrecorded c = some (st.epoch + 1)) :
    Tickets cfg { st with probeInFlight := false } (Function.update unrecorded c none) := by
  have hnone : ∀ d, Function.update unrecorded c none d ≠ some (st.epoch + 1) := by
    intro d hd
    obtain ⟨hne, hd⟩ := of_update_none hd
    exact hne (h.unique d c hd hc)
  refine ⟨h.closedTicket, fun d t hd => ?_, fun d hd => ?_, fun d hd => absurd hd (hnone d),
    fun d _ hd => absurd hd (hnone d), iff_of_false Bool.false_ne_true ?_, h.failures, h.successes⟩
  · exact h.le d t (of_update_none hd).2
  · exact h.closed d (of_update_none hd).2
  · rintro ⟨d, hd⟩
    exact hnone d hd

/-- A call is admitted while CLOSED. -/
theorem take (h : Tickets cfg st unrecorded) {t : ℤ} (ht : st.closedTicket = some t)
    (hc : unrecorded c = none) : Tickets cfg st (Function.update unrecorded c (some t)) := by
  obtain ⟨hstate, rfl⟩ := h.of_closedTicket ht
  -- The ticket of CLOSED is not the probe's, so the calls with the probe's ticket are the same.
  have hold : ∀ d, Function.update unrecorded c (some st.epoch) d = some (st.epoch + 1) ↔
      unrecorded d = some (st.epoch + 1) := by
    intro d
    rw [update_eq_some]
    constructor
    · rintro (⟨-, hd⟩ | ⟨-, hd⟩)
      · rw [Option.some.injEq] at hd
        omega
      · exact hd
    · intro hd
      refine .inr ⟨fun hdc => ?_, hd⟩
      rw [hdc, hc] at hd
      cases hd
  refine ⟨h.closedTicket, fun d t hd => ?_, fun _ _ => hstate, fun d hd => ?_, fun d e hd he => ?_,
    ?_, h.failures, h.successes⟩
  · rcases update_eq_some.mp hd with ⟨-, hd⟩ | ⟨-, hd⟩
    · rw [Option.some.injEq] at hd
      omega
    · exact h.le d t hd
  · exact h.halfOpen d ((hold d).mp hd)
  · exact h.unique d e ((hold d).mp hd) ((hold e).mp he)
  · rw [h.probe]
    exact exists_congr fun d => (hold d).symm

/-- A call is admitted as the probe, when no call has the probe's ticket. -/
theorem takeProbe (h : Tickets cfg st unrecorded) (hstate : st'.state = .HALF_OPEN)
    (hclosed : st'.closedTicket = none) (hprobe : st'.probeInFlight = true)
    (hle : ∀ d t, unrecorded d = some t → t ≤ st'.epoch)
    (hepoch : ∀ d, unrecorded d ≠ some st'.epoch)
    (hfailures : st'.consecutiveFailures = st.consecutiveFailures)
    (hsuccesses : st'.consecutiveSuccesses = st.consecutiveSuccesses) :
    Tickets cfg st' (Function.update unrecorded c (some (st'.epoch + 1))) := by
  -- Every other ticket is from an earlier period.
  have hmine : ∀ d, Function.update unrecorded c (some (st'.epoch + 1)) d = some (st'.epoch + 1) ↔
      d = c := by
    intro d
    rw [update_eq_some]
    constructor
    · rintro (⟨hd, -⟩ | ⟨-, hd⟩)
      · exact hd
      · have := hle d _ hd
        omega
    · rintro rfl
      exact .inl ⟨rfl, rfl⟩
  refine ⟨by simp [hclosed, hstate], fun d t hd => ?_, fun d hd => ?_, fun _ _ => hstate,
    fun d e hd he => ((hmine d).mp hd).trans ((hmine e).mp he).symm, ?_, ?_, ?_⟩
  · rcases update_eq_some.mp hd with ⟨-, hd⟩ | ⟨-, hd⟩
    · rw [Option.some.injEq] at hd
      omega
    · have := hle d t hd
      omega
  · rcases update_eq_some.mp hd with ⟨-, hd⟩ | ⟨-, hd⟩
    · rw [Option.some.injEq] at hd
      omega
    · exact absurd hd (hepoch d)
  · exact iff_of_true hprobe ⟨c, (hmine c).mpr rfl⟩
  · rw [hfailures]
    exact h.failures
  · rw [hsuccesses]
    exact h.successes

/-- The ticket that an admission gives. -/
def ofAdmission : Admission → Option ℤ
  | .ticket ticket => some ticket
  | .halfOpened ticket _ => some ticket
  | .rejected _ _ => none

/-- `admit` keeps the tickets in order. -/
theorem admits (h : Tickets cfg st unrecorded) {now : ℚ} {admission : Admission}
    (hc : unrecorded c = none) (hadmission : Admits cfg st request now admission st') :
    Tickets cfg st' (Function.update unrecorded c (ofAdmission admission)) := by
  have hsame : Function.update unrecorded c none = unrecorded := by
    rw [← hc]
    exact Function.update_eq_self c unrecorded
  have hrejects : ∀ {retryAfter message events st'},
      Rejects cfg st request now retryAfter message events st' →
        Tickets cfg st' (Function.update unrecorded c none) := by
    intro retryAfter message events st' hreject
    rw [hsame]
    cases hreject <;> exact h.of_fields rfl rfl rfl rfl h.failures h.successes
  cases hadmission with
  | closed hticket => exact h.take hticket hc
  | rejectedOpen _ _ _ hreject => exact hrejects hreject
  | rejectedProbe _ _ _ hreject => exact hrejects hreject
  | halfOpened _ hopen _ =>
    -- A new epoch: every ticket out is from an earlier one.
    refine h.takeProbe rfl rfl rfl (fun d t hd => ?_) (fun d hd => ?_) rfl rfl
    · have := h.le d t hd
      change t ≤ st.epoch + 2
      omega
    · have := h.le d _ hd
      dsimp only at this
      omega
  | probe hclosed hopen hprobe =>
    -- HALF_OPEN with the slot free: no call has the probe's ticket.
    have hstate := h.eq_halfOpen hclosed hopen
    have hnone : ∀ d, unrecorded d ≠ some (st.epoch + 1) := by
      intro d hd
      rw [h.probe.mpr ⟨d, hd⟩] at hprobe
      cases hprobe
    refine h.takeProbe hstate hclosed rfl (fun d t hd => ?_) (fun d hd => ?_) rfl rfl
    · have hle := h.le d t hd
      have hne : t ≠ st.epoch + 1 := fun ht => hnone d (ht ▸ hd)
      change t ≤ st.epoch
      omega
    · exact h.not_closed hclosed (h.closed d hd)

/-- `record` keeps the tickets in order. -/
theorem record (h : Tickets cfg st unrecorded) {clock : Readings} {ticket : ℤ} {outcome : Outcome}
    {events : Option (List Event)} (hc : unrecorded c = some ticket)
    (hrecord : Records cfg st request clock ticket outcome events st') :
    Tickets cfg st' (Function.update unrecorded c none) := by
  have hthreshold := cfg.checks.1
  have hsuccess := cfg.checks.2.2.1
  cases hrecord with
  | stale _ hprobe => exact h.drop hc hprobe
  | foreign => exact h.drop hc (by omega)
  | reset _ =>
    exact (h.drop hc (by omega)).of_fields rfl rfl rfl rfl ⟨le_rfl, by dsimp only; omega⟩ h.successes
  | counted _ hlt =>
    have := h.failures
    exact (h.drop hc (by omega)).of_fields rfl rfl rfl rfl ⟨by dsimp only; omega, hlt⟩ h.successes
  | tripped _ _ =>
    have hfree := h.probe_free (by rw [h.closed c hc]; simp)
    exact (h.drop hc (by omega)).moved rfl rfl hfree ⟨le_rfl, by simp only [afterOpen]; omega⟩
      ⟨le_rfl, by simp only [afterOpen]; omega⟩
  | windowed _ _ _ _ _ =>
    exact (h.drop hc (by omega)).of_fields rfl rfl rfl rfl h.failures h.successes
  | rateTripped _ _ _ _ _ =>
    have hfree := h.probe_free (by rw [h.closed c hc]; simp)
    exact (h.drop hc (by omega)).moved rfl rfl hfree ⟨le_rfl, by simp only [afterOpen]; omega⟩
      ⟨le_rfl, by simp only [afterOpen]; omega⟩
  | probeForeign => exact h.release hc
  | probeSucceeded hlt =>
    have := h.successes
    exact (h.release hc).of_fields rfl rfl rfl rfl h.failures ⟨by dsimp only; omega, hlt⟩
  | probeClosed _ =>
    exact (h.release hc).moved rfl rfl rfl ⟨le_rfl, by dsimp only; omega⟩
      ⟨le_rfl, by dsimp only; omega⟩
  | probeFailed =>
    exact (h.release hc).moved rfl rfl rfl ⟨le_rfl, by simp only [afterOpen]; omega⟩
      ⟨le_rfl, by simp only [afterOpen]; omega⟩

end Tickets

/-- The tickets out after a step of one call. -/
theorem unrecorded_update (phases : CallId → CallPhase) (c : CallId) (phase : CallPhase) :
    (fun d => (Function.update phases c phase d).unrecorded) =
      Function.update (fun d => (phases d).unrecorded) c phase.unrecorded :=
  funext fun d => Function.apply_update (fun _ p => CallPhase.unrecorded p) phases c phase d

/-- A call's ticket after a critical section does not depend on the events that it was handed. -/
theorem unrecorded_afterSection {events : Option (List Event)} {emitting : List Event → CallPhase}
    {next : CallPhase} (h : ∀ events, (emitting events).unrecorded = next.unrecorded) :
    (afterSection events emitting next).unrecorded = next.unrecorded := by
  cases events with
  | none => rfl
  | some events => exact h events

/-- Every step of a call keeps the tickets in order. -/
theorem Tickets.step {cfg : Config} {request : Request} {st st' : CircuitBreakerState}
    {phases : CallId → CallPhase} {c : CallId} {phase' : CallPhase} {action : CallAction} {o : Shown}
    (h : Tickets cfg st fun d => (phases d).unrecorded)
    (hstep : CallSteps cfg request st (phases c) action o st' phase') :
    Tickets cfg st' fun d => (Function.update phases c phase' d).unrecorded := by
  rw [unrecorded_update]
  have hkeep : ∀ {phase : CallPhase}, phases c = phase → phase'.unrecorded = phase.unrecorded →
      Tickets cfg st (Function.update (fun d => (phases d).unrecorded) c phase'.unrecorded) := by
    rintro phase rfl hsame
    rw [hsame, Function.update_eq_self]
    exact h
  generalize hphase : phases c = phase at hstep
  have hunrecorded : (phases c).unrecorded = phase.unrecorded := by rw [hphase]
  cases hstep with
  | readTicket hticket => exact h.take hticket hunrecorded
  | readNone _ => exact hkeep hphase rfl
  | admitted hadmission => exact h.admits hunrecorded hadmission
  | halfOpened hadmission =>
    rw [unrecorded_afterSection]
    · exact h.admits hunrecorded hadmission
    · exact fun _ => rfl
  | rejected hadmission =>
    rw [unrecorded_afterSection]
    · exact h.admits hunrecorded hadmission
    · exact fun _ => rfl
  | recorded hrecord =>
    rw [unrecorded_afterSection]
    · exact h.record hunrecorded hrecord
    · exact fun _ => rfl
  | failed herror =>
    have hticket := (record_error herror).2.1
    exact h.drop hunrecorded (by omega)
  | @emittedHalfOpen _ _ escapes => cases escapes <;> exact hkeep hphase rfl
  | @emittedRejection _ _ escapes => cases escapes <;> exact hkeep hphase rfl
  | @emittedRecord _ _ escapes => cases escapes <;> exact hkeep hphase rfl

/-- The tickets are in order after every run. -/
theorem tickets_of_runs {cfg : Config} {request : CallId → Request}
    {run : List ((CallId × CallAction) × Shown)} {s : System}
    (h : (calls cfg request).Runs run s) :
    Tickets cfg s.circuit fun c => (s.calls c).unrecorded := by
  refine h.invariant (I := fun _ s => Tickets cfg s.circuit fun c => (s.calls c).unrecorded)
    (Tickets.init cfg) ?_
  rintro run s ⟨c, action⟩ o s' hrun htickets hstep
  obtain ⟨st, phase, hcases, rfl⟩ := step_cases hrun hstep
  exact htickets.step hcases

/-! ## Handlers that raise while `circuit.half_open` is emitted -/

/-- An exception escapes a handler or a filter while a step emits `circuit.half_open`. -/
def EscapesHalfOpen (x : (CallId × CallAction) × Shown) : Prop :=
  x.1.2 = .emit true ∧
    ∃ events, x.2.result = .emitted events ∧ ∃ e ∈ events, e.name = "circuit.half_open"

/-- A call in `_half_opened` was handed the event of the move to HALF_OPEN. -/
theorem halfOpen_handed {cfg : Config} {request : CallId → Request}
    {run : List ((CallId × CallAction) × Shown)} {s : System} (h : (calls cfg request).Runs run s)
    {c : CallId} {ticket : ℤ} {events : List Event}
    (hc : s.calls c = .emittingHalfOpen ticket events) : ∃ e ∈ events, e.name = "circuit.half_open" := by
  refine h.invariant (I := fun _ s => ∀ c ticket events, s.calls c = .emittingHalfOpen ticket events →
    ∃ e ∈ events, e.name = "circuit.half_open") nofun ?_ c ticket events hc
  rintro run s ⟨d, action⟩ o s' hrun ih hstep c ticket events hc
  obtain ⟨st, phase, hcases, rfl⟩ := step_cases hrun hstep
  dsimp only at hc
  by_cases hcd : c = d
  · subst hcd
    rw [Function.update_self] at hc
    generalize s.calls c = before at hcases
    cases hcases with
    | halfOpened hadmission =>
      cases hadmission
      obtain ⟨-, rfl⟩ := CallPhase.emittingHalfOpen.inj hc
      exact ⟨_, List.mem_singleton_self _, rfl⟩
    | @rejected _ _ events => cases events <;> cases hc
    | @recorded _ _ _ events => cases events <;> cases hc
    | @emittedHalfOpen _ _ escapes => cases escapes <;> cases hc
    | _ => cases hc
  · rw [Function.update_of_ne hcd] at hc
    exact ih c ticket events hc

/-- Where no handler raises on the move to HALF_OPEN, no call ends with an admission that was never
recorded. -/
theorem unrecorded_eq_holds {cfg : Config} {request : CallId → Request}
    {run : List ((CallId × CallAction) × Shown)} {s : System} (h : (calls cfg request).Runs run s)
    (hquiet : ∀ x ∈ run, ¬ EscapesHalfOpen x) (c : CallId) :
    (s.calls c).unrecorded = (s.calls c).holds := by
  refine h.invariant (I := fun run s => (∀ x ∈ run, ¬ EscapesHalfOpen x) →
    ∀ c, (s.calls c).unrecorded = (s.calls c).holds) (fun _ _ => rfl) ?_ hquiet c
  rintro run s ⟨d, action⟩ o s' hrun ih hstep hquiet c
  have ih := ih fun x hx => hquiet x (List.mem_append_left _ hx)
  have hlast := hquiet _ (List.mem_append_right run (List.mem_singleton_self _))
  obtain ⟨st, phase, hcases, rfl⟩ := step_cases hrun hstep
  dsimp only
  by_cases hcd : c = d
  · subst hcd
    rw [Function.update_self]
    generalize hbefore : s.calls c = before at hcases
    cases hcases with
    | @halfOpened _ _ events => cases events <;> rfl
    | @rejected _ _ events => cases events <;> rfl
    | @recorded _ _ _ events => cases events <;> rfl
    | @emittedHalfOpen _ events escapes =>
      cases escapes with
      | false => rfl
      | true => exact absurd ⟨rfl, events, rfl, halfOpen_handed hrun hbefore⟩ hlast
    | @emittedRejection _ _ escapes => cases escapes <;> rfl
    | @emittedRecord _ _ escapes => cases escapes <;> rfl
    | _ => rfl
  · rw [Function.update_of_ne hcd]
    exact ih c

/-- A step in which no exception escapes is quiet. -/
theorem not_escapesHalfOpen {x : (CallId × CallAction) × Shown} (h : x.1.2 ≠ .emit true) :
    ¬ EscapesHalfOpen x := fun hx => h hx.1

/-- A ticket of an earlier epoch changes nothing and hands out nothing. -/
theorem record_stale {cfg : Config} {st : CircuitBreakerState} (hev : st.events = none)
    {ticket : ℤ} (h : ticket < st.epoch) (outcome : Outcome) (request : Request)
    (clock : Readings) : st.record cfg ticket outcome request clock = .ok (none, st) := by
  have hprobe : ¬ ticket = st.epoch + 1 := by omega
  rw [record, applyOutcome, if_neg h.ne, if_neg hprobe, Except.map, takeEvents_of_none hev]

/-- The fields of the circuit in every reachable state, when emission does not raise:
`closed_ticket` is the epoch while CLOSED and none otherwise; the probe slot is taken exactly in
HALF_OPEN while one unfinished call holds the probe's ticket, which two never do, and no unfinished
call holds it outside HALF_OPEN; the counters are below their thresholds; and a record with a ticket
of an earlier epoch changes no field. -/
theorem tickets_spec {cfg : Config} {request : CallId → Request}
    {run : List ((CallId × CallAction) × Shown)} {s : System} (h : (calls cfg request).Runs run s)
    (hemit : ∀ x ∈ run, x.1.2 ≠ .emit true) :
    (s.circuit.closedTicket =
        if s.circuit.state = .CLOSED then some s.circuit.epoch else none) ∧
      (s.circuit.probeInFlight = true ↔ s.circuit.state = .HALF_OPEN ∧
        ∃! c, (s.calls c).holds = some (s.circuit.epoch + 1)) ∧
      (∀ c d, (s.calls c).holds = some (s.circuit.epoch + 1) →
        (s.calls d).holds = some (s.circuit.epoch + 1) → c = d) ∧
      (s.circuit.state ≠ .HALF_OPEN →
        ∀ c, (s.calls c).holds ≠ some (s.circuit.epoch + 1)) ∧
      (0 ≤ s.circuit.consecutiveFailures ∧
        s.circuit.consecutiveFailures < cfg.failureThreshold) ∧
      (0 ≤ s.circuit.consecutiveSuccesses ∧
        s.circuit.consecutiveSuccesses < cfg.successThreshold) ∧
      ∀ ticket outcome request clock, ticket < s.circuit.epoch →
        s.circuit.record cfg ticket outcome request clock = .ok (none, s.circuit) := by
  have htickets := tickets_of_runs h
  have hholds := unrecorded_eq_holds h fun x hx => not_escapesHalfOpen (hemit x hx)
  have huniq : ∀ c d, (s.calls c).holds = some (s.circuit.epoch + 1) →
      (s.calls d).holds = some (s.circuit.epoch + 1) → c = d := by
    intro c d hc hd
    exact htickets.unique c d ((hholds c).trans hc) ((hholds d).trans hd)
  have hstate : ∀ c, (s.calls c).holds = some (s.circuit.epoch + 1) →
      s.circuit.state = .HALF_OPEN := fun c hc => htickets.halfOpen c ((hholds c).trans hc)
  refine ⟨htickets.closedTicket, ?_, huniq, fun hne c hc => hne (hstate c hc), htickets.failures,
    htickets.successes, fun ticket outcome request clock hlt =>
      record_stale (events_of_runs h) hlt outcome request clock⟩
  rw [htickets.probe]
  constructor
  · rintro ⟨c, hc⟩
    have hc : (s.calls c).holds = some (s.circuit.epoch + 1) := (hholds c).symm.trans hc
    exact ⟨hstate c hc, c, hc, fun d hd => huniq d c hd hc⟩
  · rintro ⟨-, c, hc, -⟩
    exact ⟨c, (hholds c).trans hc⟩

/-- A circuit that opens at the first failure, and whose next request is a probe. -/
def hairTrigger : Config where
  failureThreshold := 1
  resetTimeout := .finite 0
  accepted := by decide +kernel

/-- A request. -/
def getRequest : Request := { method := "GET", url := ⟨"https", "a", none, "a", "https://a/"⟩ }

/-- A first call fails and opens the circuit, and a second call is admitted as the probe. -/
def openThenProbe : List (CallId × CallAction) :=
  [(0, .read), (0, .finish (.raised .networkError) ⟨0, 0⟩), (0, .emit false), (1, .read),
    (1, .admitCall 0)]

/-- What these steps show. -/
def openThenProbeShown : List Shown :=
  let opened := openedEvent hairTrigger getRequest "circuit opened — failure threshold reached"
    [("failure_threshold", .int 1), ("failures", .int 1)]
  [⟨.read (some 0), [], .CLOSED⟩, ⟨.recorded .failure, [opened], .OPEN⟩,
    ⟨.emitted [opened], [], .OPEN⟩, ⟨.read none, [], .OPEN⟩,
    ⟨.halfOpened 5, [halfOpenEvent hairTrigger getRequest], .HALF_OPEN⟩]

/-- The run of these steps. -/
theorem openThenProbe_runs : ∃ s, (calls hairTrigger fun _ => getRequest).Runs
    (openThenProbe.zip openThenProbeShown) s ∧ s.circuit.state = .HALF_OPEN ∧
      s.circuit.probeInFlight = true := by
  obtain ⟨s, hrun, hs⟩ := Machine.exists_runs_of_observe (calls hairTrigger fun _ => getRequest)
    (fun s => (s.circuit.state, s.circuit.probeInFlight)) openThenProbe openThenProbeShown
    (.HALF_OPEN, true) (by decide +kernel)
  rw [Prod.mk.injEq] at hs
  exact ⟨s, hrun, hs⟩

/-- No handler raises in that run. -/
theorem openThenProbe_quiet : ∀ x ∈ openThenProbe.zip openThenProbeShown, x.1.2 ≠ .emit true := by
  simp [openThenProbe, openThenProbeShown]

/-- The fields after that run: one unfinished call holds the probe's ticket. -/
theorem tickets_spec_probe : ∃ s, (calls hairTrigger fun _ => getRequest).Runs
    (openThenProbe.zip openThenProbeShown) s ∧ s.circuit.state = .HALF_OPEN ∧
      ∃! c, (s.calls c).holds = some (s.circuit.epoch + 1) := by
  obtain ⟨s, hrun, -, hprobe⟩ := openThenProbe_runs
  exact ⟨s, hrun, (tickets_spec hrun openThenProbe_quiet).2.1.mp hprobe⟩

end Httpware.CircuitBreakerState
