import Httpware.CircuitBreaker.Arithmetic

/-!
# A circuit in its first epoch

What becomes of a new circuit when all recorded outcomes are of one kind. As long as the circuit has not
moved, every ticket is that of its first epoch (`FirstEpoch`), so no call is stale and none is a probe.
Foreign outcomes never move it (`circuit_of_foreign`). Failures are counted until the threshold is
reached, and without a success the circuit does not close again (`closed_iff_of_failures`).
-/

namespace Httpware.CircuitBreakerState

/-- The call is past `next`, or has ended without it. -/
def CallPhase.isPast : CallPhase → Bool
  | emittingRecord _ _ => true
  | finished _ => true
  | _ => false

/-- The ending of `next`. -/
def CallAction.finished : CallAction → Option Ending
  | finish ending _ => some ending
  | _ => none

variable {cfg : Config} {request : CallId → Request}

/-- The circuit has not moved, and its calls have tickets of the first epoch. -/
structure FirstEpoch (s : System) : Prop where
  state : s.circuit.state = .CLOSED
  epoch : s.circuit.epoch = 0
  closedTicket : s.circuit.closedTicket = some 0
  phases : ∀ c, s.calls c = .idle ∨ s.calls c = .inNext 0 ∨ (s.calls c).isPast = true

namespace FirstEpoch

/-- A step of a call: it leaves the circuit as it is, or records an outcome. -/
theorem step_cases {s : System} (h : FirstEpoch s) {c : CallId} {a : CallAction} {o : Shown}
    {st : CircuitBreakerState} {phase : CallPhase}
    (hstep : CallSteps cfg (request c) s.circuit (s.calls c) a o st phase) :
    (a.finished = none ∧ st = s.circuit ∧ (phase = .inNext 0 ∨ phase.isPast = true)) ∨
      ∃ ending clock, a = .finish ending clock ∧ phase.isPast = true ∧
        ((∃ events, Records cfg s.circuit (request c) clock s.circuit.epoch (outcomeOf cfg ending)
            events st) ∨
          st = s.circuit ∧ ∃ e, phase = .finished (.error e)) := by
  have hphase := h.phases c
  have hepoch := h.epoch
  generalize s.calls c = before at hstep hphase
  cases hstep with
  | readTicket hticket =>
    rw [h.closedTicket] at hticket
    cases hticket
    exact .inl ⟨rfl, rfl, .inl rfl⟩
  | readNone hticket =>
    rw [h.closedTicket] at hticket
    cases hticket
  | @recorded ticket ending clock events st hrecords =>
    obtain rfl : ticket = 0 := by
      rcases hphase with hidle | hin | hpast
      · cases hidle
      · exact CallPhase.inNext.inj hin
      · cases hpast
    rw [← hepoch] at hrecords
    refine .inr ⟨ending, clock, rfl, ?_, .inl ⟨events, hrecords⟩⟩
    cases events <;> rfl
  | @failed ticket ending clock e herror =>
    obtain rfl : ticket = 0 := by
      rcases hphase with hidle | hin | hpast
      · cases hidle
      · exact CallPhase.inNext.inj hin
      · cases hpast
    exact .inr ⟨ending, clock, rfl, rfl, .inr ⟨rfl, e, rfl⟩⟩
  | emittedRecord => exact .inl ⟨rfl, rfl, .inr rfl⟩
  | _ => rcases hphase with hidle | hin | hpast <;> contradiction

/-- The calls after a step that leaves the circuit in its first epoch. -/
theorem update {s : System} (h : FirstEpoch s) {c : CallId} {st : CircuitBreakerState}
    {phase : CallPhase} (hstate : st.state = .CLOSED) (hepoch : st.epoch = 0)
    (hticket : st.closedTicket = some 0) (hphase : phase = .inNext 0 ∨ phase.isPast = true) :
    FirstEpoch ⟨st, Function.update s.calls c phase⟩ where
  state := hstate
  epoch := hepoch
  closedTicket := hticket
  phases d := by
    dsimp only
    rcases eq_or_ne d c with rfl | hdc
    · rw [Function.update_self]
      exact .inr hphase
    · rw [Function.update_of_ne hdc]
      exact h.phases d

end FirstEpoch

/-- The outcomes that `record` was called with for a call. -/
def recorded (cfg : Config) (c : CallId) (run : List ((CallId × CallAction) × Shown)) :
    List Outcome :=
  (Machine.ofParty c run).filterMap fun x => x.1.finished.map (outcomeOf cfg)

/-- The outcomes of a longer run. -/
theorem recorded_snoc_subset (run : List ((CallId × CallAction) × Shown)) (c d : CallId)
    (a : CallAction) (o : Shown) :
    recorded cfg c run ⊆ recorded cfg c (run ++ [((d, a), o)]) := by
  unfold recorded
  rcases eq_or_ne d c with rfl | hdc
  · rw [Machine.ofParty_snoc_self, List.filterMap_append]
    exact List.subset_append_left _ _
  · rw [Machine.ofParty_snoc_of_ne hdc]
    exact List.Subset.refl _

/-- The outcome of a step that records. -/
theorem outcomeOf_mem_recorded (run : List ((CallId × CallAction) × Shown)) (c : CallId)
    (ending : Ending) (clock : Readings) (o : Shown) :
    outcomeOf cfg ending ∈ recorded cfg c (run ++ [((c, .finish ending clock), o)]) := by
  unfold recorded
  rw [Machine.ofParty_snoc_self, List.filterMap_append]
  exact List.mem_append_right _ (List.mem_singleton.mpr rfl)

/-- What a foreign outcome does to a circuit in its first epoch: nothing. -/
theorem eq_of_records_foreign {st st' : CircuitBreakerState} {r : Request} {clock : Readings}
    {outcome : Outcome} {events : Option (List Event)} (hforeign : outcome = .foreign)
    (h : Records cfg st r clock st.epoch outcome events st') : st' = st := by
  generalize hticket : st.epoch = ticket at h
  cases h with
  | foreign => rfl
  | stale => rfl
  | windowed hne => exact absurd hforeign hne
  | rateTripped hne => exact absurd hforeign hne
  | probeForeign => omega
  | _ => cases hforeign

/-- Where every recorded outcome is foreign, the circuit stays as it was made. -/
theorem circuit_of_foreign {run : List ((CallId × CallAction) × Shown)} {s : System}
    (h : (calls cfg request).Runs run s)
    (hforeign : ∀ c, ∀ outcome ∈ recorded cfg c run, outcome = .foreign) :
    s.circuit = init cfg := by
  have key : (∀ c, ∀ outcome ∈ recorded cfg c run, outcome = .foreign) →
      FirstEpoch s ∧ s.circuit = init cfg := by
    apply h.invariant (I := fun run s =>
      (∀ c, ∀ outcome ∈ recorded cfg c run, outcome = .foreign) →
        FirstEpoch s ∧ s.circuit = init cfg)
    · exact fun _ => ⟨⟨rfl, rfl, rfl, fun _ => .inl rfl⟩, rfl⟩
    · rintro run s ⟨d, a⟩ o s' hrun ih hstep hall
      obtain ⟨hfirst, hcircuit⟩ := ih fun c outcome hmem =>
        hall c outcome (recorded_snoc_subset run c d a o hmem)
      obtain ⟨st, phase, hcases, rfl⟩ := step_cases hrun hstep
      obtain ⟨hst, hphase⟩ : st = s.circuit ∧ (phase = .inNext 0 ∨ phase.isPast = true) := by
        rcases hfirst.step_cases hcases with ⟨-, hst, hphase⟩ | ⟨ending, clock, rfl, hpast, hrecord⟩
        · exact ⟨hst, hphase⟩
        · refine ⟨?_, .inr hpast⟩
          rcases hrecord with ⟨events, hrecords⟩ | ⟨hst, -⟩
          · have hout := hall d _ (outcomeOf_mem_recorded run d ending clock o)
            exact eq_of_records_foreign hout hrecords
          · exact hst
      subst hst
      exact ⟨hfirst.update hfirst.state hfirst.epoch hfirst.closedTicket hphase, hcircuit⟩
  exact (key hforeign).2

/-- What a failure does to a circuit in its first epoch, in the classic mode: it counts, and opens the
circuit when it reaches the threshold. -/
theorem cases_of_records_failure {st st' : CircuitBreakerState} {r : Request} {clock : Readings}
    {outcome : Outcome} {events : Option (List Event)} (hmode : cfg.failureRateThreshold = none)
    (hfailure : outcome = .failure) (h : Records cfg st r clock st.epoch outcome events st') :
    (st.consecutiveFailures + 1 < cfg.failureThreshold ∧
        st' = { st with consecutiveFailures := st.consecutiveFailures + 1 }) ∨
      (cfg.failureThreshold ≤ st.consecutiveFailures + 1 ∧ st'.state = .OPEN) := by
  generalize hticket : st.epoch = ticket at h
  cases h with
  | stale hne => exact absurd hticket.symm hne
  | counted _ hlt => exact .inl ⟨hlt, rfl⟩
  | tripped _ hge => exact .inr ⟨hge, rfl⟩
  | windowed _ hrate => rw [hmode] at hrate; cases hrate
  | rateTripped _ hrate => rw [hmode] at hrate; cases hrate
  | probeFailed => omega
  | _ => cases hfailure

/-- Without a success, a circuit that has opened does not close. -/
theorem not_closed_of_records {st st' : CircuitBreakerState} {r : Request} {clock : Readings}
    {ticket : ℤ} {outcome : Outcome} {events : Option (List Event)} (hfailure : outcome = .failure)
    (h : Records cfg st r clock ticket outcome events st') (hst : st.state ≠ .CLOSED) :
    st'.state ≠ .CLOSED := by
  cases h with
  | tripped => exact CircuitState.noConfusion
  | rateTripped => exact CircuitState.noConfusion
  | probeFailed => exact CircuitState.noConfusion
  | probeClosed => cases hfailure
  | _ => exact hst

/-- Without a success, a circuit that has moved does not close. -/
theorem not_closed_of_step {s : System} {c : CallId} {a : CallAction} {o : Shown}
    {st : CircuitBreakerState} {phase : CallPhase}
    (hstep : CallSteps cfg (request c) s.circuit (s.calls c) a o st phase)
    (hfailure : ∀ ending clock, a = .finish ending clock → outcomeOf cfg ending = .failure)
    (hst : s.circuit.state ≠ .CLOSED) : st.state ≠ .CLOSED := by
  generalize s.calls c = before at hstep
  cases hstep with
  | admitted hadmits => cases hadmits <;> exact hst
  | halfOpened hadmits =>
    cases hadmits
    exact CircuitState.noConfusion
  | rejected hadmits =>
    cases hadmits with
    | rejectedOpen _ _ _ hreject => cases hreject <;> exact hst
    | rejectedProbe _ _ _ hreject => cases hreject <;> exact hst
  | recorded hrecords => exact not_closed_of_records (hfailure _ _ rfl) hrecords hst
  | _ => exact hst

/-- A circuit that has seen `n` failures and nothing else. -/
def Failed (cfg : Config) (n : ℕ) (s : System) : Prop :=
  (FirstEpoch s ∧ s.circuit.consecutiveFailures = n ∧ (n : ℤ) < cfg.failureThreshold) ∨
    (s.circuit.state ≠ .CLOSED ∧ cfg.failureThreshold ≤ n)

/-- The circuit after a step. -/
theorem Failed.step (hmode : cfg.failureRateThreshold = none) {n : ℕ} {s : System}
    (h : Failed cfg n s) {c : CallId} {a : CallAction} {o : Shown} {st : CircuitBreakerState}
    {phase : CallPhase} (hstep : CallSteps cfg (request c) s.circuit (s.calls c) a o st phase)
    (herror : ∀ e, phase ≠ .finished (.error e))
    (hfailure : ∀ ending clock, a = .finish ending clock → outcomeOf cfg ending = .failure) :
    Failed cfg (n + if a.finished.isSome then 1 else 0) ⟨st, Function.update s.calls c phase⟩ := by
  rcases h with ⟨hfirst, hcount, hlt⟩ | ⟨hmoved, hge⟩
  · rcases hfirst.step_cases hstep with ⟨hnone, rfl, hphase⟩ | ⟨ending, clock, rfl, hpast, hrecord⟩
    · rw [hnone]
      exact .inl ⟨hfirst.update hfirst.state hfirst.epoch hfirst.closedTicket hphase, hcount, hlt⟩
    · rcases hrecord with ⟨events, hrecords⟩ | ⟨-, e, he⟩
      · rcases cases_of_records_failure hmode (hfailure _ _ rfl) hrecords with
          ⟨hbelow, rfl⟩ | ⟨hreached, hopen⟩
        · refine .inl ⟨hfirst.update hfirst.state hfirst.epoch hfirst.closedTicket (.inr hpast), ?_, ?_⟩
          · change s.circuit.consecutiveFailures + 1 = ((n + 1 : ℕ) : ℤ)
            omega
          · change ((n + 1 : ℕ) : ℤ) < cfg.failureThreshold
            omega
        · refine .inr ⟨?_, ?_⟩
          · change st.state ≠ .CLOSED
            rw [hopen]
            exact CircuitState.noConfusion
          · change cfg.failureThreshold ≤ ((n + 1 : ℕ) : ℤ)
            omega
      · exact absurd he (herror e)
  · refine .inr ⟨not_closed_of_step hstep hfailure hmoved, ?_⟩
    push_cast
    split_ifs <;> omega

/-- In the classic mode, where every recorded outcome is a failure, the circuit is closed exactly as long
as fewer than `failure_threshold` have been recorded. -/
theorem closed_iff_of_failures {run : List ((CallId × CallAction) × Shown)} {s : System}
    (h : (calls cfg request).Runs run s) (hmode : cfg.failureRateThreshold = none)
    (hfailure : ∀ c, ∀ outcome ∈ recorded cfg c run, outcome = .failure) :
    s.circuit.state = .CLOSED ↔
      ((run.countP fun x => x.1.2.finished.isSome : ℕ) : ℤ) < cfg.failureThreshold := by
  have key : (∀ c, ∀ outcome ∈ recorded cfg c run, outcome = .failure) →
      Failed cfg (run.countP fun x => x.1.2.finished.isSome) s := by
    apply h.invariant (I := fun run s =>
      (∀ c, ∀ outcome ∈ recorded cfg c run, outcome = .failure) →
        Failed cfg (run.countP fun x => x.1.2.finished.isSome) s)
    · intro _
      refine .inl ⟨⟨rfl, rfl, rfl, fun _ => .inl rfl⟩, rfl, ?_⟩
      have hthreshold := cfg.checks.1
      change ((0 : ℕ) : ℤ) < cfg.failureThreshold
      omega
    · rintro run s ⟨d, a⟩ o s' hrun ih hstep hall
      have hfailed := ih fun c outcome hmem =>
        hall c outcome (recorded_snoc_subset run c d a o hmem)
      have hrun' := hrun.snoc hstep
      obtain ⟨st, phase, hcases, rfl⟩ := step_cases hrun hstep
      rw [List.countP_append, List.countP_singleton]
      apply hfailed.step hmode hcases
      · -- Only the window's arithmetic raises.
        rintro e rfl
        have hrate := (rateMode_nan_of_error hrun' d e (Function.update_self _ _ _)).1
        rw [Config.rateMode, hmode] at hrate
        cases hrate
      · rintro ending clock rfl
        exact hall d _ (outcomeOf_mem_recorded run d ending clock o)
  rcases key hfailure with ⟨hfirst, -, hlt⟩ | ⟨hmoved, hge⟩
  · exact iff_of_true hfirst.state hlt
  · exact iff_of_false hmoved (not_lt.mpr hge)

end Httpware.CircuitBreakerState
