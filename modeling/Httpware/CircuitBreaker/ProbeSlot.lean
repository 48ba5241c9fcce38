import Httpware.CircuitBreaker.Tickets

/-!
# When the probe slot is freed

The slot is taken inside `admit`, and only `record` frees it. Every way out of `next` passes through
`record`, but the events of the admission are emitted before `next` is called, so an exception that
escapes a handler there skips the record. `probe_slot_freed` shows that this is the only leak: as
long as no exception escapes a handler while `circuit.half_open` is emitted, the slot is free
whenever no call is in progress, and a new call can still be admitted from every reachable state.
`probe_slot_leaks` is a run with such an exception, after which no call is admitted any more.
-/

namespace Httpware.CircuitBreakerState

open Python (Error Number)

variable {cfg : Config} {request : CallId → Request}
  {run : List ((CallId × CallAction) × Shown)} {s : System} {c : CallId}

/-! ## A slot that is never freed -/

/-- The step admits its call. -/
def CallResult.admits : CallResult → Bool
  | read ticket => ticket.isSome
  | admitted _ => true
  | halfOpened _ => true
  | _ => false

/-- Call `c` ended with the probe's ticket and without a record. -/
structure Stuck (c : CallId) (s : System) : Prop where
  state : s.circuit.state = .HALF_OPEN
  probe : s.circuit.probeInFlight = true
  ended : s.calls c = .finished (.escaped (some (s.circuit.epoch + 1)))

/-- A step after which the call has ended with a ticket that nobody gives back admits nobody. -/
theorem Stuck.step (h : Stuck c s) (hrun : (calls cfg request).Runs run s) {d : CallId}
    {action : CallAction} {o : Shown} {s' : System}
    (hstep : (calls cfg request).step s (d, action) = some (o, s')) :
    Stuck c s' ∧ o.result.admits = false := by
  have htickets := tickets_of_runs hrun
  have hclosed : s.circuit.closedTicket = none := by simp [htickets.closedTicket, h.state]
  have hmine : (s.calls c).unrecorded = some (s.circuit.epoch + 1) := by
    rw [h.ended]
    rfl
  obtain ⟨st, phase, hcases, rfl⟩ := step_cases hrun hstep
  have hne : c ≠ d := by
    rintro rfl
    rw [h.ended] at hcases
    cases hcases
  have hstuck : ∀ {st : CircuitBreakerState}, st.state = s.circuit.state →
      st.probeInFlight = s.circuit.probeInFlight → st.epoch = s.circuit.epoch →
        Stuck c ⟨st, Function.update s.calls d phase⟩ := by
    intro st hstate hprobe hepoch
    refine ⟨hstate.trans h.state, hprobe.trans h.probe, ?_⟩
    dsimp only
    rw [Function.update_of_ne hne, hepoch]
    exact h.ended
  have hrejects : ∀ {now retryAfter message events st},
      Rejects cfg s.circuit (request d) now retryAfter message events st →
        Stuck c ⟨st, Function.update s.calls d phase⟩ := by
    intro now retryAfter message events st hreject
    cases hreject <;> exact hstuck rfl rfl rfl
  generalize hbefore : s.calls d = before at hcases
  cases hcases with
  | readTicket hticket =>
    rw [hclosed] at hticket
    cases hticket
  | readNone _ => exact ⟨hstuck rfl rfl rfl, rfl⟩
  | admitted hadmission =>
    cases hadmission with
    | closed hticket =>
      rw [hclosed] at hticket
      cases hticket
    | probe _ _ hfree =>
      rw [h.probe] at hfree
      cases hfree
  | halfOpened hadmission =>
    cases hadmission with
    | halfOpened _ hopen _ =>
      rw [h.state] at hopen
      cases hopen
  | rejected hadmission =>
    cases hadmission with
    | rejectedOpen _ _ _ hreject => exact ⟨hrejects hreject, rfl⟩
    | rejectedProbe _ _ _ hreject => exact ⟨hrejects hreject, rfl⟩
  | @recorded ticket ending _ _ _ hrecord =>
    refine ⟨?_, rfl⟩
    have hticket : (s.calls d).unrecorded = some ticket := by
      rw [hbefore]
      rfl
    -- Only a ticket of an earlier epoch can be recorded now.
    have hepoch : ticket ≠ s.circuit.epoch := by
      rintro rfl
      have := htickets.closed d hticket
      rw [h.state] at this
      cases this
    have hprobe : ticket ≠ s.circuit.epoch + 1 := by
      rintro rfl
      exact hne (htickets.unique c d hmine hticket)
    generalize outcomeOf cfg ending = outcome at hrecord
    cases hrecord with
    | stale _ _ => exact hstuck rfl rfl rfl
    | _ => first | exact absurd rfl hepoch | exact absurd rfl hprobe
  | failed _ => exact ⟨hstuck rfl rfl rfl, rfl⟩
  | emittedHalfOpen => exact ⟨hstuck rfl rfl rfl, rfl⟩
  | emittedRejection => exact ⟨hstuck rfl rfl rfl, rfl⟩
  | emittedRecord => exact ⟨hstuck rfl rfl rfl, rfl⟩

/-- Once a call has ended so, no call is admitted any more. -/
theorem Stuck.not_admits (h : Stuck c s) (hrun : (calls cfg request).Runs run s)
    {run' : List ((CallId × CallAction) × Shown)} {s' : System}
    (hrun' : (calls cfg request).RunsFrom s run' s') :
    ∀ x ∈ run', x.2.result.admits = false := by
  refine (hrun'.invariant
    (I := fun run' s' => Stuck c s' ∧ ∀ x ∈ run', x.2.result.admits = false) ⟨h, nofun⟩ ?_).2
  rintro run' t ⟨d, action⟩ o t' hrun' ⟨hstuck, hall⟩ hstep
  obtain ⟨hstuck', hlast⟩ := hstuck.step (hrun.append hrun') hstep
  refine ⟨hstuck', fun x hx => ?_⟩
  rcases List.mem_append.mp hx with hx | hx
  · exact hall x hx
  · rw [List.mem_singleton.mp hx]
    exact hlast

/-- A call that has ended with a ticket left without a record. -/
theorem CallPhase.escaped_of_unrecorded {phase : CallPhase} {ticket : ℤ}
    (hended : phase.inProgress = false) (hticket : phase.unrecorded = some ticket) :
    phase = .finished (.escaped (some ticket)) := by
  cases phase with
  | finished ending =>
    cases ending with
    | escaped ticket' =>
      obtain rfl : ticket' = some ticket := hticket
      rfl
    | next _ | rejected _ | error _ => cases hticket
  | idle => cases hticket
  | _ => cases hended

/-- A handler raises while the second call emits `circuit.half_open`. -/
def leak : List (CallId × CallAction) := openThenProbe ++ [(1, .emit true)]

/-- What these steps show. -/
def leakShown : List Shown :=
  openThenProbeShown ++ [⟨.emitted [halfOpenEvent hairTrigger getRequest], [], .HALF_OPEN⟩]

/-- The probe's slot is taken for ever: the first call opens the circuit, and a handler raises while
the second call emits `circuit.half_open`. No call is in progress afterwards, and none is ever
admitted again. -/
theorem probe_slot_leaks : ∃ s,
    (calls hairTrigger fun _ => getRequest).Runs (leak.zip leakShown) s ∧
      (∀ c, (s.calls c).inProgress = false) ∧ s.circuit.probeInFlight = true ∧
      ∀ run' s', (calls hairTrigger fun _ => getRequest).RunsFrom s run' s' →
        ∀ x ∈ run', x.2.result.admits = false := by
  obtain ⟨s, hrun, hs⟩ := Machine.exists_runs_of_observe (calls hairTrigger fun _ => getRequest)
    (fun s => (s.circuit.state, s.circuit.probeInFlight, (s.calls 0).inProgress,
      (s.calls 1).inProgress, (s.calls 1).unrecorded == some (s.circuit.epoch + 1)))
    leak leakShown (.HALF_OPEN, true, false, false, true) (by decide +kernel)
  simp only [Prod.mk.injEq, beq_iff_eq] at hs
  obtain ⟨hstate, hprobe, hzero, hone, hticket⟩ := hs
  have hended := CallPhase.escaped_of_unrecorded hone hticket
  refine ⟨s, hrun, fun c => ?_, hprobe, fun run' s' hrun' =>
    (Stuck.mk hstate hprobe hended).not_admits hrun hrun'⟩
  by_cases hc0 : c = 0
  · rw [hc0]
    exact hzero
  by_cases hc1 : c = 1
  · rw [hc1]
    exact hone
  rw [idle_of_not_mem_parties hrun c (by simp [Machine.parties, leak, leakShown, openThenProbe,
    openThenProbeShown, hc0, hc1])]
  rfl

/-! ## A slot that is freed -/

/-- The steps of a run raise nothing on a move to HALF_OPEN, and read the clock from `bound` on. -/
def QuietFrom (bound : ℚ) (run : List ((CallId × CallAction) × Shown)) : Prop :=
  ∀ x ∈ run, ¬ EscapesHalfOpen x ∧ ∀ t ∈ x.1.2.readings, bound ≤ t

/-- From some time on, `reset_timeout` has passed, unless it is infinite. -/
theorem late (hreset : cfg.resetTimeout ≠ .posInf) (openedAt bound : ℚ) :
    ∃ now, bound ≤ now ∧ ¬ Number.finite (now - openedAt) < cfg.resetTimeout := by
  refine ⟨max bound (openedAt + cfg.resetTimeout.toRat), le_max_left _ _, ?_⟩
  have hmax := le_max_right bound (openedAt + cfg.resetTimeout.toRat)
  generalize max bound (openedAt + cfg.resetTimeout.toRat) = now at hmax
  cases hr : cfg.resetTimeout with
  | nan => exact Number.not_lt_nan _
  | negInf => exact Number.not_finite_lt_negInf _
  | finite r =>
    rw [hr, Number.toRat_finite] at hmax
    rw [Number.finite_lt_finite]
    linarith
  | posInf => exact absurd hr hreset

/-- A call that found no ticket is admitted once `reset_timeout` has passed, when the slot is
free. -/
theorem admit_holds {st : CircuitBreakerState} {r : Request} (hev : st.events = none)
    (hclosed : st.closedTicket = none) (hfree : st.probeInFlight = false) {now : ℚ}
    (hlate : ¬ Number.finite (now - st.openedAt) < cfg.resetTimeout) :
    ∃ o st' phase, callStep cfg r st .unticketed (.admitCall now) = some (o, st', phase) ∧
      phase.holds.isSome := by
  have hadmits := admit_cases cfg r hev now
  obtain ⟨admission, st', hadm⟩ : ∃ admission st', st.admitCall cfg r now = (admission, st') :=
    ⟨_, _, rfl⟩
  simp only [callStep]
  rw [hadm] at hadmits ⊢
  cases hadmits with
  | closed hticket =>
    rw [hclosed] at hticket
    cases hticket
  | rejectedOpen _ _ hearly _ => exact absurd hearly hlate
  | halfOpened _ _ _ => exact ⟨_, _, _, rfl, rfl⟩
  | rejectedProbe _ _ hprobe _ =>
    rw [hfree] at hprobe
    cases hprobe
  | probe _ _ _ => exact ⟨_, _, _, rfl, rfl⟩

variable (cfg request) in
/-- While the slot is free, a new call can be admitted. -/
theorem admitted_of_free (hev : s.circuit.events = none) (hreset : cfg.resetTimeout ≠ .posInf)
    (hfree : s.circuit.probeInFlight = false) (hidle : s.calls c = .idle) (bound : ℚ) :
    ∃ run' s', (calls cfg request).RunsFrom s run' s' ∧ QuietFrom bound run' ∧
      (s'.calls c).holds.isSome := by
  have hread : ∀ o, QuietFrom bound [((c, .read), o)] := by
    intro o x hx
    rw [List.mem_singleton.mp hx]
    exact ⟨not_escapesHalfOpen nofun, nofun⟩
  cases hclosed : s.circuit.closedTicket with
  | some ticket =>
    -- The unlocked read admits the call.
    have hcall : callStep cfg (request c) s.circuit (s.calls c) .read =
        some (⟨.read (some ticket), [], s.circuit.state⟩, s.circuit, .inNext ticket) := by
      simp [callStep, hidle, hclosed]
    exact ⟨_, _, .single (step_of_callStep hcall), hread _, by simp [CallPhase.holds]⟩
  | none =>
    have hcall : callStep cfg (request c) s.circuit (s.calls c) .read =
        some (⟨.read none, [], s.circuit.state⟩, s.circuit, .unticketed) := by
      simp [callStep, hidle, hclosed]
    obtain ⟨now, hbound, hlate⟩ := late hreset s.circuit.openedAt bound
    obtain ⟨o, st, phase, hadmission, hholds⟩ :=
      admit_holds (r := request c) hev hclosed hfree hlate
    have hstep : (calls cfg request).step ⟨s.circuit, Function.update s.calls c .unticketed⟩
        (c, .admitCall now) = some (o, _) := step_of_callStep (by simpa using hadmission)
    refine ⟨_, _, .cons (step_of_callStep hcall) (.single hstep), fun x hx => ?_,
      by simpa using hholds⟩
    rcases List.mem_cons.mp hx with rfl | hx
    · exact hread _ _ (List.mem_singleton_self _)
    · rw [List.mem_singleton.mp hx]
      exact ⟨not_escapesHalfOpen nofun, by simpa [CallAction.readings] using hbound⟩

variable (cfg request) in
/-- A call inside `next` with the probe's ticket frees the slot when it is cancelled. -/
theorem freed_of_inNext {d : CallId} (hev : s.circuit.events = none)
    (hd : s.calls d = .inNext (s.circuit.epoch + 1)) (hne : d ≠ c) (bound : ℚ) :
    ∃ run' s', (calls cfg request).RunsFrom s run' s' ∧ QuietFrom bound run' ∧
      s'.circuit.probeInFlight = false ∧ s'.calls c = s.calls c := by
  have hrecord : s.circuit.record cfg (s.circuit.epoch + 1) .foreign (request d) ⟨bound, bound⟩ =
      .ok (none, { s.circuit with probeInFlight := false }) := by
    simp [record, applyOutcome, Except.map, takeEvents, hev]
  have hcall : callStep cfg (request d) s.circuit (s.calls d)
      (.finish (.raised (.other "CancelledError")) ⟨bound, bound⟩) =
        some (⟨.recorded .foreign, [], s.circuit.state⟩,
          { s.circuit with probeInFlight := false },
          .finished (.next (.raised (.other "CancelledError")))) := by
    simp only [callStep, hd, outcomeOf, classify]
    rw [hrecord]
    rfl
  refine ⟨_, _, .single (step_of_callStep hcall), fun x hx => ?_, rfl,
    Function.update_of_ne (Ne.symm hne) _ _⟩
  rw [List.mem_singleton.mp hx]
  refine ⟨not_escapesHalfOpen (by simp), ?_⟩
  simp [CallAction.readings]

/-- A call that holds a ticket is in progress. -/
theorem CallPhase.inProgress_of_holds {phase : CallPhase} {ticket : ℤ}
    (h : phase.holds = some ticket) : phase.inProgress = true := by
  cases phase with
  | emittingHalfOpen _ _ => rfl
  | inNext _ => rfl
  | _ => cases h

variable (cfg request) in
/-- The slot can be freed by the call that took it, which is in progress. -/
theorem freed_of_holds {d : CallId} (hev : s.circuit.events = none)
    (hd : (s.calls d).holds = some (s.circuit.epoch + 1)) (hne : d ≠ c) (bound : ℚ) :
    ∃ run' s', (calls cfg request).RunsFrom s run' s' ∧ QuietFrom bound run' ∧
      s'.circuit.probeInFlight = false ∧ s'.calls c = s.calls c := by
  cases hphase : s.calls d with
  | inNext ticket =>
    rw [hphase] at hd
    obtain rfl : ticket = s.circuit.epoch + 1 := Option.some.inj hd
    exact freed_of_inNext cfg request hev hphase hne bound
  | emittingHalfOpen ticket events =>
    -- The event is emitted first.
    rw [hphase] at hd
    obtain rfl : ticket = s.circuit.epoch + 1 := Option.some.inj hd
    have hcall : callStep cfg (request d) s.circuit (s.calls d) (.emit false) =
        some (⟨.emitted events, [], s.circuit.state⟩, s.circuit, .inNext (s.circuit.epoch + 1)) := by
      rw [hphase]
      rfl
    obtain ⟨run', s', hrun', hquiet, hfree, hsame⟩ :=
      freed_of_inNext cfg request
        (show (System.mk s.circuit (Function.update s.calls d
          (.inNext (s.circuit.epoch + 1)))).circuit.events = none from hev)
        (Function.update_self d _ _) hne bound
    refine ⟨_, s', .cons (step_of_callStep hcall) hrun', fun x hx => ?_, hfree, hsame.trans ?_⟩
    · rcases List.mem_cons.mp hx with rfl | hx
      · exact ⟨not_escapesHalfOpen (by simp), nofun⟩
      · exact hquiet x hx
    · exact Function.update_of_ne (Ne.symm hne) _ _
  | _ =>
    rw [hphase] at hd
    cases hd

/-- In every run in which no exception escapes a handler while `circuit.half_open` is emitted, the
probe slot is free whenever no call is in progress; and unless `reset_timeout` is infinite, a new
call can still be admitted, from every state that the run reaches and however late. -/
theorem probe_slot_freed (h : (calls cfg request).Runs run s)
    (hquiet : ∀ x ∈ run, ¬ EscapesHalfOpen x) :
    ((∀ c, (s.calls c).inProgress = false) → s.circuit.probeInFlight = false) ∧
      (cfg.resetTimeout ≠ .posInf → ∀ c bound, s.calls c = .idle →
        ∃ run' s', (calls cfg request).RunsFrom s run' s' ∧ QuietFrom bound run' ∧
          (s'.calls c).holds.isSome) := by
  have htickets := tickets_of_runs h
  have hholds := unrecorded_eq_holds h hquiet
  constructor
  · intro hended
    rw [← Bool.not_eq_true, htickets.probe]
    rintro ⟨d, hd⟩
    rw [hholds d] at hd
    have hprogress := CallPhase.inProgress_of_holds hd
    rw [hended d] at hprogress
    cases hprogress
  · intro hreset c bound hidle
    cases hprobe : s.circuit.probeInFlight with
    | false => exact admitted_of_free cfg request (events_of_runs h) hreset hprobe hidle bound
    | true =>
      -- The call that took the slot frees it first.
      obtain ⟨d, hd⟩ := htickets.probe.mp hprobe
      rw [hholds d] at hd
      have hne : d ≠ c := by
        rintro rfl
        rw [hidle] at hd
        cases hd
      obtain ⟨run₁, s₁, hrun₁, hquiet₁, hfree, hsame⟩ :=
        freed_of_holds cfg request (events_of_runs h) hd hne bound
      obtain ⟨run₂, s₂, hrun₂, hquiet₂, hadmitted⟩ :=
        admitted_of_free cfg request (events_of_runs (h.append hrun₁)) hreset hfree
          (hsame.trans hidle) bound
      refine ⟨run₁ ++ run₂, s₂, hrun₁.append hrun₂, fun x hx => ?_, hadmitted⟩
      rcases List.mem_append.mp hx with hx | hx
      · exact hquiet₁ x hx
      · exact hquiet₂ x hx

/-- While the second call is the probe, a third call can still be admitted after it. -/
theorem probe_slot_freed_probe : ∃ s,
    (calls hairTrigger fun _ => getRequest).Runs (openThenProbe.zip openThenProbeShown) s ∧
      ∃ run' s', (calls hairTrigger fun _ => getRequest).RunsFrom s run' s' ∧ QuietFrom 60 run' ∧
        (s'.calls 2).holds.isSome := by
  obtain ⟨s, hrun, -⟩ := openThenProbe_runs
  have hidle : s.calls 2 = .idle :=
    idle_of_not_mem_parties hrun 2 (by simp [Machine.parties, openThenProbe, openThenProbeShown])
  exact ⟨s, hrun, (probe_slot_freed hrun fun x hx =>
    not_escapesHalfOpen (openThenProbe_quiet x hx)).2 (by decide) 2 60 hidle⟩

end Httpware.CircuitBreakerState
