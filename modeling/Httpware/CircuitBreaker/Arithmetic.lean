import Httpware.CircuitBreaker.Tickets

/-!
# When the window's arithmetic does not raise

Every window of a circuit has the width that the circuit was configured with (`HasWindow`), and with
a positive width, infinity included, neither `_advance` nor what builds on it raises. The constructor
lets only one other width pass, a NaN: `window_seconds <= 0` is false of it. So `record` of any other
circuit never raises (`record_ok`), in any order of the critical sections (`sections`) and of the
calls, and with a NaN every outcome that counts raises `ValueError` (`record_nan`).
-/

namespace Httpware

open Python (Error Number)

namespace RollingWindow

/-- `_advance` keeps the width. -/
theorem advance_bucketWidth {w w' : RollingWindow} {now : ℚ} (h : w.advance now = .ok w') :
    w'.bucketWidth = w.bucketWidth := by
  obtain ⟨slot, -, h⟩ := Python.ok_of_bind h
  split_ifs at h
  · obtain rfl := Except.ok.inj h
    rfl
  · obtain ⟨current, -, h⟩ := Python.ok_of_bind h
    obtain rfl := Except.ok.inj h
    exact w.rotate_bucketWidth current

/-- With a positive width, `_advance` does not raise. -/
theorem advance_ok {w : RollingWindow} (h : Number.finite 0 < w.bucketWidth) (now : ℚ) :
    ∃ w', w.advance now = .ok w' := by
  -- A positive width gives a slot, and the slot is finite.
  have hslot : ∃ q : ℤ, Python.floorDiv now w.bucketWidth = .ok (.finite q) := by
    cases hwidth : w.bucketWidth with
    | finite width =>
      rw [hwidth, Number.finite_lt_finite] at h
      exact ⟨_, Python.floorDiv_finite now h.ne'⟩
    | posInf => exact ⟨if now < 0 then -1 else 0, by simp only [Python.floorDiv]; split_ifs <;> simp⟩
    | nan => exact absurd (hwidth ▸ h) (Number.not_lt_nan _)
    | negInf => exact absurd (hwidth ▸ h) (Number.not_finite_lt_negInf _)
  obtain ⟨q, hq⟩ := hslot
  unfold advance
  rw [Python.bind_of_ok hq]
  split_ifs
  · exact ⟨w, rfl⟩
  · have hcurrent : Python.toInt (.finite (q : ℚ)) = .ok q := by simp [Python.toInt]
    rw [Python.bind_of_ok hcurrent]
    exact ⟨w.rotate q, rfl⟩

/-- With a NaN for its width, `_advance` raises: `int()` has no integer for the slot. -/
theorem advance_nan {w : RollingWindow} (h : w.bucketWidth = .nan) (now : ℚ) :
    w.advance now = .error .valueError := by
  have hslot : Python.floorDiv now w.bucketWidth = .ok .nan := by
    rw [h]
    rfl
  -- No comparison with the slot holds, so the window is to move there.
  have hlater : ¬ Number.nan ≤ slotNumber w.slot := by
    cases w.slot <;> exact Bool.false_ne_true
  unfold advance
  rw [Python.bind_of_ok hslot, if_neg hlater]
  rfl

end RollingWindow

namespace CircuitBreakerState

variable {cfg : Config} {st st' : CircuitBreakerState} {request : Request}

/-- What `_record_outcome` does to the window keeps the width. -/
theorem windowAfter_bucketWidth {window window' : RollingWindow} {now : ℚ} {failed : Bool}
    {totals : ℤ × ℤ} (h : windowAfter window now failed = .ok (totals, window')) :
    window'.bucketWidth = window.bucketWidth := by
  obtain ⟨window₁, hrecord, htotals⟩ := Python.ok_of_bind h
  obtain ⟨window₂, hadvance, hbump⟩ := Python.ok_of_bind hrecord
  obtain rfl := Except.ok.inj hbump
  obtain ⟨window₃, hadvance', hread⟩ := Python.ok_of_bind htotals
  obtain ⟨-, rfl⟩ := Prod.mk.inj (Except.ok.inj hread)
  rw [RollingWindow.advance_bucketWidth hadvance', RollingWindow.bump_bucketWidth,
    RollingWindow.advance_bucketWidth hadvance]

/-- With a positive width it does not raise. -/
theorem windowAfter_ok {window : RollingWindow} (h : Number.finite 0 < window.bucketWidth) (now : ℚ)
    (failed : Bool) : ∃ r, windowAfter window now failed = .ok r := by
  obtain ⟨window₁, hadvance⟩ := RollingWindow.advance_ok h now
  have hrecord : window.record now failed = .ok (window₁.bump failed) := by
    rw [RollingWindow.record, Python.bind_of_ok hadvance]
    rfl
  have hwidth : Number.finite 0 < (window₁.bump failed).bucketWidth := by
    rw [RollingWindow.bump_bucketWidth, RollingWindow.advance_bucketWidth hadvance]
    exact h
  obtain ⟨window₂, hadvance'⟩ := RollingWindow.advance_ok hwidth now
  rw [windowAfter, Python.bind_of_ok hrecord, RollingWindow.totals, Python.bind_of_ok hadvance']
  exact ⟨_, rfl⟩

/-- A window that is not a NaN is positive, and so are its buckets. -/
theorem Config.bucketWidth_pos (h : cfg.windowSeconds ≠ .nan) :
    Number.finite 0 < cfg.windowSeconds.divNat RollingWindow.bucketCount := by
  have hpos := cfg.checks.2.2.2.2.1
  cases hwindow : cfg.windowSeconds with
  | nan => exact absurd hwindow h
  | negInf => exact absurd (by rw [hwindow]; rfl) hpos
  | finite q =>
    rw [hwindow, Number.finite_le_finite, not_le] at hpos
    simp only [Number.divNat, RollingWindow.bucketCount, Number.finite_lt_finite]
    positivity
  | posInf => exact Number.finite_lt_posInf 0

/-- The circuit has a window of the configured width, if it is in the rate mode. -/
def HasWindow (cfg : Config) (st : CircuitBreakerState) : Prop :=
  cfg.rateMode = true → ∃ window, st.window = some window ∧
    window.bucketWidth = cfg.windowSeconds.divNat RollingWindow.bucketCount

/-- A new circuit has its window. -/
theorem hasWindow_init (cfg : Config) : HasWindow cfg (init cfg) := fun hmode =>
  ⟨.init cfg.windowSeconds, if_pos hmode, rfl⟩

/-- What keeps the window keeps it. -/
theorem HasWindow.of_window (h : HasWindow cfg st) (hwindow : st'.window = st.window) :
    HasWindow cfg st' := fun hmode => by
  rw [hwindow]
  exact h hmode

/-- `admit` does not touch the window. -/
theorem HasWindow.admits (h : HasWindow cfg st) {now : ℚ} {admission : Admission}
    (hadmits : Admits cfg st request now admission st') : HasWindow cfg st' := by
  apply h.of_window
  cases hadmits with
  | rejectedOpen _ _ _ hreject => cases hreject <;> rfl
  | rejectedProbe _ _ _ hreject => cases hreject <;> rfl
  | _ => rfl

/-- `record` keeps the window's width. -/
theorem HasWindow.records (h : HasWindow cfg st) {clock : Readings} {ticket : ℤ} {outcome : Outcome}
    {events : Option (List Event)} (hrecords : Records cfg st request clock ticket outcome events st') :
    HasWindow cfg st' := by
  -- The window after the outcome, with or without a trip.
  have hafter : ∀ {window window' : RollingWindow} {totals : ℤ × ℤ}, st.window = some window →
      windowAfter window clock.outcome (outcome = .failure) = .ok (totals, window') →
      st'.window = some window' → HasWindow cfg st' := by
    intro window window' totals hwindow hafter hst' hmode
    obtain ⟨window₁, hwindow₁, hwidth⟩ := h hmode
    obtain rfl := Option.some.inj (hwindow.symm.trans hwindow₁)
    exact ⟨window', hst', (windowAfter_bucketWidth hafter).trans hwidth⟩
  cases hrecords with
  | windowed _ _ hwindow hok _ => exact hafter hwindow hok rfl
  | rateTripped _ _ hwindow hok _ => exact hafter hwindow hok rfl
  | probeClosed hge =>
    intro hmode
    obtain ⟨window, hwindow, hwidth⟩ := h hmode
    refine ⟨window.clear, ?_, hwidth⟩
    rw [hwindow]
    exact if_pos hmode
  | _ => exact h.of_window rfl

/-- Every circuit has its window after every run. -/
theorem hasWindow_of_runs {request : CallId → Request}
    {run : List ((CallId × CallAction) × Shown)} {s : System} (h : (calls cfg request).Runs run s) :
    HasWindow cfg s.circuit := by
  apply h.invariant (I := fun _ s => HasWindow cfg s.circuit)
  · exact hasWindow_init cfg
  · intro run s a o s' hrun hwindow hstep
    obtain ⟨st, phase, hcases, rfl⟩ := step_cases hrun hstep
    generalize s.calls a.1 = before at hcases
    generalize a.2 = action at hcases
    cases hcases with
    | admitted hadmits => exact hwindow.admits hadmits
    | halfOpened hadmits => exact hwindow.admits hadmits
    | rejected hadmits => exact hwindow.admits hadmits
    | recorded hrecords => exact hwindow.records hrecords
    | _ => exact hwindow

/-- `record` does not raise, unless the configured window is a NaN. -/
theorem HasWindow.record_ok (h : HasWindow cfg st) (hnan : cfg.windowSeconds ≠ .nan) (ticket : ℤ)
    (outcome : Outcome) (request : Request) (clock : Readings) (e : Error) :
    st.record cfg ticket outcome request clock ≠ .error e := by
  intro herror
  obtain ⟨hmode, -, herror⟩ := record_error herror
  obtain ⟨window, hwindow, hwidth⟩ := h hmode
  have hpos : Number.finite 0 < window.bucketWidth := by
    rw [hwidth]
    exact cfg.bucketWidth_pos hnan
  obtain ⟨r, hok⟩ := windowAfter_ok hpos clock.outcome (outcome = .failure)
  rw [recordOutcome_error hwindow herror] at hok
  cases hok

/-- With a NaN for the configured window, `record` raises on every outcome that counts. -/
theorem HasWindow.record_nan (h : HasWindow cfg st) (hmode : cfg.rateMode = true)
    (hnan : cfg.windowSeconds = .nan) {outcome : Outcome} (hne : outcome ≠ .foreign)
    (request : Request) (clock : Readings) :
    st.record cfg st.epoch outcome request clock = .error .valueError := by
  obtain ⟨window, hwindow, hwidth⟩ := h hmode
  have hrecord : window.record clock.outcome (outcome = .failure) = .error .valueError :=
    Python.bind_of_error (RollingWindow.advance_nan (hwidth.trans (by rw [hnan]; rfl)) _)
  have herror : st.recordOutcome cfg request (outcome = .failure) clock = .error .valueError := by
    unfold recordOutcome
    rw [hwindow]
    exact Python.bind_of_error hrecord
  have hclassic : ¬ (outcome = .success ∧ ¬ cfg.rateMode) := fun hreset => hreset.2 hmode
  have happly : st.applyOutcome cfg st.epoch outcome request clock = .error .valueError := by
    rw [applyOutcome, if_pos rfl, if_neg hclassic, if_pos hne, recordClosed, if_pos hmode]
    exact herror
  exact congrArg (Except.map takeEvents) happly

/-- A call ends with an error of the arithmetic only where the configured window is a NaN, in the rate
mode. -/
theorem rateMode_nan_of_error {request : CallId → Request}
    {run : List ((CallId × CallAction) × Shown)} {s : System} (h : (calls cfg request).Runs run s)
    (c : CallId) (e : Error) (hphase : s.calls c = .finished (.error e)) :
    cfg.rateMode = true ∧ cfg.windowSeconds = .nan := by
  by_contra hnan
  have hnone : ∀ c e, s.calls c ≠ .finished (.error e) := by
    apply h.invariant (I := fun _ s => ∀ c e, s.calls c ≠ .finished (.error e))
    · intro c e hc
      cases hc
    · rintro run s ⟨d, action⟩ o s' hrun ih hstep c e
      have hwindow := hasWindow_of_runs hrun
      obtain ⟨st, phase, hcases, rfl⟩ := step_cases hrun hstep
      dsimp only
      rcases eq_or_ne c d with rfl | hcd
      · rw [Function.update_self]
        rintro rfl
        generalize s.calls c = before at hcases
        generalize hafter : CallPhase.finished (.error e) = after at hcases
        cases hcases with
        | failed herror =>
          have hfinite : cfg.windowSeconds ≠ .nan := fun hw => hnan ⟨(record_error herror).1, hw⟩
          exact hwindow.record_ok hfinite _ _ _ _ _ herror
        | @halfOpened _ _ events => cases events <;> cases hafter
        | @rejected _ _ events => cases events <;> cases hafter
        | @recorded _ _ _ events => cases events <;> cases hafter
        | @emittedHalfOpen _ _ escapes => cases escapes <;> cases hafter
        | @emittedRejection _ _ escapes => cases escapes <;> cases hafter
        | @emittedRecord _ _ escapes => cases escapes <;> cases hafter
        | _ => cases hafter
      · rw [Function.update_of_ne hcd]
        exact ih c e
  exact hnone c e hphase

/-! ## Every run -/

/-- A critical section of a circuit, whoever enters it: `record` may be given any ticket. -/
inductive CriticalSection
  | admitCall (request : Request) (now : ℚ)
  | record (ticket : ℤ) (outcome : Outcome) (request : Request) (clock : Readings)

/-- How a critical section ends: `raised` is an exception other than the signals of `admit`. -/
inductive SectionEnding
  | admitted (admission : Admission)
  | recorded (events : Option (List Event))
  | raised (e : Error)

/-- The critical sections of a circuit, in any order. -/
def sections (cfg : Config) : Machine CircuitBreakerState CriticalSection SectionEnding where
  init := init cfg
  step st
    | .admitCall request now =>
      some (.admitted (st.admitCall cfg request now).1, (st.admitCall cfg request now).2)
    | .record ticket outcome request clock =>
      match st.record cfg ticket outcome request clock with
      | .error e => some (.raised e, st)
      | .ok (events, st') => some (.recorded events, st')

/-- A circuit never fails by itself: in every run of its critical sections none raises but with the
signals of `admit`, and in every run of calls none ends with an error of the bookkeeping. -/
structure NeverFails (cfg : Config) : Prop where
  sections : ∀ {run : List (CriticalSection × SectionEnding)} {st : CircuitBreakerState},
    (sections cfg).Runs run st → ∀ x ∈ run, ∀ e, x.2 ≠ .raised e
  calls : ∀ (request : CallId → Request) {run : List ((CallId × CallAction) × Shown)} {s : System},
    (calls cfg request).Runs run s → ∀ c e, s.calls c ≠ .finished (.error e)

/-- A critical section that ends is an admission or a record by cases, or a record that raised and
left the circuit as it was. -/
theorem sections_step {entered : CriticalSection} {ending : SectionEnding} (hev : st.events = none)
    (h : (sections cfg).step st entered = some (ending, st')) :
    (∃ request now admission, Admits cfg st request now admission st' ∧
      ending = .admitted admission) ∨
    (∃ ticket outcome request clock events,
      Records cfg st request clock ticket outcome events st' ∧ ending = .recorded events) ∨
    (∃ ticket outcome request clock e,
      st.record cfg ticket outcome request clock = .error e ∧ ending = .raised e ∧ st' = st) := by
  cases entered with
  | admitCall request now =>
    obtain ⟨rfl, rfl⟩ := Prod.mk.inj (Option.some.inj h)
    exact .inl ⟨request, now, _, admit_cases cfg request hev now, rfl⟩
  | record ticket outcome request clock =>
    simp only [sections] at h
    cases hrecord : st.record cfg ticket outcome request clock with
    | error e =>
      rw [hrecord] at h
      obtain ⟨rfl, rfl⟩ := Prod.mk.inj (Option.some.inj h)
      exact .inr (.inr ⟨ticket, outcome, request, clock, e, hrecord, rfl, rfl⟩)
    | ok r =>
      rw [hrecord] at h
      obtain ⟨rfl, rfl⟩ := Prod.mk.inj (Option.some.inj h)
      exact .inr (.inl ⟨ticket, outcome, request, clock, r.1, record_cases hev hrecord, rfl⟩)

/-- The circuit has its window, and no events wait, after every run of critical sections. -/
theorem hasWindow_of_sections {run : List (CriticalSection × SectionEnding)}
    (h : (sections cfg).Runs run st) : HasWindow cfg st ∧ st.events = none := by
  apply h.state_invariant (I := fun st => HasWindow cfg st ∧ st.events = none)
  · exact ⟨hasWindow_init cfg, rfl⟩
  · intro st entered ending st' ⟨hwindow, hev⟩ hstep
    rcases sections_step hev hstep with ⟨request, now, admission, hadmits, -⟩ |
      ⟨ticket, outcome, request, clock, events, hrecords, -⟩ | ⟨-, -, -, -, -, -, -, rfl⟩
    · exact ⟨hwindow.admits hadmits, hadmits.events hev⟩
    · exact ⟨hwindow.records hrecords, hrecords.events hev⟩
    · exact ⟨hwindow, hev⟩

/-- No critical section raises, unless the configured window is a NaN in the rate mode. -/
theorem sections_ok (hnan : cfg.rateMode = true → cfg.windowSeconds ≠ .nan)
    {run : List (CriticalSection × SectionEnding)} (h : (sections cfg).Runs run st) :
    ∀ x ∈ run, ∀ e, x.2 ≠ .raised e := by
  apply h.invariant (I := fun run _ => ∀ x ∈ run, ∀ e, x.2 ≠ .raised e)
  · intro x hx
    exact absurd hx List.not_mem_nil
  · intro run st entered ending st' hrun ih hstep x hx e
    obtain ⟨hwindow, hev⟩ := hasWindow_of_sections hrun
    rcases List.mem_append.mp hx with hx | hx
    · exact ih x hx e
    · rw [List.mem_singleton.mp hx]
      rcases sections_step hev hstep with ⟨-, -, admission, -, rfl⟩ |
        ⟨-, -, -, -, events, -, rfl⟩ | ⟨ticket, outcome, request, clock, e', herror, -, -⟩
      · intro hraised
        cases hraised
      · intro hraised
        cases hraised
      · exact absurd herror
          (hwindow.record_ok (hnan (record_error herror).1) ticket outcome request clock e')

/-- With a NaN for the window of the rate mode, the first record raises. -/
theorem fails_of_nan (hmode : cfg.rateMode = true) (hnan : cfg.windowSeconds = .nan)
    (request : Request) (clock : Readings) :
    (sections cfg).Runs [(.record 0 .success request clock, .raised .valueError)] (init cfg) := by
  apply Machine.RunsFrom.single
  have herror : (init cfg).record cfg 0 .success request clock = .error .valueError :=
    (hasWindow_init cfg).record_nan hmode hnan Outcome.noConfusion request clock
  change (match (init cfg).record cfg 0 .success request clock with
    | .error e => some (SectionEnding.raised e, init cfg)
    | .ok (events, st') => some (.recorded events, st')) = _
  rw [herror]

/-- The breaker never fails by itself exactly when its window is not a NaN, or it is not in the rate
mode. -/
theorem neverFails_iff (cfg : Config) :
    NeverFails cfg ↔ (cfg.rateMode = true → cfg.windowSeconds ≠ .nan) := by
  constructor
  · intro hnever hmode hnan
    have hrun := fails_of_nan hmode hnan getRequest ⟨0, 0⟩
    exact hnever.sections hrun _ (List.mem_singleton.mpr rfl) .valueError rfl
  · intro hnan
    refine ⟨sections_ok hnan, fun request run s hrun c e herror => ?_⟩
    obtain ⟨hmode, hwindow⟩ := rateMode_nan_of_error hrun c e herror
    exact hnan hmode hwindow

/-- A window that the constructor lets pass. -/
def nanWindow : Config where
  failureRateThreshold := some (.finite (1 / 2))
  windowSeconds := .nan
  accepted := by decide +kernel

/-- With it, the first call through the breaker ends with `ValueError` although `next` returned. -/
theorem nanWindow_fails :
    nanWindow.rateMode = true ∧ ¬ NeverFails nanWindow ∧
      ∃ s, (calls nanWindow fun _ => getRequest).Runs
          [((0, .read), ⟨.read (some 0), [], .CLOSED⟩),
            ((0, .finish (.returned ⟨200, []⟩) ⟨0, 0⟩), ⟨.failed .valueError, [], .CLOSED⟩)] s ∧
        s.calls 0 = .finished (.error .valueError) := by
  have hread : (calls nanWindow fun _ => getRequest).step (calls nanWindow fun _ => getRequest).init
      (0, .read) = some (⟨.read (some 0), [], .CLOSED⟩,
        ⟨init nanWindow, Function.update (fun _ => .idle) 0 (.inNext 0)⟩) := rfl
  have hfinish : (calls nanWindow fun _ => getRequest).step
      ⟨init nanWindow, Function.update (fun _ => .idle) 0 (.inNext 0)⟩
      (0, .finish (.returned ⟨200, []⟩) ⟨0, 0⟩) = some (⟨.failed .valueError, [], .CLOSED⟩,
        ⟨init nanWindow, Function.update (Function.update (fun _ => .idle) 0 (.inNext 0)) 0
          (.finished (.error .valueError))⟩) := rfl
  have hrun := (Machine.RunsFrom.single hread).snoc hfinish
  have hended : Function.update (Function.update (fun _ : CallId => CallPhase.idle) 0 (.inNext 0)) 0
      (.finished (.error .valueError)) 0 = .finished (.error .valueError) := Function.update_self ..
  exact ⟨rfl, fun hnever => hnever.calls _ hrun 0 .valueError hended, _, hrun, hended⟩

end CircuitBreakerState

end Httpware
