import Httpware.CircuitBreaker.History

/-!
# The rate mode trips exactly when its condition holds

`rateRule` is the documented condition of the rate mode: among the counted outcomes of the period in
the ten slots that end at the effective slot there are at least `minimum_calls`, and the share of
failures is at least `failure_rate_threshold`. The window counts exactly these outcomes
(`TracksWindow`), so its two totals decide the rule (`rate_implements`). `rate_trips` reads the
simulation at the step that records an outcome.
-/

namespace Httpware.CircuitBreakerState

open Python (Error Number)

/-- The width of a bucket of the window. -/
def Config.windowWidth (cfg : Config) : ℚ := cfg.windowSeconds.toRat / 10

/-- The counted outcomes in the ten slots that end at `s`. -/
def inWindow (s : ℤ) (outcomes : List Entry) : List Entry := outcomes.filter fun e => s - 9 ≤ e.slot

/-- There are enough outcomes, and the share of failures reaches the threshold. -/
def RateReached (cfg : Config) (threshold : Number) (outcomes : List Entry) : Prop :=
  cfg.minimumCalls ≤ outcomes.length ∧
    threshold ≤ .finite ((outcomes.countP Entry.failed : ℚ) / outcomes.length)

/-- The condition of the rate mode. -/
def rateRule (cfg : Config) (threshold : Number) : TripRule where
  slotOf now := ⌊now / cfg.windowWidth⌋
  trips s outcomes := RateReached cfg threshold (inWindow s outcomes)

/-- The outcomes as the window counts them. -/
def windowLog (outcomes : List Entry) : List (ℤ × Bool) := outcomes.map fun e => (e.slot, e.failed)

/-- The window counts the outcomes. -/
def TracksWindow (cfg : Config) (st : CircuitBreakerState) (effective : Option ℤ)
    (outcomes : List Entry) : Prop :=
  ∃ window, st.window = some window ∧ window.bucketWidth = .finite cfg.windowWidth ∧
    window.Counts effective (windowLog outcomes)

/-- A finite window has buckets of a positive width. -/
theorem Config.windowWidth_pos {cfg : Config} (hfinite : cfg.windowSeconds.isFinite = true) :
    0 < cfg.windowWidth := by
  have hpos := cfg.checks.2.2.2.2.1
  rw [Number.eq_finite_toRat hfinite, Number.finite_le_finite, not_le] at hpos
  exact div_pos hpos (by norm_num)

/-- What `_record_outcome` does to a window that counts: the window records the outcome at the
effective slot, and the totals are those of the longer log in the ten slots that end there. -/
theorem windowAfter_eq {window : RollingWindow} {width : ℚ} {effective : Option ℤ}
    {log : List (ℤ × Bool)} (hwidth : window.bucketWidth = .finite width) (hpos : 0 < width)
    (hcounts : window.Counts effective log) (now : ℚ) (failed : Bool) :
    ∃ window', windowAfter window now failed =
        .ok ((window'.total, window'.failures), window') ∧
      window'.bucketWidth = .finite width ∧
      window'.Counts (some (RollingWindow.effectiveAt effective ⌊now / width⌋))
        (log ++ [(RollingWindow.effectiveAt effective ⌊now / width⌋, failed)]) := by
  have hmoved := RollingWindow.counts_bump
    (RollingWindow.counts_moveTo hcounts ⌊now / width⌋) failed
  have hwidth' : ((window.moveTo ⌊now / width⌋).bump failed).bucketWidth = .finite width := by
    rw [RollingWindow.bump_bucketWidth, RollingWindow.moveTo_bucketWidth, hwidth]
  refine ⟨(window.moveTo ⌊now / width⌋).bump failed, ?_, hwidth', hmoved⟩
  have hle : ⌊now / width⌋ ≤ RollingWindow.effectiveAt effective ⌊now / width⌋ := by
    cases effective with
    | none => exact le_rfl
    | some prev => exact le_max_right _ _
  have hrecord : window.record now failed = .ok ((window.moveTo ⌊now / width⌋).bump failed) := by
    rw [RollingWindow.record, RollingWindow.advance_eq hwidth hpos]
    rfl
  -- The totals are read at the same slot, so the window does not move again.
  rw [windowAfter, hrecord]
  change RollingWindow.totals _ now = _
  rw [RollingWindow.totals, RollingWindow.advance_eq hwidth' hpos,
    RollingWindow.moveTo_of_slot hmoved.slot hle]
  rfl

/-- The totals of a window that counts the outcomes decide the rule. -/
theorem rateExceeded_iff {cfg : Config} {threshold : Number} {window : RollingWindow} {s : ℤ}
    {outcomes : List Entry} (hcounts : window.Counts (some s) (windowLog outcomes)) :
    cfg.rateExceeded threshold window.total window.failures ↔
      RateReached cfg threshold (inWindow s outcomes) := by
  obtain ⟨htotal, hfailures⟩ := RollingWindow.totals_of_counts hcounts
  have hlog : RollingWindow.inWindow s (windowLog outcomes) = windowLog (inWindow s outcomes) := by
    unfold RollingWindow.inWindow windowLog inWindow
    rw [List.filter_map]
    rfl
  rw [hlog] at htotal hfailures
  have hlength : (windowLog (inWindow s outcomes)).length = (inWindow s outcomes).length := by
    simp [windowLog]
  have hfailed : (windowLog (inWindow s outcomes)).countP (fun e => e.2) =
      (inWindow s outcomes).countP Entry.failed := by
    rw [windowLog, List.countP_map]
    rfl
  rw [hlength] at htotal
  rw [hfailed] at hfailures
  unfold Config.rateExceeded RateReached
  rw [htotal, hfailures]
  push_cast
  rfl

/-- The window decides the rule of the rate mode. -/
theorem rate_implements {cfg : Config} {threshold : Number}
    (hrate : cfg.failureRateThreshold = some threshold)
    (hfinite : cfg.windowSeconds.isFinite = true) :
    Implements cfg (rateRule cfg threshold) (TracksWindow cfg) where
  init := by
    have hmode : cfg.rateMode = true := by simp [Config.rateMode, hrate]
    refine ⟨.init cfg.windowSeconds, if_pos hmode, ?_, RollingWindow.counts_init _⟩
    rw [Number.eq_finite_toRat hfinite]
    rfl
  frame htracks _ hwindow := by
    obtain ⟨window, hw, htracks⟩ := htracks
    exact ⟨window, hwindow.trans hw, htracks⟩
  opened _ htracks := ⟨_, htracks⟩
  closed htracks _ hwindow := by
    obtain ⟨window, hw, hwidth, hcounts⟩ := htracks
    refine ⟨window.clear, ?_, hwidth, RollingWindow.counts_clear hcounts⟩
    rw [hwindow, if_pos (by simp [Config.rateMode, hrate]), hw]
    rfl
  ok htracks herror := by
    obtain ⟨window, hw, hwidth, hcounts⟩ := htracks
    have herror := recordOutcome_error hw (record_error herror).2.2
    obtain ⟨window', hafter, -, -⟩ :=
      windowAfter_eq hwidth (Config.windowWidth_pos hfinite) hcounts _ _
    rw [hafter] at herror
    cases herror
  record := by
    intro st st' effective outcomes request clock events e htracks hne hslot hrecord
    obtain ⟨window, hw, hwidth, hcounts⟩ := htracks
    obtain ⟨window', hafter, hwidth', hcounts'⟩ := windowAfter_eq hwidth
      (Config.windowWidth_pos hfinite) hcounts clock.outcome (e.outcome = .failure)
    have hlog : windowLog outcomes ++ [(e.slot, decide (e.outcome = .failure))] =
        windowLog (outcomes ++ [e]) := by
      simp [windowLog, Entry.failed]
    have hslot : RollingWindow.effectiveAt effective ⌊clock.outcome / cfg.windowWidth⌋ = e.slot :=
      hslot.symm
    rw [hslot, hlog] at hcounts'
    have hiff : cfg.rateExceeded threshold _ _ ↔ _ := rateExceeded_iff hcounts'
    have hrateMode : cfg.rateMode = true := by simp [Config.rateMode, hrate]
    -- Whatever the outcome, `record` read these totals.
    have hread : ∀ {threshold' window₁ window₂ total failures},
        cfg.failureRateThreshold = some threshold' → st.window = some window₁ →
        windowAfter window₁ clock.outcome (e.outcome = .failure) =
          .ok ((total, failures), window₂) →
        threshold' = threshold ∧ total = window'.total ∧ failures = window'.failures ∧
          window₂ = window' := by
      intro threshold' window₁ window₂ total failures hthreshold hwindow hafter'
      rw [hrate, Option.some.injEq] at hthreshold
      rw [hw, Option.some.injEq] at hwindow
      subst hthreshold hwindow
      rw [hafter] at hafter'
      simp only [Except.ok.injEq, Prod.mk.injEq] at hafter'
      exact ⟨rfl, hafter'.1.1.symm, hafter'.1.2.symm, hafter'.2.symm⟩
    generalize houtcome : e.outcome = outcome at hrecord hne hread
    generalize hticket : st.epoch = ticket at hrecord
    cases hrecord with
    | stale hstale _ => exact absurd hticket.symm hstale
    | foreign => exact absurd rfl hne
    | reset hmode => rw [hrateMode] at hmode; cases hmode
    | counted hmode _ => rw [hrateMode] at hmode; cases hmode
    | tripped hmode _ => rw [hrateMode] at hmode; cases hmode
    | windowed _ hthreshold hwindow hafter' hlow =>
      obtain ⟨rfl, rfl, rfl, rfl⟩ := hread hthreshold hwindow hafter'
      exact .inr ⟨mt hiff.mpr hlow, ⟨_, _, rfl⟩, _, rfl, hwidth', hcounts'⟩
    | rateTripped _ hthreshold hwindow hafter' hhigh =>
      obtain ⟨rfl, rfl, rfl, rfl⟩ := hread hthreshold hwindow hafter'
      exact .inl ⟨hiff.mp hhigh, _, rfl, _, _, rfl, hwidth', hcounts'⟩
    | _ => omega

/-- The rate mode trips exactly when its condition holds. After every run there is the history of it,
and the next record opens the closed circuit exactly when its call was admitted in the current period,
its outcome is not foreign, and among the counted outcomes of the period in the ten slots that end at
the effective slot, this one included, there are at least `minimum_calls` with a share of failures of
at least the threshold. -/
theorem rate_trips {cfg : Config} {threshold : Number}
    (hrate : cfg.failureRateThreshold = some threshold)
    (hfinite : cfg.windowSeconds.isFinite = true) {request : CallId → Request}
    {run : List ((CallId × CallAction) × Shown)} {s : System}
    (hrun : (calls cfg request).Runs run s) :
    ∃ h, (History.machine cfg (rateRule cfg threshold)).Runs
        (run.filterMap fun x => visible x.1 x.2) h ∧ s.circuit.state = h.condition.state ∧
      ∀ c ending clock o s',
        (calls cfg request).step s (c, .finish ending clock) = some (o, s') →
        ∃ period, h.calls c = .admitted period ∧
          (s.circuit.state = .CLOSED ∧ s'.circuit.state = .OPEN ↔
            s.circuit.state = .CLOSED ∧ period = h.period ∧ outcomeOf cfg ending ≠ .foreign ∧
              RateReached cfg threshold (inWindow
                (RollingWindow.effectiveAt h.effective
                  ⌊clock.outcome / (cfg.windowSeconds.toRat / 10)⌋)
                (History.counted h.period h.log ++
                  [h.entry (rateRule cfg threshold) period (outcomeOf cfg ending) clock]))) := by
  have hi := rate_implements hrate hfinite
  obtain ⟨h, hspec, hs⟩ := refines hi hrun
  refine ⟨h, hspec, hs.circuit.state, fun c ending clock o s' hstep => ?_⟩
  obtain ⟨period, hcall, hstate⟩ := record_follows hi hrun hs hstep
  refine ⟨period, hcall, ?_⟩
  rw [hstate, hs.circuit.state]
  exact h.record_opens_iff cfg (rateRule cfg threshold) period (outcomeOf cfg ending) clock

/-- A circuit that opens at two outcomes of which half are failures. -/
def halfRate : Config where
  failureRateThreshold := some (.finite (1 / 2))
  minimumCalls := 2
  accepted := by decide +kernel

/-- Two calls begin, and the first fails. -/
def oneFailure : List ((CallId × CallAction) × Shown) :=
  [((0, .read), ⟨.read (some 0), [], .CLOSED⟩), ((1, .read), ⟨.read (some 0), [], .CLOSED⟩),
    ((0, .finish (.raised .networkError) ⟨0, 0⟩), ⟨.recorded .failure, [], .CLOSED⟩)]

/-- The second call succeeds, which completes the quota. -/
def thenSuccess : (CallId × CallAction) × Shown :=
  ((1, .finish (.returned ⟨200, []⟩) ⟨0, 0⟩),
    ⟨.recorded .success, [openedEvent halfRate getRequest
      "circuit opened — failure rate threshold reached"
      [("failure_rate", .number (.finite (1 / 2))),
        ("failure_rate_threshold", .number (.finite (1 / 2))),
        ("window_seconds", .number (.finite 30)), ("observed_calls", .int 2)]], .OPEN⟩)

/-- The success that completes the quota can be the outcome that opens the circuit. -/
theorem rate_trips_success : ∃ s s' : System, ∃ h : History,
    (calls halfRate fun _ => getRequest).step s thenSuccess.1 = some (thenSuccess.2, s') ∧
      s'.circuit.state = .OPEN ∧
      RateReached halfRate (.finite (1 / 2)) (inWindow (RollingWindow.effectiveAt h.effective 0)
        (History.counted h.period h.log ++
          [h.entry (rateRule halfRate (.finite (1 / 2))) h.period .success ⟨0, 0⟩])) := by
  obtain ⟨s', hrun', hopen⟩ := Machine.exists_runs_of_observe (calls halfRate fun _ => getRequest)
    (fun s => s.circuit.state) ((oneFailure ++ [thenSuccess]).map Prod.fst)
    ((oneFailure ++ [thenSuccess]).map Prod.snd) .OPEN (by decide +kernel)
  obtain ⟨s, hrun, hstep⟩ := Machine.RunsFrom.of_snoc
    (show (calls halfRate fun _ => getRequest).Runs (oneFailure ++ [thenSuccess]) s' from hrun')
  have hclosed : s.circuit.state = .CLOSED := by
    obtain ⟨s₁, hrun₁, hstep₁⟩ := Machine.RunsFrom.of_snoc
      (show (calls halfRate fun _ => getRequest).Runs (oneFailure.take 2 ++ [_]) s from hrun)
    exact (state_of_step hrun₁ hstep₁).symm
  obtain ⟨h, -, -, htrips⟩ := rate_trips rfl rfl hrun
  obtain ⟨period, -, hiff⟩ := htrips 1 _ _ _ _ hstep
  obtain ⟨-, rfl, -, hreached⟩ := hiff.mp ⟨hclosed, hopen⟩
  refine ⟨s, s', h, hstep, hopen, ?_⟩
  have hslot : ⌊(0 : ℚ) / (halfRate.windowSeconds.toRat / 10)⌋ = 0 := by simp
  rw [← hslot]
  exact hreached

end Httpware.CircuitBreakerState
