import Httpware.CircuitBreaker.History

/-!
# The classic mode refines its history

The classic mode keeps one counter of failures in a row. `classicRule` is what it stands for: the last
`failure_threshold` counted outcomes of the period are all failures. `classic_implements` shows that
the counter is the number of failures at the end of the period's outcomes, which decides the rule, so
`classic_refines` follows from the simulation.
-/

namespace Httpware.CircuitBreakerState

open Python (Error Number)

/-- The last `k` outcomes are all failures. -/
def LastFailed (k : ℤ) (outcomes : List Entry) : Prop :=
  ∃ earlier last, outcomes = earlier ++ last ∧ (last.length : ℤ) = k ∧
    ∀ e ∈ last, e.outcome = .failure

/-- The classic mode trips when the last `failure_threshold` counted outcomes of the period are all
failures. It has no slots. -/
def classicRule (cfg : Config) : TripRule where
  slotOf _ := 0
  trips _ outcomes := LastFailed cfg.failureThreshold outcomes

/-- The number of failures at the end of a list of outcomes. -/
def trailingFailures (outcomes : List Entry) : ℕ := (outcomes.rtakeWhile Entry.failed).length

/-- The failures at the end of a longer list. -/
theorem trailingFailures_append (outcomes : List Entry) (e : Entry) :
    trailingFailures (outcomes ++ [e]) =
      if e.outcome = .failure then trailingFailures outcomes + 1 else 0 := by
  unfold trailingFailures
  rw [List.rtakeWhile_concat]
  by_cases he : e.outcome = .failure
  · simp [Entry.failed, he]
  · simp [Entry.failed, he]

/-- The last `k` outcomes are all failures exactly when at least `k` failures are at the end. -/
theorem lastFailed_iff {k : ℤ} (hk : 0 ≤ k) (outcomes : List Entry) :
    LastFailed k outcomes ↔ k ≤ trailingFailures outcomes := by
  induction outcomes using List.reverseRecOn generalizing k with
  | nil =>
    constructor
    · rintro ⟨earlier, last, happend, rfl, -⟩
      obtain ⟨-, rfl⟩ := List.append_eq_nil_iff.mp happend.symm
      exact le_rfl
    · intro hle
      exact ⟨[], [], rfl, le_antisymm hk hle, nofun⟩
  | append_singleton outcomes e ih =>
    rw [trailingFailures_append]
    constructor
    · rintro ⟨earlier, last, happend, hlength, hall⟩
      rcases List.eq_nil_or_concat' last with rfl | ⟨last, e', rfl⟩
      · obtain rfl : 0 = k := hlength
        exact Int.natCast_nonneg _
      · -- The last of them is the new outcome, and the others end the shorter list.
        rw [← List.append_assoc] at happend
        obtain ⟨rfl, he⟩ := List.append_inj' happend rfl
        obtain rfl : e = e' := by simpa using he
        have hfailed := hall e (by simp)
        rw [if_pos hfailed]
        have hshort := (ih (k := k - 1) (by simp at hlength; omega)).mp
          ⟨earlier, last, rfl, by simp at hlength; omega,
            fun e he => hall e (List.mem_append_left _ he)⟩
        push_cast
        omega
    · intro hle
      by_cases hzero : k = 0
      · exact ⟨outcomes ++ [e], [], by simp, by simp [hzero], nofun⟩
      · by_cases he : e.outcome = .failure
        · rw [if_pos he] at hle
          push_cast at hle
          obtain ⟨earlier, last, rfl, hlength, hall⟩ :=
            (ih (k := k - 1) (by omega)).mpr (by omega)
          refine ⟨earlier, last ++ [e], by simp, by simp; omega, fun e' he' => ?_⟩
          rcases List.mem_append.mp he' with he' | he'
          · exact hall e' he'
          · rw [List.mem_singleton.mp he']
            exact he
        · rw [if_neg he] at hle
          push_cast at hle
          omega

/-- The counter of the classic mode. -/
def TracksFailures (st : CircuitBreakerState) (_ : Option ℤ) (outcomes : List Entry) : Prop :=
  st.consecutiveFailures = trailingFailures outcomes

/-- The counter decides the rule of the classic mode. -/
theorem classic_implements {cfg : Config} (hmode : cfg.rateMode = false) :
    Implements cfg (classicRule cfg) TracksFailures where
  init := rfl
  frame htracks hfailures _ := hfailures.trans htracks
  opened _ _ := ⟨[], rfl⟩
  closed _ hfailures _ := hfailures
  ok _ herror := by
    have hrate := (record_error herror).1
    rw [hmode] at hrate
    cases hrate
  record := by
    intro st st' effective outcomes request clock events e htracks hne _ hrecord
    have hthreshold := cfg.checks.1
    have hiff := lastFailed_iff (k := cfg.failureThreshold) (by omega) (outcomes ++ [e])
    rw [trailingFailures_append] at hiff
    have htracks : st.consecutiveFailures = trailingFailures outcomes := htracks
    have hnorate : ∀ {threshold}, cfg.failureRateThreshold ≠ some threshold := by
      intro threshold hsome
      simp [Config.rateMode, hsome] at hmode
    generalize houtcome : e.outcome = outcome at hrecord hne hiff
    generalize hticket : st.epoch = ticket at hrecord
    cases hrecord with
    | stale hstale _ => exact absurd hticket.symm hstale
    | foreign => exact absurd rfl hne
    | reset _ =>
      -- A success ends the failures in a row.
      rw [if_neg (by simp)] at hiff
      refine .inr ⟨fun htrips => ?_, ⟨0, st.window, rfl⟩, ?_⟩
      · have := hiff.mp htrips
        push_cast at this
        omega
      · simp [TracksFailures, trailingFailures_append, houtcome]
    | counted _ hlt =>
      rw [if_pos rfl] at hiff
      refine .inr ⟨fun htrips => ?_, ⟨_, st.window, rfl⟩, ?_⟩
      · have := hiff.mp htrips
        push_cast at this
        omega
      · simp [TracksFailures, trailingFailures_append, houtcome, htracks]
    | tripped _ hge =>
      rw [if_pos rfl] at hiff
      refine .inl ⟨hiff.mpr (by push_cast; omega), st.window, rfl, [], rfl⟩
    | windowed _ hrate _ _ _ => exact absurd hrate hnorate
    | rateTripped _ hrate _ _ _ => exact absurd hrate hnorate
    | _ => omega

/-- The classic mode refines its history specification: whatever the clock reads and however the
calls interleave, the breaker shows at each step what the specification shows, and is in its state;
and the `retry_after` of an open circuit is positive. -/
theorem classic_refines {cfg : Config} (hmode : cfg.rateMode = false) {request : CallId → Request}
    {run : List ((CallId × CallAction) × Shown)} {s : System}
    (hrun : (calls cfg request).Runs run s) :
    (∃ h, (History.machine cfg (classicRule cfg)).Runs
        (run.filterMap fun x => visible x.1 x.2) h ∧ s.circuit.state = h.condition.state) ∧
      ∀ x ∈ run, ∀ retryAfter, x.2.result = .rejected (some retryAfter) →
        .finite 0 < retryAfter := by
  obtain ⟨h, hspec, hs⟩ := refines (classic_implements hmode) hrun
  exact ⟨⟨h, hspec, hs.circuit.state⟩, retryAfter_pos hrun⟩

/-- The specification has that run too: the failure opens the circuit, and the next call is the
probe. -/
theorem classic_refines_probe : ∃ h, (History.machine hairTrigger (classicRule hairTrigger)).Runs
    ((openThenProbe.zip openThenProbeShown).filterMap fun x => visible x.1 x.2) h ∧
      h.condition.state = .HALF_OPEN := by
  obtain ⟨s, hrun, hstate, -⟩ := openThenProbe_runs
  obtain ⟨⟨h, hspec, hsame⟩, -⟩ := classic_refines rfl hrun
  exact ⟨h, hspec, hsame.symm.trans hstate⟩

end Httpware.CircuitBreakerState
