import Httpware.Resilience.Decide
import Httpware.Resilience.RetryCalls

/-!
# The retry loop of one call, end to end

One call through `Retry` or `AsyncRetry`, against any budget: `retryLoop` takes the steps of
`retryStep`, each with the budget as the step finds it, and keeps a log of the deposit, the attempts
with their outcomes, the withdrawals, and the sleeps. `Logged` is what a phase says of the whole log:
the failed attempts that were retried, and then what the phase stands for. Each step keeps it, so it
holds after every run.
-/

namespace Httpware

open Python (Number)

/-! ## The loop of one call -/

/-- What a call through the retry loop does, in the order in which it does it. -/
inductive RetryEntry
  | deposit
  | attempt
  | outcome (ending : Ending)
  | tryWithdraw (granted : Bool)
  | sleep (delay : Number)
  | interrupted

/-- A call through the retry loop: what it did so far, and where it is. -/
structure RetryTrace where
  log : List RetryEntry
  phase : RetryPhase

/-- The sleep that a phase stands in. -/
def RetryPhase.slept : RetryPhase → List RetryEntry
  | sleeping _ delay => [.sleep delay]
  | _ => []

/-- What a step does, with what it shows and the phase that it leads to. -/
def RetryAction.entries : RetryAction → RetryOutput → RetryPhase → List RetryEntry
  | start _, _, _ => [.deposit]
  | forward, .forwarded, _ => [.attempt]
  | finish ending, _, _ => [.outcome ending]
  | decide _ _, .decided _ withdrawal _, after =>
    (withdrawal.map RetryEntry.tryWithdraw).toList ++ after.slept
  | interrupt, _, _ => [.interrupted]
  | _, _, _ => []

/-- One call through `Retry` or `AsyncRetry`. Each step finds the budget in any state, since other
calls may share it; it shows what it did, and the budget after. -/
def retryLoop (cfg : RetryBudget.Config) (httpDate : HttpDate) (p : RetryPolicy)
    (request : Request) :
    Machine RetryTrace (RetryBudget × RetryAction) (RetryOutput × RetryBudget) where
  init := ⟨[], .idle⟩
  step t a :=
    (retryStep cfg httpDate p request a.1 t.phase a.2).map
      fun r => ((r.1, r.2.1), ⟨t.log ++ a.2.entries r.1 r.2.2, r.2.2⟩)

/-- A failed attempt that was retried. -/
structure Retried where
  exc : Exc
  delay : Number

/-- What the loop does for it. -/
def Retried.entries (r : Retried) : List RetryEntry :=
  [.attempt, .outcome (.raised r.exc), .tryWithdraw true, .sleep r.delay]

/-- The log of a loop that has retried these attempts. -/
def loopLog (retried : List Retried) : List RetryEntry :=
  .deposit :: retried.flatMap Retried.entries

@[simp]
theorem loopLog_snoc (retried : List Retried) (r : Retried) :
    loopLog (retried ++ [r]) = loopLog retried ++ r.entries := by
  simp [loopLog]

/-- Attempts that the policy retries: after each the budget may be asked, and the sleep is neither
negative nor longer than `max_delay`. -/
def RetryPolicy.Retries (p : RetryPolicy) (httpDate : HttpDate) (request : Request)
    (retried : List Retried) : Prop :=
  ∀ attempt r, retried[attempt]? = some r → p.MayWithdraw httpDate request attempt r.exc ∧
    Number.finite 0 ≤ r.delay ∧ r.delay ≤ p.maxDelay

/-- One attempt more. -/
theorem RetryPolicy.Retries.snoc {p : RetryPolicy} {httpDate : HttpDate} {request : Request}
    {retried : List Retried} (h : p.Retries httpDate request retried) {r : Retried}
    (hr : p.MayWithdraw httpDate request retried.length r.exc)
    (hdelay : Number.finite 0 ≤ r.delay ∧ r.delay ≤ p.maxDelay) :
    p.Retries httpDate request (retried ++ [r]) := by
  intro attempt r' hr'
  rcases Nat.lt_trichotomy attempt retried.length with hlt | rfl | hgt
  · rw [List.getElem?_append_left hlt] at hr'
    exact h attempt r' hr'
  · rw [List.getElem?_concat_length] at hr'
    obtain rfl := Option.some.inj hr'
    exact ⟨hr, hdelay⟩
  · have hlong : (retried ++ [r]).length ≤ attempt := by
      rw [List.length_append, List.length_singleton]
      omega
    rw [List.getElem?_eq_none hlong] at hr'
    cases hr'

/-- What a loop has done when the attempt number `attempt` is the next: the attempts before it
failed and were retried. -/
def RetryPolicy.Rounds (p : RetryPolicy) (httpDate : HttpDate) (request : Request) (attempt : ℕ)
    (log : List RetryEntry) : Prop :=
  ∃ retried, p.Retries httpDate request retried ∧ retried.length = attempt ∧
    (attempt : ℤ) < p.maxAttempts ∧ log = loopLog retried

/-- How a loop with these rounds behind it ends: what the last attempt adds to the log, and how the
call ends. -/
inductive RetryEnds (p : RetryPolicy) (httpDate : HttpDate) (request : Request) (attempt : ℕ) :
    List RetryEntry → RetryEnding → Prop
  /-- With the response of the last attempt. -/
  | returned (response : Response) :
    RetryEnds p httpDate request attempt [.attempt, .outcome (.returned response)]
      (.returned response)
  /-- With the exception of the last attempt, and the budget is not asked. -/
  | raised (exc : Exc) (notes : List RetryPolicy.Note)
      (h : ¬ p.MayWithdraw httpDate request attempt exc) :
    RetryEnds p httpDate request attempt [.attempt, .outcome (.raised exc)] (.raised exc notes)
  /-- With `RetryBudgetExhaustedError` for the exception of the last attempt. -/
  | exhausted (exc : Exc) (h : p.MayWithdraw httpDate request attempt exc) :
    RetryEnds p httpDate request attempt
      [.attempt, .outcome (.raised exc), .tryWithdraw false]
      (.raised
        (.retryBudgetExhausted (RetryPolicy.statusResponse exc) (some exc) (attempt + 1)) [])
  /-- By an interruption of the sleep before this attempt. -/
  | interrupted (h : 0 < attempt) :
    RetryEnds p httpDate request attempt [.interrupted] .interrupted

/-- What a phase says of the log of its call. -/
def RetryPhase.Logged (p : RetryPolicy) (httpDate : HttpDate) (request : Request)
    (log : List RetryEntry) : RetryPhase → Prop
  | idle => log = []
  | ready attempt => p.Rounds httpDate request attempt log
  | attempting attempt =>
    ∃ rounds, p.Rounds httpDate request attempt rounds ∧ log = rounds ++ [.attempt]
  | deciding attempt exc =>
    exc.isRetryableClass = true ∧ ∃ rounds, p.Rounds httpDate request attempt rounds ∧
      log = rounds ++ [.attempt, .outcome (.raised exc)]
  | sleeping attempt _ => p.Rounds httpDate request (attempt + 1) log
  | done ending =>
    ∃ attempt rounds last, p.Rounds httpDate request attempt rounds ∧
      RetryEnds p httpDate request attempt last ending ∧ log = rounds ++ last

section Steps

variable {cfg : RetryBudget.Config} {httpDate : HttpDate} {p : RetryPolicy} {request : Request}

/-- A loop that has not started is at its first attempt after the deposit. -/
theorem RetryPolicy.rounds_zero (p : RetryPolicy) (httpDate : HttpDate) (request : Request) :
    p.Rounds httpDate request 0 [.deposit] := by
  refine ⟨[], fun attempt r hr => ?_, rfl, p.maxAttempts_pos, rfl⟩
  rw [List.getElem?_nil] at hr
  cases hr

/-- A failed attempt that is retried is one more round. -/
theorem RetryPolicy.Rounds.succ {attempt : ℕ} {rounds : List RetryEntry}
    (h : p.Rounds httpDate request attempt rounds) {exc : Exc}
    (hexc : p.MayWithdraw httpDate request attempt exc) {delay : Number}
    (hdelay : Number.finite 0 ≤ delay ∧ delay ≤ p.maxDelay) :
    p.Rounds httpDate request (attempt + 1)
      (rounds ++ [.attempt, .outcome (.raised exc), .tryWithdraw true, .sleep delay]) := by
  obtain ⟨retried, hretries, rfl, -, rfl⟩ := h
  refine ⟨retried ++ [⟨exc, delay⟩], hretries.snoc hexc hdelay, by simp, ?_, ?_⟩
  · have := hexc.attemptsLeft
    omega
  · rw [loopLog_snoc]
    rfl

/-- The decision after a failed attempt goes on with one more round, or ends the call. -/
theorem logged_decide {budget : RetryBudget} {now : ℚ} {draw : Draw} {attempt : ℕ} {exc : Exc}
    {log : List RetryEntry} (h : (RetryPhase.deciding attempt exc).Logged p httpDate request log) :
    let d := p.decide cfg httpDate budget now draw attempt request exc
    (d.decision.after attempt).Logged p httpDate request
      (log ++ ((d.withdrawal.map RetryEntry.tryWithdraw).toList ++
        (d.decision.after attempt).slept)) := by
  obtain ⟨hclass, rounds, hrounds, rfl⟩ := h
  intro d
  have hcases := p.decide_cases cfg httpDate budget now draw attempt request hclass
  rcases hcases with ⟨hmay, hw, notes, hd⟩ | ⟨hmay, ⟨hw, hd⟩ | ⟨hw, delay, hd, hdelay⟩⟩
  · rw [hd]
    refine ⟨attempt, rounds, _, hrounds, .raised exc notes hmay, ?_⟩
    simp [d, hw, RetryPolicy.Decision.after, RetryPhase.slept]
  · rw [hd]
    refine ⟨attempt, rounds, _, hrounds, .exhausted exc hmay, ?_⟩
    simp [d, hw, RetryPolicy.Decision.after, RetryPhase.slept]
  · rw [hd]
    have hsucc := hrounds.succ hmay hdelay
    simpa [d, hw, RetryPolicy.Decision.after, RetryPhase.slept, RetryPhase.Logged] using hsucc

/-- A step keeps what the phase says of the log. -/
theorem logged_step {budget budget' : RetryBudget} {phase phase' : RetryPhase}
    {action : RetryAction} {o : RetryOutput} {log : List RetryEntry}
    (hlog : phase.Logged p httpDate request log)
    (h : retryStep cfg httpDate p request budget phase action = some (o, budget', phase')) :
    phase'.Logged p httpDate request (log ++ action.entries o phase') := by
  cases retryStep_cases h with
  | started now =>
    obtain rfl : log = [] := hlog
    exact p.rounds_zero httpDate request
  | forwarded _ => exact ⟨log, hlog, rfl⟩
  | fellThrough hspent =>
    -- At the head of the loop an attempt is left, so the loop does not fall through.
    obtain ⟨retried, -, -, hleft, -⟩ := hlog
    exact absurd hleft hspent
  | @returned attempt response =>
    obtain ⟨rounds, hrounds, rfl⟩ := hlog
    refine ⟨attempt, rounds, _, hrounds, .returned response, ?_⟩
    rw [List.append_assoc]
    rfl
  | caught hclass =>
    obtain ⟨rounds, hrounds, rfl⟩ := hlog
    refine ⟨hclass, rounds, hrounds, ?_⟩
    rw [List.append_assoc]
    rfl
  | @escaped attempt exc hclass =>
    obtain ⟨rounds, hrounds, rfl⟩ := hlog
    refine ⟨attempt, rounds, _, hrounds, .raised exc [] fun hmay => ?_, ?_⟩
    · exact hclass hmay.isRetryableClass
    · rw [List.append_assoc]
      rfl
  | decided now draw => exact logged_decide hlog
  | woke => simpa [RetryAction.entries, RetryPhase.Logged] using hlog
  | @interrupted attempt delay =>
    exact ⟨attempt + 1, log, _, hlog, .interrupted attempt.succ_pos, rfl⟩

/-- A step of the loop is a step of the call. -/
theorem retryLoop_step {t t' : RetryTrace} {budget : RetryBudget} {action : RetryAction}
    {o : RetryOutput × RetryBudget}
    (h : (retryLoop cfg httpDate p request).step t (budget, action) = some (o, t')) :
    retryStep cfg httpDate p request budget t.phase action = some (o.1, o.2, t'.phase) ∧
      t'.log = t.log ++ action.entries o.1 t'.phase := by
  simp only [retryLoop, Option.map_eq_some_iff] at h
  obtain ⟨⟨o, budget', phase⟩, hstep, hr⟩ := h
  obtain ⟨rfl, rfl⟩ := Prod.mk.inj hr
  exact ⟨hstep, rfl⟩

/-- After every run, the phase of a call says what its log is. -/
theorem logged_of_runs
    {run : List ((RetryBudget × RetryAction) × (RetryOutput × RetryBudget))} {t : RetryTrace}
    (h : (retryLoop cfg httpDate p request).Runs run t) :
    t.phase.Logged p httpDate request t.log := by
  apply h.state_invariant (I := fun t => t.phase.Logged p httpDate request t.log)
  · rfl
  · intro t a o t' hlog hstep
    obtain ⟨hcall, hentries⟩ := retryLoop_step hstep
    rw [hentries]
    exact logged_step hlog hcall

/-- What the phase of a call says of the number of its steps: four to a round. -/
def RetryPhase.Steps (maxAttempts : ℤ) (steps : ℕ) : RetryPhase → Prop
  | idle => steps = 0
  | ready attempt => steps = 4 * attempt + 1 ∧ attempt < maxAttempts
  | attempting attempt => steps = 4 * attempt + 2 ∧ attempt < maxAttempts
  | deciding attempt _ => steps = 4 * attempt + 3 ∧ attempt < maxAttempts
  | sleeping attempt _ => steps = 4 * attempt + 4 ∧ attempt + 1 < maxAttempts
  | done _ => steps ≤ 4 * maxAttempts

/-- One step more. -/
theorem steps_step {budget budget' : RetryBudget} {phase phase' : RetryPhase}
    {action : RetryAction} {o : RetryOutput} {steps : ℕ}
    (hsteps : phase.Steps p.maxAttempts steps)
    (h : retryStep cfg httpDate p request budget phase action = some (o, budget', phase')) :
    phase'.Steps p.maxAttempts (steps + 1) := by
  have hmax := p.maxAttempts_pos
  cases retryStep_cases h with
  | @decided attempt exc now draw =>
    -- Where the decision is to sleep, an attempt is left.
    simp only [RetryPhase.Steps] at hsteps
    rcases p.decide_spec cfg httpDate budget now draw attempt request exc with
      ⟨-, -, notes, hd⟩ | ⟨hleft, -, ⟨-, -, _, hd⟩ | ⟨-, -, delay, hd⟩⟩
    all_goals
      simp only [hd, RetryPolicy.Decision.after, RetryPhase.Steps]
      omega
  | _ =>
    simp only [RetryPhase.Steps] at hsteps ⊢
    omega

/-- A call makes at most four steps for each attempt that the policy allows. -/
theorem length_le_of_runs
    {run : List ((RetryBudget × RetryAction) × (RetryOutput × RetryBudget))} {t : RetryTrace}
    (h : (retryLoop cfg httpDate p request).Runs run t) : (run.length : ℤ) ≤ 4 * p.maxAttempts := by
  have hsteps : t.phase.Steps p.maxAttempts run.length := by
    apply h.invariant (I := fun run t => t.phase.Steps p.maxAttempts run.length)
    · rfl
    · intro run t a o t' _ ih hstep
      rw [List.length_append, List.length_singleton]
      exact steps_step ih (retryLoop_step hstep).1
  have hmax := p.maxAttempts_pos
  generalize t.phase = phase at hsteps
  cases phase <;> simp only [RetryPhase.Steps] at hsteps <;> omega

/-- A call that has not ended can go on, whatever the budget, the clock, the draw, and the end of
its attempt. -/
theorem retryLoop_goes_on (t : RetryTrace) (hend : ∀ ending, t.phase ≠ .done ending)
    (budget : RetryBudget) (now : ℚ) (draw : Draw) (ending : Ending) :
    ∃ action ∈ [RetryAction.start now, .forward, .finish ending, .decide now draw, .wake],
      ((retryLoop cfg httpDate p request).step t (budget, action)).isSome := by
  obtain ⟨log, phase⟩ := t
  cases phase with
  | idle => exact ⟨.start now, by simp, rfl⟩
  | ready attempt =>
    refine ⟨.forward, by simp, ?_⟩
    simp only [retryLoop, retryStep]
    split_ifs <;> rfl
  | attempting attempt =>
    refine ⟨.finish ending, by simp, ?_⟩
    cases ending with
    | returned response => rfl
    | raised exc =>
      simp only [retryLoop, retryStep]
      split_ifs <;> rfl
  | deciding attempt exc => exact ⟨.decide now draw, by simp, rfl⟩
  | sleeping attempt delay => exact ⟨.wake, by simp, rfl⟩
  | done ending => exact absurd rfl (hend ending)

/-- A step of a call does to the budget what it shows, and nothing else. -/
theorem retryLoop_budget
    {run : List ((RetryBudget × RetryAction) × (RetryOutput × RetryBudget))} {t : RetryTrace}
    (h : (retryLoop cfg httpDate p request).Runs run t) :
    ∀ x ∈ run, (RetryBudget.machine cfg).Follows Eq x.2.2 x.1.1 x.2.1.budgetOp := by
  apply h.invariant
    (I := fun run _ => ∀ x ∈ run, (RetryBudget.machine cfg).Follows Eq x.2.2 x.1.1 x.2.1.budgetOp)
  · intro x hx
    cases hx
  · intro run t a o t' _ ih hstep x hx
    rcases List.mem_append.mp hx with hx | hx
    · exact ih x hx
    · rw [List.mem_singleton.mp hx]
      exact retryStep_budget (retryLoop_step hstep).1

/-- In any interleaving of calls that share a budget, the steps of one call are a run of its loop. -/
theorem loop_of_calls {policy : CallId → RetryPolicy} {requests : CallId → Request}
    {run : List ((CallId × RetryAction) × RetryOutput)} {s : RetrySystem}
    (h : (retryCalls cfg httpDate policy requests).Runs run s) (c : CallId) :
    ∃ run' t, (retryLoop cfg httpDate (policy c) (requests c)).Runs run' t ∧
      t.phase = s.calls c ∧
      run'.map (fun x => (x.1.2, x.2.1)) = Machine.ofParty c run := by
  induction h with
  | nil => exact ⟨[], ⟨[], .idle⟩, .nil, rfl, rfl⟩
  | @snoc run s s' a o hrun hstep ih =>
    obtain ⟨d, action⟩ := a
    obtain ⟨budget, phase, hcall, rfl⟩ := retryCalls_step hstep
    obtain ⟨run', t, hrun', hphase, hpart⟩ := ih
    -- The step is a step of `c`, or it leaves the call `c` where it was.
    rcases eq_or_ne d c with rfl | hdc
    · have hloop : (retryLoop cfg httpDate (policy d) (requests d)).step t (s.budget, action) =
          some ((o, budget), ⟨t.log ++ action.entries o phase, phase⟩) := by
        simp [retryLoop, hphase, hcall]
      refine ⟨_, _, hrun'.snoc hloop, ?_, ?_⟩
      · exact (Function.update_self d phase s.calls).symm
      · rw [Machine.ofParty_snoc_self, List.map_append, hpart]
        rfl
    · refine ⟨run', t, hrun', ?_, ?_⟩
      · rw [hphase]
        exact (Function.update_of_ne hdc.symm phase s.calls).symm
      · rw [Machine.ofParty_snoc_of_ne hdc, hpart]

end Steps

/-- The retry loop end to end, against any budget: a call takes at most four steps for each attempt
and can always go on until it has ended; each step does to the budget what it shows and nothing
else; and the phase says what the log is. So a call deposits once, before its first attempt, makes
at most `max_attempts` attempts with one granted withdrawal and one sleep between two of them, asks
the budget only where `MayWithdraw` holds, and ends in one of the ways of `RetryEnds`: never with
`AssertionError`. -/
theorem retry_loop_spec {cfg : RetryBudget.Config} {httpDate : HttpDate} {p : RetryPolicy}
    {request : Request} {run : List ((RetryBudget × RetryAction) × (RetryOutput × RetryBudget))}
    {t : RetryTrace} (h : (retryLoop cfg httpDate p request).Runs run t) :
    (run.length : ℤ) ≤ 4 * p.maxAttempts ∧
      ((∀ ending, t.phase ≠ .done ending) → ∀ budget now draw ending,
        ∃ action ∈ [RetryAction.start now, .forward, .finish ending, .decide now draw, .wake],
          ((retryLoop cfg httpDate p request).step t (budget, action)).isSome) ∧
      (∀ x ∈ run, (RetryBudget.machine cfg).Follows Eq x.2.2 x.1.1 x.2.1.budgetOp) ∧
      t.phase.Logged p httpDate request t.log :=
  ⟨length_le_of_runs h, retryLoop_goes_on t, retryLoop_budget h, logged_of_runs h⟩

/-- A `GET` of an origin. -/
def plainGet : Request := { method := "GET", url := ⟨"https", "a", none, "a", "https://a/"⟩ }

/-- The least draw. -/
def Draw.zero : Draw where
  value := 0
  nonneg := by decide
  le_one := by decide

/-- One failed attempt that is retried, and a response. -/
def retriedOnce : List (RetryBudget × RetryAction) :=
  [(.init, .start 0), (.init, .forward), (.init, .finish (.raised .networkError)),
    (.init, .decide 0 .zero), (.init, .wake), (.init, .forward),
    (.init, .finish (.returned { statusCode := 200 }))]

/-- The whole loop of that call. -/
theorem retry_loop_spec_one_retry : ∃ run t,
    (retryLoop RetryBudget.defaultConfig (fun _ => none) .default plainGet).Runs run t ∧
      t.log.length = 7 ∧ (run.length : ℤ) ≤ 4 * 3 ∧
        t.phase.Logged .default (fun _ => none) plainGet t.log := by
  obtain ⟨run, t, hrun, hlog⟩ := Machine.exists_runs_of_exec
    (retryLoop RetryBudget.defaultConfig (fun _ => none) .default plainGet)
    (fun t => t.log.length) retriedOnce 7 (by decide +kernel)
  have h := retry_loop_spec hrun
  exact ⟨run, t, hrun, hlog, h.1, h.2.2.2⟩

/-! ## A `Retry-After` that the policy does not respect -/

/-- A 503 that asks to wait for ten seconds. -/
def unavailable : Response := { statusCode := 503, headers := [("Retry-After", "10")] }

/-- The default policy without `Retry-After`. -/
def disrespectful : RetryPolicy where
  respectRetryAfter := false
  accepted := by decide +kernel

/-- The first attempt ends with that 503, and the budget has a withdrawal to grant. -/
def unavailableOnce : List (RetryBudget × RetryAction) :=
  [(.init, .start 0), (.init, .forward),
    (.init, .finish (.raised (.statusError "ServiceUnavailableError" unavailable))),
    (.init, .decide 0 .zero)]

/-- The log of a first attempt that ended with this response and was retried. -/
def retriedAfter (response : Response) : List RetryEntry → Bool
  | [.deposit, .attempt, .outcome (.raised (.statusError _ r)), .tryWithdraw true, .sleep _] =>
    r = response
  | _ => false

/-- What such a log is. -/
theorem eq_of_retriedAfter {response : Response} {log : List RetryEntry}
    (h : retriedAfter response log = true) :
    ∃ qualname delay, log = [.deposit, .attempt, .outcome (.raised (.statusError qualname response)),
      .tryWithdraw true, .sleep delay] := by
  unfold retriedAfter at h
  split at h
  · next qualname r delay =>
    obtain rfl : r = response := of_decide_eq_true h
    exact ⟨qualname, delay, rfl⟩
  · cases h

/-- A policy that does not respect `Retry-After` asks the budget after a response with a `Retry-After`
above `max_delay`. -/
theorem retry_after_ignored :
    ¬ ∀ run t, (retryLoop RetryBudget.defaultConfig (fun _ => none) disrespectful plainGet).Runs
        run t →
      ∀ before qualname response granted after,
        t.log = before ++ [.outcome (.raised (.statusError qualname response)),
          .tryWithdraw granted] ++ after →
        ∀ value seconds, response.headers.get "Retry-After" = some value →
          parseRetryAfter (fun _ => none) value = some seconds →
            ¬ disrespectful.maxDelay < seconds := by
  intro hclaim
  obtain ⟨run, t, hrun, hlog⟩ := Machine.exists_runs_of_exec
    (retryLoop RetryBudget.defaultConfig (fun _ => none) disrespectful plainGet)
    (fun t => retriedAfter unavailable t.log) unavailableOnce true (by decide +kernel)
  obtain ⟨qualname, delay, hlog⟩ := eq_of_retriedAfter hlog
  have hheader : unavailable.headers.get "Retry-After" = some "10" := by
    simp [unavailable, Headers.get]
  have hparse : parseRetryAfter (fun _ => none) "10" = some (.finite 10) := by decide +kernel
  have habove : disrespectful.maxDelay < .finite 10 := by decide +kernel
  exact hclaim run t hrun [.deposit, .attempt] qualname unavailable true [.sleep delay] hlog "10" _
    hheader hparse habove

end Httpware
