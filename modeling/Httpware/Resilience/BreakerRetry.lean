import Httpware.CircuitBreaker.Arithmetic
import Httpware.Resilience.RetryLoop

/-!
# A circuit breaker around a retry loop

Calls through a breaker whose `next` is a retry loop: the loop of a call takes its steps while the
breaker is inside `next` (`guardedCalls`), and when the loop has ended the breaker records the
outcome that leaves it. `lastAttempt_of_ends` says that this outcome counts as the last attempt's,
for every breaker: the one ending that replaces the exception, `RetryBudgetExhaustedError`, carries
it, and `classify` unwraps it. `Accounted` is what a call's phase says of the outcomes recorded for
it so far; each step keeps it.
-/

namespace Httpware

open Python (Number)
open CircuitBreakerState

/-! ## What leaves the loop -/

/-- How the breaker sees a loop end; an interruption ends it with this exception. -/
def RetryEnding.leaving (interruption : Exc) : RetryEnding → Ending
  | returned response => .returned response
  | raised exc _ => .raised exc
  | interrupted => .raised interruption
  | assertionError => .raised (.other "AssertionError")

/-- The outcome of an attempt. -/
def RetryEntry.outcome? : RetryEntry → Option Ending
  | outcome ending => some ending
  | _ => none

/-- The outcome of the last attempt. -/
def RetryTrace.lastAttempt (t : RetryTrace) : Option Ending :=
  (t.log.filterMap RetryEntry.outcome?).getLast?

/-- An exception that the loop retries is classified behind `RetryBudgetExhaustedError` as it is by
itself. -/
theorem classify_retryBudgetExhausted (cfg : Config) (lastResponse : Option Response) (attempts : ℤ)
    {exc : Exc} (hclass : exc.isRetryableClass = true) :
    classify cfg (.retryBudgetExhausted lastResponse (some exc) attempts) = classify cfg exc := by
  cases exc with
  | statusError qualname response => rfl
  | networkError => rfl
  | timeoutError => rfl
  | _ => cases hclass

/-- Whichever way a loop ends, unless it is interrupted: what leaves it counts for every breaker as
the outcome of the last attempt. -/
theorem lastAttempt_of_ends {p : RetryPolicy} {httpDate : HttpDate} {request : Request}
    {attempt : ℕ} {last : List RetryEntry} {ending : RetryEnding} (rounds : List RetryEntry)
    (h : RetryEnds p httpDate request attempt last ending) (hending : ending ≠ .interrupted) :
    ∃ outcome, RetryTrace.lastAttempt ⟨rounds ++ last, .done ending⟩ = some outcome ∧
      ∀ cfg interruption, outcomeOf cfg (ending.leaving interruption) = outcomeOf cfg outcome := by
  -- What the rounds before add to the list of outcomes does not matter.
  have hlast : ∀ outcome, (last.filterMap RetryEntry.outcome?).getLast? = some outcome →
      RetryTrace.lastAttempt ⟨rounds ++ last, .done ending⟩ = some outcome := by
    intro outcome houtcome
    rw [RetryTrace.lastAttempt, List.filterMap_append, List.getLast?_append, houtcome]
    rfl
  cases h with
  | returned response => exact ⟨.returned response, hlast _ rfl, fun _ _ => rfl⟩
  | raised exc notes _ => exact ⟨.raised exc, hlast _ rfl, fun _ _ => rfl⟩
  | exhausted exc hmay =>
    refine ⟨.raised exc, hlast _ rfl, fun cfg _ => ?_⟩
    exact classify_retryBudgetExhausted cfg (RetryPolicy.statusResponse exc) (attempt + 1)
      hmay.isRetryableClass
  | interrupted _ => exact absurd rfl hending

/-! ## The two middlewares together -/

/-- A circuit with its calls, and the retry loop of each call. -/
structure GuardedSystem where
  breaker : System
  loops : CallId → RetryTrace

/-- What can happen to a call. -/
inductive GuardedAction
  /-- A step of the breaker before `next` or after the record. -/
  | breaker (action : CallAction)
  /-- A step of the retry loop, which finds the budget so. -/
  | retry (budget : RetryBudget) (action : RetryAction)
  /-- The loop has ended, by this exception if it was interrupted, and the breaker records it. -/
  | leave (interruption : Exc) (clock : Readings)

/-- What a step shows. -/
inductive GuardedOutput
  | breaker (shown : Shown)
  | retry (shown : RetryOutput × RetryBudget)
  /-- `record` was called with this outcome. -/
  | record (outcome : Outcome) (shown : Shown)

/-- What a step of the breaker shows. -/
def GuardedOutput.ofBreaker (cfg : Config) (shown : Shown) : CallAction → GuardedOutput
  | .finish ending _ => record (outcomeOf cfg ending) shown
  | _ => breaker shown

/-- The step of the breaker that an action of a call is, where its loop stands so. -/
def GuardedAction.onBreaker (loop : RetryTrace) : GuardedAction → Option CallAction
  | breaker (.finish _ _) => none
  | breaker action => some action
  | retry _ _ => none
  | leave interruption clock =>
    match loop.phase with
    | .done ending => some (.finish (ending.leaving interruption) clock)
    | _ => none

/-- The calls through a breaker around retry loops, in any order. Each call runs under the policy of
its own retry middleware. -/
def guardedCalls (cfg : Config) (budgetCfg : RetryBudget.Config) (httpDate : HttpDate)
    (policy : CallId → RetryPolicy) (request : CallId → Request) :
    Machine GuardedSystem (CallId × GuardedAction) GuardedOutput where
  init := ⟨(calls cfg request).init, fun _ => ⟨[], .idle⟩⟩
  step s a :=
    match a.2 with
    | .retry budget action =>
      match s.breaker.calls a.1 with
      | .inNext _ =>
        ((retryLoop budgetCfg httpDate (policy a.1) (request a.1)).step (s.loops a.1)
            (budget, action)).map
          fun r => (.retry r.1, { s with loops := Function.update s.loops a.1 r.2 })
      | _ => none
    | action =>
      (action.onBreaker (s.loops a.1)).bind fun action =>
        ((calls cfg request).step s.breaker (a.1, action)).map
          fun r => (.ofBreaker cfg r.1 action, { s with breaker := r.2 })

variable {cfg : Config} {budgetCfg : RetryBudget.Config} {httpDate : HttpDate}
  {policy : CallId → RetryPolicy} {request : CallId → Request}

/-- A step of the breaker is one outside `next`, or the record of a loop that has ended. -/
theorem onBreaker_cases {action : GuardedAction} {loop : RetryTrace} {callAction : CallAction}
    (h : action.onBreaker loop = some callAction) :
    (action = .breaker callAction ∧ ∀ ending clock, callAction ≠ .finish ending clock) ∨
      ∃ interruption clock ending, action = .leave interruption clock ∧ loop.phase = .done ending ∧
        callAction = .finish (ending.leaving interruption) clock := by
  unfold GuardedAction.onBreaker at h
  split at h
  · cases h
  · next action hfinish =>
    obtain rfl := Option.some.inj h
    exact .inl ⟨rfl, hfinish⟩
  · cases h
  · next interruption clock =>
    split at h
    · next ending hphase =>
      obtain rfl := Option.some.inj h
      exact .inr ⟨interruption, clock, ending, rfl, hphase, rfl⟩
    · cases h

/-- A step is a step of a call's loop while the breaker is inside `next`, or a step of the
breaker. -/
theorem guardedCalls_step {s s' : GuardedSystem} {c : CallId} {action : GuardedAction}
    {o : GuardedOutput}
    (h : (guardedCalls cfg budgetCfg httpDate policy request).step s (c, action) = some (o, s')) :
    (∃ budget retryAction shown loop ticket, action = .retry budget retryAction ∧
        s.breaker.calls c = .inNext ticket ∧
        (retryLoop budgetCfg httpDate (policy c) (request c)).step (s.loops c)
          (budget, retryAction) = some (shown, loop) ∧
        o = .retry shown ∧ s' = { s with loops := Function.update s.loops c loop }) ∨
      ∃ callAction shown breaker, action.onBreaker (s.loops c) = some callAction ∧
        (calls cfg request).step s.breaker (c, callAction) = some (shown, breaker) ∧
        o = .ofBreaker cfg shown callAction ∧ s' = { s with breaker } := by
  -- Two of the three actions are steps of the breaker.
  have hbreaker : ∀ action : GuardedAction, ((action.onBreaker (s.loops c)).bind fun action =>
      ((calls cfg request).step s.breaker (c, action)).map
        fun r => (GuardedOutput.ofBreaker cfg r.1 action, { s with breaker := r.2 })) =
          some (o, s') →
      ∃ callAction shown breaker, action.onBreaker (s.loops c) = some callAction ∧
        (calls cfg request).step s.breaker (c, callAction) = some (shown, breaker) ∧
        o = .ofBreaker cfg shown callAction ∧ s' = { s with breaker } := by
    intro action h
    obtain ⟨callAction, haction, h⟩ := Option.bind_eq_some_iff.mp h
    obtain ⟨⟨shown, breaker⟩, hstep, hr⟩ := Option.map_eq_some_iff.mp h
    obtain ⟨rfl, rfl⟩ := Prod.mk.inj hr
    exact ⟨callAction, shown, breaker, haction, hstep, rfl, rfl⟩
  cases action with
  | breaker action => exact .inr (hbreaker _ h)
  | leave interruption clock => exact .inr (hbreaker _ h)
  | retry budget retryAction =>
    simp only [guardedCalls] at h
    split at h
    · next ticket hphase =>
      obtain ⟨⟨shown, loop⟩, hstep, hr⟩ := Option.map_eq_some_iff.mp h
      obtain ⟨rfl, rfl⟩ := Prod.mk.inj hr
      exact .inl ⟨budget, retryAction, shown, loop, ticket, rfl, hphase, hstep, rfl, rfl⟩
    · cases h

/-- After every run, the breaker's part is a run of its calls, and so is each loop. -/
theorem parts_of_runs {run : List ((CallId × GuardedAction) × GuardedOutput)} {s : GuardedSystem}
    (h : (guardedCalls cfg budgetCfg httpDate policy request).Runs run s) :
    (∃ run', (calls cfg request).Runs run' s.breaker) ∧
      ∀ c, ∃ run', (retryLoop budgetCfg httpDate (policy c) (request c)).Runs run' (s.loops c) := by
  apply h.state_invariant (I := fun s => (∃ run', (calls cfg request).Runs run' s.breaker) ∧
    ∀ c, ∃ run', (retryLoop budgetCfg httpDate (policy c) (request c)).Runs run' (s.loops c))
  · exact ⟨⟨[], .nil⟩, fun c => ⟨[], .nil⟩⟩
  · rintro s ⟨c, action⟩ o s' ⟨⟨run', hrun'⟩, hloops⟩ hstep
    rcases guardedCalls_step hstep with
      ⟨budget, retryAction, shown, loop, ticket, -, -, hloop, -, rfl⟩ |
        ⟨callAction, shown, breaker, -, hcall, -, rfl⟩
    · refine ⟨⟨run', hrun'⟩, fun d => ?_⟩
      dsimp only
      rcases eq_or_ne d c with rfl | hdc
      · obtain ⟨run'', hrun''⟩ := hloops d
        rw [Function.update_self]
        exact ⟨_, hrun''.snoc hloop⟩
      · rw [Function.update_of_ne hdc]
        exact hloops d
    · exact ⟨⟨_, hrun'.snoc hcall⟩, hloops⟩

/-! ## One record for each call -/

/-- The outcome that a step records. -/
def GuardedOutput.recorded : GuardedOutput → Option Outcome
  | record outcome _ => some outcome
  | _ => none

/-- The outcomes that the breaker recorded for a call: those that `record` was called with. -/
def records (c : CallId) (run : List ((CallId × GuardedAction) × GuardedOutput)) : List Outcome :=
  (Machine.ofParty c run).filterMap fun x => x.2.recorded

@[simp]
theorem records_snoc_self (c : CallId) (run : List ((CallId × GuardedAction) × GuardedOutput))
    (action : GuardedAction) (o : GuardedOutput) :
    records c (run ++ [((c, action), o)]) = records c run ++ o.recorded.toList := by
  rw [records, Machine.ofParty_snoc_self, List.filterMap_append]
  cases h : o.recorded <;> simp [records, h]

theorem records_snoc_of_ne {c d : CallId} (h : d ≠ c)
    (run : List ((CallId × GuardedAction) × GuardedOutput)) (action : GuardedAction)
    (o : GuardedOutput) : records c (run ++ [((d, action), o)]) = records c run := by
  rw [records, Machine.ofParty_snoc_of_ne h, records]

/-- What a phase of the breaker says of the loop behind it, and of what was recorded. -/
def Accounted (cfg : Config) (loop : RetryTrace) (recorded : List Outcome) : CallPhase → Prop
  | .inNext _ => recorded = []
  | .emittingRecord _ _ | .finished _ =>
    (loop.phase = .idle ∧ recorded = []) ∨ ∃ ending interruption, loop.phase = .done ending ∧
      recorded = [outcomeOf cfg (ending.leaving interruption)]
  | _ => loop.phase = .idle ∧ recorded = []

/-- A step of the breaker outside `next` records nothing, and keeps the accounts. -/
theorem accounted_breaker {r : Request} {st st' : CircuitBreakerState} {before after : CallPhase}
    {action : CallAction} {shown : Shown} {loop : RetryTrace} {recorded : List Outcome}
    (haction : ∀ ending clock, action ≠ .finish ending clock)
    (hcases : CallSteps cfg r st before action shown st' after)
    (hacc : Accounted cfg loop recorded before) : Accounted cfg loop recorded after := by
  -- After a critical section the call emits the events or goes on: both phases account alike.
  cases hcases with
  | readTicket => exact hacc.2
  | readNone => exact hacc
  | admitted => exact hacc.2
  | @halfOpened _ ticket events _ _ =>
    cases events with
    | none => exact hacc.2
    | some events => exact hacc
  | @rejected _ retryAfter events _ _ =>
    cases events with
    | none => exact .inl hacc
    | some events => exact hacc
  | recorded => exact absurd rfl (haction _ _)
  | failed => exact absurd rfl (haction _ _)
  | @emittedHalfOpen ticket events escapes =>
    cases escapes with
    | false => exact hacc.2
    | true => exact .inl hacc
  | emittedRejection => exact .inl hacc
  | emittedRecord => exact hacc

/-- The record of a loop that has ended is the only one of its call. -/
theorem accounted_leave {r : Request} {st st' : CircuitBreakerState} {before after : CallPhase}
    {shown : Shown} {loop : RetryTrace} {recorded : List Outcome} {ending : RetryEnding}
    {interruption : Exc} {clock : Readings} (hphase : loop.phase = .done ending)
    (hcases : CallSteps cfg r st before (.finish (ending.leaving interruption) clock) shown st' after)
    (hacc : Accounted cfg loop recorded before) :
    Accounted cfg loop (recorded ++ [outcomeOf cfg (ending.leaving interruption)]) after := by
  -- Only a call inside `next` takes this step, and nothing was recorded for it so far.
  cases hcases with
  | @recorded _ _ _ events _ h =>
    obtain rfl : recorded = [] := hacc
    cases events with
    | none => exact .inr ⟨ending, interruption, hphase, rfl⟩
    | some events => exact .inr ⟨ending, interruption, hphase, rfl⟩
  | failed h =>
    obtain rfl : recorded = [] := hacc
    exact .inr ⟨ending, interruption, hphase, rfl⟩

/-- After every run, the phase of each call accounts for what was recorded for it. -/
theorem accounted_of_runs {run : List ((CallId × GuardedAction) × GuardedOutput)}
    {s : GuardedSystem} (h : (guardedCalls cfg budgetCfg httpDate policy request).Runs run s)
    (c : CallId) : Accounted cfg (s.loops c) (records c run) (s.breaker.calls c) := by
  apply h.invariant
    (I := fun run s => Accounted cfg (s.loops c) (records c run) (s.breaker.calls c))
  · exact ⟨rfl, rfl⟩
  · rintro run s ⟨d, action⟩ o s' hrun ih hstep
    obtain ⟨⟨run', hrun'⟩, -⟩ := parts_of_runs hrun
    rcases guardedCalls_step hstep with
      ⟨budget, retryAction, shown, loop, ticket, rfl, hphase, hloop, rfl, rfl⟩ |
        ⟨callAction, shown, breaker, haction, hcall, rfl, rfl⟩
    · -- A step of the loop inside `next`.
      rcases eq_or_ne d c with rfl | hdc
      · dsimp only at ih ⊢
        rw [hphase] at ih ⊢
        rw [records_snoc_self, show records d run = [] from ih]
        rfl
      · dsimp only
        rw [records_snoc_of_ne hdc, Function.update_of_ne hdc.symm]
        exact ih
    · -- A step of the breaker, outside `next` or at its end.
      obtain ⟨st, phase, hcases, rfl⟩ := step_cases hrun' hcall
      rcases eq_or_ne d c with rfl | hdc
      · dsimp only
        rw [records_snoc_self, Function.update_self]
        rcases onBreaker_cases haction with
          ⟨rfl, hfinish⟩ | ⟨interruption, clock, ending, rfl, hphase, rfl⟩
        · have hnone : (GuardedOutput.ofBreaker cfg shown callAction).recorded = none := by
            cases callAction with
            | finish ending clock => exact absurd rfl (hfinish ending clock)
            | _ => rfl
          rw [hnone, Option.toList_none, List.append_nil]
          exact accounted_breaker hfinish hcases ih
        · exact accounted_leave hphase hcases ih
      · dsimp only
        rw [records_snoc_of_ne hdc, Function.update_of_ne hdc.symm]
        exact ih

/-- A breaker around a retry loop counts the last attempt: a loop that has ended, and was not
interrupted, leaves an outcome that every breaker classifies as the outcome of the last attempt; and
when the call has ended, the breaker recorded the outcome of its loop once, or nothing if the breaker
did not let it in. This one record raises only where the configured window is a NaN. -/
theorem last_attempt_counts {run : List ((CallId × GuardedAction) × GuardedOutput)}
    {s : GuardedSystem} (h : (guardedCalls cfg budgetCfg httpDate policy request).Runs run s)
    (c : CallId) :
    (∀ ending, (s.loops c).phase = .done ending → ending ≠ .interrupted →
        ∃ outcome, (s.loops c).lastAttempt = some outcome ∧ ∀ cfg' interruption,
          outcomeOf cfg' (ending.leaving interruption) = outcomeOf cfg' outcome) ∧
      (∀ callEnding, s.breaker.calls c = .finished callEnding →
        ((s.loops c).phase = .idle ∧ records c run = []) ∨
          ∃ ending interruption, (s.loops c).phase = .done ending ∧
            records c run = [outcomeOf cfg (ending.leaving interruption)]) ∧
      ∀ e, s.breaker.calls c = .finished (.error e) → cfg.windowSeconds = .nan := by
  obtain ⟨⟨breakerRun, hbreaker⟩, hloops⟩ := parts_of_runs h
  refine ⟨?_, ?_, fun e herror => (rateMode_nan_of_error hbreaker c e herror).2⟩
  · intro ending hphase hending
    obtain ⟨run', hrun'⟩ := hloops c
    have hlogged := logged_of_runs hrun'
    rw [hphase] at hlogged
    obtain ⟨attempt, rounds, last, -, hends, hlog⟩ := hlogged
    obtain ⟨outcome, hlast, hcounts⟩ := lastAttempt_of_ends rounds hends hending
    refine ⟨outcome, ?_, hcounts⟩
    rw [← hlast, RetryTrace.lastAttempt, hlog, RetryTrace.lastAttempt]
  · intro callEnding hfinished
    have hacc := accounted_of_runs h c
    rw [hfinished] at hacc
    exact hacc

/-- A budget that grants nothing. -/
def starvedBudget : RetryBudget.Config where
  minRetriesPerSec := .finite 0
  percentCanRetry := .finite 0
  accepted := by decide +kernel

/-- A call whose only attempt fails, whose retry the budget refuses, and whose outcome is recorded. -/
def starvedCall : List (CallId × GuardedAction) :=
  [(0, .breaker .read), (0, .retry .init (.start 0)), (0, .retry .init .forward),
    (0, .retry .init (.finish (.raised .networkError))),
    (0, .retry .init (.decide 0 .zero)), (0, .leave .timeoutError ⟨0, 0⟩)]

/-- The loop has given up because the budget refused. -/
def RetryPhase.isExhausted : RetryPhase → Bool
  | done (.raised (.retryBudgetExhausted _ _ _) _) => true
  | _ => false

/-- The breaker has let the ending of `next` out. -/
def CircuitBreakerState.CallPhase.isFinished : CallPhase → Bool
  | finished _ => true
  | _ => false

/-- That call counts as the failure of its attempt. -/
theorem last_attempt_counts_starved : ∃ run s,
    (guardedCalls defaultConfig starvedBudget (fun _ => none) (fun _ => .default)
        fun _ => plainGet).Runs run s ∧
      s.breaker.circuit.consecutiveFailures = 1 ∧ (s.loops 0).phase.isExhausted = true ∧
      ∃ outcome, (s.loops 0).lastAttempt = some outcome ∧
        records 0 run = [outcomeOf defaultConfig outcome] := by
  obtain ⟨run, s, hrun, hs⟩ := Machine.exists_runs_of_exec
    (guardedCalls defaultConfig starvedBudget (fun _ => none) (fun _ => .default) fun _ => plainGet)
    (fun s => (s.breaker.circuit.consecutiveFailures, (s.loops 0).phase.isExhausted,
      (s.breaker.calls 0).isFinished)) starvedCall (1, true, true) (by decide +kernel)
  simp only [Prod.mk.injEq] at hs
  obtain ⟨hfailures, hexhausted, hfinished⟩ := hs
  obtain ⟨callEnding, hcall⟩ : ∃ callEnding, s.breaker.calls 0 = .finished callEnding := by
    generalize s.breaker.calls 0 = phase at hfinished
    cases phase with
    | finished callEnding => exact ⟨callEnding, rfl⟩
    | _ => cases hfinished
  obtain ⟨hlast, hrecords, -⟩ := last_attempt_counts hrun 0
  refine ⟨run, s, hrun, hfailures, hexhausted, ?_⟩
  rcases hrecords callEnding hcall with ⟨hidle, -⟩ | ⟨ending, interruption, hphase, honce⟩
  · rw [hidle] at hexhausted
    cases hexhausted
  · have hending : ending ≠ .interrupted := by
      rintro rfl
      rw [hphase] at hexhausted
      cases hexhausted
    obtain ⟨outcome, houtcome, hcounts⟩ := hlast ending hphase hending
    rw [hcounts] at honce
    exact ⟨outcome, houtcome, honce⟩

end Httpware
