import Mathlib.Algebra.Order.BigOperators.Group.Finset
import Mathlib.Tactic.Ring
import Httpware.Resilience.BudgetBound
import Httpware.Resilience.Retry

/-!
# Calls through retry middleware that share a budget

`Retry.__call__` and `AsyncRetry.__call__` as steps of a call (`retryStep`): the deposit, the head of
the loop, the end of an attempt, the decision, and the end of the sleep. The steps of any number of
calls, each with the policy of its own instance, interleave in any order over one shared budget
(`retryCalls`). The budget sees a run of its own operations (`budget_runs`), and each call's
attempts are tied to its grants by its phase (`Accounts`), so `no_retry_storm` bounds the attempts
of a whole run.
-/

namespace Httpware

open Python (Number)

/-- How a call through the retry loop ends. -/
inductive RetryEnding
  | returned (response : Response)
  | raised (exc : Exc) (notes : List RetryPolicy.Note)
  | interrupted
  | assertionError

/-- Where a call is in the retry loop. -/
inductive RetryPhase
  | idle
  /-- At the head of the loop, with the number of the next attempt. -/
  | ready (attempt : ℕ)
  /-- Inside `next`. -/
  | attempting (attempt : ℕ)
  /-- In the `except` clause. -/
  | deciding (attempt : ℕ) (exc : Exc)
  /-- In `_sleep(delay)`. -/
  | sleeping (attempt : ℕ) (delay : Number)
  | done (ending : RetryEnding)

/-- What can happen to a call. -/
inductive RetryAction
  /-- The call starts and deposits, at this reading of the clock. -/
  | start (now : ℚ)
  /-- The head of the loop, which forwards the next attempt. -/
  | forward
  /-- The attempt ends. -/
  | finish (ending : Ending)
  /-- The decision, with the reading of the clock and the draw that it may use. -/
  | decide (now : ℚ) (draw : Draw)
  /-- The sleep ends. -/
  | wake
  /-- The sleep is interrupted. -/
  | interrupt

/-- What a step shows. -/
inductive RetryOutput
  | started (now : ℚ)
  | forwarded
  | decided (now : ℚ) (withdrawal : Option Bool) (events : List Event)
  | silent
deriving DecidableEq

namespace RetryOutput

/-- The operation on the budget, with its answer. -/
def budgetOp : RetryOutput → Option ((RetryBudget.Op × ℚ) × Option Bool)
  | started now => some ((.deposit, now), none)
  | decided now (some answer) _ => some ((.tryWithdraw, now), some answer)
  | _ => none

/-- A call started. -/
def isStarted : RetryOutput → Bool
  | started _ => true
  | _ => false

/-- An attempt was forwarded to `next`. -/
def isForwarded : RetryOutput → Bool
  | forwarded => true
  | _ => false

/-- A withdrawal was granted. -/
def isGranted : RetryOutput → Bool
  | decided _ (some true) _ => true
  | _ => false

end RetryOutput

/-- One step of a call: `__call__` of `Retry` and of `AsyncRetry`. -/
def retryStep (cfg : RetryBudget.Config) (httpDate : HttpDate) (p : RetryPolicy)
    (request : Request) (budget : RetryBudget) :
    RetryPhase → RetryAction → Option (RetryOutput × RetryBudget × RetryPhase)
  | .idle, .start now => some (.started now, budget.deposit cfg now, .ready 0)
  | .ready attempt, .forward =>
    if (attempt : ℤ) < p.maxAttempts then some (.forwarded, budget, .attempting attempt)
    else some (.silent, budget, .done .assertionError)
  | .attempting _, .finish (.returned response) =>
    some (.silent, budget, .done (.returned response))
  | .attempting attempt, .finish (.raised exc) =>
    if exc.isRetryableClass then some (.silent, budget, .deciding attempt exc)
    else some (.silent, budget, .done (.raised exc []))
  | .deciding attempt exc, .decide now draw =>
    let d := p.decide cfg httpDate budget now draw attempt request exc
    some (.decided now d.withdrawal d.events, d.budget,
      match d.decision with
      | .sleep delay => .sleeping attempt delay
      | .raise exc notes => .done (.raised exc notes))
  | .sleeping attempt _, .wake => some (.silent, budget, .ready (attempt + 1))
  | .sleeping _ _, .interrupt => some (.silent, budget, .done .interrupted)
  | _, _ => none

/-- Where a call is after the decision. -/
def RetryPolicy.Decision.after (attempt : ℕ) : RetryPolicy.Decision → RetryPhase
  | sleep delay => .sleeping attempt delay
  | raise exc notes => .done (.raised exc notes)

/-- The ways in which a call can take a step. -/
inductive RetrySteps (cfg : RetryBudget.Config) (httpDate : HttpDate) (p : RetryPolicy)
    (request : Request) (budget : RetryBudget) :
    RetryPhase → RetryAction → RetryOutput → RetryBudget → RetryPhase → Prop
  | started (now : ℚ) :
    RetrySteps cfg httpDate p request budget .idle (.start now) (.started now)
      (budget.deposit cfg now) (.ready 0)
  | forwarded {attempt : ℕ} (hleft : (attempt : ℤ) < p.maxAttempts) :
    RetrySteps cfg httpDate p request budget (.ready attempt) .forward .forwarded budget
      (.attempting attempt)
  /-- No attempt is left, and the loop falls through. -/
  | fellThrough {attempt : ℕ} (hleft : ¬ (attempt : ℤ) < p.maxAttempts) :
    RetrySteps cfg httpDate p request budget (.ready attempt) .forward .silent budget
      (.done .assertionError)
  | returned {attempt : ℕ} (response : Response) :
    RetrySteps cfg httpDate p request budget (.attempting attempt) (.finish (.returned response))
      .silent budget (.done (.returned response))
  /-- The attempt raises an exception of the `except` clause. -/
  | caught {attempt : ℕ} {exc : Exc} (hclass : exc.isRetryableClass = true) :
    RetrySteps cfg httpDate p request budget (.attempting attempt) (.finish (.raised exc))
      .silent budget (.deciding attempt exc)
  /-- The attempt raises another exception. -/
  | escaped {attempt : ℕ} {exc : Exc} (hclass : ¬ exc.isRetryableClass = true) :
    RetrySteps cfg httpDate p request budget (.attempting attempt) (.finish (.raised exc))
      .silent budget (.done (.raised exc []))
  | decided {attempt : ℕ} {exc : Exc} (now : ℚ) (draw : Draw) :
    RetrySteps cfg httpDate p request budget (.deciding attempt exc) (.decide now draw)
      (.decided now (p.decide cfg httpDate budget now draw attempt request exc).withdrawal
        (p.decide cfg httpDate budget now draw attempt request exc).events)
      (p.decide cfg httpDate budget now draw attempt request exc).budget
      ((p.decide cfg httpDate budget now draw attempt request exc).decision.after attempt)
  | woke {attempt : ℕ} {delay : Number} :
    RetrySteps cfg httpDate p request budget (.sleeping attempt delay) .wake .silent budget
      (.ready (attempt + 1))
  | interrupted {attempt : ℕ} {delay : Number} :
    RetrySteps cfg httpDate p request budget (.sleeping attempt delay) .interrupt .silent budget
      (.done .interrupted)

/-- A call takes a step in one of the listed ways. -/
theorem retryStep_cases {cfg : RetryBudget.Config} {httpDate : HttpDate} {p : RetryPolicy}
    {request : Request} {budget budget' : RetryBudget} {phase phase' : RetryPhase}
    {action : RetryAction} {o : RetryOutput}
    (h : retryStep cfg httpDate p request budget phase action = some (o, budget', phase')) :
    RetrySteps cfg httpDate p request budget phase action o budget' phase' := by
  unfold retryStep at h
  split at h
  · obtain ⟨rfl, rfl, rfl⟩ : _ = o ∧ _ = budget' ∧ _ = phase' := by simpa using h
    exact .started _
  · -- The head of the loop.
    split_ifs at h with hleft
    · obtain ⟨rfl, rfl, rfl⟩ : _ = o ∧ budget = budget' ∧ _ = phase' := by simpa using h
      exact .forwarded hleft
    · obtain ⟨rfl, rfl, rfl⟩ : _ = o ∧ budget = budget' ∧ _ = phase' := by simpa using h
      exact .fellThrough hleft
  · obtain ⟨rfl, rfl, rfl⟩ : _ = o ∧ budget = budget' ∧ _ = phase' := by simpa using h
    exact .returned _
  · -- An attempt that raises: only the classes of the `except` clause are caught.
    split_ifs at h with hclass
    · obtain ⟨rfl, rfl, rfl⟩ : _ = o ∧ budget = budget' ∧ _ = phase' := by simpa using h
      exact .caught hclass
    · obtain ⟨rfl, rfl, rfl⟩ : _ = o ∧ budget = budget' ∧ _ = phase' := by simpa using h
      exact .escaped hclass
  · next attempt exc now draw =>
    obtain ⟨rfl, rfl, rfl⟩ : _ = o ∧ _ = budget' ∧ _ = phase' := by simpa using h
    exact .decided now draw
  · obtain ⟨rfl, rfl, rfl⟩ : _ = o ∧ budget = budget' ∧ _ = phase' := by simpa using h
    exact .woke
  · obtain ⟨rfl, rfl, rfl⟩ : _ = o ∧ budget = budget' ∧ _ = phase' := by simpa using h
    exact .interrupted
  · cases h

/-- The shared budget, and where each call is. -/
structure RetrySystem where
  budget : RetryBudget
  calls : CallId → RetryPhase

/-- Calls through instances that share a budget: call `c` runs under `policy c`. -/
def retryCalls (cfg : RetryBudget.Config) (httpDate : HttpDate) (policy : CallId → RetryPolicy)
    (request : CallId → Request) : Machine RetrySystem (CallId × RetryAction) RetryOutput where
  init := ⟨.init, fun _ => .idle⟩
  step s a :=
    (retryStep cfg httpDate (policy a.1) (request a.1) s.budget (s.calls a.1) a.2).map
      fun r => (r.1, ⟨r.2.1, Function.update s.calls a.1 r.2.2⟩)

/-! ## What `decide` does to the budget -/

/-- `decide` refuses without touching the budget, or asks it once with attempts left: a refused
withdrawal raises, and a granted one sleeps. -/
theorem RetryPolicy.decide_spec (p : RetryPolicy) (cfg : RetryBudget.Config) (httpDate : HttpDate)
    (budget : RetryBudget) (now : ℚ) (draw : Draw) (attempt : ℕ) (request : Request) (exc : Exc) :
    let d := p.decide cfg httpDate budget now draw attempt request exc
    (d.withdrawal = none ∧ d.budget = budget ∧ ∃ notes, d.decision = .raise exc notes) ∨
      ((attempt : ℤ) + 1 < p.maxAttempts ∧ d.budget = (budget.tryWithdraw cfg now).2 ∧
        ((d.withdrawal = some false ∧ (budget.tryWithdraw cfg now).1 = false ∧
            ∃ lastResponse, d.decision =
              .raise (.retryBudgetExhausted lastResponse (some exc) (attempt + 1)) []) ∨
          (d.withdrawal = some true ∧ (budget.tryWithdraw cfg now).1 = true ∧
            ∃ delay, d.decision = .sleep delay))) := by
  -- Both ways to the budget end in `withdrawAndDelay`, so it is treated once.
  have hwithdraw : ∀ lastResponse retryAfter,
      let d := p.withdrawAndDelay cfg budget now draw attempt request exc lastResponse retryAfter
      d.budget = (budget.tryWithdraw cfg now).2 ∧
        ((d.withdrawal = some false ∧ (budget.tryWithdraw cfg now).1 = false ∧
            ∃ lastResponse, d.decision =
              .raise (.retryBudgetExhausted lastResponse (some exc) (attempt + 1)) []) ∨
          (d.withdrawal = some true ∧ (budget.tryWithdraw cfg now).1 = true ∧
            ∃ delay, d.decision = .sleep delay)) := by
    intro lastResponse retryAfter
    unfold withdrawAndDelay
    obtain ⟨granted, budget'⟩ := budget.tryWithdraw cfg now
    cases granted with
    | false => exact ⟨rfl, .inl ⟨rfl, rfl, _, rfl⟩⟩
    | true => exact ⟨rfl, .inr ⟨rfl, rfl, _, rfl⟩⟩
  intro d
  simp only [d, decide]
  -- In the order of the source: not retryable, a streamed body, the last attempt, and the rest.
  split_ifs with h1 h2 h3
  · exact .inl ⟨rfl, rfl, _, rfl⟩
  · exact .inl ⟨rfl, rfl, _, rfl⟩
  · have hleft : (attempt : ℤ) + 1 < p.maxAttempts := by omega
    split
    · split_ifs
      · exact .inl ⟨rfl, rfl, _, rfl⟩
      · exact .inr ⟨hleft, hwithdraw _ _⟩
    · exact .inr ⟨hleft, hwithdraw _ _⟩
  · exact .inl ⟨rfl, rfl, _, rfl⟩

/-! ## The run that the budget sees -/

/-- The operations on the budget in a run of calls. -/
def budgetOps (run : List ((CallId × RetryAction) × RetryOutput)) :
    List ((RetryBudget.Op × ℚ) × Option Bool) :=
  run.filterMap fun x => x.2.budgetOp

/-- A step of a call is an operation on the budget, or leaves it alone. -/
theorem retryStep_budget {cfg : RetryBudget.Config} {httpDate : HttpDate} {p : RetryPolicy}
    {request : Request} {budget budget' : RetryBudget} {phase phase' : RetryPhase}
    {action : RetryAction} {o : RetryOutput}
    (h : retryStep cfg httpDate p request budget phase action = some (o, budget', phase')) :
    (RetryBudget.machine cfg).Follows Eq budget' budget o.budgetOp := by
  cases retryStep_cases h with
  | started now => exact ⟨_, rfl, rfl⟩
  | @decided attempt exc now draw =>
    -- Only with an answer of `try_withdraw` did the decision touch the budget.
    rcases p.decide_spec cfg httpDate budget now draw attempt request exc with
      ⟨hw, hb, -⟩ | ⟨-, hb, ⟨hw, hans, -⟩ | ⟨hw, hans, -⟩⟩
    · rw [hw]
      exact hb
    · rw [hw, hb, ← hans]
      exact ⟨_, rfl, rfl⟩
    · rw [hw, hb, ← hans]
      exact ⟨_, rfl, rfl⟩
  | _ => rfl

/-- A step of the system is a step of one call. -/
theorem retryCalls_step {cfg : RetryBudget.Config} {httpDate : HttpDate}
    {policy : CallId → RetryPolicy} {request : CallId → Request} {s s' : RetrySystem}
    {c : CallId} {action : RetryAction} {o : RetryOutput}
    (h : (retryCalls cfg httpDate policy request).step s (c, action) = some (o, s')) :
    ∃ budget phase,
      retryStep cfg httpDate (policy c) (request c) s.budget (s.calls c) action =
          some (o, budget, phase) ∧ s' = ⟨budget, Function.update s.calls c phase⟩ := by
  simp only [retryCalls, Option.map_eq_some_iff] at h
  obtain ⟨⟨o, budget, phase⟩, hcall, hr⟩ := h
  simp only [Prod.mk.injEq] at hr
  obtain ⟨rfl, rfl⟩ := hr
  exact ⟨budget, phase, hcall, rfl⟩

/-- The budget's part of a run of calls is a run of the budget. -/
theorem budget_runs {cfg : RetryBudget.Config} {httpDate : HttpDate}
    {policy : CallId → RetryPolicy} {request : CallId → Request}
    {run : List ((CallId × RetryAction) × RetryOutput)} {s : RetrySystem}
    (h : (retryCalls cfg httpDate policy request).Runs run s) :
    (RetryBudget.machine cfg).Runs (budgetOps run) s.budget := by
  obtain ⟨b, hb, rfl⟩ := Machine.Runs.project (N := RetryBudget.machine cfg)
    (R := fun s b => s.budget = b) (fun _ o => o.budgetOp) rfl (fun run s a o s' b _ hs hstep => by
      subst hs
      obtain ⟨budget, phase, hcall, rfl⟩ := retryCalls_step hstep
      exact retryStep_budget hcall) h
  exact hb

/-! ## Attempts are tied to grants -/

/-- What the phase of a call says of its steps so far: whether it has started, the attempts that it
has forwarded, and the withdrawals that it was granted. Only a sleeping call, or one that is back at
the head of the loop, has a grant whose attempt is still to come. -/
def RetryPhase.Accounts (maxAttempts : ℤ) (started forwarded granted : ℕ) : RetryPhase → Prop
  | idle => started = 0 ∧ forwarded = 0 ∧ granted = 0
  | ready attempt => started = 1 ∧ forwarded = attempt ∧ granted = attempt ∧ attempt < maxAttempts
  | attempting attempt =>
    started = 1 ∧ forwarded = attempt + 1 ∧ granted = attempt ∧ attempt < maxAttempts
  | deciding attempt _ =>
    started = 1 ∧ forwarded = attempt + 1 ∧ granted = attempt ∧ attempt < maxAttempts
  | sleeping attempt _ =>
    started = 1 ∧ forwarded = attempt + 1 ∧ granted = attempt + 1 ∧ attempt + 1 < maxAttempts
  | done _ => started = 1 ∧ forwarded ≤ granted + 1 ∧ forwarded ≤ maxAttempts

/-- An accepted policy allows an attempt. -/
theorem RetryPolicy.maxAttempts_pos (p : RetryPolicy) : 0 < p.maxAttempts := by
  have h := p.accepted
  unfold validateRetryConfig at h
  split_ifs at h
  omega

/-- One step of a call keeps its accounts. -/
theorem accounts_step {cfg : RetryBudget.Config} {httpDate : HttpDate} {p : RetryPolicy}
    {request : Request} {budget budget' : RetryBudget} {phase phase' : RetryPhase}
    {action : RetryAction} {o : RetryOutput} {started forwarded granted : ℕ}
    (hacc : phase.Accounts p.maxAttempts started forwarded granted)
    (h : retryStep cfg httpDate p request budget phase action = some (o, budget', phase')) :
    phase'.Accounts p.maxAttempts (started + if o.isStarted then 1 else 0)
      (forwarded + if o.isForwarded then 1 else 0) (granted + if o.isGranted then 1 else 0) := by
  have hmax := p.maxAttempts_pos
  cases retryStep_cases h with
  | @decided attempt exc now draw =>
    -- The decision is the only step that grants: then an attempt is left, and the call sleeps.
    simp only [RetryPhase.Accounts] at hacc
    rcases p.decide_spec cfg httpDate budget now draw attempt request exc with
      ⟨hw, -, notes, hd⟩ | ⟨hleft, -, ⟨hw, -, _, hd⟩ | ⟨hw, -, delay, hd⟩⟩
    all_goals
      simp only [hw, hd, RetryPolicy.Decision.after, RetryPhase.Accounts, RetryOutput.isStarted,
        RetryOutput.isForwarded, RetryOutput.isGranted]
      simp
      omega
  | _ =>
    simp only [RetryPhase.Accounts, RetryOutput.isStarted, RetryOutput.isForwarded,
      RetryOutput.isGranted] at hacc ⊢
    simp
    omega

/-- After every run, the phase of each call accounts for that call's part of the run. -/
theorem accounts_of_runs {cfg : RetryBudget.Config} {httpDate : HttpDate}
    {policy : CallId → RetryPolicy} {request : CallId → Request}
    {run : List ((CallId × RetryAction) × RetryOutput)} {s : RetrySystem}
    (h : (retryCalls cfg httpDate policy request).Runs run s) (c : CallId) :
    (s.calls c).Accounts (policy c).maxAttempts
      ((Machine.ofParty c run).countP fun x => x.2.isStarted)
      ((Machine.ofParty c run).countP fun x => x.2.isForwarded)
      ((Machine.ofParty c run).countP fun x => x.2.isGranted) := by
  induction h with
  | nil => exact ⟨rfl, rfl, rfl⟩
  | @snoc run s s' a o hrun hstep ih =>
    obtain ⟨d, action⟩ := a
    obtain ⟨budget, phase, hcall, rfl⟩ := retryCalls_step hstep
    -- The step is a step of `c`, or it leaves the call `c` where it was.
    by_cases hdc : d = c
    · subst hdc
      rw [Machine.ofParty_snoc_self]
      simpa [List.countP_append, List.countP_singleton] using accounts_step ih hcall
    · rw [Machine.ofParty_snoc_of_ne hdc]
      simpa [Function.update_of_ne (Ne.symm hdc)] using ih

/-- A call forwards at most its first attempt and one for each grant. -/
theorem RetryPhase.Accounts.forwarded_le {maxAttempts : ℤ} {started forwarded granted : ℕ}
    {phase : RetryPhase} (h : phase.Accounts maxAttempts started forwarded granted) :
    forwarded ≤ started + granted := by
  cases phase <;> simp only [RetryPhase.Accounts] at h <;> omega

/-- A call forwards at most `max_attempts` attempts. -/
theorem RetryPhase.Accounts.forwarded_le_max {maxAttempts : ℤ} {started forwarded granted : ℕ}
    {phase : RetryPhase} (h : phase.Accounts maxAttempts started forwarded granted)
    (hmax : 0 < maxAttempts) : forwarded ≤ maxAttempts := by
  cases phase <;> simp only [RetryPhase.Accounts] at h <;> omega

/-- The attempts of a run are at most its calls and its grants. -/
theorem forwarded_le {cfg : RetryBudget.Config} {httpDate : HttpDate}
    {policy : CallId → RetryPolicy} {request : CallId → Request}
    {run : List ((CallId × RetryAction) × RetryOutput)} {s : RetrySystem}
    (h : (retryCalls cfg httpDate policy request).Runs run s) :
    (run.countP fun x => x.2.isForwarded) ≤
      (run.countP fun x => x.2.isStarted) + run.countP fun x => x.2.isGranted := by
  rw [Machine.countP_eq_sum_ofParty _ run subset_rfl, Machine.countP_eq_sum_ofParty _ run subset_rfl,
    Machine.countP_eq_sum_ofParty _ run subset_rfl, ← Finset.sum_add_distrib]
  exact Finset.sum_le_sum fun c _ => (accounts_of_runs h c).forwarded_le

/-- The budget's log has one deposit for each call and one withdrawal for each grant. -/
theorem ofRun_budgetOps (cfg : RetryBudget.Config)
    (run : List ((CallId × RetryAction) × RetryOutput)) :
    (RetryBudget.EventLog.ofRun cfg (budgetOps run)).deposits.length =
        (run.countP fun x => x.2.isStarted) ∧
      (RetryBudget.EventLog.ofRun cfg (budgetOps run)).withdrawals.length =
        run.countP fun x => x.2.isGranted := by
  induction run using List.reverseRecOn with
  | nil => exact ⟨rfl, rfl⟩
  | append_singleton run x ih =>
    obtain ⟨⟨c, action⟩, o⟩ := x
    obtain ⟨hd, hw⟩ := ih
    rw [List.countP_append, List.countP_append, ← hd, ← hw, budgetOps, List.filterMap_append]
    change (RetryBudget.EventLog.ofRun cfg (budgetOps run ++ _)).deposits.length = _ ∧
      (RetryBudget.EventLog.ofRun cfg (budgetOps run ++ _)).withdrawals.length = _
    rcases o with now | _ | ⟨now, _ | _ | _, events⟩ | _ <;>
      simp [RetryOutput.budgetOp, RetryOutput.isStarted, RetryOutput.isGranted,
        RetryBudget.EventLog.ofRun_snoc, RetryBudget.EventLog.record]

/-- No retry storm: in any interleaving of calls that share a budget, whatever their policies, the
attempts forwarded to `next` are at most the calls, the budget's percentage of the calls, and the
floor and one more for each ten slots of the run; and no call forwards more than its
`max_attempts`. -/
theorem no_retry_storm {cfg : RetryBudget.Config} {httpDate : HttpDate}
    {policy : CallId → RetryPolicy} {request : CallId → Request}
    {run : List ((CallId × RetryAction) × RetryOutput)} {s : RetrySystem}
    (h : (retryCalls cfg httpDate policy request).Runs run s) :
    ((run.countP fun x => x.2.isForwarded : ℕ) : ℚ) ≤
        (run.countP fun x => x.2.isStarted : ℕ) +
          cfg.percentCanRetry.toRat * (run.countP fun x => x.2.isStarted : ℕ) +
          (Python.truncate (cfg.minRetriesPerSec.toRat * cfg.ttl.toRat) + 1) *
            ⌈(RetryBudget.slotSpan cfg (budgetOps run) : ℚ) / 10⌉ ∧
      ∀ c, (((Machine.ofParty c run).countP fun x => x.2.isForwarded : ℕ) : ℤ) ≤
        (policy c).maxAttempts := by
  refine ⟨?_, fun c => (accounts_of_runs h c).forwarded_le_max (policy c).maxAttempts_pos⟩
  -- Party by party, an attempt is the first of its call or follows a grant.
  have hattempts : ((run.countP fun x => x.2.isForwarded : ℕ) : ℚ) ≤
      (run.countP fun x => x.2.isStarted : ℕ) + (run.countP fun x => x.2.isGranted : ℕ) := by
    exact_mod_cast forwarded_le h
  have hgrants := RetryBudget.grants_le cfg (budget_runs h)
  rw [(ofRun_budgetOps cfg run).1, (ofRun_budgetOps cfg run).2] at hgrants
  calc ((run.countP fun x => x.2.isForwarded : ℕ) : ℚ)
      ≤ (run.countP fun x => x.2.isStarted : ℕ) + (run.countP fun x => x.2.isGranted : ℕ) :=
        hattempts
    _ ≤ (run.countP fun x => x.2.isStarted : ℕ) +
          (cfg.percentCanRetry.toRat * (run.countP fun x => x.2.isStarted : ℕ) +
            (Python.truncate (cfg.minRetriesPerSec.toRat * cfg.ttl.toRat) + 1) *
              ⌈(RetryBudget.slotSpan cfg (budgetOps run) : ℚ) / 10⌉) := by
        gcongr
        exact hgrants
    _ = _ := by ring

/-- The actions of a call that fails, is granted a retry, and forwards a second attempt. -/
def oneRetry : List (CallId × RetryAction) :=
  [(0, .start 0), (0, .forward), (0, .finish (.raised .networkError)),
    (0, .decide 0 ⟨0, le_rfl, zero_le_one⟩), (0, .wake), (0, .forward)]

/-- The outputs of these actions. -/
def oneRetryOutputs : List RetryOutput :=
  [.started 0, .forwarded, .silent, .decided 0 (some true) [], .silent, .forwarded]

/-- The bound on that run. -/
theorem no_retry_storm_one_retry :
    (2 : ℚ) ≤ 1 + RetryBudget.defaultConfig.percentCanRetry.toRat * 1 +
      (Python.truncate (RetryBudget.defaultConfig.minRetriesPerSec.toRat *
        RetryBudget.defaultConfig.ttl.toRat) + 1) * ⌈(1 : ℚ) / 10⌉ := by
  let M := retryCalls RetryBudget.defaultConfig (fun _ => none) (fun _ => .default)
    fun _ => { method := "GET", url := ⟨"https", "a", none, "a", "https://a/"⟩ }
  obtain ⟨s, hrun, -⟩ :=
    Machine.exists_runs_of_observe M (fun _ => ()) oneRetry oneRetryOutputs () (by decide +kernel)
  have hspan : RetryBudget.slotSpan RetryBudget.defaultConfig
      (budgetOps (oneRetry.zip oneRetryOutputs)) = 1 := by decide +kernel
  have h := (no_retry_storm hrun).1
  rw [hspan] at h
  exact_mod_cast h

end Httpware
