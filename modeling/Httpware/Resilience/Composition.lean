import Httpware.Resilience.Stack

/-!
# The composition of the resilience middleware

What holds of whole chains: of the recommended one, a circuit breaker around a total deadline around a
bulkhead around a retry loop, and of others. `around` puts the layers of a chain over a terminal, which
may be any service; calls interleave in any order, and may be cancelled or interrupted wherever they
wait.

A bulkhead caps what is in flight wherever it stands (`in_flight_capped`). A breaker in front records
each call that comes back once, and what it does not let in goes no further (`one_outcome_per_call`); so
the attempts of the retry loops inside are bounded by the calls that it lets in (`attempts_bounded`). The order of a
bulkhead and a retry loop decides how long a slot is held (`slot_covers_loop`), and the order of a
breaker and a deadline whether an upstream that hangs opens the circuit (`hanging_upstream`).
-/

namespace Httpware.Composition

open CircuitBreakerState Layer

/-! ## A terminal for examples -/

/-- Where an exchange is. -/
inductive ExchangePhase
  | idle
  | sent
  | answered (ending : Ending)

/-- What can happen to an exchange. -/
inductive ExchangeAction
  | send
  | answer (ending : Ending)

/-- A terminal whose exchanges end in any way. -/
def terminal : Service Ending Exc where
  State := CallId → ExchangePhase
  Phase := ExchangePhase
  Action := ExchangeAction
  Output := Unit
  machine :=
    { init := fun _ => .idle
      step := fun s a =>
        match s a.1, a.2 with
        | .idle, .send => some ((), Function.update s a.1 .sent)
        | .sent, .answer ending => some ((), Function.update s a.1 (.answered ending))
        | _, _ => none }
  phase s c := s c
  isIdle p :=
    match p with
    | .idle => true
    | _ => false
  ending p :=
    match p with
    | .answered ending => some fun _ => ending
    | _ => none
  moves p _ p' := p' = .sent ∧ p = .idle ∨ p = .sent ∧ ∃ ending, p' = .answered ending
  own _ _ _ := True
  waits _ _ _ := False
  init _ := rfl
  idle_ending p h := by
    cases p with
    | idle => rfl
    | _ => cases h
  step s c a o s' h := by
    simp only at h
    split at h
    · next hp =>
      cases h
      exact ⟨.inl ⟨Function.update_self _ _ _, hp⟩, fun d hd => Function.update_of_ne hd _ _⟩
    · next ending hp =>
      cases h
      exact ⟨.inr ⟨hp, ending, Function.update_self _ _ _⟩, fun d hd => Function.update_of_ne hd _ _⟩
    · cases h
  begun p a p' h := by
    rcases h with ⟨rfl, -⟩ | ⟨-, ending, rfl⟩ <;> rfl
  ended p a p' h := by
    rcases h with ⟨-, rfl⟩ | ⟨rfl, -⟩ <;> rfl

/-! ## What is in flight -/

/-- A bulkhead caps what is in flight wherever it stands: in every chain that contains one, whatever the
other layers are, no more than `max_concurrent` calls of the terminal are in progress at any moment. -/
theorem in_flight_capped {cfg : Bulkhead.Config} {request : CallId → Request}
    {As : List (Layer Ending Exc)} {X : Service Ending Exc}
    (hmem : Bulkhead.asyncLayer cfg request ∈ As ∨ Bulkhead.syncLayer cfg request ∈ As)
    {run : List ((CallId × (around As X).Action) × (around As X).Output)} {s : (around As X).State}
    (h : (around As X).machine.Runs run s) :
    (X.active (innermost As X s)).encard ≤ cfg.maxConcurrent.toNat := by
  rcases hmem with hmem | hmem
  · exact (Bulkhead.asyncLayer_caps cfg request).encard_innermost_le As hmem X h
  · exact (Bulkhead.syncLayer_caps cfg request).encard_innermost_le As hmem X h

/-- A chain of a bulkhead with one slot. -/
def oneSlotChain : List (Layer Ending Exc) := [Bulkhead.asyncLayer Bulkhead.oneSlot fun _ => plainGet]

/-- Its call is in flight, and a second one waits for the slot. -/
def oneInFlight : List (CallId × (around oneSlotChain terminal).Action) :=
  [(0, .outer (.start 0)), (1, .outer (.start 0)), (0, .inner .send)]

/-- Nothing else is in flight then. -/
theorem in_flight_capped_one : ∃ run s, (around oneSlotChain terminal).machine.Runs run s ∧
    Nat.pair 0 0 ∈ terminal.active (innermost oneSlotChain terminal s) ∧
      (terminal.active (innermost oneSlotChain terminal s)).encard ≤ 1 := by
  obtain ⟨run, s, hrun, hs⟩ := Machine.exists_runs_of_exec (around oneSlotChain terminal).machine
    (fun s => terminal.inProgress (innermost oneSlotChain terminal s (Nat.pair 0 0))) oneInFlight true
    (by decide)
  exact ⟨run, s, hrun, hs, in_flight_capped (.inl List.mem_cons_self) hrun⟩

/-! ## A breaker in front -/

section Breaker

variable {cfg : Config} {request : CallId → Request} {As : List (Layer Ending Exc)}
  {X : Service Ending Exc}

/-- Nothing is recorded for a call that has not come back from `next`. -/
theorem recorded_eq_nil {Y : Service Ending Exc}
    {run : List ((CallId × BothAction (layer cfg request) Y) × BothOutput (layer cfg request) Y)}
    {s : Both (layer cfg request) Y} (h : ((layer cfg request).wrap Y).machine.Runs run s) {c : CallId}
    (hnexts : s.nexts c = 0) : recorded cfg c (breakerRun run) = [] := by
  have hlength := (returns_of_runs h c).length
  rw [hnexts] at hlength
  rw [recorded_breakerRun, List.length_eq_zero_iff.mp hlength, List.map_nil]

/-- A call has not come back from `next` while it is suspended there, or before its call of it begins. -/
theorem nexts_eq_zero {Y : Service Ending Exc}
    {run : List ((CallId × BothAction (layer cfg request) Y) × BothOutput (layer cfg request) Y)}
    {s : Both (layer cfg request) Y} (h : ((layer cfg request).wrap Y).machine.Runs run s) {c : CallId}
    (hc : (s.outer.calls c).isInNext = true ∨ Y.isIdle (Y.phase s.inner (Nat.pair c 0)) = true) :
    s.nexts c = 0 := by
  by_contra hne
  have hpos := Nat.pos_of_ne_zero hne
  rcases hc with hin | hidle
  · have hnext := layer_once.notInNext _ ((layer_once.nexts_le h c).2 hpos)
    cases hnext.symm.trans hin
  · have hended := (nested_of_runs h).earlier c 0 hpos
    rw [Y.idle_ending _ hidle] at hended
    cases hended

/-- A breaker in front of a chain: a call that came back from `next` has exactly one record, with the
outcome of what left the inside, and no other call has any; and for a call that has not come to `next`,
or that is rejected, also where a handler of the rejection raises, nothing begins inside, on any
level. -/
theorem one_outcome_per_call
    {run : List ((CallId × BothAction (layer cfg request) (around As X)) ×
      BothOutput (layer cfg request) (around As X))} {s : Both (layer cfg request) (around As X)}
    (h : ((layer cfg request).wrap (around As X)).machine.Runs run s) (c : CallId) :
    ((around As X).isIdle ((around As X).phase s.inner (Nat.pair c 0)) = false →
        (s.outer.calls c).isInNext = false → ∃ ending escaping,
          (around As X).ending ((around As X).phase s.inner (Nat.pair c 0)) = some ending ∧
            recorded cfg c (breakerRun run) = [outcomeOf cfg (ending escaping)]) ∧
      ((s.outer.calls c).isInNext = true ∨
          (around As X).isIdle ((around As X).phase s.inner (Nat.pair c 0)) = true →
        recorded cfg c (breakerRun run) = []) ∧
      ((s.outer.calls c).isBefore = true ∨ TurnsAway (breakerRun run) c →
        recorded cfg c (breakerRun run) = [] ∧
          (∀ k, (around As X).isIdle ((around As X).phase s.inner (Nat.pair c k)) = true) ∧
          ∀ i, root (As.length + 1) i = c →
            X.isIdle (X.phase (innermost As X s.inner) i) = true) := by
  refine ⟨fun hbegun hnext => ?_, fun hc => recorded_eq_nil h (nexts_eq_zero h hc), fun hc => ?_⟩
  · -- The call of `next` has ended, and there is no other.
    have hreturns := returns_of_runs h c
    have hpos : 0 < s.nexts c := by
      obtain ⟨d, k, hpair, hmade⟩ := (nested_of_runs h).exists_child hbegun
      obtain ⟨rfl, rfl⟩ := Nat.pair_eq_pair.mp hpair
      exact hmade.resolve_right fun hcurrent => Bool.false_ne_true (hnext.symm.trans hcurrent.2)
    have hone : s.nexts c = 1 := le_antisymm (layer_once.nexts_le h c).1 hpos
    obtain ⟨left, hleft⟩ := List.length_eq_one_iff.mp (hreturns.length.trans hone)
    rw [hleft] at hreturns
    obtain ⟨ending, escaping, hending, rfl⟩ := hreturns.ended 0 left rfl
    refine ⟨ending, escaping, hending, ?_⟩
    rw [recorded_breakerRun, hleft, List.map_singleton]
  · have hidle : ∀ k, (around As X).isIdle ((around As X).phase s.inner (Nat.pair c k)) = true := by
      intro k
      rcases hc with hbefore | hrejected
      · exact layer_before.untouched h hbefore k
      · by_contra hbegun
        rw [Bool.not_eq_true] at hbegun
        exact ((notLetIn_of_runs (outer_runs h) c).rejected hrejected).2 (letsIn_of_begun h c k hbegun)
    refine ⟨recorded_eq_nil h (nexts_eq_zero h (.inr (hidle 0))), hidle, ?_⟩
    rintro i rfl
    by_contra hbegun
    rw [Bool.not_eq_true] at hbegun
    -- What has begun inside all layers comes from a call of the first one.
    have hroot := begun_root As X (inner_runs h) hbegun
    have huntouched := hidle (root As.length i).unpair.2
    rw [root, Nat.pair_unpair, hroot] at huntouched
    cases huntouched

/-- A breaker that opens at the first failure. -/
def firstFailureOpens : Config where
  failureThreshold := 1
  accepted := by decide +kernel

/-- The first call fails and opens the circuit, and the second one is rejected; a handler of its event
raises. -/
def secondRejected :
    List (CallId × BothAction (layer firstFailureOpens fun _ => plainGet) (around [] terminal)) :=
  [(0, .outer .read), (0, .inner .send), (0, .inner (.answer (.raised .networkError))),
    (0, .ret .networkError ⟨0, 0⟩), (0, .outer (.emit false)), (1, .outer .read),
    (1, .outer (.admitCall 1)), (1, .outer (.emit true))]

/-- The first call has one record, and nothing of the second one has begun inside. -/
theorem one_outcome_per_call_rejected : ∃ run s,
    ((layer firstFailureOpens fun _ => plainGet).wrap (around [] terminal)).machine.Runs run s ∧
      (∃ outcome, recorded firstFailureOpens 0 (breakerRun run) = [outcome]) ∧
      recorded firstFailureOpens 1 (breakerRun run) = [] ∧
      ∀ i, root 1 i = 1 → terminal.isIdle (terminal.phase (innermost [] terminal s.inner) i) = true := by
  obtain ⟨run, s, hrun, hs⟩ := Machine.exists_runs_of_exec_run
    ((layer firstFailureOpens fun _ => plainGet).wrap (around [] terminal)).machine
    (fun run s => (terminal.isIdle (terminal.phase (Both.inner s) (Nat.pair 0 0)),
      (Both.outer s |>.calls 0).isInNext,
      (Machine.ofParty 1 (breakerRun run)).any fun x => x.2.result.isRejection)) secondRejected
    (false, false, true) (by decide +kernel)
  simp only [Prod.mk.injEq, List.any_eq_true] at hs
  obtain ⟨hbegun, hnext, hrejected⟩ := hs
  obtain ⟨ending, escaping, -, hone⟩ := (one_outcome_per_call hrun 0).1 hbegun hnext
  obtain ⟨hnone, -, hidle⟩ := (one_outcome_per_call hrun 1).2.2 (.inr hrejected)
  exact ⟨run, s, hrun, ⟨_, hone⟩, hnone, hidle⟩

/-- The calls that a run lets in are at most its admissions. -/
theorem encard_letsIn_le (run : List ((CallId × CallAction) × Shown)) :
    {c | LetsIn run c}.encard ≤ (run.countP fun x => x.2.result.isAdmission : ℕ) := by
  induction run using List.reverseRecOn with
  | nil =>
    have hnone : {c | LetsIn ([] : List ((CallId × CallAction) × Shown)) c} = ∅ := by
      ext c
      simp [LetsIn]
    rw [hnone, Set.encard_empty]
    exact zero_le
  | append_singleton run x ih =>
    obtain ⟨⟨d, a⟩, o⟩ := x
    rw [List.countP_append, List.countP_singleton]
    have hothers : ∀ c, LetsIn (run ++ [((d, a), o)]) c →
        LetsIn run c ∨ c = d ∧ o.result.isAdmission = true := by
      rintro c ⟨y, hy, hadmission⟩
      rcases eq_or_ne d c with rfl | hdc
      · rw [Machine.ofParty_snoc_self] at hy
        rcases List.mem_append.mp hy with hy | hy
        · exact .inl ⟨y, hy, hadmission⟩
        · rw [List.mem_singleton.mp hy] at hadmission
          exact .inr ⟨rfl, hadmission⟩
      · rw [Machine.ofParty_snoc_of_ne hdc] at hy
        exact .inl ⟨y, hy, hadmission⟩
    cases hadmission : o.result.isAdmission with
    | false =>
      have hsub : {c | LetsIn (run ++ [((d, a), o)]) c} ⊆ {c | LetsIn run c} := by
        intro c hc
        rcases hothers c hc with hold | ⟨-, hnew⟩
        · exact hold
        · rw [hadmission] at hnew
          cases hnew
      exact (Set.encard_le_encard hsub).trans ih
    | true =>
      have hsub : {c | LetsIn (run ++ [((d, a), o)]) c} ⊆ insert d {c | LetsIn run c} := by
        intro c hc
        rcases hothers c hc with hold | ⟨rfl, -⟩
        · exact Set.mem_insert_of_mem d hold
        · exact Set.mem_insert c _
      calc {c | LetsIn (run ++ [((d, a), o)]) c}.encard
          ≤ (insert d {c | LetsIn run c}).encard := Set.encard_le_encard hsub
        _ ≤ {c | LetsIn run c}.encard + 1 := Set.encard_insert_le _ _
        _ ≤ (run.countP fun x => x.2.result.isAdmission : ℕ) + 1 := by gcongr

/-- Of the retry loops that have started, each has begun. -/
theorem started_le {budgetCfg : RetryBudget.Config} {httpDate : HttpDate}
    {policy : CallId → RetryPolicy} {request : CallId → Request}
    {run : List ((CallId × RetryAction) × RetryOutput)} {s : RetrySystem}
    (h : (retryCalls budgetCfg httpDate policy request).Runs run s) :
    ((run.countP fun x => x.2.isStarted : ℕ) : ℕ∞) ≤
      ((retryLayer budgetCfg httpDate policy request).begunCalls s).encard := by
  let begun := (Machine.parties run).filter fun c => (s.calls c).isIdle = false
  have hcount : (run.countP fun x => x.2.isStarted) ≤ begun.card := by
    rw [Machine.countP_eq_sum_ofParty _ run subset_rfl, Finset.card_filter]
    apply Finset.sum_le_sum
    intro c _
    have haccounts := accounts_of_runs h c
    generalize s.calls c = phase at haccounts
    cases phase <;> simp only [RetryPhase.Accounts] at haccounts <;>
      simp only [RetryPhase.isIdle] <;> simp [haccounts.1]
  calc ((run.countP fun x => x.2.isStarted : ℕ) : ℕ∞) ≤ (begun.card : ℕ) := by exact_mod_cast hcount
    _ = (begun : Set CallId).encard := (Set.encard_coe_eq_coe_finsetCard begun).symm
    _ ≤ ((retryLayer budgetCfg httpDate policy request).begunCalls s).encard := by
      apply Set.encard_le_encard
      intro c hc
      exact (Finset.mem_filter.mp hc).2

/-- A step that suspends a retry loop forwards an attempt. -/
theorem forwarded_of_suspends {budgetCfg : RetryBudget.Config} {httpDate : HttpDate}
    {policy : CallId → RetryPolicy} {request : CallId → Request} {s s' : RetrySystem} {c : CallId}
    {a : RetryAction} {o : RetryOutput}
    (h : (retryCalls budgetCfg httpDate policy request).step s (c, a) = some (o, s'))
    (hbefore : (s.calls c).isInNext = false) (hafter : (s'.calls c).isInNext = true) :
    o.isForwarded = true := by
  obtain ⟨budget, phase, hcall, rfl⟩ := retryCalls_step h
  dsimp only at hafter
  rw [Function.update_self] at hafter
  generalize s.calls c = before at hcall hbefore
  cases retryStep_cases hcall with
  | forwarded _ => rfl
  | @decided attempt exc now draw =>
    cases hd : ((policy c).decide budgetCfg httpDate s.budget now draw attempt (request c)
      exc).decision <;> rw [hd] at hafter <;> cases hafter
  | _ => cases hafter

variable {budgetCfg : RetryBudget.Config} {httpDate : HttpDate} {policy : CallId → RetryPolicy}
  {request' : CallId → Request}

/-- The attempts of the retry loops inside are bounded by the calls that the breaker lets in, whatever
stands between them that calls `next` once: no more requests are sent than attempts are forwarded, and
these are at most the calls let in, the budget's percentage of them, and the budget's floor. -/
theorem attempts_bounded (hAs : ∀ A ∈ As, A.IsOnce)
    {run : List ((CallId × BothAction (layer cfg request)
        (around As ((retryLayer budgetCfg httpDate policy request').wrap X))) ×
      BothOutput (layer cfg request)
        (around As ((retryLayer budgetCfg httpDate policy request').wrap X)))}
    {s : Both (layer cfg request) (around As ((retryLayer budgetCfg httpDate policy request').wrap X))}
    (h : ((layer cfg request).wrap
      (around As ((retryLayer budgetCfg httpDate policy request').wrap X))).machine.Runs run s) :
    let loops : List ((CallId × RetryAction) × RetryOutput) :=
      outerRun (innermostRun As _ (innerRun run))
    let attempts := loops.countP fun x => x.2.isForwarded
    let letIn := (breakerRun run).countP fun x => x.2.result.isAdmission
    (X.begunCalls (Both.inner (innermost As _ s.inner))).encard ≤ attempts ∧
      (attempts : ℚ) ≤ letIn + budgetCfg.percent * letIn +
        (budgetCfg.floor + 1) * ⌈(RetryBudget.slotSpan budgetCfg (budgetOps loops) : ℚ) / 10⌉ := by
  intro loops attempts letIn
  have hinner := innermost_runs As _ (inner_runs h)
  have hloops : (retryCalls budgetCfg httpDate policy request').Runs loops _ := outer_runs hinner
  constructor
  · exact encard_begun_le_countP (fun _ _ _ _ _ _ _ => forwarded_of_suspends) hinner
  · -- Each loop that has started belongs to a call that was let in.
    have hstarted : (loops.countP fun x => x.2.isStarted) ≤ letIn := by
      have hbegun : ((loops.countP fun x => x.2.isStarted : ℕ) : ℕ∞) ≤ (letIn : ℕ) :=
        calc ((loops.countP fun x => x.2.isStarted : ℕ) : ℕ∞)
            ≤ ((retryLayer budgetCfg httpDate policy request').begunCalls _).encard := started_le hloops
          _ ≤ ((around As ((retryLayer budgetCfg httpDate policy request').wrap X)).begunCalls
                s.inner).encard := encard_begun_le As hAs _ (inner_runs h)
          _ ≤ {c | LetsIn (outerRun run) c}.encard :=
              layer_once.encard_begun_le h fun c hc => letsIn_of_begun h c 0 hc
          _ ≤ (letIn : ℕ) := encard_letsIn_le (outerRun run)
      exact_mod_cast hbegun
    have hattempts : (attempts : ℚ) ≤ (loops.countP fun x => x.2.isStarted : ℕ) +
        (loops.countP fun x => x.2.isGranted : ℕ) := by
      exact_mod_cast forwarded_le hloops
    have hgrants := RetryBudget.grants_le budgetCfg (budget_runs hloops)
    rw [(ofRun_budgetOps budgetCfg loops).1, (ofRun_budgetOps budgetCfg loops).2] at hgrants
    have hcast : ((loops.countP fun x => x.2.isStarted : ℕ) : ℚ) ≤ letIn := by exact_mod_cast hstarted
    have hpercent := mul_le_mul_of_nonneg_left hcast budgetCfg.percent_nonneg
    linarith

end Breaker

/-- What the recommended chain has between the breaker and the retry loop. -/
def between : List (Layer Ending Exc) :=
  [AsyncTimeout.layer AsyncTimeout.halfMinute AsyncTimeout.standardKinds fun _ => plainGet,
    Bulkhead.asyncLayer Bulkhead.oneSlot fun _ => plainGet]

/-- Each of them calls `next` once. -/
theorem between_isOnce : ∀ A ∈ between, A.IsOnce := by
  intro A hA
  rcases List.mem_cons.mp hA with rfl | hA
  · exact AsyncTimeout.layer_isOnce _ _ _
  · rw [List.mem_singleton.mp hA]
    exact Bulkhead.layerOf_isOnce

/-- A retry loop over the terminal. -/
def loop : Service Ending Exc :=
  (retryLayer starvedBudget (fun _ => none) (fun _ => .default) fun _ => plainGet).wrap terminal

/-- The recommended chain. -/
def recommended : Service Ending Exc :=
  (layer defaultConfig fun _ => plainGet).wrap (around between loop)

/-- A call on its way through the whole chain, as far as the request is sent. -/
def wayIn : List (CallId × recommended.Action) :=
  [(0, .outer .read), (0, .inner (.outer (.enter 0))), (0, .inner (.inner (.outer (.start 0)))),
    (0, .inner (.inner (.inner (.outer (.start 0))))),
    (0, .inner (.inner (.inner (.outer .forward)))), (0, .inner (.inner (.inner (.inner .send))))]

/-- What its steps show. -/
def wayInOutputs : List recommended.Output :=
  [.outer ⟨.read (some 0), [], .CLOSED⟩, .inner 0 (.outer []), .inner 0 (.inner 0 (.outer [])),
    .inner 0 (.inner 0 (.inner 0 (.outer (.started 0)))),
    .inner 0 (.inner 0 (.inner 0 (.outer .forwarded))),
    .inner 0 (.inner 0 (.inner 0 (.inner 0 ())))]

/-- The bound on that run. -/
theorem attempts_bounded_recommended :
    (1 : ℚ) ≤ 1 + starvedBudget.percent * 1 + (starvedBudget.floor + 1) * ⌈(1 : ℚ) / 10⌉ := by
  obtain ⟨s, hrun, -⟩ := Machine.exists_runs_of_observe recommended.machine (fun _ => ()) wayIn
    wayInOutputs () rfl
  let loops : List ((CallId × RetryAction) × RetryOutput) :=
    outerRun (innermostRun between loop (innerRun (wayIn.zip wayInOutputs)))
  have hspan : RetryBudget.slotSpan starvedBudget (budgetOps loops) = 1 := by decide +kernel
  have h : ((1 : ℕ) : ℚ) ≤ (1 : ℕ) + starvedBudget.percent * (1 : ℕ) +
      (starvedBudget.floor + 1) *
        ⌈(RetryBudget.slotSpan starvedBudget (budgetOps loops) : ℚ) / 10⌉ :=
    (attempts_bounded between_isOnce hrun).2
  rw [hspan] at h
  exact_mod_cast h

/-! ## The order of a bulkhead and a retry loop -/

section Slots

variable {bulkheadCfg : Bulkhead.Config} {bulkheadRequest : CallId → Request} {A : Layer Ending Exc}
  {budgetCfg : RetryBudget.Config} {httpDate : HttpDate} {policy : CallId → RetryPolicy}
  {request : CallId → Request} {X : Service Ending Exc}

/-- With the bulkhead outside, one slot covers a whole retry loop: every loop in progress, while it
sleeps as well as while it attempts, is the only one of a call that has a slot, so there are no more
loops than slots. With the bulkhead inside, there are no more attempts in flight than slots, and a loop
that is not in an attempt, as while it sleeps, neither holds a slot nor waits for one. -/
theorem slot_covers_loop
    (hA : A = Bulkhead.asyncLayer bulkheadCfg bulkheadRequest ∨
      A = Bulkhead.syncLayer bulkheadCfg bulkheadRequest) :
    (∀ run s, (A.wrap ((retryLayer budgetCfg httpDate policy request).wrap X)).machine.Runs run s →
        (((retryLayer budgetCfg httpDate policy request).wrap X).active s.inner).encard ≤
          bulkheadCfg.maxConcurrent.toNat ∧
        ∀ i ∈ ((retryLayer budgetCfg httpDate policy request).wrap X).active s.inner,
          ∃ c ∈ A.suspended s.outer, i = Nat.pair c 0) ∧
      ∀ run s, ((retryLayer budgetCfg httpDate policy request).wrap (A.wrap X)).machine.Runs run s →
        (X.active s.inner.inner).encard ≤ bulkheadCfg.maxConcurrent.toNat ∧
        ∀ c, (s.outer.calls c).isInNext = false → ∀ k, Nat.pair c k ∉ (A.wrap X).active s.inner := by
  have hcaps : A.Caps bulkheadCfg.maxConcurrent.toNat := by
    rcases hA with rfl | rfl
    · exact Bulkhead.asyncLayer_caps _ _
    · exact Bulkhead.syncLayer_caps _ _
  obtain ⟨K, hK⟩ : A.IsOnce := by
    rcases hA with rfl | rfl
    · exact Bulkhead.layerOf_isOnce
    · exact Bulkhead.layerOf_isOnce
  constructor
  · intro run s hrun
    have hnested := nested_of_runs hrun
    refine ⟨hnested.encard_active_le.trans (hcaps _ _ (outer_runs hrun)), fun i hi => ?_⟩
    obtain ⟨c, hc, rfl⟩ := hnested.of_inProgress hi
    -- A call with a slot has not gone on before, so this is its first loop.
    have hzero : s.nexts c = 0 := by
      by_contra hne
      have hpast := (hK.nexts_le hrun c).2 (Nat.pos_of_ne_zero hne)
      have hin : A.inNext (A.phase s.outer c) = true := hc
      rw [hK.notInNext _ hpast] at hin
      cases hin
    refine ⟨c, hc, ?_⟩
    change Nat.pair c (s.nexts c) = Nat.pair c 0
    rw [hzero]
  · intro run s hrun
    have hinner := inner_runs hrun
    refine ⟨(nested_of_runs hinner).encard_active_le.trans (hcaps _ _ (outer_runs hinner)), ?_⟩
    intro c hc k hactive
    obtain ⟨d, hd, heq⟩ := (nested_of_runs hrun).of_inProgress hactive
    obtain ⟨rfl, -⟩ := Nat.pair_eq_pair.mp heq
    have hin : (s.outer.calls c).isInNext = true := hd
    rw [hc] at hin
    cases hin

end Slots

/-- A retry loop with the default budget over the terminal. -/
def defaultLoop : Service Ending Exc :=
  (retryLayer RetryBudget.defaultConfig (fun _ => none) (fun _ => .default) fun _ => plainGet).wrap
    terminal

/-- A bulkhead with one slot around it. -/
def slotAroundLoop : Service Ending Exc :=
  (Bulkhead.asyncLayer Bulkhead.oneSlot fun _ => plainGet).wrap defaultLoop

/-- The loop of a call sleeps after its first attempt. -/
def sleepsWithSlot : List (CallId × slotAroundLoop.Action) :=
  [(0, .outer (.start 0)), (0, .inner (.outer (.start 0))), (0, .inner (.outer .forward)),
    (0, .inner (.inner .send)), (0, .inner (.inner (.answer (.raised .networkError)))),
    (0, .inner (.ret .networkError ())), (0, .inner (.outer (.decide 0 .zero)))]

/-- The sleeping loop is then the only one in progress. -/
theorem slot_covers_loop_sleeping : ∃ run s, slotAroundLoop.machine.Runs run s ∧
    0 ∈ defaultLoop.active (Both.inner s) ∧ (defaultLoop.active (Both.inner s)).encard ≤ 1 := by
  obtain ⟨run, s, hrun, hs⟩ := Machine.exists_runs_of_exec slotAroundLoop.machine
    (fun s => defaultLoop.inProgress (defaultLoop.phase (Both.inner s) 0)) sleepsWithSlot true
    (by decide +kernel)
  exact ⟨run, s, hrun, hs, ((slot_covers_loop (.inl rfl)).1 run s hrun).1⟩

/-! ## The order of a breaker and a deadline -/

section Deadline

variable {cfg : Config} {request request' : CallId → Request} {deadline : AsyncTimeout.Config}
  {kinds : AsyncTimeout.Kinds} {X : Service Ending Exc}

/-- A cancellation does not count. -/
theorem outcomeOf_cancelled {ending : Ending}
    (h : AsyncTimeout.raisedAnd kinds.isCancelled ending = true) : outcomeOf cfg ending = .foreign := by
  cases ending with
  | returned response => cases h
  | raised exc =>
    cases exc with
    | other name => rfl
    | _ => cases h

/-- An upstream that hangs. With the breaker in front of the deadline, an expired deadline is a failure:
where every call that the deadline let go ended so, the circuit, in the classic mode, is closed exactly
as long as fewer than `failure_threshold` were recorded. With the deadline in front, the breaker sees
cancellations: where every call inside ended so, the circuit is still as it was made. -/
theorem hanging_upstream :
    (cfg.failureRateThreshold = none → ∀ run s, ((layer cfg request).wrap
        ((AsyncTimeout.layer deadline kinds request').wrap X)).machine.Runs run s →
      (∀ c ending, s.inner.outer.phase c = .finished ending → ending = .raised .timeoutError) →
        (s.outer.circuit.state = .CLOSED ↔
          (((breakerRun run).countP fun x => x.1.2.finished.isSome : ℕ) : ℤ) <
            cfg.failureThreshold)) ∧
      ∀ run s, ((AsyncTimeout.layer deadline kinds request').wrap
          ((layer cfg request).wrap X)).machine.Runs run s →
        (∀ i ending, X.ending (X.phase s.inner.inner i) = some ending →
          ∀ exc, AsyncTimeout.raisedAnd kinds.isCancelled (ending exc) = true) →
        s.inner.outer.circuit = init cfg := by
  constructor
  · intro hmode run s hrun hexpired
    apply closed_iff_of_failures (outer_runs hrun) hmode
    intro c outcome hmem
    -- What was recorded is the deadline's `TimeoutError`.
    obtain ⟨k, ending, escaping, hending, rfl⟩ := ended_of_mem_recorded hrun hmem
    have hphase := hexpired (Nat.pair c k)
    change (s.inner.outer.phase (Nat.pair c k)).ending = some ending at hending
    generalize s.inner.outer.phase (Nat.pair c k) = phase at hphase hending
    cases phase with
    | finished left =>
      cases hending
      rw [hphase left rfl]
      rfl
    | _ => cases hending
  · intro run s hrun hcancelled
    have hinner := inner_runs hrun
    apply circuit_of_foreign (outer_runs hinner)
    intro c outcome hmem
    obtain ⟨k, ending, escaping, hending, rfl⟩ := ended_of_mem_recorded hinner hmem
    exact outcomeOf_cancelled (hcancelled _ _ hending escaping)

end Deadline

/-- The deadline of a call expires behind a breaker that opens at the first failure. -/
def expiresInside :
    List (CallId × BothAction (layer firstFailureOpens fun _ => plainGet)
      ((AsyncTimeout.layer AsyncTimeout.second AsyncTimeout.standardKinds fun _ => plainGet).wrap
        terminal)) :=
  [(0, .outer .read), (0, .inner (.outer (.enter 0))), (0, .inner (.inner .send)),
    (0, .inner (.outer .expire)), (0, .inner (.inner (.answer (.raised (.other "CancelledError"))))),
    (0, .inner (.ret .networkError ⟨1, none⟩)), (0, .ret .networkError ⟨0, 0⟩)]

/-- Where the deadline of a call is, step by step. -/
def deadlinePhases : CallId → AsyncTimeout.CallPhase :=
  Function.update (Function.update (Function.update (fun _ => .idle) 0
    (.inNext ⟨AsyncTimeout.second, plainGet, 0, false, false⟩)) 0
    (.inNext ⟨AsyncTimeout.second, plainGet, 0, true, false⟩)) 0
    (.finished (.raised .timeoutError))

/-- It opens the circuit, so the breaker has recorded a failure. -/
theorem hanging_upstream_expired : ∃ run s,
    ((layer firstFailureOpens fun _ => plainGet).wrap
      ((AsyncTimeout.layer AsyncTimeout.second AsyncTimeout.standardKinds fun _ => plainGet).wrap
        terminal)).machine.Runs run s ∧
      1 ≤ (breakerRun run).countP fun x => x.1.2.finished.isSome := by
  obtain ⟨run, s, hrun, hs⟩ := Machine.exists_runs_of_exec
    ((layer firstFailureOpens fun _ => plainGet).wrap
      ((AsyncTimeout.layer AsyncTimeout.second AsyncTimeout.standardKinds fun _ => plainGet).wrap
        terminal)).machine
    (fun s => ((Both.outer s).circuit.state, (Both.outer (Both.inner s)).phase)) expiresInside
    (.OPEN, deadlinePhases) rfl
  obtain ⟨hstate, hphases⟩ := Prod.mk.inj hs
  have hexpired : ∀ c ending, (Both.outer (Both.inner s)).phase c = .finished ending →
      ending = .raised .timeoutError := by
    intro c ending hc
    rw [hphases, deadlinePhases] at hc
    rcases eq_or_ne c 0 with rfl | hne
    · rw [Function.update_self] at hc
      cases hc
      rfl
    · rw [Function.update_of_ne hne, Function.update_of_ne hne, Function.update_of_ne hne] at hc
      cases hc
  refine ⟨run, s, hrun, ?_⟩
  by_contra hnone
  have hthreshold : firstFailureOpens.failureThreshold = 1 := rfl
  have hclosed := (hanging_upstream.1 rfl run s hrun hexpired).mpr (by omega)
  rw [hstate] at hclosed
  cases hclosed

end Httpware.Composition
