import Httpware.Resilience.RetryLoop

/-!
# The backoff of every attempt

The docstring of `full_jitter_delay` gives the delay by a formula: a uniform draw between zero and
`min(max_delay, base_delay * 2.0 ** attempt_index)`. `formulaCeiling` is its upper end with the
product taken exactly. From attempt 1024 on the code takes `max_delay` in its place, which is the
same only where the product has reached `max_delay` by then (`jitterCeiling_eq_formula_iff`).
`BacksOff` says that a policy follows the formula in every run of its retry loop, and
`backsOff_iff` says which policies do.
-/

namespace Httpware

open Python (Number)

/-- The greatest draw. -/
def Draw.one : Draw where
  value := 1
  nonneg := Draw.zero.le_one
  le_one := le_rfl

namespace RetryPolicy

variable {p : RetryPolicy}

/-! ## The ceiling -/

/-- The upper end of the formula of `full_jitter_delay`, with an exact product. -/
def formulaCeiling (p : RetryPolicy) (attempt : ℕ) : Number :=
  Number.pyMin p.maxDelay (p.baseDelay.scale (2 ^ attempt))

/-- The product of the formula is a rational, or `base_delay` is infinite. -/
theorem product_cases (p : RetryPolicy) :
    (∃ base, 0 ≤ base ∧ p.baseDelay = .finite base ∧
      ∀ attempt, p.baseDelay.scale (2 ^ attempt) = .finite (base * 2 ^ attempt)) ∨
    (p.baseDelay = .posInf ∧ ∀ attempt, p.baseDelay.scale (2 ^ attempt) = .posInf) := by
  have hbase := p.delays.1
  cases hcases : p.baseDelay with
  | finite base =>
    rw [hcases, Number.finite_le_finite] at hbase
    exact .inl ⟨base, hbase, rfl, fun _ => rfl⟩
  | posInf => exact .inr ⟨rfl, fun _ => rfl⟩
  | nan | negInf =>
    rw [hcases] at hbase
    cases hbase

/-- `min` of two rationals. -/
theorem pyMin_finite (a b : ℚ) : Number.pyMin (.finite a) (.finite b) = .finite (min a b) := by
  unfold Number.pyMin
  split_ifs with h
  · rw [Number.finite_lt_finite] at h
    rw [min_eq_right h.le]
  · rw [Number.finite_lt_finite, not_lt] at h
    rw [min_eq_left h]

/-- `min` of a rational and plus infinity. -/
theorem pyMin_posInf (a : ℚ) : Number.pyMin (.finite a) .posInf = .finite a :=
  if_neg (Number.not_posInf_lt _)

/-- The whole of a number. -/
theorem scale_one (x : Number) : x.scale 1 = x := by
  cases x with
  | finite q => exact congrArg Number.finite (mul_one q)
  | nan | negInf | posInf => rfl

/-- The code's ceiling is the formula's up to attempt 1023, and from there on exactly where the
product reaches `max_delay`. -/
theorem jitterCeiling_eq_formula_iff (p : RetryPolicy) (attempt : ℕ) :
    jitterCeiling attempt p.baseDelay p.maxDelay = p.formulaCeiling attempt ↔
      attempt < 1024 ∨ p.maxDelay ≤ p.baseDelay.scale (2 ^ attempt) := by
  obtain ⟨-, m, hmax, -⟩ := p.delays
  unfold jitterCeiling formulaCeiling
  rw [hmax]
  by_cases hindex : attempt < 1024
  · rw [if_pos hindex]
    exact iff_of_true rfl (.inl hindex)
  · -- The power overflows: the ceiling is `max_delay`.
    rw [if_neg hindex, or_iff_right hindex]
    obtain ⟨base, -, -, hproduct⟩ | ⟨-, hproduct⟩ := p.product_cases
    · rw [hproduct, pyMin_finite, Number.finite_le_finite, Number.finite.injEq]
      exact left_eq_inf
    · rw [hproduct, pyMin_posInf]
      exact iff_of_true rfl rfl

/-- The code's ceilings do not fall from one attempt to a later one. -/
theorem jitterCeiling_mono (p : RetryPolicy) {m n : ℕ} (h : m ≤ n) :
    jitterCeiling m p.baseDelay p.maxDelay ≤ jitterCeiling n p.baseDelay p.maxDelay := by
  obtain ⟨hbase, limit, hmax, hlimit⟩ := p.delays
  by_cases hn : n < 1024
  · -- Both are the formula's, whose product grows.
    have hm : m < 1024 := h.trans_lt hn
    unfold jitterCeiling
    rw [if_pos hm, if_pos hn, hmax]
    obtain ⟨base, hnonneg, -, hproduct⟩ | ⟨-, hproduct⟩ := p.product_cases
    · rw [hproduct, hproduct, pyMin_finite, pyMin_finite, Number.finite_le_finite]
      have hpow : (2 : ℚ) ^ m ≤ 2 ^ n := pow_le_pow_right₀ one_le_two h
      exact min_le_min_left limit (mul_le_mul_of_nonneg_left hpow hnonneg)
    · rw [hproduct, hproduct, pyMin_posInf, Number.finite_le_finite]
  · -- The later one is `max_delay`.
    have hlater : jitterCeiling n p.baseDelay p.maxDelay = .finite limit := by
      rw [jitterCeiling, if_neg hn, hmax]
    obtain ⟨ceiling, hceiling, -, hle⟩ := jitterCeiling_bounds hbase hlimit m
    rw [hlater, hmax, hceiling, Number.finite_le_finite]
    exact hle

/-- Where the product reaches `max_delay`, it does so at every later attempt. -/
theorem maxDelay_le_product_mono {m n : ℕ} (h : m ≤ n)
    (hm : p.maxDelay ≤ p.baseDelay.scale (2 ^ m)) : p.maxDelay ≤ p.baseDelay.scale (2 ^ n) := by
  obtain ⟨base, hnonneg, -, hproduct⟩ | ⟨-, hproduct⟩ := p.product_cases
  · obtain ⟨-, limit, hmax, -⟩ := p.delays
    rw [hmax, hproduct, Number.finite_le_finite] at hm ⊢
    have hpow : (2 : ℚ) ^ m ≤ 2 ^ n := pow_le_pow_right₀ one_le_two h
    exact hm.trans (mul_le_mul_of_nonneg_left hpow hnonneg)
  · rw [hproduct] at hm ⊢
    exact hm

/-! ## The sleeps of a run -/

section Runs

variable {cfg : RetryBudget.Config} {httpDate : HttpDate} {request : Request}

/-- A run of the retry loop decides to sleep after the attempt number `attempt`, and no usable
`Retry-After` sets the delay. -/
def Jitters (cfg : RetryBudget.Config) (httpDate : HttpDate) (p : RetryPolicy)
    (request : Request) (attempt : ℕ) (draw : Draw) (delay : Number) : Prop :=
  ∃ run t exc budget now o t', (retryLoop cfg httpDate p request).Runs run t ∧
    t.phase = .deciding attempt exc ∧ p.retryAfterOf httpDate (statusResponse exc) = none ∧
    (retryLoop cfg httpDate p request).step t (budget, .decide now draw) = some (o, t') ∧
    t'.phase = .sleeping attempt delay

/-- A policy follows the formula of its backoff: in every run of its retry loop, against any budget
and for any request, a jittered delay is the drawn share of the formula's ceiling; so the ceilings do
not fall, and a `base_delay` of zero never sleeps. -/
structure BacksOff (p : RetryPolicy) : Prop where
  formula : ∀ {cfg httpDate request attempt draw delay},
    p.Jitters cfg httpDate request attempt draw delay →
      delay = (p.formulaCeiling attempt).scale draw.value
  mono : ∀ {m n : ℕ}, m ≤ n →
    jitterCeiling m p.baseDelay p.maxDelay ≤ jitterCeiling n p.baseDelay p.maxDelay
  zero : p.baseDelay = .finite 0 → ∀ {cfg httpDate request attempt draw delay},
    p.Jitters cfg httpDate request attempt draw delay → delay = .finite 0

/-- A jittered sleep is the drawn share of the code's ceiling, after an eligible request and with
attempts left. -/
theorem Jitters.delay_eq {attempt : ℕ} {draw : Draw} {delay : Number}
    (h : p.Jitters cfg httpDate request attempt draw delay) :
    delay = fullJitterDelay attempt p.baseDelay p.maxDelay draw ∧
      p.methodEligible request = true ∧ (attempt : ℤ) + 1 < p.maxAttempts := by
  obtain ⟨run, t, exc, budget, now, o, t', hrun, hphase, hnone, hstep, hsleep⟩ := h
  have hclass : exc.isRetryableClass = true := by
    have hlogged := logged_of_runs hrun
    rw [hphase] at hlogged
    exact hlogged.1
  -- The step is the decision, and it sleeps.
  have hd : (p.decide cfg httpDate budget now draw attempt request exc).decision.after attempt =
      .sleeping attempt delay := by
    obtain ⟨hcall, -⟩ := retryLoop_step hstep
    rw [hphase] at hcall
    exact (congrArg (fun r => r.2.2) (Option.some.inj hcall)).trans hsleep
  have hcases := p.decide_cases cfg httpDate budget now draw attempt request hclass
  rcases hcases with ⟨-, -, notes, hraise⟩ | ⟨hmay, -⟩
  · rw [hraise] at hd
    cases hd
  · have hpasses := hmay.passesRefusals hclass
    refine ⟨?_, hmay.eligible, hmay.attemptsLeft⟩
    rw [decide_of_none hpasses hnone] at hd
    cases hgrant : (budget.tryWithdraw cfg now).1 with
    | false =>
      rw [withdrawAndDelay_refused hgrant] at hd
      cases hd
    | true =>
      rw [withdrawAndDelay_granted hgrant] at hd
      exact (RetryPhase.sleeping.inj hd).2.symm

/-- A step of a call is a step of the loop. -/
theorem retryLoop_of_step {t : RetryTrace} {budget budget' : RetryBudget} {action : RetryAction}
    {o : RetryOutput} {phase : RetryPhase}
    (h : retryStep cfg httpDate p request budget t.phase action = some (o, budget', phase)) :
    (retryLoop cfg httpDate p request).step t (budget, action) =
      some ((o, budget'), ⟨t.log ++ action.entries o phase, phase⟩) := by
  simp [retryLoop, h]

/-- From the head of the loop, an attempt that ends with a network error leads to the decision. -/
theorem exists_run_of_ready {attempt : ℕ} {t : RetryTrace} (budget : RetryBudget)
    (hleft : (attempt : ℤ) < p.maxAttempts) (hphase : t.phase = .ready attempt)
    (hreached : ∃ run, (retryLoop cfg httpDate p request).Runs run t) :
    ∃ run t', (retryLoop cfg httpDate p request).Runs run t' ∧
      t'.phase = .deciding attempt .networkError := by
  obtain ⟨run, hrun⟩ := hreached
  have hforward : retryStep cfg httpDate p request budget t.phase .forward =
      some (.forwarded, budget, .attempting attempt) := by
    rw [hphase]
    exact if_pos hleft
  have hattempting := hrun.snoc (retryLoop_of_step hforward)
  have hfinish : retryStep cfg httpDate p request budget (.attempting attempt)
      (.finish (.raised .networkError)) =
        some (.silent, budget, .deciding attempt .networkError) := rfl
  exact ⟨_, _, hattempting.snoc (retryLoop_of_step hfinish), rfl⟩

/-- A network error has no `Retry-After`. -/
theorem retryAfterOf_networkError (p : RetryPolicy) (httpDate : HttpDate) :
    p.retryAfterOf httpDate (statusResponse .networkError) = none := by
  unfold retryAfterOf
  split_ifs <;> rfl

section Granted

variable (httpDate) {budget : RetryBudget} {now : ℚ} (hgrant : (budget.tryWithdraw cfg now).1 = true)
  (heligible : p.methodEligible request = true)
  (hstream : request.extensions.lookup streamingBodyMarker = none)
include hgrant heligible hstream

/-- After a network error, and with a budget that grants, the loop sleeps for a jittered delay. -/
theorem decide_networkError {attempt : ℕ} (hleft : (attempt : ℤ) + 1 < p.maxAttempts) (draw : Draw) :
    (p.decide cfg httpDate budget now draw attempt request .networkError).decision =
      .sleep (fullJitterDelay attempt p.baseDelay p.maxDelay draw) := by
  have hnone := p.retryAfterOf_networkError httpDate
  have hpasses : p.PassesRefusals request attempt .networkError :=
    ⟨heligible, by rw [hstream]; rfl, hleft⟩
  rw [decide_of_none hpasses hnone, withdrawAndDelay_granted hgrant]
  rfl

/-- The step of that decision. -/
theorem retryStep_networkError {attempt : ℕ} (hleft : (attempt : ℤ) + 1 < p.maxAttempts)
    (draw : Draw) :
    ∃ o budget', retryStep cfg httpDate p request budget (.deciding attempt .networkError)
      (.decide now draw) = some (o, budget',
        .sleeping attempt (fullJitterDelay attempt p.baseDelay p.maxDelay draw)) := by
  have hd := decide_networkError httpDate hgrant heligible hstream hleft draw
  generalize hdecided : p.decide cfg httpDate budget now draw attempt request .networkError = d at hd
  refine ⟨.decided now d.withdrawal d.events, d.budget, ?_⟩
  simp only [retryStep, hdecided, hd]

/-- Network errors lead the retry loop to every attempt that the policy allows, while the budget
grants. -/
theorem exists_run_deciding (draw : Draw) (attempt : ℕ)
    (hattempt : (attempt : ℤ) < p.maxAttempts) :
    ∃ run t, (retryLoop cfg httpDate p request).Runs run t ∧
      t.phase = .deciding attempt .networkError := by
  induction attempt with
  | zero =>
    have hstart : retryStep cfg httpDate p request budget .idle (.start now) =
        some (.started now, budget.deposit cfg now, .ready 0) := rfl
    exact exists_run_of_ready budget hattempt rfl ⟨_, .single (retryLoop_of_step hstart)⟩
  | succ attempt ih =>
    have hleft : (attempt : ℤ) + 1 < p.maxAttempts := by exact_mod_cast hattempt
    obtain ⟨run, t, hrun, hphase⟩ := ih (by omega)
    -- The failed attempt is retried, and its sleep leads to the next one.
    obtain ⟨o, budget', hdecide⟩ := retryStep_networkError httpDate hgrant heligible
      hstream hleft draw
    rw [← hphase] at hdecide
    have hslept := hrun.snoc (retryLoop_of_step hdecide)
    have hwake : retryStep cfg httpDate p request budget
        (.sleeping attempt (fullJitterDelay attempt p.baseDelay p.maxDelay draw)) .wake =
          some (.silent, budget, .ready (attempt + 1)) := rfl
    exact exists_run_of_ready budget hattempt rfl ⟨_, hslept.snoc (retryLoop_of_step hwake)⟩

/-- So it sleeps for a jittered delay after every attempt but the last. -/
theorem exists_jitters {attempt : ℕ} (hleft : (attempt : ℤ) + 1 < p.maxAttempts) (draw : Draw) :
    p.Jitters cfg httpDate request attempt draw
      (fullJitterDelay attempt p.baseDelay p.maxDelay draw) := by
  obtain ⟨run, t, hrun, hphase⟩ := exists_run_deciding httpDate hgrant heligible
    hstream draw attempt (by omega)
  obtain ⟨o, budget', hdecide⟩ := retryStep_networkError httpDate hgrant heligible
    hstream hleft draw
  rw [← hphase] at hdecide
  exact ⟨run, t, .networkError, budget, now, _, _, hrun, hphase, p.retryAfterOf_networkError httpDate,
    retryLoop_of_step hdecide, rfl⟩

end Granted

end Runs

/-! ## Which policies follow the formula -/

/-- A budget with one deposit grants a withdrawal. -/
theorem tryWithdraw_deposit :
    ((RetryBudget.init.deposit RetryBudget.defaultConfig 0).tryWithdraw
      RetryBudget.defaultConfig 0).1 = true := by decide +kernel

/-- A policy follows the formula of its backoff exactly when it retries nothing, when it never comes
to attempt 1024, or when the product has reached `max_delay` there. -/
theorem backsOff_iff (p : RetryPolicy) :
    p.BacksOff ↔ p.retryMethods = [] ∨ p.maxAttempts ≤ 1025 ∨
      p.maxDelay ≤ p.baseDelay.scale (2 ^ 1024) := by
  constructor
  · intro hback
    by_contra! hcond
    obtain ⟨hmethods, hattempts, hdelay⟩ := hcond
    obtain ⟨method, methods, hmethods⟩ := List.exists_cons_of_ne_nil hmethods
    -- A request of the policy's first method comes to attempt 1024.
    let request : Request := { plainGet with method := method.toUpper }
    have heligible : p.methodEligible request = true := by
      unfold methodEligible
      rw [hmethods, List.map_cons, List.contains_cons, beq_self_eq_true, Bool.true_or]
    have hjitters : p.Jitters RetryBudget.defaultConfig (fun _ => none) request 1024 Draw.one _ :=
      exists_jitters _ tryWithdraw_deposit heligible rfl (by omega) Draw.one
    have hformula := hback.formula hjitters
    unfold fullJitterDelay at hformula
    rw [Draw.one, scale_one, scale_one, jitterCeiling_eq_formula_iff] at hformula
    exact hformula.elim (lt_irrefl _) hdelay
  · intro hcond
    have hformula : ∀ {cfg httpDate request attempt draw delay},
        p.Jitters cfg httpDate request attempt draw delay →
          delay = (p.formulaCeiling attempt).scale draw.value := by
      intro cfg httpDate request attempt draw delay h
      obtain ⟨hdelay, heligible, hleft⟩ := h.delay_eq
      have hceiling : jitterCeiling attempt p.baseDelay p.maxDelay = p.formulaCeiling attempt := by
        rw [jitterCeiling_eq_formula_iff]
        rcases hcond with hnone | hfew | hproduct
        · rw [methodEligible, hnone] at heligible
          cases heligible
        · exact .inl (by omega)
        · exact (lt_or_ge attempt 1024).imp_right (maxDelay_le_product_mono · hproduct)
      rw [hdelay, fullJitterDelay, hceiling]
    refine ⟨hformula, p.jitterCeiling_mono, fun hzero cfg httpDate request attempt draw delay h => ?_⟩
    -- The formula's ceiling is `min(max_delay, 0)`.
    obtain ⟨-, m, hmax, hm⟩ := p.delays
    have hceiling : p.formulaCeiling attempt = .finite 0 := by
      rw [formulaCeiling, hzero, hmax, Number.scale, zero_mul, pyMin_finite, min_eq_right hm]
    rw [hformula h, hceiling, Number.scale, zero_mul]

/-- A policy that is to retry at once. -/
def atOnce : RetryPolicy where
  maxAttempts := 1026
  baseDelay := .finite 0
  accepted := by decide +kernel

/-- It sleeps for five seconds after attempt 1024. -/
theorem atOnce_sleeps :
    ¬ atOnce.BacksOff ∧ atOnce.baseDelay = .finite 0 ∧
      atOnce.Jitters RetryBudget.defaultConfig (fun _ => none) plainGet 1024 Draw.one
        (.finite 5) := by
  have heligible : atOnce.methodEligible plainGet = true := by decide +kernel
  have hdelay : fullJitterDelay 1024 atOnce.baseDelay atOnce.maxDelay Draw.one = .finite 5 := by
    decide +kernel
  have hjitters : atOnce.Jitters RetryBudget.defaultConfig (fun _ => none) plainGet 1024 Draw.one _ :=
    exists_jitters _ tryWithdraw_deposit heligible rfl (by decide) Draw.one
  rw [hdelay] at hjitters
  refine ⟨fun hback => ?_, rfl, hjitters⟩
  have hzero := hback.zero rfl hjitters
  cases hzero

end RetryPolicy

end Httpware
