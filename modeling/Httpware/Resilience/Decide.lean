import Mathlib.Tactic.Positivity
import Httpware.Resilience.Retry

/-!
# What `decide` does after a failed attempt

`MayWithdraw` says after which failures `decide` asks the budget, in the words of the policy, and
`decide_cases` says what it does then and otherwise. The delays come first: neither a parsed
`Retry-After` nor a jittered delay is negative, and no sleep is longer than `max_delay`.
-/

namespace Httpware

open Python (Number)

namespace RetryPolicy

/-- The numbers of an accepted policy. -/
theorem delays (p : RetryPolicy) :
    Number.finite 0 ≤ p.baseDelay ∧ ∃ m, p.maxDelay = .finite m ∧ 0 ≤ m := by
  have h := p.accepted
  unfold validateRetryConfig at h
  split_ifs at h with h1 h2 h3
  obtain ⟨hnonneg, hfinite⟩ := h3
  have hm := Number.eq_finite_toRat hfinite
  rw [hm, Number.finite_le_finite] at hnonneg
  exact ⟨h2, _, hm, hnonneg⟩

/-- The ceiling of the jitter lies between zero and `max_delay`. -/
theorem jitterCeiling_bounds {base : Number} (hbase : Number.finite 0 ≤ base) {m : ℚ}
    (hm : 0 ≤ m) (attemptIndex : ℕ) :
    ∃ ceiling, jitterCeiling attemptIndex base (.finite m) = .finite ceiling ∧ 0 ≤ ceiling ∧
      ceiling ≤ m := by
  unfold jitterCeiling
  split_ifs with hindex
  · unfold Number.pyMin
    split_ifs with hlt
    · -- The product is the smaller one, so it is finite, like `base`.
      cases base with
      | finite b =>
        rw [Number.finite_le_finite] at hbase
        simp only [Number.scale, Number.finite_lt_finite] at hlt ⊢
        exact ⟨_, rfl, by positivity, hlt.le⟩
      | nan | negInf => cases hbase
      | posInf => exact absurd hlt (Number.not_posInf_lt _)
    · exact ⟨m, rfl, hm, le_rfl⟩
  · exact ⟨m, rfl, hm, le_rfl⟩

/-- A jittered delay lies between zero and `max_delay`. -/
theorem fullJitterDelay_bounds (p : RetryPolicy) (attempt : ℕ) (draw : Draw) :
    Number.finite 0 ≤ fullJitterDelay attempt p.baseDelay p.maxDelay draw ∧
      fullJitterDelay attempt p.baseDelay p.maxDelay draw ≤ p.maxDelay := by
  obtain ⟨hbase, m, hmax, hm⟩ := p.delays
  obtain ⟨ceiling, hceiling, hnonneg, hle⟩ := jitterCeiling_bounds hbase hm attempt
  unfold fullJitterDelay
  rw [hmax, hceiling]
  simp only [Number.scale, Number.finite_le_finite]
  constructor
  · exact mul_nonneg hnonneg draw.nonneg
  · calc ceiling * draw.value ≤ ceiling * 1 := by gcongr; exact draw.le_one
      _ = ceiling := mul_one _
      _ ≤ m := hle

/-- A parsed `Retry-After` is not negative. -/
theorem parseRetryAfter_nonneg {httpDate : HttpDate} {value : String} {seconds : Number}
    (h : parseRetryAfter httpDate value = some seconds) : Number.finite 0 ≤ seconds := by
  have hzero : Number.finite 0 ≤ Number.finite 0 := by simp
  have hmax : ∀ q, Number.finite 0 ≤ Number.pyMax (.finite 0) (.finite q) := by
    intro q
    unfold Number.pyMax
    split_ifs with hlt
    · rw [Number.finite_lt_finite] at hlt
      rw [Number.finite_le_finite]
      exact hlt.le
    · exact hzero
  -- Each branch ends in `max(0.0, …)`, in plus infinity or in zero.
  unfold parseRetryAfter at h
  split at h
  · split_ifs at h
    · obtain rfl := Option.some.inj h
      rfl
    · obtain ⟨delta, -, rfl⟩ := Option.map_eq_some_iff.mp h
      exact hmax delta
  · next n _ =>
    split at h
    · next x hx =>
      obtain rfl := Option.some.inj h
      unfold Python.floatOfInt at hx
      split_ifs at hx
      obtain rfl := Except.ok.inj hx
      exact hmax _
    · obtain rfl := Option.some.inj h
      split_ifs
      · rfl
      · exact hzero

/-- After this failure, on attempt number `attempt`, `decide` asks the budget. -/
structure MayWithdraw (p : RetryPolicy) (httpDate : HttpDate) (request : Request) (attempt : ℕ)
    (exc : Exc) : Prop where
  /-- The outcome is retryable. -/
  retryable : exc = .networkError ∨ exc = .timeoutError ∨
    ∃ qualname response, exc = .statusError qualname response ∧
      response.statusCode ∈ p.retryStatusCodes
  /-- The method is eligible. -/
  eligible : p.methodEligible request = true
  /-- The body is not a stream. -/
  notStreaming : request.extensions.lookup streamingBodyMarker ≠ some true
  /-- Attempts are left. -/
  attemptsLeft : (attempt : ℤ) + 1 < p.maxAttempts
  /-- A `Retry-After` that the policy respects is not above `max_delay`. -/
  retryAfter : p.respectRetryAfter = true → ∀ qualname response value seconds,
    exc = .statusError qualname response → response.headers.get "Retry-After" = some value →
      parseRetryAfter httpDate value = some seconds → ¬ p.maxDelay < seconds

/-- An outcome that the loop catches and that the policy retries. -/
theorem isRetryable_iff {p : RetryPolicy} {request : Request} {exc : Exc}
    (hclass : exc.isRetryableClass = true) :
    p.isRetryable request exc = true ↔ p.methodEligible request = true ∧
      (exc = .networkError ∨ exc = .timeoutError ∨
        ∃ qualname response, exc = .statusError qualname response ∧
          response.statusCode ∈ p.retryStatusCodes) := by
  cases exc with
  | statusError qualname response => simp [isRetryable, statusResponse]
  | networkError => simp [isRetryable, statusResponse]
  | timeoutError => simp [isRetryable, statusResponse]
  | _ => cases hclass

/-- The `Retry-After` that the policy respects. -/
theorem retryAfterOf_eq_some_iff {p : RetryPolicy} {httpDate : HttpDate} {exc : Exc}
    {seconds : Number} :
    p.retryAfterOf httpDate (statusResponse exc) = some seconds ↔
      p.respectRetryAfter = true ∧ ∃ qualname response value,
        exc = .statusError qualname response ∧ response.headers.get "Retry-After" = some value ∧
          parseRetryAfter httpDate value = some seconds := by
  unfold retryAfterOf
  split_ifs with hrespect
  · cases exc with
    | statusError qualname response => simp [statusResponse, hrespect, Option.bind_eq_some_iff]
    | _ => simp [statusResponse]
  · simp [hrespect]

/-- The tests of `decide` before it asks the budget. -/
theorem mayWithdraw_iff {p : RetryPolicy} {httpDate : HttpDate} {request : Request} {attempt : ℕ}
    {exc : Exc} (hclass : exc.isRetryableClass = true) :
    p.MayWithdraw httpDate request attempt exc ↔
      p.isRetryable request exc = true ∧
        (request.extensions.lookup streamingBodyMarker).getD false = false ∧
        (attempt : ℤ) + 1 < p.maxAttempts ∧
        ∀ seconds, p.retryAfterOf httpDate (statusResponse exc) = some seconds →
          ¬ p.maxDelay < seconds := by
  have hstream : (request.extensions.lookup streamingBodyMarker).getD false = false ↔
      request.extensions.lookup streamingBodyMarker ≠ some true := by
    cases request.extensions.lookup streamingBodyMarker <;> simp
  rw [isRetryable_iff hclass, hstream]
  constructor
  · intro h
    refine ⟨⟨h.eligible, h.retryable⟩, h.notStreaming, h.attemptsLeft, fun seconds hseconds => ?_⟩
    obtain ⟨hrespect, qualname, response, value, hexc, hvalue, hparse⟩ :=
      retryAfterOf_eq_some_iff.mp hseconds
    exact h.retryAfter hrespect qualname response value seconds hexc hvalue hparse
  · intro ⟨⟨heligible, hretryable⟩, hstreaming, hleft, hafter⟩
    refine ⟨hretryable, heligible, hstreaming, hleft, ?_⟩
    intro hrespect qualname response value seconds hexc hvalue hparse
    exact hafter seconds
      (retryAfterOf_eq_some_iff.mpr ⟨hrespect, qualname, response, value, hexc, hvalue, hparse⟩)

/-- A refused withdrawal gives up with the exception and the response of this attempt, and a granted
one sleeps no longer than `max_delay`. -/
theorem withdrawAndDelay_cases (p : RetryPolicy) (cfg : RetryBudget.Config) (budget : RetryBudget)
    (now : ℚ) (draw : Draw) (attempt : ℕ) (request : Request) (exc : Exc)
    (lastResponse : Option Response) {retryAfter : Option Number}
    (hafter : ∀ seconds ∈ retryAfter, Number.finite 0 ≤ seconds ∧ seconds ≤ p.maxDelay) :
    let d := p.withdrawAndDelay cfg budget now draw attempt request exc lastResponse retryAfter
    (d.withdrawal = some false ∧
        d.decision = .raise (.retryBudgetExhausted lastResponse (some exc) (attempt + 1)) []) ∨
      (d.withdrawal = some true ∧
        ∃ delay, d.decision = .sleep delay ∧ Number.finite 0 ≤ delay ∧ delay ≤ p.maxDelay) := by
  unfold withdrawAndDelay
  obtain ⟨granted, budget'⟩ := budget.tryWithdraw cfg now
  cases granted with
  | false => exact .inl ⟨rfl, rfl⟩
  | true =>
    refine .inr ⟨rfl, _, rfl, ?_⟩
    cases retryAfter with
    | none => exact p.fullJitterDelay_bounds attempt draw
    | some seconds => exact hafter seconds rfl

/-- What is not above `max_delay` is at most `max_delay`. -/
theorem le_maxDelay {p : RetryPolicy} {seconds : Number} (hnonneg : Number.finite 0 ≤ seconds)
    (h : ¬ p.maxDelay < seconds) : seconds ≤ p.maxDelay := by
  obtain ⟨-, m, hmax, -⟩ := p.delays
  rw [hmax] at h ⊢
  cases seconds with
  | finite q =>
    rw [Number.finite_lt_finite, not_lt] at h
    rwa [Number.finite_le_finite]
  | nan | negInf => cases hnonneg
  | posInf => exact absurd (Number.finite_lt_posInf m) h

/-- `decide` raises the exception that it was given without asking the budget, or it may ask the
budget and does. -/
theorem decide_cases (p : RetryPolicy) (cfg : RetryBudget.Config) (httpDate : HttpDate)
    (budget : RetryBudget) (now : ℚ) (draw : Draw) (attempt : ℕ) (request : Request) {exc : Exc}
    (hclass : exc.isRetryableClass = true) :
    let d := p.decide cfg httpDate budget now draw attempt request exc
    (¬ p.MayWithdraw httpDate request attempt exc ∧ d.withdrawal = none ∧
        ∃ notes, d.decision = .raise exc notes) ∨
      (p.MayWithdraw httpDate request attempt exc ∧
        ((d.withdrawal = some false ∧ d.decision =
            .raise (.retryBudgetExhausted (statusResponse exc) (some exc) (attempt + 1)) []) ∨
          (d.withdrawal = some true ∧
            ∃ delay, d.decision = .sleep delay ∧ Number.finite 0 ≤ delay ∧
              delay ≤ p.maxDelay))) := by
  intro d
  rw [mayWithdraw_iff hclass]
  simp only [d, decide]
  -- Each refusal fails one of the tests: the streamed body, the last attempt, a long `Retry-After`,
  -- and an outcome that is not retried.
  split_ifs with h1 h2 h3
  · exact .inl ⟨fun h => Bool.false_ne_true (h.2.1.symm.trans h2), rfl, _, rfl⟩
  · refine .inl ⟨fun h => ?_, rfl, _, rfl⟩
    have := h.2.2.1
    omega
  · have hstreaming := Bool.eq_false_iff.mpr h2
    have hleft : (attempt : ℤ) + 1 < p.maxAttempts := by omega
    split
    · next seconds hseconds =>
      split_ifs with hlong
      · exact .inl ⟨fun h => h.2.2.2 seconds hseconds hlong, rfl, _, rfl⟩
      · obtain ⟨-, -, -, value, -, -, hparse⟩ := retryAfterOf_eq_some_iff.mp hseconds
        have hnonneg := parseRetryAfter_nonneg hparse
        refine .inr ⟨⟨h1, hstreaming, hleft, fun s hs => ?_⟩, ?_⟩
        · rw [hseconds] at hs
          obtain rfl := Option.some.inj hs
          exact hlong
        · apply withdrawAndDelay_cases
          intro s hs
          rw [hseconds] at hs
          obtain rfl := Option.some.inj hs
          exact ⟨hnonneg, le_maxDelay hnonneg hlong⟩
    · next hnone =>
      refine .inr ⟨⟨h1, hstreaming, hleft, fun s hs => ?_⟩, ?_⟩
      · rw [hnone] at hs
        cases hs
      · exact withdrawAndDelay_cases p cfg budget now draw attempt request exc _ nofun
  · exact .inl ⟨fun h => h1 h.1, rfl, _, rfl⟩

/-- A failure that `decide` refuses for none of the reasons before it looks at the `Retry-After`. -/
structure PassesRefusals (p : RetryPolicy) (request : Request) (attempt : ℕ) (exc : Exc) : Prop where
  /-- The method and the outcome are retried. -/
  retryable : p.isRetryable request exc = true
  /-- The body is not a stream. -/
  notStreaming : (request.extensions.lookup streamingBodyMarker).getD false = false
  /-- Attempts are left. -/
  attemptsLeft : (attempt : ℤ) + 1 < p.maxAttempts

/-- `decide` asks the budget only after the refusals. -/
theorem MayWithdraw.passesRefusals {p : RetryPolicy} {httpDate : HttpDate} {request : Request}
    {attempt : ℕ} {exc : Exc} (hclass : exc.isRetryableClass = true)
    (h : p.MayWithdraw httpDate request attempt exc) : p.PassesRefusals request attempt exc := by
  obtain ⟨hretryable, hstreaming, hleft, -⟩ := (mayWithdraw_iff hclass).mp h
  exact ⟨hretryable, hstreaming, hleft⟩

section AfterRefusals

variable {p : RetryPolicy} {cfg : RetryBudget.Config} {httpDate : HttpDate} {budget : RetryBudget}
  {now : ℚ} {draw : Draw} {attempt : ℕ} {request : Request} {exc : Exc}

/-- Without a usable `Retry-After`, `decide` goes on to the budget. -/
theorem decide_of_none (h : p.PassesRefusals request attempt exc)
    (hnone : p.retryAfterOf httpDate (statusResponse exc) = none) :
    p.decide cfg httpDate budget now draw attempt request exc =
      p.withdrawAndDelay cfg budget now draw attempt request exc (statusResponse exc) none := by
  have hlast : ¬ (attempt : ℤ) + 1 ≥ p.maxAttempts := not_le.mpr h.attemptsLeft
  simp only [decide, hnone, h.retryable, h.notStreaming, not_true_eq_false, Bool.false_eq_true,
    if_false, if_neg hlast]

/-- So it does with a `Retry-After` that is not above `max_delay`. -/
theorem decide_of_not_exceeds (h : p.PassesRefusals request attempt exc) {seconds : Number}
    (hsome : p.retryAfterOf httpDate (statusResponse exc) = some seconds)
    (hle : ¬ p.maxDelay < seconds) :
    p.decide cfg httpDate budget now draw attempt request exc =
      p.withdrawAndDelay cfg budget now draw attempt request exc (statusResponse exc)
        (some seconds) := by
  have hlast : ¬ (attempt : ℤ) + 1 ≥ p.maxAttempts := not_le.mpr h.attemptsLeft
  simp only [decide, hsome, h.retryable, h.notStreaming, not_true_eq_false, Bool.false_eq_true,
    if_false, if_neg hlast, if_neg hle]

/-- With a longer one it raises the exception, and leaves the budget alone. -/
theorem decide_of_exceeds (h : p.PassesRefusals request attempt exc) {seconds : Number}
    (hsome : p.retryAfterOf httpDate (statusResponse exc) = some seconds)
    (hlong : p.maxDelay < seconds) :
    p.decide cfg httpDate budget now draw attempt request exc =
      { decision := .raise exc [.retryAfterExceedsMaxDelay seconds p.maxDelay]
        events := [retryAfterEvent attempt request exc (statusResponse exc) seconds p.maxDelay]
        withdrawal := none
        budget } := by
  have hlast : ¬ (attempt : ℤ) + 1 ≥ p.maxAttempts := not_le.mpr h.attemptsLeft
  simp only [decide, hsome, h.retryable, h.notStreaming, not_true_eq_false, Bool.false_eq_true,
    if_false, if_neg hlast, if_pos hlong]

/-- A granted withdrawal sleeps for the `Retry-After`, or for a jittered delay without one. -/
theorem withdrawAndDelay_granted (hgrant : (budget.tryWithdraw cfg now).1 = true)
    (lastResponse : Option Response) (retryAfter : Option Number) :
    (p.withdrawAndDelay cfg budget now draw attempt request exc lastResponse retryAfter).decision =
      .sleep (retryAfter.getD (fullJitterDelay attempt p.baseDelay p.maxDelay draw)) := by
  unfold withdrawAndDelay
  rcases hw : budget.tryWithdraw cfg now with ⟨granted, budget'⟩
  rw [hw] at hgrant
  obtain rfl : granted = true := hgrant
  rfl

/-- A refused one does not sleep. -/
theorem withdrawAndDelay_refused (hrefused : (budget.tryWithdraw cfg now).1 = false)
    (lastResponse : Option Response) (retryAfter : Option Number) :
    (p.withdrawAndDelay cfg budget now draw attempt request exc lastResponse retryAfter).decision =
      .raise (.retryBudgetExhausted lastResponse (some exc) (attempt + 1)) [] := by
  unfold withdrawAndDelay
  rcases hw : budget.tryWithdraw cfg now with ⟨granted, budget'⟩
  rw [hw] at hrefused
  obtain rfl : granted = false := hrefused
  rfl

end AfterRefusals

/-- Only exceptions that the loop catches are ever retried. -/
theorem MayWithdraw.isRetryableClass {p : RetryPolicy} {httpDate : HttpDate} {request : Request}
    {attempt : ℕ} {exc : Exc} (h : p.MayWithdraw httpDate request attempt exc) :
    exc.isRetryableClass = true := by
  rcases h.retryable with rfl | rfl | ⟨qualname, response, rfl, -⟩ <;> rfl

end RetryPolicy

end Httpware
