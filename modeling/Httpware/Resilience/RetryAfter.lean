import Httpware.Lib.IntLiteral
import Httpware.Resilience.Backoff

/-!
# An integer `Retry-After` of any length

What `_parse_retry_after` makes of an integer literal depends on its length: up to the digit limit of
`int()` it is the `float` nearest to the integer (`parseRetryAfter_of_short`), and past it the text is an
infinite wait without a sign (`parseRetryAfter_of_unsigned`), and nothing that the parser knows with one
(`parseRetryAfter_of_signed`). `Honours` says what the policy is to do with the integer, and
`honours_iff` for which literals it does.
-/

namespace Httpware

open Python (Number IntLiteral)

/-- The seconds that an integer `Retry-After` asks for: zero for a negative one, and an infinite wait
for one beyond the range of a `float`. -/
def integerSeconds (n : ℤ) : Number :=
  if n ≤ 0 then .finite 0 else if n < 2 ^ 1024 - 2 ^ 970 then .finite n else .posInf

/-- They are not negative. -/
theorem integerSeconds_nonneg (n : ℤ) : Number.finite 0 ≤ integerSeconds n := by
  unfold integerSeconds
  split_ifs with hneg hfloat
  · rw [Number.finite_le_finite]
  · rw [Number.finite_le_finite]
    exact_mod_cast (not_le.mp hneg).le
  · rfl

/-- The same seconds as a `float`, which has 53 significant bits. -/
def floatSeconds (n : ℤ) : Number :=
  if n ≤ 0 then .finite 0
  else if n < 2 ^ 1024 - 2 ^ 970 then .finite (Python.roundToFloat n.toNat) else .posInf

/-- Both are the same for an integer that is a `float`, and for one that is too large for any. -/
theorem floatSeconds_eq_iff (n : ℤ) : floatSeconds n = integerSeconds n ↔
    n ≤ 0 ∨ 2 ^ 1024 - 2 ^ 970 ≤ n ∨ Python.lastBit n.toNat ∣ n.toNat := by
  unfold floatSeconds integerSeconds
  generalize (2 : ℤ) ^ 1024 - 2 ^ 970 = bound
  split_ifs with hneg hfloat
  · exact iff_of_true rfl (.inl hneg)
  · have hn : (n.toNat : ℤ) = n := Int.toNat_of_nonneg (not_le.mp hneg).le
    rw [or_iff_right hneg, or_iff_right (not_le.mpr hfloat), ← Python.roundToFloat_eq_self_iff]
    constructor
    · intro h
      have hq : ((Python.roundToFloat n.toNat : ℕ) : ℚ) = (n : ℚ) := Number.finite.inj h
      have hz : ((Python.roundToFloat n.toNat : ℕ) : ℤ) = n := by exact_mod_cast hq
      omega
    · intro h
      rw [h]
      have hq : ((n.toNat : ℕ) : ℚ) = (n : ℚ) := by exact_mod_cast hn
      rw [hq]
  · exact iff_of_true rfl (.inr (.inl (not_lt.mp hfloat)))

/-! ## Parsing -/

/-- A date names its month, so a text without letters is none. -/
def HttpDate.NamesMonth (httpDate : HttpDate) : Prop :=
  ∀ value : String, (∀ c ∈ value.toList, c.isAlpha = false) → httpDate value = none

/-- `max(0.0, …)` of what is not negative. -/
theorem pyMax_zero_natCast (n : ℕ) : Number.pyMax (.finite 0) (.finite n) = .finite n := by
  unfold Number.pyMax
  rcases Nat.eq_zero_or_pos n with rfl | hpos
  · rw [Nat.cast_zero]
    split_ifs
    · rfl
    · rfl
  · rw [if_pos]
    rw [Number.finite_lt_finite]
    exact_mod_cast hpos

/-- A text that `int()` reads asks for the seconds of its integer, as a `float`. -/
theorem parseRetryAfter_of_int {httpDate : HttpDate} {value : String} {n : ℤ}
    (h : Python.intOfString value = .ok n) :
    parseRetryAfter httpDate value = some (floatSeconds n) := by
  unfold parseRetryAfter floatSeconds Python.floatOfInt
  rw [h]
  dsimp only
  generalize (2 : ℤ) ^ 1024 - 2 ^ 970 = bound
  by_cases hfloat : |n| < bound
  · rw [if_pos hfloat]
    rcases le_or_gt n 0 with hneg | hpos
    · have hsign : ((n.sign : ℤ) : ℚ) ≤ 0 := by exact_mod_cast Int.sign_nonpos_iff.mpr hneg
      have hnot : ¬ Number.finite 0 < Number.finite (n.sign * Python.roundToFloat n.natAbs) := by
        rw [Number.finite_lt_finite, not_lt]
        exact mul_nonpos_of_nonpos_of_nonneg hsign (Nat.cast_nonneg _)
      simp only [Number.pyMax, if_neg hnot, if_pos hneg]
    · have hbound : n < bound := (le_abs_self n).trans_lt hfloat
      have habs : n.natAbs = n.toNat := by omega
      have hmax := pyMax_zero_natCast (Python.roundToFloat n.toNat)
      rw [Int.sign_eq_one_of_pos hpos, habs, if_neg (not_le.mpr hpos), if_pos hbound, Int.cast_one,
        one_mul]
      exact congrArg some hmax
  · -- Beyond the range, the sign decides.
    rw [if_neg hfloat]
    rcases le_or_gt n 0 with hneg | hpos
    · simp only [if_pos hneg, gt_iff_lt, if_neg (not_lt.mpr hneg)]
    · rw [abs_of_pos hpos] at hfloat
      simp only [gt_iff_lt, if_pos hpos, if_neg (not_le.mpr hpos), if_neg hfloat]

section Literals

variable {httpDate : HttpDate} {l : IntLiteral}

/-- Up to the digit limit, a literal asks for the seconds of its integer, as a `float`. -/
theorem parseRetryAfter_of_short (h : l.digits.length ≤ Python.intMaxStrDigits) :
    parseRetryAfter httpDate l.text = some (floatSeconds l.value) := by
  apply parseRetryAfter_of_int
  rw [l.intOfString_text, if_neg (not_lt.mpr h)]

/-- Past it, one without a sign is an infinite wait, whatever its integer. -/
theorem parseRetryAfter_of_unsigned (h : Python.intMaxStrDigits < l.digits.length)
    (hsign : l.sign = .unsigned) : parseRetryAfter httpDate l.text = some .posInf := by
  have hint : Python.intOfString l.text = .error .valueError := by
    rw [l.intOfString_text, if_pos h]
  have hdigits : Python.isAsciiDigits l.text = true := by
    rw [l.isAsciiDigits_text, decide_eq_true_eq]
    exact hsign
  unfold parseRetryAfter
  rw [hint]
  exact if_pos hdigits

/-- A literal has no letters: they come after the digits. -/
theorem isAlpha_of_mem_text (l : IntLiteral) : ∀ c ∈ l.text.toList, c.isAlpha = false := by
  intro c hc
  have hlt := IntLiteral.toNat_lt_of_mem_text hc
  have hupper : ¬ 65 ≤ c.val := by
    rw [UInt32.le_iff_toNat_le, Char.toNat_val]
    exact not_le.mpr (hlt.trans (by decide))
  have hlower : ¬ 97 ≤ c.val := by
    rw [UInt32.le_iff_toNat_le, Char.toNat_val]
    exact not_le.mpr (hlt.trans (by decide))
  have hnotUpper : c.isUpper = false := by
    show decide (65 ≤ c.val ∧ c.val ≤ 90) = false
    exact decide_eq_false fun h => hupper h.1
  have hnotLower : c.isLower = false := by
    show (decide (97 ≤ c.val) && decide (c.val ≤ 122)) = false
    rw [decide_eq_false hlower, Bool.false_and]
  show (c.isUpper || c.isLower) = false
  rw [hnotUpper, hnotLower, Bool.false_or]

/-- And one with a sign is ignored. -/
theorem parseRetryAfter_of_signed (hdate : httpDate.NamesMonth)
    (h : Python.intMaxStrDigits < l.digits.length) (hsign : l.sign ≠ .unsigned) :
    parseRetryAfter httpDate l.text = none := by
  have hint : Python.intOfString l.text = .error .valueError := by
    rw [l.intOfString_text, if_pos h]
  have hdigits : ¬ Python.isAsciiDigits l.text = true := by
    rw [l.isAsciiDigits_text, decide_eq_true_eq]
    exact hsign
  unfold parseRetryAfter
  rw [hint]
  dsimp only
  rw [if_neg hdigits, hdate l.text (isAlpha_of_mem_text l), Option.map_none]

end Literals

/-! ## The decision -/

namespace RetryPolicy

/-- `decide` honours a `Retry-After` of these seconds after a failed attempt, whatever the budget, the
clock and the draw. -/
structure Honours (p : RetryPolicy) (httpDate : HttpDate) (request : Request) (attempt : ℕ)
    (exc : Exc) (seconds : Number) : Prop where
  /-- A wait of at most `max_delay` is slept exactly, if the budget grants. -/
  sleeps : seconds ≤ p.maxDelay → ∀ (cfg : RetryBudget.Config) (budget : RetryBudget) (now : ℚ)
    (draw : Draw), (budget.tryWithdraw cfg now).1 = true →
    (p.decide cfg httpDate budget now draw attempt request exc).decision = .sleep seconds
  /-- For a longer one the error is raised again, and the budget is not touched. -/
  givesUp : p.maxDelay < seconds → ∀ (cfg : RetryBudget.Config) (budget : RetryBudget) (now : ℚ)
    (draw : Draw), ∃ notes events,
    p.decide cfg httpDate budget now draw attempt request exc =
      { decision := .raise exc notes, events, withdrawal := none, budget }
  /-- The delay is never a jittered one. -/
  notJittered : p.retryAfterOf httpDate (statusResponse exc) ≠ none

/-- What the policy reads is the header. -/
theorem retryAfterOf_header {p : RetryPolicy} (httpDate : HttpDate)
    (hrespect : p.respectRetryAfter = true) (qualname : String) {response : Response}
    {header : String} (hheader : response.headers.get "Retry-After" = some header) :
    p.retryAfterOf httpDate (statusResponse (.statusError qualname response)) =
      parseRetryAfter httpDate header := by
  unfold retryAfterOf
  rw [if_pos hrespect]
  simp only [statusResponse, Option.bind_some, hheader]

/-- A policy that reads seconds out of the header honours others exactly if they are the same, or if it
gives up for both. -/
theorem honours_of_retryAfterOf {p : RetryPolicy} {httpDate : HttpDate} {request : Request}
    {attempt : ℕ} {exc : Exc} (hpasses : p.PassesRefusals request attempt exc)
    {seconds read : Number} (hseconds : Number.finite 0 ≤ seconds)
    (h : p.retryAfterOf httpDate (statusResponse exc) = some read) :
    p.Honours httpDate request attempt exc seconds ↔
      read = seconds ∨ (p.maxDelay < seconds ∧ p.maxDelay < read) := by
  constructor
  · intro hhonours
    by_cases hexceeds : p.maxDelay < seconds
    · -- It gives up, so what it reads exceeds too.
      refine .inr ⟨hexceeds, ?_⟩
      by_contra hread
      obtain ⟨notes, events, hgivesUp⟩ := hhonours.givesUp hexceeds RetryBudget.defaultConfig
        (RetryBudget.init.deposit RetryBudget.defaultConfig 0) 0 Draw.zero
      rw [decide_of_not_exceeds hpasses h hread] at hgivesUp
      have hdecision := congrArg Decided.decision hgivesUp
      rw [withdrawAndDelay_granted tryWithdraw_deposit] at hdecision
      cases hdecision
    · have hsleeps := hhonours.sleeps (le_maxDelay hseconds hexceeds) _ _ _ Draw.zero
        tryWithdraw_deposit
      by_cases hread : p.maxDelay < read
      · rw [decide_of_exceeds hpasses h hread] at hsleeps
        cases hsleeps
      · rw [decide_of_not_exceeds hpasses h hread, withdrawAndDelay_granted tryWithdraw_deposit]
          at hsleeps
        exact .inl (Decision.sleep.inj hsleeps)
  · intro hread
    refine ⟨fun hle cfg budget now draw hgrant => ?_, fun hlong cfg budget now draw => ?_, ?_⟩
    · obtain rfl := hread.resolve_right fun hboth => Number.not_lt_of_le hle hboth.1
      rw [decide_of_not_exceeds hpasses h (Number.not_lt_of_le hle), withdrawAndDelay_granted hgrant]
      rfl
    · have hexceeds : p.maxDelay < read := by
        rcases hread with rfl | hboth
        · exact hlong
        · exact hboth.2
      exact ⟨_, _, decide_of_exceeds hpasses h hexceeds⟩
    · rw [h]
      exact Option.some_ne_none read

/-- The policy honours an integer `Retry-After` exactly when `int()` reads it and the `float` nearest to it
is the integer itself or exceeds `max_delay` with it, or when it is too long for `int()`, has no sign and
asks for more than `max_delay`. -/
theorem honours_iff {p : RetryPolicy} {httpDate : HttpDate} (hdate : httpDate.NamesMonth)
    (hrespect : p.respectRetryAfter = true) {request : Request} {attempt : ℕ} {qualname : String}
    {response : Response} (hpasses : p.PassesRefusals request attempt (.statusError qualname response))
    {l : IntLiteral} (hheader : response.headers.get "Retry-After" = some l.text) :
    p.Honours httpDate request attempt (.statusError qualname response) (integerSeconds l.value) ↔
      (l.digits.length ≤ Python.intMaxStrDigits ∧
        (floatSeconds l.value = integerSeconds l.value ∨
          (p.maxDelay < integerSeconds l.value ∧ p.maxDelay < floatSeconds l.value))) ∨
        (Python.intMaxStrDigits < l.digits.length ∧ l.sign = .unsigned ∧
          p.maxDelay < integerSeconds l.value) := by
  have hread := retryAfterOf_header httpDate hrespect qualname hheader
  have hseconds := integerSeconds_nonneg l.value
  rcases le_or_gt l.digits.length Python.intMaxStrDigits with hshort | hlong
  · rw [parseRetryAfter_of_short hshort] at hread
    have hnotLong : ¬ (Python.intMaxStrDigits < l.digits.length ∧ l.sign = .unsigned ∧
        p.maxDelay < integerSeconds l.value) := fun hlong => not_lt.mpr hshort hlong.1
    rw [honours_of_retryAfterOf hpasses hseconds hread, or_iff_left hnotLong, and_iff_right hshort]
  rw [or_iff_right fun hshort => absurd hshort.1 (not_le.mpr hlong), and_iff_right hlong]
  by_cases hsign : l.sign = .unsigned
  · -- The wait is infinite, so the policy gives up.
    rw [parseRetryAfter_of_unsigned hlong hsign] at hread
    have hinfinite : p.maxDelay < .posInf := by
      obtain ⟨-, m, hmax, -⟩ := p.delays
      rw [hmax]
      exact Number.finite_lt_posInf m
    rw [honours_of_retryAfterOf hpasses hseconds hread, and_iff_right hsign, and_iff_left hinfinite]
    constructor
    · rintro (hsame | hexceeds)
      · rw [← hsame]
        exact hinfinite
      · exact hexceeds
    · exact .inr
  · -- The policy reads nothing, and the delay is a jittered one.
    rw [parseRetryAfter_of_signed hdate hlong hsign] at hread
    exact iff_of_false (fun hhonours => hhonours.notJittered hread) fun h => hsign h.1

/-- The 503 that asks to wait for ten seconds, under the default policy with a longer `max_delay`. -/
def patient : RetryPolicy where
  maxDelay := .finite 60
  accepted := by decide +kernel

/-- The literal of its header. -/
def tenSeconds : IntLiteral where
  before := []
  sign := .unsigned
  digits := ['1', '0']
  after := []
  before_space _ hc := absurd hc List.not_mem_nil
  digits_ne_nil := by decide
  digits_isDigit := List.all_eq_true.mp (by decide)
  after_space _ hc := absurd hc List.not_mem_nil

/-- It is slept for ten seconds. -/
theorem honours_iff_ten : patient.Honours (fun _ => none) plainGet 0
    (.statusError "ServiceUnavailableError" unavailable) (integerSeconds tenSeconds.value) := by
  have hpasses : patient.PassesRefusals plainGet 0
      (.statusError "ServiceUnavailableError" unavailable) :=
    ⟨by decide +kernel, rfl, by decide⟩
  have hheader : unavailable.headers.get "Retry-After" = some tenSeconds.text := by
    simp [unavailable, Headers.get, tenSeconds, IntLiteral.text, Python.IntSign.chars]
  exact (honours_iff (fun _ _ => rfl) rfl hpasses hheader).mpr
    (.inl ⟨by decide, .inl ((floatSeconds_eq_iff _).mpr (.inr (.inr (by decide +kernel))))⟩)

/-- A plus sign and 4301 nines. -/
def longSigned : IntLiteral where
  before := []
  sign := .plus
  digits := List.replicate 4301 '9'
  after := []
  before_space _ hc := absurd hc List.not_mem_nil
  digits_ne_nil h := by
    have hlength := congrArg List.length h
    rw [List.length_replicate] at hlength
    cases hlength
  digits_isDigit c hc := by
    rw [List.eq_of_mem_replicate hc]
    decide
  after_space _ hc := absurd hc List.not_mem_nil

/-- A 503 that asks to wait that long. -/
def endless : Response := { statusCode := 503, headers := [("Retry-After", longSigned.text)] }

/-- The integer after the last one that a `float` counts up to. -/
def unrounded : IntLiteral where
  before := []
  sign := .unsigned
  digits := ['9', '0', '0', '7', '1', '9', '9', '2', '5', '4', '7', '4', '0', '9', '9', '3']
  after := []
  before_space _ hc := absurd hc List.not_mem_nil
  digits_ne_nil := by decide
  digits_isDigit := List.all_eq_true.mp (by decide)
  after_space _ hc := absurd hc List.not_mem_nil

/-- A 503 that asks to wait for these seconds. -/
def ages : Response := { statusCode := 503, headers := [("Retry-After", unrounded.text)] }

/-- A policy that waits for one second less. -/
def ageless : RetryPolicy where
  maxDelay := .finite (2 ^ 53)
  accepted := by decide +kernel

/-- The default policy ignores the long header and retries after a jittered delay, and the last policy
sleeps one second less than it is asked to. -/
theorem longSigned_not_honoured :
    (RetryPolicy.default.retryAfterOf (fun _ => none)
        (statusResponse (.statusError "ServiceUnavailableError" endless)) = none ∧
      ¬ RetryPolicy.default.Honours (fun _ => none) plainGet 0
        (.statusError "ServiceUnavailableError" endless) (integerSeconds longSigned.value)) ∧
      ¬ ageless.Honours (fun _ => none) plainGet 0 (.statusError "ServiceUnavailableError" ages)
        (integerSeconds unrounded.value) := by
  have hheader : endless.headers.get "Retry-After" = some longSigned.text := by
    simp [endless, Headers.get]
  have hnone : RetryPolicy.default.retryAfterOf (fun _ => none)
      (statusResponse (.statusError "ServiceUnavailableError" endless)) = none := by
    rw [retryAfterOf_header (fun _ => none) rfl "ServiceUnavailableError" hheader]
    apply parseRetryAfter_of_signed (fun _ _ => rfl)
    · rw [longSigned, List.length_replicate]
      decide
    · exact Python.IntSign.noConfusion
  refine ⟨⟨hnone, fun hhonours => hhonours.notJittered hnone⟩, ?_⟩
  -- The `float` of the other header is the policy's `max_delay`.
  have hrounded : ages.headers.get "Retry-After" = some unrounded.text := by
    simp [ages, Headers.get, unrounded, IntLiteral.text, Python.IntSign.chars]
  have hread := retryAfterOf_header (p := ageless) (fun _ => none) rfl "ServiceUnavailableError" hrounded
  rw [parseRetryAfter_of_short (by decide)] at hread
  have hpasses : ageless.PassesRefusals plainGet 0 (.statusError "ServiceUnavailableError" ages) :=
    ⟨by decide +kernel, rfl, by decide⟩
  rw [honours_of_retryAfterOf hpasses (integerSeconds_nonneg _) hread]
  decide +kernel

end RetryPolicy

end Httpware
