import Httpware.Lib.BucketRing
import Httpware.Lib.Machine

/-!
# The retry budget

`RetryBudget` of `middleware/resilience/budget.py`: a token bucket whose deposits and granted
withdrawals are counted in ten buckets of `ttl / 10` each. The operations run under the budget's
lock, one after the other, but each reads the clock before it takes the lock, so the readings come
in any order. The clock's readings and the configuration are exact rationals.
-/

namespace Httpware

open Python (Number truncate)

/-- `_BUCKET_COUNT`. -/
def bucketCount : ℕ := 10

instance : NeZero bucketCount := ⟨by decide⟩

namespace RetryBudget

/-- The arguments of `RetryBudget`. -/
structure Options where
  ttl : Number := .finite 10
  minRetriesPerSec : Number := .finite 10
  percentCanRetry : Number := .finite (1 / 5)

/-- `_validate_budget_config`: the text of the `ValueError` that it raises. -/
def validateBudgetConfig (o : Options) : Except String Unit :=
  if ¬ (.finite 0 < o.ttl ∧ o.ttl.isFinite) then
    .error "ttl must be a finite number > 0"
  else if ¬ (.finite 0 ≤ o.minRetriesPerSec ∧ o.minRetriesPerSec.isFinite) then
    .error "min_retries_per_sec must be a finite number >= 0"
  else if ¬ (.finite 0 ≤ o.percentCanRetry ∧ o.percentCanRetry.isFinite) then
    .error "percent_can_retry must be a finite number >= 0"
  else .ok ()

/-- Arguments that the constructor accepts. -/
structure Config extends Options where
  accepted : validateBudgetConfig toOptions = .ok ()

/-- What the constructor checks. -/
theorem validateBudgetConfig_ok_iff (o : Options) :
    validateBudgetConfig o = .ok () ↔
      (.finite 0 < o.ttl ∧ o.ttl.isFinite) ∧
        (.finite 0 ≤ o.minRetriesPerSec ∧ o.minRetriesPerSec.isFinite) ∧
        (.finite 0 ≤ o.percentCanRetry ∧ o.percentCanRetry.isFinite) := by
  unfold validateBudgetConfig
  split_ifs with h1 h2 h3
  · exact iff_of_true rfl ⟨h1, h2, h3⟩
  · exact iff_of_false (by simp) fun h => h3 h.2.2
  · exact iff_of_false (by simp) fun h => h2 h.2.1
  · exact iff_of_false (by simp) fun h => h1 h.1

/-- The constructor accepts its own default arguments. -/
def defaultConfig : Config where
  accepted := by decide +kernel

namespace Config

variable (cfg : Config)

/-- `self._bucket_width`. -/
def bucketWidth : ℚ := cfg.ttl.toRat / bucketCount

/-- `self._floor`. -/
def floor : ℤ := truncate (cfg.minRetriesPerSec.toRat * cfg.ttl.toRat)

/-- `self._percent_can_retry`. -/
def percent : ℚ := cfg.percentCanRetry.toRat

/-- The slot that an operation presents: `self._now() // self._bucket_width`. -/
def slotOf (now : ℚ) : ℤ := ⌊now / cfg.bucketWidth⌋

/-- An accepted `ttl` is positive. -/
theorem ttl_pos : 0 < cfg.ttl.toRat := by
  obtain ⟨⟨hpos, hfin⟩, -, -⟩ := (validateBudgetConfig_ok_iff _).mp cfg.accepted
  rw [Number.eq_finite_toRat hfin] at hpos
  simpa using hpos

/-- An accepted percentage is not negative. -/
theorem percent_nonneg : 0 ≤ cfg.percent := by
  obtain ⟨-, -, hpos, hfin⟩ := (validateBudgetConfig_ok_iff _).mp cfg.accepted
  rw [Number.eq_finite_toRat hfin] at hpos
  simpa [percent] using hpos

/-- The floor is not negative. -/
theorem floor_nonneg : 0 ≤ cfg.floor := by
  obtain ⟨-, ⟨hpos, hfin⟩, -⟩ := (validateBudgetConfig_ok_iff _).mp cfg.accepted
  rw [Number.eq_finite_toRat hfin] at hpos
  have hmin : 0 ≤ cfg.minRetriesPerSec.toRat := by simpa using hpos
  exact Python.truncate_nonneg (mul_nonneg hmin cfg.ttl_pos.le)

/-- The buckets have a positive width. -/
theorem bucketWidth_pos : 0 < cfg.bucketWidth :=
  div_pos cfg.ttl_pos (by norm_num [bucketCount])

/-- The window is `ttl` long. -/
theorem ten_mul_bucketWidth : 10 * cfg.bucketWidth = cfg.ttl.toRat := by
  unfold bucketWidth
  norm_num [bucketCount]
  ring

end Config

end RetryBudget

/-- The mutable fields of a `RetryBudget`. `slot` is `none` for the initial minus infinity. -/
structure RetryBudget where
  slot : Option ℤ
  index : Fin bucketCount
  bucketDeposits : Fin bucketCount → ℤ
  bucketWithdrawn : Fin bucketCount → ℤ
  deposits : ℤ
  withdrawn : ℤ

namespace RetryBudget

/-- A new budget. -/
def init : RetryBudget where
  slot := none
  index := 0
  bucketDeposits := fun _ => 0
  bucketWithdrawn := fun _ => 0
  deposits := 0
  withdrawn := 0

/-- `slot > self._slot`. -/
def isLater (slot : ℤ) : Option ℤ → Bool
  | none => true
  | some prev => decide (prev < slot)

/-- The branch of `_rotate` for a window that is stale as a whole. -/
def clear (b : RetryBudget) : RetryBudget :=
  { b with
    bucketDeposits := fun _ => 0
    bucketWithdrawn := fun _ => 0
    deposits := 0
    withdrawn := 0 }

/-- The body of the loop of `_rotate`. -/
def dropStale (b : RetryBudget) (stale : ℤ) : RetryBudget :=
  let index := BucketRing.index bucketCount stale
  { b with
    deposits := b.deposits - b.bucketDeposits index
    withdrawn := b.withdrawn - b.bucketWithdrawn index
    bucketDeposits := Function.update b.bucketDeposits index 0
    bucketWithdrawn := Function.update b.bucketWithdrawn index 0 }

/-- `_rotate`: makes `current` the current bucket. -/
def rotate (b : RetryBudget) (current : ℤ) : RetryBudget :=
  let b' :=
    match b.slot with
    -- The slot is minus infinity, and so further behind than any window.
    | none => b.clear
    | some slot =>
      if current - slot ≥ bucketCount then b.clear
      else (Python.range (slot + 1) (current + 1)).foldl dropStale b
  { b' with slot := some current, index := BucketRing.index bucketCount current }

/-- The first step of both operations: `if slot > self._slot: self._rotate(slot)`. -/
def moveTo (b : RetryBudget) (slot : ℤ) : RetryBudget :=
  if isLater slot b.slot then b.rotate slot else b

/-- `deposit`, at the clock reading `now`. -/
def deposit (cfg : Config) (b : RetryBudget) (now : ℚ) : RetryBudget :=
  let b := b.moveTo (cfg.slotOf now)
  { b with
    bucketDeposits := Function.update b.bucketDeposits b.index (b.bucketDeposits b.index + 1)
    deposits := b.deposits + 1 }

/-- `try_withdraw`, at the clock reading `now`: whether the retry is permitted, and the budget
after. -/
def tryWithdraw (cfg : Config) (b : RetryBudget) (now : ℚ) : Bool × RetryBudget :=
  let b := b.moveTo (cfg.slotOf now)
  if b.withdrawn ≥ ⌈b.deposits * cfg.percent⌉ + cfg.floor then (false, b)
  else
    (true,
      { b with
        bucketWithdrawn := Function.update b.bucketWithdrawn b.index (b.bucketWithdrawn b.index + 1)
        withdrawn := b.withdrawn + 1 })

/-- The two operations of a budget. -/
inductive Op
  | deposit
  | tryWithdraw
deriving DecidableEq, Repr

/-- A budget as a machine: an operation with its clock reading gives the answer of `try_withdraw`,
and nothing for a deposit. -/
def machine (cfg : Config) : Machine RetryBudget (Op × ℚ) (Option Bool) where
  init := init
  step b
    | (.deposit, now) => some (none, b.deposit cfg now)
    | (.tryWithdraw, now) => some (some (b.tryWithdraw cfg now).1, (b.tryWithdraw cfg now).2)

end RetryBudget

end Httpware
