import Mathlib.Algebra.Order.Group.MinMax
import Httpware.Lib.BucketRing

/-!
# The rolling window of the failure-rate mode

`_RollingWindow` of `middleware/resilience/circuit_breaker.py`: successes and failures in ten
buckets of `window_seconds / 10` each, with running totals beside them. The width of a bucket is a
`Number`, so the arithmetic of `advance` can raise, and `advance_eq` is what it computes for a
finite width. `Counts` says that a window counts the last ten slots of a log of outcomes: its
totals and its failures are two rings over that log.
-/

namespace Httpware

open Python (Error Number)

/-- `_RollingWindow`. `slot` is `none` for the initial minus infinity. -/
structure RollingWindow where
  bucketWidth : Number
  slot : Option ℤ
  index : Fin 10
  success : Fin 10 → ℤ
  failure : Fin 10 → ℤ
  total : ℤ
  failures : ℤ

namespace RollingWindow

/-- `_BUCKET_COUNT`. -/
def bucketCount : ℕ := 10

/-- A new window. -/
def init (windowSeconds : Number) : RollingWindow where
  bucketWidth := windowSeconds.divNat bucketCount
  slot := none
  index := 0
  success := fun _ => 0
  failure := fun _ => 0
  total := 0
  failures := 0

/-- `clear`. -/
def clear (w : RollingWindow) : RollingWindow :=
  { w with
    success := fun _ => 0
    failure := fun _ => 0
    total := 0
    failures := 0 }

/-- The body of the loop of `_advance`. -/
def dropStale (w : RollingWindow) (stale : ℤ) : RollingWindow :=
  let index := BucketRing.index 10 stale
  { w with
    total := w.total - (w.success index + w.failure index)
    failures := w.failures - w.failure index
    success := Function.update w.success index 0
    failure := Function.update w.failure index 0 }

/-- The part of `_advance` after `int(slot)`: makes `current` the current bucket. -/
def rotate (w : RollingWindow) (current : ℤ) : RollingWindow :=
  let w' :=
    match w.slot with
    | none => w.clear
    | some slot =>
      if current - slot ≥ bucketCount then w.clear
      else (Python.range (slot + 1) (current + 1)).foldl dropStale w
  { w' with slot := some current, index := BucketRing.index 10 current }

/-- `self._slot` as a float. -/
def slotNumber : Option ℤ → Number
  | none => .negInf
  | some slot => .finite slot

/-- `_advance`. -/
def advance (w : RollingWindow) (now : ℚ) : Except Error RollingWindow := do
  let slot ← Python.floorDiv now w.bucketWidth
  if slot ≤ slotNumber w.slot then return w
  let current ← Python.toInt slot
  return w.rotate current

/-- The part of `record` after `_advance`. -/
def bump (w : RollingWindow) (failed : Bool) : RollingWindow :=
  if failed then
    { w with
      failure := Function.update w.failure w.index (w.failure w.index + 1)
      failures := w.failures + 1
      total := w.total + 1 }
  else
    { w with
      success := Function.update w.success w.index (w.success w.index + 1)
      total := w.total + 1 }

/-- `record`. -/
def record (w : RollingWindow) (now : ℚ) (failed : Bool) : Except Error RollingWindow := do
  let w ← w.advance now
  return w.bump failed

/-- `totals`: the total and the failures, with the window after. -/
def totals (w : RollingWindow) (now : ℚ) : Except Error ((ℤ × ℤ) × RollingWindow) := do
  let w ← w.advance now
  return ((w.total, w.failures), w)

/-! ## Finite widths -/

/-- The effective slot of a window that is presented `slot`. -/
def effectiveAt (effective : Option ℤ) (slot : ℤ) : ℤ :=
  match effective with
  | none => slot
  | some prev => max prev slot

/-- The window at the effective slot: rotated there, unless it stands there already. -/
def moveTo (w : RollingWindow) (slot : ℤ) : RollingWindow :=
  if w.slot = some (effectiveAt w.slot slot) then w else w.rotate (effectiveAt w.slot slot)

/-- With a finite width, `_advance` moves the window to the effective slot, and does not raise. -/
theorem advance_eq {w : RollingWindow} {width : ℚ} (hwidth : w.bucketWidth = .finite width)
    (hpos : 0 < width) (now : ℚ) : w.advance now = .ok (w.moveTo ⌊now / width⌋) := by
  unfold advance moveTo
  rw [hwidth, Python.floorDiv_finite now hpos.ne']
  simp only [bind, Except.bind]
  cases hslot : w.slot with
  | none =>
    have hlater : ¬ Number.finite (⌊now / width⌋ : ℤ) ≤ slotNumber none := Bool.false_ne_true
    rw [if_neg hlater]
    simp [effectiveAt, Python.toInt, pure, Except.pure]
  | some slot =>
    have hle : Number.finite (⌊now / width⌋ : ℤ) ≤ slotNumber (some slot) ↔ ⌊now / width⌋ ≤ slot := by
      simp [slotNumber]
    by_cases h : ⌊now / width⌋ ≤ slot
    · -- The slot is not later: the window stays.
      rw [if_pos (hle.mpr h)]
      simp [effectiveAt, max_eq_left h, pure, Except.pure]
    · -- A later slot: the window rotates there.
      have hlt : slot < ⌊now / width⌋ := not_le.mp h
      rw [if_neg (mt hle.mp h)]
      simp [effectiveAt, max_eq_right hlt.le, hlt.ne, Python.toInt, pure, Except.pure]

/-- Rotating keeps the width. -/
@[simp]
theorem rotate_bucketWidth (w : RollingWindow) (current : ℤ) :
    (w.rotate current).bucketWidth = w.bucketWidth := by
  have hfold : ∀ (slots : List ℤ) (w : RollingWindow),
      (slots.foldl dropStale w).bucketWidth = w.bucketWidth := by
    intro slots
    induction slots with
    | nil => exact fun w => rfl
    | cons stale slots ih => exact fun w => ih (w.dropStale stale)
  unfold rotate
  cases w.slot with
  | none => rfl
  | some slot =>
    dsimp only
    split_ifs
    · rfl
    · exact hfold _ w

/-- Moving keeps the width. -/
@[simp]
theorem moveTo_bucketWidth (w : RollingWindow) (slot : ℤ) :
    (w.moveTo slot).bucketWidth = w.bucketWidth := by
  unfold moveTo
  split_ifs
  · rfl
  · exact w.rotate_bucketWidth _

/-- An outcome keeps the width. -/
@[simp]
theorem bump_bucketWidth (w : RollingWindow) (failed : Bool) :
    (w.bump failed).bucketWidth = w.bucketWidth := by
  unfold bump
  split_ifs <;> rfl

/-- A window at its effective slot stays there. -/
theorem moveTo_of_slot {w : RollingWindow} {s slot : ℤ} (h : w.slot = some s) (hle : slot ≤ s) :
    w.moveTo slot = w := by
  simp [moveTo, h, effectiveAt, max_eq_left hle]

/-! ## The log that a window counts -/

/-- The buckets and the running total of all outcomes. -/
def totalRing (w : RollingWindow) : BucketRing 10 ℤ :=
  ⟨fun i => w.success i + w.failure i, w.total⟩

/-- The buckets and the running total of the failures. -/
def failureRing (w : RollingWindow) : BucketRing 10 ℤ := ⟨w.failure, w.failures⟩

/-- A window counts a log of outcomes, each tagged with its effective slot: before the first outcome
it is new, and from then on both rings stand at the effective slot and hold the log. -/
structure Counts (w : RollingWindow) (effective : Option ℤ) (log : List (ℤ × Bool)) : Prop where
  /-- The window stands at the effective slot. -/
  slot : w.slot = effective
  /-- With its bucket. -/
  index : ∀ s, effective = some s → w.index = BucketRing.index 10 s
  /-- Before the first outcome the log is empty. -/
  start : effective = none → log = []
  /-- The totals. -/
  total : ∀ s, effective = some s → w.totalRing.Represents s (log.map fun e => (e.1, 1))
  /-- The failures. -/
  failures : ∀ s, effective = some s →
    w.failureRing.Represents s (log.map fun e => (e.1, if e.2 then 1 else 0))

/-- A new window counts the empty log. -/
theorem counts_init (windowSeconds : Number) : (init windowSeconds).Counts none [] :=
  ⟨rfl, nofun, fun _ => rfl, nofun, nofun⟩

/-- A cleared window counts the empty log, at the same slot. -/
theorem counts_clear {w : RollingWindow} {effective : Option ℤ} {log : List (ℤ × Bool)}
    (h : w.Counts effective log) : w.clear.Counts effective [] where
  slot := h.slot
  index := h.index
  start _ := rfl
  total _ _ := BucketRing.represents_zero (by simp)
  failures _ _ := BucketRing.represents_zero (by simp)

/-- Dropping stale buckets drops them in the ring of all outcomes. -/
theorem totalRing_dropStale (w : RollingWindow) (stale : ℤ) :
    (w.dropStale stale).totalRing = w.totalRing.drop (BucketRing.index 10 stale) := by
  refine BucketRing.ext (funext fun i => ?_) rfl
  by_cases h : i = BucketRing.index 10 stale
  · subst h
    simp [dropStale, totalRing]
  · simp [dropStale, totalRing, Function.update_of_ne h]

/-- `_advance` rotates both rings. -/
theorem rotate_rings {w : RollingWindow} {s : ℤ} (h : w.slot = some s) (current : ℤ) :
    (w.rotate current).totalRing = w.totalRing.rotate s current ∧
      (w.rotate current).failureRing = w.failureRing.rotate s current := by
  unfold rotate BucketRing.rotate
  rw [h]
  dsimp only
  have hcount : (bucketCount : ℤ) = ((10 : ℕ) : ℤ) := rfl
  rw [hcount]
  split_ifs with hfar
  · exact ⟨BucketRing.ext (funext fun i => add_zero 0) rfl, rfl⟩
  · exact ⟨(List.foldl_hom totalRing fun w stale => (totalRing_dropStale w stale).symm).symm,
      (List.foldl_hom failureRing fun _ _ => rfl).symm⟩

/-- The first rotation of a window starts both rings at the slot, empty. -/
theorem counts_rotate_start {w : RollingWindow} (h : w.slot = none) (slot : ℤ) :
    (w.rotate slot).Counts (some slot) [] := by
  have hrotate : w.rotate slot =
      { w.clear with slot := some slot, index := BucketRing.index 10 slot } := by
    simp [rotate, h]
  rw [hrotate]
  refine ⟨rfl, fun s hs => ?_, fun _ => rfl, fun s _ => ?_, fun s _ => ?_⟩
  · exact congrArg (BucketRing.index 10) (Option.some.inj hs)
  · exact BucketRing.represents_zero (by simp)
  · exact BucketRing.represents_zero (by simp)

/-- A rotation to a later slot keeps what a window counts. -/
theorem counts_rotate {w : RollingWindow} {prev slot : ℤ} {log : List (ℤ × Bool)}
    (h : w.Counts (some prev) log) (hle : prev ≤ slot) : (w.rotate slot).Counts (some slot) log := by
  obtain ⟨etotal, efailures⟩ := rotate_rings h.slot slot
  refine ⟨rfl, fun s hs => ?_, fun hnone => absurd hnone (Option.some_ne_none slot),
    fun s hs => ?_, fun s hs => ?_⟩
  · exact congrArg (BucketRing.index 10) (Option.some.inj hs)
  · obtain rfl := Option.some.inj hs
    rw [etotal]
    exact BucketRing.represents_rotate (h.total prev rfl) hle
  · obtain rfl := Option.some.inj hs
    rw [efailures]
    exact BucketRing.represents_rotate (h.failures prev rfl) hle

/-- Moving a window to its effective slot keeps what it counts. -/
theorem counts_moveTo {w : RollingWindow} {effective : Option ℤ} {log : List (ℤ × Bool)}
    (h : w.Counts effective log) (slot : ℤ) :
    (w.moveTo slot).Counts (some (effectiveAt effective slot)) log := by
  have hw := h.slot
  cases effective with
  | none =>
    obtain rfl := h.start rfl
    have hmove : w.moveTo slot = w.rotate slot := by simp [moveTo, hw, effectiveAt]
    rw [hmove]
    exact counts_rotate_start hw slot
  | some prev =>
    by_cases hle : slot ≤ prev
    · -- The slot is not later: the window stays.
      rw [moveTo_of_slot hw hle]
      simpa [effectiveAt, max_eq_left hle] using h
    · have hlt : prev < slot := not_le.mp hle
      have heff : effectiveAt (some prev) slot = slot := max_eq_right hlt.le
      have hmove : w.moveTo slot = w.rotate slot := by
        simp [moveTo, hw, heff, hlt.ne]
      rw [hmove, heff]
      exact counts_rotate h hlt.le

/-- Recording an outcome appends it to the log, at the effective slot. -/
theorem counts_bump {w : RollingWindow} {s : ℤ} {log : List (ℤ × Bool)}
    (h : w.Counts (some s) log) (failed : Bool) :
    (w.bump failed).Counts (some s) (log ++ [(s, failed)]) := by
  have hindex := h.index s rfl
  have htotal := BucketRing.represents_add (h.total s rfl) 1
  have hfailures := BucketRing.represents_add (h.failures s rfl) (if failed then 1 else 0)
  -- In both rings the outcome is added to the current bucket.
  have etotal : (w.bump failed).totalRing = w.totalRing.add (BucketRing.index 10 s) 1 := by
    rw [← hindex]
    refine BucketRing.ext (funext fun i => ?_) (by cases failed <;> rfl)
    by_cases hi : i = w.index
    · subst hi
      cases failed <;> simp [bump, totalRing] <;> ring
    · cases failed <;> simp [bump, totalRing, Function.update_of_ne hi]
  have efailures : (w.bump failed).failureRing =
      w.failureRing.add (BucketRing.index 10 s) (if failed then 1 else 0) := by
    rw [← hindex]
    refine BucketRing.ext ?_ (by cases failed <;> simp [bump, failureRing])
    cases failed <;> simp [bump, failureRing]
  refine ⟨?_, ?_, nofun, ?_, ?_⟩
  · cases failed <;> exact h.slot
  · intro s' hs
    obtain rfl := Option.some.inj hs
    cases failed <;> exact hindex
  · intro s' hs
    obtain rfl := Option.some.inj hs
    rw [etotal, List.map_append]
    exact htotal
  · intro s' hs
    obtain rfl := Option.some.inj hs
    rw [efailures, List.map_append]
    exact hfailures

/-- The outcomes of a log in the ten slots that end at `s`. -/
def inWindow (s : ℤ) (log : List (ℤ × Bool)) : List (ℤ × Bool) := log.filter fun e => s - 9 ≤ e.1

/-- The totals of a window are those of the ten slots that end at its effective slot. -/
theorem totals_of_counts {w : RollingWindow} {s : ℤ} {log : List (ℤ × Bool)}
    (h : w.Counts (some s) log) :
    w.total = (inWindow s log).length ∧ w.failures = (inWindow s log).countP fun e => e.2 := by
  -- The ring sums the slots after `s - 10`, which are the last ten.
  have hsum : ∀ f : Bool → ℤ, BucketRing.windowSum 10 s (log.map fun e => (e.1, f e.2)) =
      ((inWindow s log).map fun e => f e.2).sum := by
    intro f
    unfold BucketRing.windowSum BucketRing.sumOver inWindow
    rw [List.filter_map, List.map_map]
    have hpred : ∀ e ∈ log, ((fun e : ℤ × ℤ => decide (s - ((10 : ℕ) : ℤ) < e.1)) ∘
        fun e : ℤ × Bool => (e.1, f e.2)) e = decide (s - 9 ≤ e.1) := by
      intro e _
      simp only [Function.comp_apply, decide_eq_decide]
      omega
    rw [List.filter_congr hpred]
    rfl
  constructor
  · have htotal : w.total = _ := (h.total s rfl).total
    rw [htotal, hsum fun _ => 1]
    simp
  · have hfailures : w.failures = _ := (h.failures s rfl).total
    rw [hfailures, hsum fun failed => if failed then 1 else 0]
    induction inWindow s log with
    | nil => rfl
    | cons e log ih =>
      rw [List.map_cons, List.sum_cons, ih, List.countP_cons]
      push_cast
      ring

end RollingWindow

end Httpware
