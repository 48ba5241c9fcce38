import Httpware.Resilience.Budget

/-!
# The retry budget equals its event log

`EventLog` is the reference: the unbounded log of a budget's deposits and granted withdrawals, each
with its clock reading and its effective slot, the largest slot that any operation has presented so
far. `Counts` says that a budget counts the last ten slots of such a log: its two rings of buckets,
with their running totals, represent the two halves of the log. Every operation keeps `Counts`
(`counts_deposit`, `counts_tryWithdraw`), so `counts_of_runs` holds after every run, and the answer
of `try_withdraw` is a comparison of two counts of the log.
-/

namespace Httpware.RetryBudget

open Python (truncate)

/-! ## The reference -/

/-- An event of the log: the reading of the clock, and the effective slot. -/
structure LogEntry where
  now : ℚ
  tag : ℤ
deriving DecidableEq

/-- The deposits and the granted withdrawals of a run, with the effective slot so far. -/
structure EventLog where
  effective : Option ℤ
  deposits : List LogEntry
  withdrawals : List LogEntry

namespace EventLog

/-- The log of a new budget. -/
def empty : EventLog := ⟨none, [], []⟩

/-- The effective slot of an operation that presents `slot`. -/
def effectiveAt (log : EventLog) (slot : ℤ) : ℤ :=
  match log.effective with
  | none => slot
  | some prev => max prev slot

/-- The log after an operation with its answer: a deposit and a granted withdrawal are recorded, and
a refused withdrawal only presents its slot. -/
def record (cfg : Config) (log : EventLog) : (Op × ℚ) × Option Bool → EventLog
  | ((.deposit, now), _) =>
    let s := log.effectiveAt (cfg.slotOf now)
    { log with effective := some s, deposits := log.deposits ++ [⟨now, s⟩] }
  | ((.tryWithdraw, now), answer) =>
    let s := log.effectiveAt (cfg.slotOf now)
    { log with
      effective := some s
      withdrawals :=
        if answer = some true then log.withdrawals ++ [⟨now, s⟩] else log.withdrawals }

/-- The log of a run. -/
def ofRun (cfg : Config) (run : List ((Op × ℚ) × Option Bool)) : EventLog :=
  run.foldl (record cfg) empty

/-- The log of a longer run. -/
theorem ofRun_snoc (cfg : Config) (run : List ((Op × ℚ) × Option Bool))
    (x : (Op × ℚ) × Option Bool) : ofRun cfg (run ++ [x]) = (ofRun cfg run).record cfg x := by
  simp [ofRun]

/-- Every operation presents its slot. -/
theorem record_effective (cfg : Config) (log : EventLog) (op : Op) (now : ℚ)
    (answer : Option Bool) :
    (log.record cfg ((op, now), answer)).effective =
      some (log.effectiveAt (cfg.slotOf now)) := by
  cases op <;> rfl

/-- An event of the longer log is an event of the log or the operation's own. -/
theorem mem_record {cfg : Config} {log : EventLog} {op : Op} {now : ℚ} {answer : Option Bool}
    {e : LogEntry}
    (he : e ∈ (log.record cfg ((op, now), answer)).deposits ++
      (log.record cfg ((op, now), answer)).withdrawals) :
    e ∈ log.deposits ++ log.withdrawals ∨ e = ⟨now, log.effectiveAt (cfg.slotOf now)⟩ := by
  simp only [List.mem_append]
  cases op with
  | deposit =>
    simp only [record, List.mem_append, List.mem_singleton] at he
    tauto
  | tryWithdraw =>
    simp only [record, List.mem_append] at he
    split_ifs at he with hgranted
    · simp only [List.mem_append, List.mem_singleton] at he
      tauto
    · exact .inl he

/-- The number of events tagged `s - 9` or later. -/
def countFrom (s : ℤ) (entries : List LogEntry) : ℕ :=
  entries.countP fun e => s - 9 ≤ e.tag

end EventLog

/-! ## The budget's buckets count the log -/

/-- The buckets and the running total of the deposits. -/
def depositRing (b : RetryBudget) : BucketRing bucketCount ℤ := ⟨b.bucketDeposits, b.deposits⟩

/-- The buckets and the running total of the withdrawals. -/
def withdrawnRing (b : RetryBudget) : BucketRing bucketCount ℤ := ⟨b.bucketWithdrawn, b.withdrawn⟩

/-- The events as a ring counts them: one for each, at its slot. -/
def ones (entries : List LogEntry) : List (ℤ × ℤ) := entries.map fun e => (e.tag, 1)

/-- A budget counts a log: before the first operation both are empty, and from then on both rings
stand at the effective slot and hold their half of the log. -/
inductive Counts : RetryBudget → EventLog → Prop
  | start : Counts init EventLog.empty
  | at {b : RetryBudget} {log : EventLog} (s : ℤ) (hslot : b.slot = some s)
      (heff : log.effective = some s) (hindex : b.index = BucketRing.index bucketCount s)
      (hd : b.depositRing.Represents s (ones log.deposits))
      (hw : b.withdrawnRing.Represents s (ones log.withdrawals)) : Counts b log

/-- A ring over unit events totals the number of events of the last ten slots. -/
theorem windowSum_ones (s : ℤ) (entries : List LogEntry) :
    BucketRing.windowSum bucketCount s (ones entries) = EventLog.countFrom s entries := by
  unfold BucketRing.windowSum ones EventLog.countFrom
  induction entries using List.reverseRecOn with
  | nil => rfl
  | append_singleton entries e ih =>
    rw [List.map_append, List.map_cons, List.map_nil, BucketRing.sumOver_append, ih,
      List.countP_append, List.countP_singleton]
    -- The window `(s - 10, s]` starts at `s - 9`.
    have hiff : s - (bucketCount : ℤ) < e.tag ↔ s - 9 ≤ e.tag := by
      simp only [bucketCount]
      omega
    by_cases h : s - 9 ≤ e.tag
    · rw [if_pos (hiff.mpr h), if_pos (by simpa using h)]
      push_cast
      rfl
    · rw [if_neg (mt hiff.mp h), if_neg (by simpa using h)]
      push_cast
      rfl

/-- Dropping stale buckets drops them in the ring of the deposits. -/
theorem depositRing_foldl (b : RetryBudget) (slots : List ℤ) :
    (slots.foldl dropStale b).depositRing =
      slots.foldl (fun r stale => r.drop (BucketRing.index bucketCount stale)) b.depositRing :=
  (List.foldl_hom depositRing fun _ _ => rfl).symm

/-- Dropping stale buckets drops them in the ring of the withdrawals. -/
theorem withdrawnRing_foldl (b : RetryBudget) (slots : List ℤ) :
    (slots.foldl dropStale b).withdrawnRing =
      slots.foldl (fun r stale => r.drop (BucketRing.index bucketCount stale)) b.withdrawnRing :=
  (List.foldl_hom withdrawnRing fun _ _ => rfl).symm

/-- `_rotate` from a slot rotates both rings. -/
theorem rotate_rings {b : RetryBudget} {s : ℤ} (h : b.slot = some s) (current : ℤ) :
    (b.rotate current).depositRing = b.depositRing.rotate s current ∧
      (b.rotate current).withdrawnRing = b.withdrawnRing.rotate s current := by
  unfold rotate BucketRing.rotate
  rw [h]
  dsimp only
  split_ifs with hfar
  · exact ⟨rfl, rfl⟩
  · exact ⟨depositRing_foldl b _, withdrawnRing_foldl b _⟩

/-- What the first step of an operation leaves: the effective slot is current, and both rings count
the log up to it. -/
theorem counts_moveTo {b : RetryBudget} {log : EventLog} (h : Counts b log) (slot : ℤ) :
    (b.moveTo slot).slot = some (log.effectiveAt slot) ∧
      (b.moveTo slot).index = BucketRing.index bucketCount (log.effectiveAt slot) ∧
      (b.moveTo slot).depositRing.Represents (log.effectiveAt slot) (ones log.deposits) ∧
      (b.moveTo slot).withdrawnRing.Represents (log.effectiveAt slot) (ones log.withdrawals) := by
  cases h with
  -- The first operation clears a budget whose log is empty.
  | start =>
    exact ⟨rfl, rfl, BucketRing.represents_zero (by simp [ones, EventLog.empty]),
      BucketRing.represents_zero (by simp [ones, EventLog.empty])⟩
  | «at» s hslot heff hindex hd hw =>
    have heffAt : log.effectiveAt slot = max s slot := by simp [EventLog.effectiveAt, heff]
    rw [heffAt]
    unfold moveTo
    rw [hslot]
    by_cases hlt : s < slot
    · -- A later slot: `_rotate` moves both rings there.
      rw [if_pos (by simpa [isLater] using hlt), max_eq_right hlt.le]
      obtain ⟨ed, ew⟩ := rotate_rings hslot slot
      rw [ed, ew]
      exact ⟨rfl, rfl, BucketRing.represents_rotate hd hlt.le,
        BucketRing.represents_rotate hw hlt.le⟩
    · -- An earlier or the same slot: the budget stays where it is.
      rw [if_neg (by simpa [isLater] using hlt), max_eq_left (not_lt.mp hlt)]
      exact ⟨hslot, hindex, hd, hw⟩

/-- A deposit is recorded. -/
theorem counts_deposit (cfg : Config) {b : RetryBudget} {log : EventLog} (h : Counts b log)
    (now : ℚ) :
    Counts (b.deposit cfg now) (log.record cfg ((.deposit, now), none)) := by
  obtain ⟨hslot, hindex, hd, hw⟩ := counts_moveTo h (cfg.slotOf now)
  refine .at (log.effectiveAt (cfg.slotOf now)) hslot rfl hindex ?_ hw
  -- `index` is the bucket of the effective slot, so the ring adds there.
  have hadd := BucketRing.represents_add hd 1
  rw [← hindex] at hadd
  simpa [deposit, depositRing, BucketRing.add, ones, EventLog.record] using hadd

/-- `try_withdraw` grants exactly when the granted withdrawals of the last ten slots are below the
ceiling of the last ten slots. -/
theorem tryWithdraw_iff (cfg : Config) {b : RetryBudget} {log : EventLog} (h : Counts b log)
    (now : ℚ) :
    (b.tryWithdraw cfg now).1 = true ↔
      (EventLog.countFrom (log.effectiveAt (cfg.slotOf now)) log.withdrawals : ℤ) <
        ⌈(EventLog.countFrom (log.effectiveAt (cfg.slotOf now)) log.deposits : ℚ) * cfg.percent⌉
          + cfg.floor := by
  obtain ⟨-, -, hd, hw⟩ := counts_moveTo h (cfg.slotOf now)
  -- The running totals are the counts of the window.
  have ed : (b.moveTo (cfg.slotOf now)).deposits = _ := hd.total
  have ew : (b.moveTo (cfg.slotOf now)).withdrawn = _ := hw.total
  rw [windowSum_ones] at ed ew
  unfold tryWithdraw
  dsimp only
  rw [ed, ew, Int.cast_natCast]
  split_ifs with hge
  · exact iff_of_false (by simp) (not_lt.mpr hge)
  · exact iff_of_true rfl (not_le.mp hge)

/-- A refused withdrawal only moves the budget to the current slot. -/
theorem tryWithdraw_refused (cfg : Config) {b : RetryBudget} {now : ℚ}
    (h : (b.tryWithdraw cfg now).1 = false) :
    (b.tryWithdraw cfg now).2 = b.moveTo (cfg.slotOf now) := by
  unfold tryWithdraw at h ⊢
  dsimp only at h ⊢
  split_ifs at h ⊢
  rfl

/-- A withdrawal is recorded when it is granted, and not otherwise. -/
theorem counts_tryWithdraw (cfg : Config) {b : RetryBudget} {log : EventLog} (h : Counts b log)
    (now : ℚ) :
    Counts (b.tryWithdraw cfg now).2
      (log.record cfg ((.tryWithdraw, now), some (b.tryWithdraw cfg now).1)) := by
  obtain ⟨hslot, hindex, hd, hw⟩ := counts_moveTo h (cfg.slotOf now)
  cases hgrant : (b.tryWithdraw cfg now).1 with
  -- A refusal records nothing, and a grant records one withdrawal.
  | false =>
    rw [tryWithdraw_refused cfg hgrant]
    exact .at _ hslot rfl hindex hd hw
  | true =>
    unfold tryWithdraw at hgrant ⊢
    dsimp only at hgrant ⊢
    split_ifs at hgrant ⊢
    refine .at (log.effectiveAt (cfg.slotOf now)) hslot rfl hindex hd ?_
    have hadd := BucketRing.represents_add hw 1
    rw [← hindex] at hadd
    simpa [withdrawnRing, BucketRing.add, ones, EventLog.record] using hadd

/-- After every run, the budget counts the run's log. -/
theorem counts_of_runs (cfg : Config) {run : List ((Op × ℚ) × Option Bool)} {b : RetryBudget}
    (h : (machine cfg).Runs run b) : Counts b (EventLog.ofRun cfg run) := by
  refine h.invariant (I := fun run b => Counts b (EventLog.ofRun cfg run)) .start ?_
  rintro run b ⟨op, now⟩ answer b' - hcounts hstep
  rw [EventLog.ofRun_snoc]
  cases op with
  | deposit =>
    obtain ⟨rfl, rfl⟩ : none = answer ∧ b.deposit cfg now = b' := by
      simpa [machine] using hstep
    exact counts_deposit cfg hcounts now
  | tryWithdraw =>
    obtain ⟨rfl, rfl⟩ : some (b.tryWithdraw cfg now).1 = answer ∧ (b.tryWithdraw cfg now).2 = b' := by
      simpa [machine] using hstep
    exact counts_tryWithdraw cfg hcounts now

/-! ## Ages under a nondecreasing clock -/

/-- The clock readings of a run, in the order of its operations. -/
def readings (run : List ((Op × ℚ) × Option Bool)) : List ℚ := run.map fun x => x.1.2

/-- A later reading presents a later slot. -/
theorem Config.slotOf_mono (cfg : Config) {t now : ℚ} (h : t ≤ now) :
    cfg.slotOf t ≤ cfg.slotOf now :=
  Int.floor_le_floor (div_le_div_of_nonneg_right h cfg.bucketWidth_pos.le)

/-- Two readings at most nine buckets apart are at most nine slots apart. -/
theorem Config.slotOf_le_add_nine (cfg : Config) {t now : ℚ}
    (h : now - t ≤ 9 / 10 * cfg.ttl.toRat) : cfg.slotOf now ≤ cfg.slotOf t + 9 := by
  have hw := cfg.bucketWidth_pos
  -- In units of the bucket width the readings are at most nine apart.
  have hle : now / cfg.bucketWidth ≤ t / cfg.bucketWidth + (9 : ℤ) := by
    rw [div_le_iff₀ hw, add_mul, div_mul_cancel₀ _ hw.ne']
    push_cast
    linarith [cfg.ten_mul_bucketWidth]
  calc cfg.slotOf now ≤ ⌊t / cfg.bucketWidth + (9 : ℤ)⌋ := Int.floor_le_floor hle
    _ = cfg.slotOf t + 9 := Int.floor_add_intCast _ _

/-- Two readings at least `ttl` apart are at least ten slots apart. -/
theorem Config.slotOf_add_ten_le (cfg : Config) {t now : ℚ} (h : cfg.ttl.toRat ≤ now - t) :
    cfg.slotOf t + 10 ≤ cfg.slotOf now := by
  have hw := cfg.bucketWidth_pos
  -- In units of the bucket width the readings are at least ten apart.
  have hle : t / cfg.bucketWidth + (10 : ℤ) ≤ now / cfg.bucketWidth := by
    rw [le_div_iff₀ hw, add_mul, div_mul_cancel₀ _ hw.ne']
    push_cast
    linarith [cfg.ten_mul_bucketWidth]
  calc cfg.slotOf t + 10 = ⌊t / cfg.bucketWidth + (10 : ℤ)⌋ := (Int.floor_add_intCast _ _).symm
    _ ≤ cfg.slotOf now := Int.floor_le_floor hle

/-- The effective slot of a log whose own is the slot of an earlier reading. -/
theorem EventLog.effectiveAt_of_le (cfg : Config) {log : EventLog} {now : ℚ}
    (h : ∀ s, log.effective = some s → ∃ t ≤ now, s = cfg.slotOf t) :
    log.effectiveAt (cfg.slotOf now) = cfg.slotOf now := by
  unfold effectiveAt
  split
  · rfl
  · next prev hprev =>
    obtain ⟨t, hle, rfl⟩ := h prev hprev
    exact max_eq_right (cfg.slotOf_mono hle)

/-- Under a nondecreasing clock the effective slot is that of a reading of the run, and every event
is tagged with the slot of its own reading. -/
theorem EventLog.tags_of_sorted (cfg : Config) (run : List ((Op × ℚ) × Option Bool))
    (h : (readings run).Pairwise (· ≤ ·)) :
    (∀ s, (ofRun cfg run).effective = some s → ∃ t ∈ readings run, s = cfg.slotOf t) ∧
      ∀ e ∈ (ofRun cfg run).deposits ++ (ofRun cfg run).withdrawals, e.tag = cfg.slotOf e.now := by
  induction run using List.reverseRecOn with
  | nil => simp [ofRun, empty]
  | append_singleton run x ih =>
    obtain ⟨⟨op, now⟩, answer⟩ := x
    rw [readings, List.map_append, List.pairwise_append] at h
    obtain ⟨hsorted, -, hle⟩ := h
    obtain ⟨heff, htags⟩ := ih hsorted
    -- The new reading is the latest, so its slot is the effective one.
    have hs : (ofRun cfg run).effectiveAt (cfg.slotOf now) = cfg.slotOf now := by
      refine effectiveAt_of_le cfg fun s hs => ?_
      obtain ⟨t, ht, rfl⟩ := heff s hs
      exact ⟨t, hle t ht now (by simp), rfl⟩
    rw [ofRun_snoc]
    constructor
    · intro s hrec
      rw [record_effective, hs, Option.some.injEq] at hrec
      exact ⟨now, by simp [readings], hrec.symm⟩
    · intro e he
      rcases mem_record he with he | rfl
      · exact htags e he
      · exact hs

/-- The retry budget is its event log: after any run of operations at any readings of the clock,
`try_withdraw` at effective slot `s` grants exactly when the granted withdrawals tagged `s - 9` or
later are fewer than the rounded-up share of the deposits tagged so plus the floor, and a refusal
records nothing. Under a nondecreasing clock an event counts up to the age `0.9 * ttl` and no
longer at the age `ttl`. -/
theorem tryWithdraw_reference (cfg : Config) {run : List ((Op × ℚ) × Option Bool)}
    {b : RetryBudget} (h : (machine cfg).Runs run b) (now : ℚ) :
    let log := EventLog.ofRun cfg run
    let s := log.effectiveAt (cfg.slotOf now)
    ((b.tryWithdraw cfg now).1 = true ↔
        (EventLog.countFrom s log.withdrawals : ℤ) <
          ⌈(EventLog.countFrom s log.deposits : ℚ) * cfg.percentCanRetry.toRat⌉ +
            truncate (cfg.minRetriesPerSec.toRat * cfg.ttl.toRat)) ∧
      ((b.tryWithdraw cfg now).1 = false →
        (b.tryWithdraw cfg now).2 = b.moveTo (cfg.slotOf now) ∧
          EventLog.ofRun cfg (run ++ [((.tryWithdraw, now), some false)]) =
            { log with effective := some s }) ∧
      ((readings run ++ [now]).Pairwise (· ≤ ·) →
        ∀ e ∈ log.deposits ++ log.withdrawals,
          (now - e.now ≤ 9 / 10 * cfg.ttl.toRat → s - 9 ≤ e.tag) ∧
            (cfg.ttl.toRat ≤ now - e.now → ¬ s - 9 ≤ e.tag)) := by
  intro log s
  have hcounts := counts_of_runs cfg h
  refine ⟨tryWithdraw_iff cfg hcounts now, fun hrefused => ⟨tryWithdraw_refused cfg hrefused, ?_⟩,
    fun hsorted e he => ?_⟩
  · rw [EventLog.ofRun_snoc]
    simp [EventLog.record, log, s]
  · obtain ⟨hrun, -, hle⟩ := List.pairwise_append.mp hsorted
    obtain ⟨heff, htags⟩ := EventLog.tags_of_sorted cfg run hrun
    -- Under a nondecreasing clock the effective slot is the slot of `now`, and the tags are slots.
    have hs : s = cfg.slotOf now := by
      refine EventLog.effectiveAt_of_le cfg fun s hs => ?_
      obtain ⟨t, ht, rfl⟩ := heff s hs
      exact ⟨t, hle t ht now (by simp), rfl⟩
    rw [hs, htags e he]
    constructor
    · intro hage
      have := cfg.slotOf_le_add_nine hage
      omega
    · intro hage
      have := cfg.slotOf_add_ten_le hage
      omega

/-- The reference on a run that deposits at `0` and asks at `10`: the deposit no longer counts, and
the floor grants the retry. -/
theorem tryWithdraw_reference_default :
    ((init.deposit defaultConfig 0).tryWithdraw defaultConfig 10).1 = true := by
  have hrun : (machine defaultConfig).Runs [((.deposit, 0), none)] (init.deposit defaultConfig 0) :=
    .single rfl
  exact (tryWithdraw_reference defaultConfig hrun 10).1.mpr (by decide +kernel)

end Httpware.RetryBudget
