import Mathlib.Data.Finset.Max
import Mathlib.Data.Finset.Dedup
import Mathlib.Tactic.Positivity
import Httpware.Resilience.BudgetReference

/-!
# A budget's grants are bounded over a whole run

Every grant leaves at most `ceil(percent * deposits) + floor` withdrawals in the ten slots that end
at it (`paid_of_runs`). `withdrawals_le` chains such windows back from the last grant: each grant is
at least ten slots after the window before it, the windows are disjoint, and so no deposit pays
twice. `grants_le` is the bound over the slots of the run.
-/

namespace Httpware.RetryBudget

namespace EventLog

/-- The number of events tagged from `lo` to `hi`. -/
def countIn (lo hi : ℤ) (entries : List LogEntry) : ℕ :=
  entries.countP fun e => lo ≤ e.tag ∧ e.tag ≤ hi

/-- The number of events tagged `hi` or earlier. -/
def countTo (hi : ℤ) (entries : List LogEntry) : ℕ := entries.countP fun e => e.tag ≤ hi

/-- The events up to `hi` are those up to ten slots before and those of the last ten slots. -/
theorem countTo_eq_add (hi : ℤ) (entries : List LogEntry) :
    countTo hi entries = countTo (hi - 10) entries + countIn (hi - 9) hi entries := by
  unfold countTo countIn
  induction entries with
  | nil => rfl
  | cons e entries ih =>
    rw [List.countP_cons, List.countP_cons, List.countP_cons, ih]
    simp only [decide_eq_true_eq]
    split_ifs <;> omega

/-- More events are tagged up to a later slot. -/
theorem countTo_mono {lo hi : ℤ} (h : lo ≤ hi) (entries : List LogEntry) :
    countTo lo entries ≤ countTo hi entries := by
  refine List.countP_mono_left fun e _ he => ?_
  have : e.tag ≤ lo := by simpa using he
  simpa using this.trans h

/-- An appended event counts when its tag is in range. -/
theorem countIn_snoc (lo hi : ℤ) (entries : List LogEntry) (e : LogEntry) :
    countIn lo hi (entries ++ [e]) =
      countIn lo hi entries + if lo ≤ e.tag ∧ e.tag ≤ hi then 1 else 0 := by
  simp [countIn, List.countP_append, List.countP_singleton]

/-- With no event after `s`, the events from `s - 9` on are the last ten slots' events. -/
theorem countFrom_eq_countIn {s : ℤ} {entries : List LogEntry} (h : ∀ e ∈ entries, e.tag ≤ s) :
    countFrom s entries = countIn (s - 9) s entries := by
  refine List.countP_congr fun e he => ?_
  have := h e he
  simp [this]

end EventLog

open EventLog

/-- No event of the log is after its effective slot, and the ten slots that end at any grant hold no
more grants than the ceiling of those slots. -/
structure Paid (cfg : Config) (log : EventLog) : Prop where
  /-- Events are tagged at most with the effective slot. -/
  le : ∀ e ∈ log.deposits ++ log.withdrawals, ∃ s, log.effective = some s ∧ e.tag ≤ s
  /-- The window of a grant is paid for. -/
  paid : ∀ w ∈ log.withdrawals,
    (countIn (w.tag - 9) w.tag log.withdrawals : ℤ) ≤
      ⌈(countIn (w.tag - 9) w.tag log.deposits : ℚ) * cfg.percent⌉ + cfg.floor

/-- The effective slot of an operation is not before the log's. -/
theorem EventLog.le_effectiveAt {log : EventLog} {s : ℤ} (h : log.effective = some s) (slot : ℤ) :
    s ≤ log.effectiveAt slot := by
  simp [effectiveAt, h]

/-- The tags of a paid log are at most the effective slot of the next operation. -/
theorem Paid.tag_le {cfg : Config} {log : EventLog} (h : Paid cfg log) (slot : ℤ) :
    ∀ e ∈ log.deposits ++ log.withdrawals, e.tag ≤ log.effectiveAt slot := by
  intro e he
  obtain ⟨s, hs, hle⟩ := h.le e he
  exact hle.trans (le_effectiveAt hs slot)

/-- The tags of the longer log are at most the effective slot of its last operation. -/
theorem Paid.tag_le_record {cfg : Config} {log : EventLog} (h : Paid cfg log) {op : Op} {now : ℚ}
    {answer : Option Bool} {e : LogEntry}
    (he : e ∈ (log.record cfg ((op, now), answer)).deposits ++
      (log.record cfg ((op, now), answer)).withdrawals) :
    e.tag ≤ log.effectiveAt (cfg.slotOf now) := by
  rcases mem_record he with he | rfl
  · exact h.tag_le _ e he
  · exact le_rfl

/-- A deposit keeps the windows paid for. -/
theorem Paid.deposit {cfg : Config} {log : EventLog} (h : Paid cfg log) (now : ℚ)
    (answer : Option Bool) : Paid cfg (log.record cfg ((.deposit, now), answer)) where
  le e he := ⟨_, rfl, h.tag_le_record he⟩
  paid w hw := by
    -- The deposits of the window can only grow.
    refine (h.paid w hw).trans (add_le_add_left (Int.ceil_le_ceil ?_) _)
    refine mul_le_mul_of_nonneg_right ?_ cfg.percent_nonneg
    simp only [record, countIn_snoc]
    push_cast
    split_ifs <;> simp

/-- A refused withdrawal keeps the windows paid for. -/
theorem Paid.refused {cfg : Config} {log : EventLog} (h : Paid cfg log) (now : ℚ) :
    Paid cfg (log.record cfg ((.tryWithdraw, now), some false)) where
  le e he := ⟨_, rfl, h.tag_le_record he⟩
  paid w hw := by simpa [record] using h.paid w (by simpa [record] using hw)

/-- A granted withdrawal keeps the windows paid for: its own by the test that granted it, and it is
in no earlier grant's window. -/
theorem Paid.granted {cfg : Config} {log : EventLog} (h : Paid cfg log) (now : ℚ)
    (hgrant : (countFrom (log.effectiveAt (cfg.slotOf now)) log.withdrawals : ℤ) <
      ⌈(countFrom (log.effectiveAt (cfg.slotOf now)) log.deposits : ℚ) * cfg.percent⌉ + cfg.floor) :
    Paid cfg (log.record cfg ((.tryWithdraw, now), some true)) := by
  refine ⟨fun e he => ⟨_, rfl, h.tag_le_record he⟩, ?_⟩
  have hle := h.tag_le (cfg.slotOf now)
  generalize hs : log.effectiveAt (cfg.slotOf now) = s at hgrant hle
  have hrec : log.record cfg ((.tryWithdraw, now), some true) =
      { log with effective := some s, withdrawals := log.withdrawals ++ [⟨now, s⟩] } := by
    simp [record, hs]
  -- No event is after `s`, so the test that granted it is about the window that ends at `s`.
  rw [countFrom_eq_countIn fun e he => hle e (List.mem_append_left _ he),
    countFrom_eq_countIn fun e he => hle e (List.mem_append_right _ he)] at hgrant
  rw [hrec]
  intro w hw
  dsimp only at hw ⊢
  rw [countIn_snoc]
  by_cases hws : w.tag = s
  · -- The window of the new grant, or of an earlier one in the same slot.
    have hin : s - 9 ≤ s ∧ s ≤ s := ⟨by omega, le_rfl⟩
    rw [hws, if_pos hin]
    push_cast
    omega
  · -- An earlier window does not reach the new grant.
    have hmem : w ∈ log.withdrawals := by
      rcases List.mem_append.mp hw with hw | hw
      · exact hw
      · exact absurd (by rw [List.mem_singleton.mp hw]) hws
    have hlt : w.tag ≤ s := hle w (List.mem_append_right _ hmem)
    have hout : ¬ (w.tag - 9 ≤ s ∧ s ≤ w.tag) := by omega
    rw [if_neg hout, add_zero]
    exact h.paid w hmem

/-- After every run, the window of every grant is paid for. -/
theorem paid_of_runs (cfg : Config) {run : List ((Op × ℚ) × Option Bool)} {b : RetryBudget}
    (h : (machine cfg).Runs run b) : Paid cfg (ofRun cfg run) := by
  refine h.invariant (I := fun run _ => Paid cfg (ofRun cfg run)) ?_ ?_
  · constructor <;> simp [ofRun, empty]
  · rintro run b ⟨op, now⟩ answer b' hrun hpaid hstep
    rw [ofRun_snoc]
    cases op with
    | deposit => exact hpaid.deposit now answer
    | tryWithdraw =>
      obtain ⟨rfl, -⟩ : some (b.tryWithdraw cfg now).1 = answer ∧ _ := by
        simpa [machine] using hstep
      -- The answer decides which of the two cases the step is in.
      have hiff := tryWithdraw_iff cfg (counts_of_runs cfg hrun) now
      cases hgrant : (b.tryWithdraw cfg now).1 with
      | false => exact hpaid.refused now
      | true => exact hpaid.granted now (hiff.mp hgrant)

/-! ## The chain of windows -/

/-- Of the events up to `s` there are none, or one of them is the latest. -/
theorem countTo_eq_zero_or_latest (s : ℤ) (entries : List LogEntry) :
    countTo s entries = 0 ∨
      ∃ w ∈ entries, w.tag ≤ s ∧ countTo s entries = countTo w.tag entries := by
  rcases (entries.filter fun e => e.tag ≤ s).toFinset.eq_empty_or_nonempty with hnone | hsome
  · left
    rw [List.toFinset_eq_empty_iff] at hnone
    rw [countTo, List.countP_eq_length_filter, hnone]
    rfl
  · right
    -- The latest of the events up to `s`: up to it there are as many.
    obtain ⟨w, hw, hmax⟩ := Finset.exists_max_image _ LogEntry.tag hsome
    simp only [List.mem_toFinset, List.mem_filter, decide_eq_true_eq] at hw hmax
    refine ⟨w, hw.1, hw.2, List.countP_congr fun e he => ?_⟩
    simp only [decide_eq_true_eq]
    exact ⟨fun hle => hmax e ⟨he, hle⟩, fun hle => hle.trans hw.2⟩

/-- The grants up to `s`, when these slots fit in `k` windows of ten slots from the first one: the
percentage of the deposits up to `s`, and the floor and the rounding once for each window. -/
theorem withdrawals_le (cfg : Config) {log : EventLog} (h : Paid cfg log) {first : ℤ}
    (hfirst : ∀ w ∈ log.withdrawals, first ≤ w.tag) (k : ℕ) :
    ∀ s, s - first + 1 ≤ 10 * k →
      (countTo s log.withdrawals : ℚ) ≤
        cfg.percent * countTo s log.deposits + (cfg.floor + 1) * k := by
  have hp := cfg.percent_nonneg
  have hF : (0 : ℚ) ≤ cfg.floor := by exact_mod_cast cfg.floor_nonneg
  induction k with
  -- No windows fit, so `s` is before the first grant.
  | zero =>
    intro s hs
    have hzero : countTo s log.withdrawals = 0 := by
      refine List.countP_eq_zero.mpr fun w hw => ?_
      have := hfirst w hw
      simp only [decide_eq_true_eq]
      push_cast at hs
      omega
    rw [hzero]
    push_cast
    positivity
  | succ k ih =>
    intro s hs
    rcases countTo_eq_zero_or_latest s log.withdrawals with hzero | ⟨w, hw, hws, hcount⟩
    · rw [hzero]
      push_cast
      positivity
    · -- The latest grant's window pays for its grants, and the rest is at least ten slots before.
      have hih := ih (w.tag - 10) (by push_cast at hs; omega)
      have hpaid : (countIn (w.tag - 9) w.tag log.withdrawals : ℚ) ≤
          ⌈(countIn (w.tag - 9) w.tag log.deposits : ℚ) * cfg.percent⌉ + cfg.floor := by
        exact_mod_cast h.paid w hw
      -- Rounding costs at most one for the window.
      have hceil := (Int.ceil_lt_add_one
        ((countIn (w.tag - 9) w.tag log.deposits : ℚ) * cfg.percent)).le
      have hdeposits : (countTo w.tag log.deposits : ℚ) ≤ countTo s log.deposits := by
        exact_mod_cast countTo_mono hws log.deposits
      have hsplit : (countTo w.tag log.deposits : ℚ) =
          countTo (w.tag - 10) log.deposits + countIn (w.tag - 9) w.tag log.deposits := by
        exact_mod_cast countTo_eq_add w.tag log.deposits
      have hmul := mul_le_mul_of_nonneg_left hdeposits hp
      rw [hcount, countTo_eq_add w.tag log.withdrawals]
      rw [hsplit] at hmul
      push_cast
      linarith

/-- The first slot that a run presents. -/
def firstSlot (cfg : Config) (run : List ((Op × ℚ) × Option Bool)) : Option ℤ :=
  run.head?.map fun x => cfg.slotOf x.1.2

/-- The number of slots from the first to the last effective slot of a run. -/
def slotSpan (cfg : Config) (run : List ((Op × ℚ) × Option Bool)) : ℤ :=
  match firstSlot cfg run, (ofRun cfg run).effective with
  | some first, some last => last - first + 1
  | _, _ => 0

/-- No effective slot is before the first slot of the run, and neither is an event's tag. -/
theorem firstSlot_le (cfg : Config) (run : List ((Op × ℚ) × Option Bool)) {first : ℤ}
    (h : firstSlot cfg run = some first) :
    (∃ last, (ofRun cfg run).effective = some last ∧ first ≤ last) ∧
      ∀ e ∈ (ofRun cfg run).deposits ++ (ofRun cfg run).withdrawals, first ≤ e.tag := by
  induction run using List.reverseRecOn with
  | nil => cases h
  | append_singleton run x ih =>
    obtain ⟨⟨op, now⟩, answer⟩ := x
    rw [ofRun_snoc, record_effective]
    -- The effective slot only grows from the first slot on.
    have hnow : first ≤ (ofRun cfg run).effectiveAt (cfg.slotOf now) := by
      rcases run with _ | ⟨y, run⟩
      · obtain rfl : cfg.slotOf now = first := by simpa [firstSlot] using h
        exact le_rfl
      · obtain ⟨⟨last, hlast, hle⟩, -⟩ := ih h
        exact hle.trans (le_effectiveAt hlast _)
    refine ⟨⟨_, rfl, hnow⟩, fun e he => ?_⟩
    rcases mem_record he with he | rfl
    · rcases run with _ | ⟨y, run⟩
      · simp [ofRun, empty] at he
      · exact (ih h).2 e he
    · exact hnow

/-- A run without a first slot is empty. -/
theorem eq_nil_of_firstSlot (cfg : Config) {run : List ((Op × ℚ) × Option Bool)}
    (h : firstSlot cfg run = none) : run = [] := by
  simpa [firstSlot] using h

/-- Every event of a paid log is tagged up to the effective slot. -/
theorem Paid.countTo_eq_length {cfg : Config} {log : EventLog} (h : Paid cfg log) {last : ℤ}
    (hlast : log.effective = some last) {entries : List LogEntry}
    (hsub : entries ⊆ log.deposits ++ log.withdrawals) :
    countTo last entries = entries.length := by
  refine List.countP_eq_length.mpr fun e he => ?_
  obtain ⟨s, hs, hes⟩ := h.le e (hsub he)
  rw [hlast, Option.some.injEq] at hs
  simpa [hs] using hes

/-- A number of slots fits in the rounded-up number of windows of ten slots. -/
theorem exists_windows {n : ℤ} (h : 0 ≤ n) : ∃ k : ℕ, ⌈(n : ℚ) / 10⌉ = k ∧ n ≤ 10 * k := by
  have hn : (0 : ℚ) ≤ n := by exact_mod_cast h
  obtain ⟨k, hk⟩ :=
    Int.eq_ofNat_of_zero_le (Int.ceil_nonneg (div_nonneg hn (by norm_num : (0 : ℚ) ≤ 10)))
  refine ⟨k, hk, ?_⟩
  have hceil : (n : ℚ) / 10 ≤ ⌈(n : ℚ) / 10⌉ := Int.le_ceil _
  rw [hk, div_le_iff₀ (by norm_num)] at hceil
  have : n ≤ k * 10 := by exact_mod_cast hceil
  omega

/-- The grants of a run: the percentage of its deposits, and the floor and one more for each ten
slots that it spans. -/
theorem grants_le (cfg : Config) {run : List ((Op × ℚ) × Option Bool)} {b : RetryBudget}
    (h : (machine cfg).Runs run b) :
    ((ofRun cfg run).withdrawals.length : ℚ) ≤
      cfg.percent * (ofRun cfg run).deposits.length +
        (cfg.floor + 1) * ⌈(slotSpan cfg run : ℚ) / 10⌉ := by
  cases hf : firstSlot cfg run with
  | none =>
    rw [eq_nil_of_firstSlot cfg hf]
    simp [ofRun, empty, slotSpan, firstSlot]
  | some first =>
    have hpaid := paid_of_runs cfg h
    obtain ⟨⟨last, hlast, hle⟩, htags⟩ := firstSlot_le cfg run hf
    have hspan : slotSpan cfg run = last - first + 1 := by simp [slotSpan, hf, hlast]
    obtain ⟨k, hk, hfit⟩ := exists_windows (by omega : 0 ≤ last - first + 1)
    have hbound := withdrawals_le cfg hpaid
      (fun w hw => htags w (List.mem_append_right _ hw)) k last hfit
    -- Every event of the run is tagged up to its last slot.
    rw [hpaid.countTo_eq_length hlast (List.subset_append_right _ _),
      hpaid.countTo_eq_length hlast (List.subset_append_left _ _)] at hbound
    rw [hspan, hk]
    exact_mod_cast hbound

end Httpware.RetryBudget
