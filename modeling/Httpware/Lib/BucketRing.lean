import Mathlib.Algebra.BigOperators.Group.List.Basic
import Mathlib.Data.List.Induction
import Mathlib.Tactic.Abel
import Httpware.Lib.Python

/-!
# A ring of buckets counts a sliding window of an event log

A counter over a sliding window of `n` integer time slots is often kept as a ring of `n` buckets,
one per slot modulo `n`, beside a running total. Moving to a later slot drops the buckets whose slot
left the window, or clears the ring when the whole window is stale. `Represents` relates such a ring
to the unbounded log of the recorded events, each tagged with its slot: a bucket holds the sum of
the window's events in its slot class, and the total is the sum of the window's events.
`represents_drop` moves the window by one slot; `represents_rotate` and `represents_add` are the two
operations of a counter.
-/

/-- A ring of `n` buckets with its running total. -/
@[ext]
structure BucketRing (n : ℕ) (M : Type*) where
  /-- The buckets, one per slot modulo `n`. -/
  buckets : Fin n → M
  /-- The running total. -/
  total : M

namespace BucketRing

variable {n : ℕ} {M : Type*} [AddCommGroup M]

/-! ## Slots and buckets -/

section Slots

variable [NeZero n]

/-- The bucket of a slot. -/
def index (n : ℕ) [NeZero n] (slot : ℤ) : Fin n :=
  ⟨(slot % n).toNat, by
    have hn : (0 : ℤ) < n := by exact_mod_cast NeZero.pos n
    have h0 := Int.emod_nonneg slot hn.ne'
    have h1 := Int.emod_lt_of_pos slot hn
    omega⟩

/-- Two slots share a bucket exactly when `n` divides their difference. -/
theorem index_eq_iff (a b : ℤ) : index n a = index n b ↔ (n : ℤ) ∣ a - b := by
  have hn : (0 : ℤ) < n := by exact_mod_cast NeZero.pos n
  have ha := Int.emod_nonneg a hn.ne'
  have hb := Int.emod_nonneg b hn.ne'
  rw [Int.dvd_iff_emod_eq_zero, ← Int.emod_eq_emod_iff_emod_sub_eq_zero]
  simp only [index, Fin.mk.injEq]
  omega

/-- The only slot of the window of `n` slots up to `slot` that shares the bucket of the next slot is
the oldest one. -/
theorem index_eq_next_iff {slot tag : ℤ} (h1 : slot - n < tag) (h2 : tag ≤ slot) :
    index n tag = index n (slot + 1) ↔ tag = slot + 1 - n := by
  have hn : (0 : ℤ) < n := by exact_mod_cast NeZero.pos n
  rw [index_eq_iff]
  constructor
  · rintro ⟨k, hk⟩
    -- The difference is a multiple `n * k` between `-n` and `-1`.
    have hneg : k < 0 := by
      by_contra hk0
      have := mul_nonneg hn.le (not_lt.mp hk0)
      omega
    have hlow : -1 ≤ k := by
      by_contra hk1
      have := mul_le_mul_of_nonneg_left (show k ≤ -2 by omega) hn.le
      omega
    have : k = -1 := by omega
    subst this
    omega
  · rintro rfl
    exact ⟨-1, by ring⟩

end Slots

/-! ## The operations of a counter -/

/-- The empty ring. -/
def zero : BucketRing n M := ⟨fun _ => 0, 0⟩

/-- Empties one bucket and takes it off the total. -/
def drop (r : BucketRing n M) (i : Fin n) : BucketRing n M :=
  ⟨Function.update r.buckets i 0, r.total - r.buckets i⟩

/-- Adds to one bucket and to the total. -/
def add (r : BucketRing n M) (i : Fin n) (m : M) : BucketRing n M :=
  ⟨Function.update r.buckets i (r.buckets i + m), r.total + m⟩

@[simp] theorem drop_buckets (r : BucketRing n M) (i : Fin n) :
    (r.drop i).buckets = Function.update r.buckets i 0 := rfl

@[simp] theorem drop_total (r : BucketRing n M) (i : Fin n) :
    (r.drop i).total = r.total - r.buckets i := rfl

@[simp] theorem add_buckets (r : BucketRing n M) (i : Fin n) (m : M) :
    (r.add i m).buckets = Function.update r.buckets i (r.buckets i + m) := rfl

@[simp] theorem add_total (r : BucketRing n M) (i : Fin n) (m : M) :
    (r.add i m).total = r.total + m := rfl

variable [NeZero n]

/-- Moves the window from `slot` to `current`: drops the buckets of the slots that come in, or
clears the ring when every slot of the window is new. -/
def rotate (r : BucketRing n M) (slot current : ℤ) : BucketRing n M :=
  if current - slot ≥ n then zero
  else (Python.range (slot + 1) (current + 1)).foldl (fun r stale => r.drop (index n stale)) r

/-! ## What a ring represents -/

/-- The sum of the events of `log` whose slots satisfy `p`. -/
def sumOver (p : ℤ → Prop) [DecidablePred p] (log : List (ℤ × M)) : M :=
  ((log.filter fun e => p e.1).map Prod.snd).sum

/-- The sum of the events in the `n` slots that end at `slot`. -/
def windowSum (n : ℕ) (slot : ℤ) (log : List (ℤ × M)) : M :=
  sumOver (fun tag => slot - n < tag) log

/-- The ring holds the window of `n` slots up to `slot` of `log`, none of whose events is later. -/
structure Represents (slot : ℤ) (r : BucketRing n M) (log : List (ℤ × M)) : Prop where
  /-- No event is later than the window. -/
  le : ∀ e ∈ log, e.1 ≤ slot
  /-- A bucket holds the events of its slot in the window. -/
  bucket : ∀ i, r.buckets i = sumOver (fun tag => slot - n < tag ∧ index n tag = i) log
  /-- The total holds the events of the window. -/
  total : r.total = windowSum n slot log

@[simp] theorem sumOver_nil (p : ℤ → Prop) [DecidablePred p] :
    sumOver p ([] : List (ℤ × M)) = 0 := rfl

/-- The sum over a longer log. -/
theorem sumOver_append (p : ℤ → Prop) [DecidablePred p] (log : List (ℤ × M)) (tag : ℤ) (m : M) :
    sumOver p (log ++ [(tag, m)]) = sumOver p log + if p tag then m else 0 := by
  unfold sumOver
  rw [List.filter_append, List.map_append, List.sum_append]
  by_cases h : p tag <;> simp [h]

/-- The sum depends only on which events of the log count. -/
theorem sumOver_congr {p q : ℤ → Prop} [DecidablePred p] [DecidablePred q] {log : List (ℤ × M)}
    (h : ∀ e ∈ log, (p e.1 ↔ q e.1)) : sumOver p log = sumOver q log := by
  unfold sumOver
  rw [List.filter_congr fun e he => decide_eq_decide.mpr (h e he)]

/-- Nothing counts when no event does. -/
theorem sumOver_eq_zero {p : ℤ → Prop} [DecidablePred p] {log : List (ℤ × M)}
    (h : ∀ e ∈ log, ¬ p e.1) : sumOver p log = 0 := by
  unfold sumOver
  rw [List.filter_eq_nil_iff.mpr fun e he => by simpa using h e he]
  rfl

/-- A sum splits along a second condition. -/
theorem sumOver_split (p q : ℤ → Prop) [DecidablePred p] [DecidablePred q]
    (log : List (ℤ × M)) :
    sumOver p log = sumOver (fun tag => p tag ∧ q tag) log +
      sumOver (fun tag => p tag ∧ ¬ q tag) log := by
  induction log using List.reverseRecOn with
  | nil => simp
  | append_singleton log e ih =>
    obtain ⟨tag, m⟩ := e
    rw [sumOver_append, sumOver_append, sumOver_append, ih]
    by_cases hp : p tag <;> by_cases hq : q tag <;> simp only [hp, hq, and_self, and_true,
      and_false, not_true_eq_false, not_false_eq_true, if_true, if_false] <;> abel

/-- The empty ring represents a log whose events have all left the window. -/
theorem represents_zero {slot : ℤ} {log : List (ℤ × M)} (h : ∀ e ∈ log, e.1 ≤ slot - n) :
    Represents slot (zero : BucketRing n M) log where
  le e he := by have := h e he; omega
  bucket i := (sumOver_eq_zero fun e he hp => by have := h e he; omega).symm
  total := (sumOver_eq_zero fun e he hp => by have := h e he; omega).symm

/-- Dropping the next slot's bucket moves the window by one slot: the bucket holds the oldest slot's
events, which leave the window, and the next slot has none yet. -/
theorem represents_drop {slot : ℤ} {r : BucketRing n M} {log : List (ℤ × M)}
    (h : Represents slot r log) : Represents (slot + 1) (r.drop (index n (slot + 1))) log where
  le e he := by have := h.le e he; omega
  bucket i := by
    by_cases hi : i = index n (slot + 1)
    · -- The dropped bucket: no event of the log is in the slot that comes in.
      subst hi
      rw [drop_buckets, Function.update_self]
      symm
      refine sumOver_eq_zero fun e he hp => ?_
      have hle := h.le e he
      have := (index_eq_next_iff (by omega) hle).mp hp.2
      omega
    · -- Any other bucket holds no event of the slot that leaves.
      rw [drop_buckets, Function.update_of_ne hi, h.bucket]
      refine sumOver_congr fun e he => ?_
      have hle := h.le e he
      constructor
      · rintro ⟨h1, rfl⟩
        refine ⟨?_, rfl⟩
        have hne := mt (index_eq_next_iff h1 hle).mpr hi
        omega
      · rintro ⟨h1, rfl⟩
        exact ⟨by omega, rfl⟩
  total := by
    -- The total splits into the bucket of the slot that comes in and all the others.
    have hsplit := sumOver_split (fun tag => slot - n < tag)
      (fun tag => index n tag = index n (slot + 1)) log
    rw [drop_total, h.total, h.bucket, windowSum, hsplit, add_sub_cancel_left, windowSum]
    refine sumOver_congr fun e he => ?_
    have hle := h.le e he
    constructor
    · rintro ⟨h1, h2⟩
      have := mt (index_eq_next_iff h1 hle).mpr h2
      omega
    · intro h1
      refine ⟨by omega, fun h2 => ?_⟩
      have := (index_eq_next_iff (by omega) hle).mp h2
      omega

/-- Dropping the buckets of the slots up to `current` moves the window there. -/
theorem represents_foldl_drop {slot : ℤ} {r : BucketRing n M} {log : List (ℤ × M)}
    (h : Represents slot r log) (k : ℕ) :
    Represents (slot + k)
      ((Python.range (slot + 1) (slot + k + 1)).foldl (fun r stale => r.drop (index n stale)) r)
      log := by
  induction k with
  | zero => simpa [Python.range_of_le] using h
  -- The last of the slots is dropped last.
  | succ k ih =>
    have e : slot + ((k + 1 : ℕ) : ℤ) = slot + k + 1 := by push_cast; ring
    rw [e, Python.range_succ (by omega), List.foldl_append]
    exact represents_drop ih

/-- Rotating the ring moves the window to a later slot. -/
theorem represents_rotate {slot current : ℤ} {r : BucketRing n M} {log : List (ℤ × M)}
    (h : Represents slot r log) (hle : slot ≤ current) :
    Represents current (r.rotate slot current) log := by
  unfold rotate
  split_ifs with hfar
  · -- Every event is `n` slots old, or older.
    exact represents_zero fun e he => by have := h.le e he; omega
  · obtain ⟨k, rfl⟩ := Int.le.dest hle
    exact represents_foldl_drop h k

/-- Adding to the current slot's bucket records an event there. -/
theorem represents_add {slot : ℤ} {r : BucketRing n M} {log : List (ℤ × M)}
    (h : Represents slot r log) (m : M) :
    Represents slot (r.add (index n slot) m) (log ++ [(slot, m)]) where
  le e he := by
    rcases List.mem_append.mp he with he | he
    · exact h.le e he
    · rw [List.mem_singleton.mp he]
  bucket i := by
    have hn : (0 : ℤ) < n := by exact_mod_cast NeZero.pos n
    -- The new event is in the window, and in one bucket only.
    rw [sumOver_append, ← h.bucket]
    by_cases hi : i = index n slot
    · subst hi
      rw [add_buckets, Function.update_self, if_pos ⟨by omega, rfl⟩]
    · rw [add_buckets, Function.update_of_ne hi, if_neg fun hp => hi hp.2.symm, add_zero]
  total := by
    have hn : (0 : ℤ) < n := by exact_mod_cast NeZero.pos n
    rw [windowSum, sumOver_append, if_pos (by omega), add_total, h.total, windowSum]

end BucketRing
