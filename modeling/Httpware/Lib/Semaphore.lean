import Mathlib.Data.Int.Notation
import Mathlib.Data.List.Nodup
import Mathlib.Tactic.Common

/-!
# The semaphores of asyncio and of threading

`AsyncSemaphore` is `asyncio.Semaphore`: a value, and a queue of waiters, first in first out. A
released slot is handed to the first waiter that is still pending; the waiter takes it when its task
resumes, and gives it back if it was cancelled in between. `slots` is the value with the slots that
were handed over: no operation changes it but an admission and a release. The semaphore of threading
hands nothing over: a waiter takes a slot from the value when it finds one.

No waiter is forgotten (`Served`): while one is pending, a slot that is free was handed to another one.
-/

namespace Python

/-- The future of a waiter. -/
inductive WaiterState
  | pending
  | handed
  | cancelled
deriving DecidableEq, Repr

/-- `asyncio.Semaphore`, with its waiters in the order of the queue. -/
structure AsyncSemaphore (ι : Type*) where
  value : ℤ
  waiters : List (ι × WaiterState)

namespace AsyncSemaphore

variable {ι : Type*}

/-- A semaphore with `value` slots. -/
def init (value : ℤ) : AsyncSemaphore ι := ⟨value, []⟩

/-- `locked`: no slot, or waiters that come first. -/
def locked (s : AsyncSemaphore ι) : Bool :=
  s.value == 0 || s.waiters.any fun w => w.2 != .cancelled

/-- Hands a slot to the first pending waiter. -/
def handFirst : List (ι × WaiterState) → Option (List (ι × WaiterState))
  | [] => none
  | (i, .pending) :: waiters => some ((i, .handed) :: waiters)
  | w :: waiters => (handFirst waiters).map (w :: ·)

/-- `_wake_up_next`, where there is a waiter to wake up. -/
def wakeUpNext (s : AsyncSemaphore ι) : Option (AsyncSemaphore ι) :=
  (handFirst s.waiters).map fun waiters => ⟨s.value - 1, waiters⟩

/-- `while self._value > 0`: wakes up as many waiters as there are slots. -/
def wakeUpWhile : ℕ → AsyncSemaphore ι → AsyncSemaphore ι
  | 0, s => s
  | n + 1, s =>
    if 0 < s.value then
      match s.wakeUpNext with
      | some s => wakeUpWhile n s
      | none => s
    else s

/-- That loop, which takes a slot in every round. -/
def wakeUp (s : AsyncSemaphore ι) : AsyncSemaphore ι := wakeUpWhile s.value.toNat s

/-- `release`. -/
def release (s : AsyncSemaphore ι) : AsyncSemaphore ι :=
  let s := { s with value := s.value + 1 }
  s.wakeUpNext.getD s

/-- The part of `acquire` up to its `await`: whether it took a slot at once. -/
def acquire (s : AsyncSemaphore ι) (i : ι) : Bool × AsyncSemaphore ι :=
  if s.locked then (false, { s with waiters := s.waiters ++ [(i, .pending)] })
  else (true, { s with value := s.value - 1 })

/-- A cancellation of the task of a waiter: a pending future is cancelled, and one that was handed a
slot keeps it until the task resumes. -/
def cancel [DecidableEq ι] (s : AsyncSemaphore ι) (i : ι) : AsyncSemaphore ι :=
  { s with
    waiters := s.waiters.map fun w => if w = (i, .pending) then (i, .cancelled) else w }

/-- The future of a waiter. -/
def stateOf [DecidableEq ι] (s : AsyncSemaphore ι) (i : ι) : Option WaiterState :=
  (s.waiters.find? fun w => w.1 = i).map Prod.snd

/-- The part of `acquire` after its `await`: `thrown` when the task was cancelled. -/
def resume [DecidableEq ι] (s : AsyncSemaphore ι) (i : ι) (thrown : Bool) : AsyncSemaphore ι :=
  let value := if thrown ∧ (i, .handed) ∈ s.waiters then s.value + 1 else s.value
  wakeUp ⟨value, s.waiters.filter fun w => w.1 ≠ i⟩

/-- The waiters that were handed a slot and have not resumed. -/
def handed (s : AsyncSemaphore ι) : List ι :=
  (s.waiters.filter fun w => w.2 = .handed).map Prod.fst

/-- The slots that are free or handed over. -/
def slots (s : AsyncSemaphore ι) : ℤ := s.value + s.handed.length

/-! ## What the operations do to the slots -/

/-- The future of a waiter is in the queue. -/
theorem mem_of_stateOf [DecidableEq ι] {s : AsyncSemaphore ι} {i : ι} {state : WaiterState}
    (h : s.stateOf i = some state) : (i, state) ∈ s.waiters := by
  obtain ⟨⟨j, state⟩, hfind, rfl⟩ := Option.map_eq_some_iff.mp h
  obtain rfl : j = i := by simpa using List.find?_some hfind
  exact List.mem_of_find?_eq_some hfind

/-- A waiter of the queue has its future. -/
theorem stateOf_of_mem [DecidableEq ι] {s : AsyncSemaphore ι} (hnodup : (s.waiters.map Prod.fst).Nodup)
    {i : ι} {state : WaiterState} (h : (i, state) ∈ s.waiters) : s.stateOf i = some state := by
  have hsome : ((s.waiters.find? fun w => w.1 = i).isSome) = true := by
    rw [List.find?_isSome]
    exact ⟨_, h, decide_eq_true rfl⟩
  obtain ⟨⟨j, state'⟩, hfind⟩ := Option.isSome_iff_exists.mp hsome
  obtain rfl : j = i := by simpa using List.find?_some hfind
  have hsame := List.inj_on_of_nodup_map hnodup (List.mem_of_find?_eq_some hfind) h rfl
  rw [stateOf, hfind, hsame]
  rfl

/-- Handing over adds a waiter to those that were handed a slot, and keeps the queue. -/
theorem handFirst_spec {waiters waiters' : List (ι × WaiterState)}
    (h : handFirst waiters = some waiters') :
    waiters'.map Prod.fst = waiters.map Prod.fst ∧
      (waiters'.filter fun w => w.2 = .handed).length =
        (waiters.filter fun w => w.2 = .handed).length + 1 := by
  induction waiters generalizing waiters' with
  | nil => cases h
  | cons w waiters ih =>
    obtain ⟨i, state⟩ := w
    cases state with
    | pending =>
      obtain rfl := Option.some.inj h
      simp
    | handed =>
      obtain ⟨rest, hrest, rfl⟩ := Option.map_eq_some_iff.mp h
      obtain ⟨hids, hcount⟩ := ih hrest
      simp [hids, hcount]
    | cancelled =>
      obtain ⟨rest, hrest, rfl⟩ := Option.map_eq_some_iff.mp h
      obtain ⟨hids, hcount⟩ := ih hrest
      simp [hids, hcount]

/-- Waking a waiter up takes the slot that it hands over from the value. -/
theorem wakeUpNext_spec {s s' : AsyncSemaphore ι} (h : s.wakeUpNext = some s') :
    s'.slots = s.slots ∧ s'.waiters.map Prod.fst = s.waiters.map Prod.fst ∧
      s'.value = s.value - 1 := by
  obtain ⟨waiters, hhand, rfl⟩ := Option.map_eq_some_iff.mp h
  obtain ⟨hids, hcount⟩ := handFirst_spec hhand
  refine ⟨?_, hids, rfl⟩
  simp only [slots, handed, List.length_map, hcount]
  push_cast
  omega

/-- Waking waiters up keeps the slots and the queue, and takes no slot that is not there. -/
theorem wakeUpWhile_spec (n : ℕ) (s : AsyncSemaphore ι) (h : 0 ≤ s.value) :
    (wakeUpWhile n s).slots = s.slots ∧
      (wakeUpWhile n s).waiters.map Prod.fst = s.waiters.map Prod.fst ∧
      0 ≤ (wakeUpWhile n s).value := by
  induction n generalizing s with
  | zero => exact ⟨rfl, rfl, h⟩
  | succ n ih =>
    unfold wakeUpWhile
    split_ifs with hpos
    · split
      · next s' hwake =>
        obtain ⟨hslots, hids, hvalue⟩ := wakeUpNext_spec hwake
        obtain ⟨hslots', hids', hvalue'⟩ := ih s' (by omega)
        exact ⟨hslots'.trans hslots, hids'.trans hids, hvalue'⟩
      · exact ⟨rfl, rfl, h⟩
    · exact ⟨rfl, rfl, h⟩

/-- Waking waiters up keeps the slots and the queue, and takes no slot that is not there. -/
theorem wakeUp_spec (s : AsyncSemaphore ι) (h : 0 ≤ s.value) :
    s.wakeUp.slots = s.slots ∧ s.wakeUp.waiters.map Prod.fst = s.waiters.map Prod.fst ∧
      0 ≤ s.wakeUp.value := wakeUpWhile_spec _ s h

/-- A release gives a slot back. -/
theorem release_spec (s : AsyncSemaphore ι) (h : 0 ≤ s.value) :
    s.release.slots = s.slots + 1 ∧ s.release.waiters.map Prod.fst = s.waiters.map Prod.fst ∧
      0 ≤ s.release.value := by
  have hmore : ({ s with value := s.value + 1 } : AsyncSemaphore ι).slots = s.slots + 1 := by
    simp only [slots, handed]
    omega
  unfold release
  dsimp only
  cases hwake : ({ s with value := s.value + 1 } : AsyncSemaphore ι).wakeUpNext with
  | none => exact ⟨hmore, rfl, by simp only [Option.getD_none]; omega⟩
  | some s' =>
    obtain ⟨hslots, hids, hvalue⟩ := wakeUpNext_spec hwake
    simp only [Option.getD_some]
    refine ⟨hslots.trans hmore, hids, ?_⟩
    rw [hvalue]
    simp only
    omega

/-- A semaphore that is not locked gives a slot at once. -/
theorem acquire_of_not_locked {s : AsyncSemaphore ι} (h : s.locked = false) (i : ι) :
    s.acquire i = (true, { s with value := s.value - 1 }) := by
  rw [acquire, h]
  rfl

/-- A locked one queues the caller. -/
theorem acquire_of_locked {s : AsyncSemaphore ι} (h : s.locked = true) (i : ι) :
    s.acquire i = (false, { s with waiters := s.waiters ++ [(i, .pending)] }) := by
  rw [acquire, h]
  rfl

/-- A semaphore that is not locked has a slot. -/
theorem value_ne_zero {s : AsyncSemaphore ι} (h : s.locked = false) : s.value ≠ 0 := by
  unfold locked at h
  simp only [Bool.or_eq_false_iff, beq_eq_false_iff_ne] at h
  exact h.1

/-- A new waiter holds no slot. -/
theorem slots_enqueue (s : AsyncSemaphore ι) (i : ι) :
    ({ s with waiters := s.waiters ++ [(i, .pending)] } : AsyncSemaphore ι).slots = s.slots := by
  simp [slots, handed]

/-- A cancellation hands nothing over and takes nothing back. -/
theorem cancel_spec [DecidableEq ι] (s : AsyncSemaphore ι) (i : ι) :
    (s.cancel i).slots = s.slots ∧ (s.cancel i).waiters.map Prod.fst = s.waiters.map Prod.fst ∧
      (s.cancel i).value = s.value := by
  have hwaiters : ∀ waiters : List (ι × WaiterState),
      ((waiters.map fun w => if w = (i, .pending) then (i, .cancelled) else w).filter
        fun w => w.2 = .handed) = waiters.filter fun w => w.2 = .handed := by
    intro waiters
    induction waiters with
    | nil => rfl
    | cons w waiters ih =>
      rw [List.map_cons]
      split_ifs with hw
      · subst hw
        simpa using ih
      · rw [List.filter_cons, List.filter_cons, ih]
  refine ⟨?_, ?_, rfl⟩
  · simp only [slots, handed, cancel, hwaiters]
  · simp only [cancel, List.map_map]
    apply List.map_congr_left
    intro w _
    simp only [Function.comp_apply]
    split_ifs with hw
    · rw [hw]
    · rfl

/-- The waiters that were handed a slot, without one of the waiters. -/
theorem handed_without [DecidableEq ι] {waiters : List (ι × WaiterState)} {i : ι}
    {state : WaiterState} (hmem : (i, state) ∈ waiters) (hnodup : (waiters.map Prod.fst).Nodup) :
    ((waiters.filter fun w => w.1 ≠ i).filter fun w => w.2 = .handed).length +
        (if state = .handed then 1 else 0) =
      (waiters.filter fun w => w.2 = .handed).length := by
  induction waiters with
  | nil => cases hmem
  | cons w waiters ih =>
    rw [List.map_cons, List.nodup_cons] at hnodup
    obtain ⟨hw, hnodup⟩ := hnodup
    rcases List.mem_cons.mp hmem with rfl | hmem
    · -- The waiter itself: it is nowhere else in the queue.
      have hrest : (waiters.filter fun w => w.1 ≠ i) = waiters := by
        apply List.filter_eq_self.mpr
        intro w' hw'
        simp only [ne_eq, decide_not, Bool.not_eq_eq_eq_not, Bool.not_true, decide_eq_false_iff_not]
        rintro rfl
        exact hw (List.mem_map.mpr ⟨w', hw', rfl⟩)
      rw [List.filter_cons_of_neg (by simp), hrest, List.filter_cons]
      by_cases hstate : state = .handed <;> simp [hstate]
    · have hne : w.1 ≠ i := by
        rintro rfl
        exact hw (List.mem_map.mpr ⟨_, hmem, rfl⟩)
      have hrest := ih hmem hnodup
      rw [List.filter_cons_of_pos (by simpa using hne), List.filter_cons, List.filter_cons]
      by_cases hhanded : decide (w.2 = .handed) = true
      · rw [if_pos hhanded, if_pos hhanded, List.length_cons, List.length_cons]
        omega
      · rw [if_neg hhanded, if_neg hhanded]
        exact hrest

/-- A waiter that resumes leaves the queue, and takes the slot that it was handed, or gives it back
if it was cancelled. -/
theorem resume_spec [DecidableEq ι] (s : AsyncSemaphore ι) {i : ι} {state : WaiterState}
    (thrown : Bool) (hmem : (i, state) ∈ s.waiters) (hnodup : (s.waiters.map Prod.fst).Nodup)
    (h : 0 ≤ s.value) :
    (s.resume i thrown).slots = s.slots - (if state = .handed ∧ thrown = false then 1 else 0) ∧
      (s.resume i thrown).waiters.map Prod.fst =
        (s.waiters.map Prod.fst).filter (fun j => j ≠ i) ∧
      0 ≤ (s.resume i thrown).value := by
  have hgiven : (i, WaiterState.handed) ∈ s.waiters ↔ state = .handed := by
    constructor
    · intro hhanded
      have := List.inj_on_of_nodup_map hnodup hmem hhanded rfl
      exact (Prod.mk.inj this).2
    · rintro rfl
      exact hmem
  have hcount := handed_without hmem hnodup
  -- The slot that a cancelled waiter gives back.
  have hvalue : (if thrown = true ∧ (i, WaiterState.handed) ∈ s.waiters then s.value + 1
      else s.value) = s.value + if state = .handed ∧ thrown = true then 1 else 0 := by
    by_cases hback : thrown = true ∧ state = .handed
    · rw [if_pos ⟨hback.1, hgiven.mpr hback.2⟩, if_pos ⟨hback.2, hback.1⟩]
    · rw [if_neg fun hh => hback ⟨hh.1, hgiven.mp hh.2⟩, if_neg fun hh => hback ⟨hh.2, hh.1⟩]
      omega
  have hnonneg : 0 ≤ s.value + if state = .handed ∧ thrown = true then 1 else 0 := by
    split_ifs <;> omega
  unfold resume
  dsimp only
  rw [hvalue]
  obtain ⟨hslots, hids, hvalue'⟩ := wakeUp_spec
    ⟨s.value + if state = .handed ∧ thrown = true then 1 else 0,
      s.waiters.filter fun w => w.1 ≠ i⟩ hnonneg
  refine ⟨?_, ?_, hvalue'⟩
  · rw [hslots]
    simp only [slots, handed, List.length_map]
    cases thrown <;> by_cases hstate : state = .handed <;> simp [hstate] at hcount ⊢ <;> omega
  · rw [hids, List.filter_map]
    rfl

/-! ## No waiter is forgotten -/

/-- The waiter is pending. -/
def IsPending (s : AsyncSemaphore ι) (i : ι) : Prop := (i, WaiterState.pending) ∈ s.waiters

/-- While a waiter is pending, there is no free slot, or a slot was handed to another waiter, which hands on
what is left when it resumes. -/
def Served (s : AsyncSemaphore ι) : Prop :=
  ∀ i, s.IsPending i → 0 < s.value → ∃ j, (j, WaiterState.handed) ∈ s.waiters

/-- Nobody is handed a slot only if nobody is pending. -/
theorem not_pending_of_handFirst {waiters : List (ι × WaiterState)} (h : handFirst waiters = none)
    (i : ι) : (i, WaiterState.pending) ∉ waiters := by
  induction waiters with
  | nil => exact List.not_mem_nil
  | cons w waiters ih =>
    obtain ⟨j, state⟩ := w
    cases state with
    | pending => cases h
    | handed =>
      have hrest := ih (Option.map_eq_none_iff.mp h)
      simpa using hrest
    | cancelled =>
      have hrest := ih (Option.map_eq_none_iff.mp h)
      simpa using hrest

/-- Otherwise somebody is. -/
theorem exists_handed_of_handFirst {waiters waiters' : List (ι × WaiterState)}
    (h : handFirst waiters = some waiters') : ∃ j, (j, WaiterState.handed) ∈ waiters' := by
  induction waiters generalizing waiters' with
  | nil => cases h
  | cons w waiters ih =>
    obtain ⟨i, state⟩ := w
    cases state with
    | pending =>
      obtain rfl := Option.some.inj h
      exact ⟨i, List.mem_cons_self⟩
    | handed =>
      obtain ⟨rest, hrest, rfl⟩ := Option.map_eq_some_iff.mp h
      exact ⟨i, List.mem_cons_self⟩
    | cancelled =>
      obtain ⟨rest, hrest, rfl⟩ := Option.map_eq_some_iff.mp h
      obtain ⟨j, hj⟩ := ih hrest
      exact ⟨j, List.mem_cons_of_mem _ hj⟩

/-- Waking up goes on until there is no slot or nobody is pending. -/
theorem wakeUpWhile_served (n : ℕ) (s : AsyncSemaphore ι) (h : s.value ≤ n) :
    (wakeUpWhile n s).value ≤ 0 ∨ ∀ i, ¬ (wakeUpWhile n s).IsPending i := by
  induction n generalizing s with
  | zero => exact .inl h
  | succ n ih =>
    unfold wakeUpWhile
    split_ifs with hpos
    · split
      · next s' hwake =>
        apply ih
        rw [(wakeUpNext_spec hwake).2.2]
        push_cast at h
        omega
      · next hwake =>
        exact .inr (not_pending_of_handFirst (Option.map_eq_none_iff.mp hwake))
    · exact .inl (by omega)

/-- The loop leaves nobody forgotten. -/
theorem served_wakeUp (s : AsyncSemaphore ι) : s.wakeUp.Served := by
  intro j hj hpos
  rcases wakeUpWhile_served s.value.toNat s (Int.self_le_toNat _) with hnone | hnobody
  · change 0 < (wakeUpWhile s.value.toNat s).value at hpos
    omega
  · exact absurd hj (hnobody j)

/-- Neither does a waiter that resumes. -/
theorem served_resume [DecidableEq ι] (s : AsyncSemaphore ι) (i : ι) (thrown : Bool) :
    (s.resume i thrown).Served := served_wakeUp _

/-- Neither does a release. -/
theorem served_release {s : AsyncSemaphore ι} : s.release.Served := by
  intro i hi _
  unfold release at hi ⊢
  dsimp only at hi ⊢
  cases hwake : ({ s with value := s.value + 1 } : AsyncSemaphore ι).wakeUpNext with
  | none =>
    rw [hwake] at hi
    exact absurd hi (not_pending_of_handFirst (Option.map_eq_none_iff.mp hwake) i)
  | some s' =>
    obtain ⟨waiters, hhand, rfl⟩ := Option.map_eq_some_iff.mp hwake
    exact exists_handed_of_handFirst hhand

/-- A new waiter joins others that are served, or finds no slot. -/
theorem Served.acquire {s : AsyncSemaphore ι} (h : s.Served) (i : ι) :
    (s.acquire i).2.Served := by
  cases hlocked : s.locked with
  | false =>
    -- A semaphore that is not locked has nobody pending.
    rw [acquire_of_not_locked hlocked]
    intro j hj _
    have hnobody : s.waiters.any (fun w => w.2 != .cancelled) = false := by
      unfold locked at hlocked
      exact (Bool.or_eq_false_iff.mp hlocked).2
    have hpending := List.any_eq_false.mp hnobody _ hj
    exact absurd rfl hpending
  | true =>
    rw [acquire_of_locked hlocked]
    intro j _ hpos
    have hpositive : 0 < s.value := hpos
    have hone : ∃ w ∈ s.waiters, w.2 ≠ .cancelled := by
      unfold locked at hlocked
      have hne : s.value ≠ 0 := by omega
      simpa [hne] using hlocked
    obtain ⟨⟨k, state⟩, hk, hstate⟩ := hone
    -- Somebody holds a slot that was handed over, or is pending while there is a free one.
    have hhanded : ∃ k, (k, WaiterState.handed) ∈ s.waiters := by
      cases state with
      | handed => exact ⟨k, hk⟩
      | pending => exact h k hk hpos
      | cancelled => exact absurd rfl hstate
    obtain ⟨k, hk⟩ := hhanded
    exact ⟨k, List.mem_append_left _ hk⟩

/-- A cancellation leaves the others where they are. -/
theorem Served.cancel [DecidableEq ι] {s : AsyncSemaphore ι} (h : s.Served) (i : ι) :
    (s.cancel i).Served := by
  intro j hj hpos
  have hbefore : s.IsPending j := by
    obtain ⟨w, hw, heq⟩ := List.mem_map.mp hj
    split_ifs at heq with hsame
    · cases heq
    · rw [heq] at hw
      exact hw
  obtain ⟨k, hk⟩ := h j hbefore hpos
  refine ⟨k, List.mem_map.mpr ⟨_, hk, if_neg ?_⟩⟩
  intro heq
  cases (Prod.mk.inj heq).2

end AsyncSemaphore

end Python
