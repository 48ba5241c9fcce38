import Httpware.Resilience.Bulkhead

/-!
# A bulkhead conserves its slots

`Conserved` is what holds of a bulkhead at every moment: the calls inside `next`, the free slots, and
the slots handed to waiters add up to `max_concurrent`. Each of the two step functions keeps an
invariant that says so (`AsyncInvariant`, `SyncInvariant`): one step moves one call, so it is enough
that the slot that the call has, and the slots of the semaphore, have the same sum before and after.
-/

namespace Httpware.Bulkhead

open Python (AsyncSemaphore Number)

/-- The phases inside `next`. -/
def inside : Set CallPhase := {p | p = .inNext}

/-- The slot that a call has while it is inside `next`. -/
def CallPhase.slot : CallPhase → ℤ
  | inNext => 1
  | _ => 0

/-- The call waits for a slot. -/
def CallPhase.isWaiting : CallPhase → Bool
  | waiting _ => true
  | _ => false

/-- What a phase says of its call: only a bounded wait expires, and only a call whose wait has
expired is rejected, with the error of the bulkhead. -/
def CallPhase.Sound (cfg : Config) (expired : Prop) : CallPhase → Prop
  | waiting wait =>
    (wait.bounded = true → cfg.acquireTimeout ≠ none) ∧
      (wait.expired = true → wait.bounded = true ∧ expired)
  | finished (.full error) => error = cfg.fullError ∧ cfg.acquireTimeout ≠ none ∧ expired
  | _ => True

/-- What holds of a bulkhead at every moment, with these slots free, and these waiters holding a slot
that was handed to them; `expired` says whose wait has expired. -/
structure Conserved (cfg : Config) (free : ℤ) (handed : List CallId) (expired : CallId → Prop)
    (phase : CallId → CallPhase) : Prop where
  /-- Finitely many calls are inside `next`. -/
  finite : (Shared.those inside phase).Finite
  /-- Every slot is somewhere. -/
  slots : (Shared.count inside phase : ℤ) + free + handed.length = cfg.maxConcurrent
  free_nonneg : 0 ≤ free
  /-- No more calls than slots. -/
  capped : (Shared.count inside phase : ℤ) ≤ cfg.maxConcurrent
  /-- Only a waiting call holds a slot that was handed to it, and no more than one. -/
  handed_waiting : ∀ c ∈ handed, ∃ wait, phase c = .waiting wait
  handed_nodup : handed.Nodup
  /-- Only a call whose bounded wait has expired is rejected. -/
  full : ∀ c error, phase c = .finished (.full error) →
    error = cfg.fullError ∧ cfg.acquireTimeout ≠ none ∧ expired c
  /-- With no call in progress, every slot is free. -/
  drained : (∀ c, (phase c).inProgress = false) → free = cfg.maxConcurrent

/-- A call's slot counts it among those inside. -/
theorem count_update {phase : CallId → CallPhase} (h : (Shared.those inside phase).Finite)
    (c : CallId) (p : CallPhase) :
    (Shared.count inside (Function.update phase c p) : ℤ) + (phase c).slot =
      Shared.count inside phase + p.slot := by
  classical
  have hslot : ∀ p : CallPhase, p.slot = ((if p ∈ inside then 1 else 0 : ℕ) : ℤ) := by
    intro p
    cases p <;> simp [CallPhase.slot, inside]
  rw [hslot, hslot]
  exact_mod_cast Shared.count_update h c p

/-- Every slot is somewhere, and nobody waits with a slot: the summary. -/
theorem Conserved.of_slots {cfg : Config} {free : ℤ} {handed : List CallId}
    {expired : CallId → Prop} {phase : CallId → CallPhase}
    (hfinite : (Shared.those inside phase).Finite)
    (hslots : (Shared.count inside phase : ℤ) + (free + handed.length) = cfg.maxConcurrent)
    (hfree : 0 ≤ free) (hhanded : ∀ c ∈ handed, ∃ wait, phase c = .waiting wait)
    (hnodup : handed.Nodup) (hsound : ∀ c, (phase c).Sound cfg (expired c)) :
    Conserved cfg free handed expired phase where
  finite := hfinite
  slots := by omega
  free_nonneg := hfree
  capped := by omega
  handed_waiting := hhanded
  handed_nodup := hnodup
  full c error hc := by
    have hfull := hsound c
    rw [hc] at hfull
    exact hfull
  drained hidle := by
    have hnone : Shared.those inside phase = ∅ := by
      ext c
      have hc := hidle c
      simp only [Shared.those, inside, Set.mem_ofPred_eq, Set.mem_empty_iff_false, iff_false]
      intro hin
      rw [hin] at hc
      cases hc
    have hhanded : handed = [] := by
      apply List.eq_nil_iff_forall_not_mem.mpr
      intro c hmem
      obtain ⟨wait, hwait⟩ := hhanded c hmem
      have hc := hidle c
      rw [hwait] at hc
      cases hc
    rw [Shared.count, hnone, Set.ncard_empty, hhanded] at hslots
    simpa using hslots

/-- Soundness for a longer run. -/
theorem CallPhase.Sound.mono {cfg : Config} {expired expired' : Prop} {p : CallPhase}
    (h : p.Sound cfg expired) (himp : expired → expired') : p.Sound cfg expired' := by
  cases p with
  | idle => trivial
  | waiting wait => exact ⟨h.1, fun hexpired => ⟨(h.2 hexpired).1, himp (h.2 hexpired).2⟩⟩
  | inNext => trivial
  | finished ending =>
    cases ending with
    | full error => exact ⟨h.1, h.2.1, himp h.2.2⟩
    | _ => trivial

/-! ## The async bulkhead -/

/-- The timeout of a call has expired. -/
def Expired (run : List ((CallId × AsyncAction) × List Event)) (c : CallId) : Prop :=
  ∃ o, ((c, .expire), o) ∈ run

/-- What every step of an async call keeps. -/
structure AsyncInvariant (cfg : Config) (run : List ((CallId × AsyncAction) × List Event))
    (s : Shared AsyncState CallId CallPhase) : Prop where
  finite : (Shared.those inside s.phase).Finite
  slots : (Shared.count inside s.phase : ℤ) + s.resource.sem.slots = cfg.maxConcurrent
  value_nonneg : 0 ≤ s.resource.sem.value
  /-- The queue is that of the waiting calls. -/
  queue : ∀ c, c ∈ s.resource.sem.waiters.map Prod.fst ↔ (s.phase c).isWaiting = true
  queue_nodup : (s.resource.sem.waiters.map Prod.fst).Nodup
  sound : ∀ c, (s.phase c).Sound cfg (Expired run c)

/-- A step keeps the invariant if it keeps the sum of the call's slot and the semaphore's, and the
call is in the queue exactly when it waits. -/
theorem AsyncInvariant.move {cfg : Config} {run : List ((CallId × AsyncAction) × List Event)}
    {s : Shared AsyncState CallId CallPhase} (h : AsyncInvariant cfg run s) {c : CallId}
    {a : AsyncAction} {o : List Event} {r : AsyncState} {p : CallPhase}
    (hslots : p.slot + r.sem.slots = (s.phase c).slot + s.resource.sem.slots)
    (hvalue : 0 ≤ r.sem.value)
    (hothers : ∀ d, d ≠ c →
      (d ∈ r.sem.waiters.map Prod.fst ↔ d ∈ s.resource.sem.waiters.map Prod.fst))
    (hqueue : c ∈ r.sem.waiters.map Prod.fst ↔ p.isWaiting = true)
    (hnodup : (r.sem.waiters.map Prod.fst).Nodup)
    (hsound : p.Sound cfg (Expired (run ++ [((c, a), o)]) c)) :
    AsyncInvariant cfg (run ++ [((c, a), o)]) ⟨r, Function.update s.phase c p⟩ where
  finite := Shared.finite_update h.finite c p
  slots := by
    have hcount := count_update h.finite c p
    have := h.slots
    dsimp only
    omega
  value_nonneg := hvalue
  queue d := by
    dsimp only
    rcases eq_or_ne d c with rfl | hdc
    · rw [Function.update_self]
      exact hqueue
    · rw [Function.update_of_ne hdc, hothers d hdc]
      exact h.queue d
  queue_nodup := hnodup
  sound d := by
    dsimp only
    rcases eq_or_ne d c with rfl | hdc
    · rw [Function.update_self]
      exact hsound
    · rw [Function.update_of_ne hdc]
      exact (h.sound d).mono fun ⟨o', hmem⟩ => ⟨o', List.mem_append_left _ hmem⟩

/-- A new bulkhead. -/
theorem AsyncInvariant.init (cfg : Config) :
    AsyncInvariant cfg [] ⟨⟨none, .init cfg.maxConcurrent⟩, fun _ => .idle⟩ where
  finite := by
    rw [Shared.those_const (by simp [inside])]
    exact Set.finite_empty
  slots := by
    rw [Shared.count, Shared.those_const (by simp [inside]), Set.ncard_empty]
    simp [AsyncSemaphore.slots, AsyncSemaphore.handed, AsyncSemaphore.init]
  value_nonneg := by
    have := cfg.maxConcurrent_pos
    simp only [AsyncSemaphore.init]
    omega
  queue c := by simp [AsyncSemaphore.init, CallPhase.isWaiting]
  queue_nodup := List.nodup_nil
  sound c := trivial

/-- The start of a call takes a slot, or joins the queue. -/
theorem AsyncInvariant.start {cfg : Config} {run : List ((CallId × AsyncAction) × List Event)}
    {s : Shared AsyncState CallId CallPhase} (h : AsyncInvariant cfg run s) {request : Request}
    {c : CallId} {loop : LoopId} {o : List Event} {r : AsyncState} {p : CallPhase}
    (hidle : s.phase c = .idle)
    (hstep : asyncCallStep cfg request c s.resource .idle (.start loop) = some (o, r, p)) :
    AsyncInvariant cfg (run ++ [((c, .start loop), o)]) ⟨r, Function.update s.phase c p⟩ := by
  have hout : c ∉ s.resource.sem.waiters.map Prod.fst := by
    rw [h.queue, hidle]
    exact Bool.false_ne_true
  simp only [asyncCallStep] at hstep
  split at hstep
  · -- A call from another event loop.
    obtain ⟨rfl, rfl, rfl⟩ : [] = o ∧ s.resource = r ∧ _ = p := by simpa using hstep
    refine h.move ?_ h.value_nonneg (fun d _ => Iff.rfl) ?_ h.queue_nodup trivial
    · rw [hidle]
      rfl
    · exact iff_of_false hout Bool.false_ne_true
  · next bound _ =>
    cases hlocked : s.resource.sem.locked with
    | false =>
      rw [AsyncSemaphore.acquire_of_not_locked hlocked] at hstep
      obtain ⟨rfl, rfl, rfl⟩ : [] = o ∧ _ = r ∧ _ = p := by simpa using hstep
      -- A free slot: the call takes it from the value.
      have hvalue := h.value_nonneg
      have hne := AsyncSemaphore.value_ne_zero hlocked
      refine h.move ?_ ?_ (fun d _ => Iff.rfl) ?_ h.queue_nodup trivial
      · rw [hidle]
        simp only [CallPhase.slot, AsyncSemaphore.slots, AsyncSemaphore.handed]
        omega
      · dsimp only
        omega
      · exact iff_of_false hout Bool.false_ne_true
    | true =>
      rw [AsyncSemaphore.acquire_of_locked hlocked] at hstep
      obtain ⟨rfl, rfl, rfl⟩ : [] = o ∧ _ = r ∧ _ = p := by simpa using hstep
      -- No slot: the call joins the end of the queue, which it was not in.
      refine h.move ?_ h.value_nonneg ?_ ?_ ?_ ?_
      · rw [hidle, AsyncSemaphore.slots_enqueue]
        rfl
      · intro d hdc
        simp [hdc]
      · simp [CallPhase.isWaiting]
      · rw [List.map_append, List.nodup_append]
        refine ⟨h.queue_nodup, by simp, ?_⟩
        intro d hd e he
        obtain rfl : e = c := by simpa using he
        rintro rfl
        exact hout hd
      · refine ⟨fun hbounded => ?_, fun hexpired => by cases hexpired⟩
        rintro hnone
        simp [hnone] at hbounded

/-- A cancellation of a waiting task moves no slot. -/
theorem AsyncInvariant.cancelled {cfg : Config} {run : List ((CallId × AsyncAction) × List Event)}
    {s : Shared AsyncState CallId CallPhase} (h : AsyncInvariant cfg run s) {c : CallId}
    {wait wait' : Wait} (hwait : s.phase c = .waiting wait) {a : AsyncAction} {o : List Event}
    (hsound : (CallPhase.waiting wait').Sound cfg (Expired (run ++ [((c, a), o)]) c)) :
    AsyncInvariant cfg (run ++ [((c, a), o)])
      ⟨{ s.resource with sem := s.resource.sem.cancel c },
        Function.update s.phase c (.waiting wait')⟩ := by
  obtain ⟨hslots, hids, hvalue⟩ := AsyncSemaphore.cancel_spec s.resource.sem c
  refine h.move ?_ ?_ (fun d _ => ?_) ?_ ?_ hsound
  · rw [hwait, hslots]
    rfl
  · rw [hvalue]
    exact h.value_nonneg
  · rw [hids]
  · rw [hids, h.queue, hwait]
    rfl
  · rw [hids]
    exact h.queue_nodup

/-- A task that resumes leaves the queue: it takes the slot that it was handed into `next`, or gives
it back. -/
theorem AsyncInvariant.resumed {cfg : Config} {run : List ((CallId × AsyncAction) × List Event)}
    {s : Shared AsyncState CallId CallPhase} (h : AsyncInvariant cfg run s) {c : CallId}
    {wait : Wait} (hwait : s.phase c = .waiting wait) {state : Python.WaiterState}
    (hstate : s.resource.sem.stateOf c = some state) (thrown : Bool) {a : AsyncAction}
    {o : List Event} {p : CallPhase} (hp : p.isWaiting = false)
    (hslot : p.slot = if state = .handed ∧ thrown = false then 1 else 0)
    (hsound : p.Sound cfg (Expired (run ++ [((c, a), o)]) c)) :
    AsyncInvariant cfg (run ++ [((c, a), o)])
      ⟨{ s.resource with sem := s.resource.sem.resume c thrown }, Function.update s.phase c p⟩ := by
  obtain ⟨hslots, hids, hvalue⟩ := AsyncSemaphore.resume_spec s.resource.sem thrown
    (AsyncSemaphore.mem_of_stateOf hstate) h.queue_nodup h.value_nonneg
  -- The slot of a future that was handed one goes to the call, or back to the semaphore.
  refine h.move ?_ hvalue (fun d hdc => ?_) ?_ ?_ hsound
  · rw [hwait, hslots, hslot]
    simp only [CallPhase.slot]
    omega
  · rw [hids, List.mem_filter]
    simp [hdc]
  · rw [hids, hp, List.mem_filter]
    simp
  · rw [hids]
    exact h.queue_nodup.filter _

/-- Every step of an async call keeps the invariant. -/
theorem AsyncInvariant.step {cfg : Config} {run : List ((CallId × AsyncAction) × List Event)}
    {s : Shared AsyncState CallId CallPhase} (h : AsyncInvariant cfg run s) {request : Request}
    {c : CallId} {a : AsyncAction} {o : List Event} {r : AsyncState} {p : CallPhase}
    (hstep : asyncCallStep cfg request c s.resource (s.phase c) a = some (o, r, p)) :
    AsyncInvariant cfg (run ++ [((c, a), o)]) ⟨r, Function.update s.phase c p⟩ := by
  have hsound := h.sound c
  generalize hphase : s.phase c = phase at hstep hsound
  have hlonger : ∀ x, Expired run c → Expired (run ++ [x]) c :=
    fun x ⟨o', hmem⟩ => ⟨o', List.mem_append_left _ hmem⟩
  cases a with
  | start loop =>
    cases phase with
    | idle => exact h.start hphase hstep
    | _ => cases hstep
  | expire =>
    cases phase with
    | waiting wait =>
      simp only [asyncCallStep] at hstep
      split_ifs at hstep with hbounded
      obtain ⟨rfl, rfl, rfl⟩ : [] = o ∧ _ = r ∧ _ = p := by simpa using hstep
      -- `asyncio.timeout` cancels the waiting task: this step is its expiry.
      refine h.cancelled hphase ⟨hsound.1, fun _ => ⟨hbounded.1, [], ?_⟩⟩
      exact List.mem_append_right _ (List.mem_singleton_self _)
    | _ => cases hstep
  | cancel =>
    cases phase with
    | waiting wait =>
      obtain ⟨rfl, rfl, rfl⟩ : [] = o ∧ _ = r ∧ _ = p := by simpa [asyncCallStep] using hstep
      exact h.cancelled hphase (hsound.mono (hlonger _))
    | _ => cases hstep
  | resume escapes =>
    cases phase with
    | waiting wait =>
      simp only [asyncCallStep] at hstep
      split at hstep
      · cases hstep
      · cases hstep
      · next state hpending hstate =>
        split_ifs at hstep with hthrown hexpired
        · -- The wait has expired.
          obtain ⟨rfl, rfl, rfl⟩ : _ = o ∧ _ = r ∧ _ = p := by simpa using hstep
          obtain ⟨hbounded, hexp⟩ := hsound.2 hexpired.1
          refine h.resumed hphase hstate _ rfl ?_ ?_
          · rw [hthrown]
            simp [CallPhase.slot]
          · cases escapes with
            | false => exact ⟨rfl, hsound.1 hbounded, hlonger _ hexp⟩
            | true => trivial
        · -- The task was cancelled.
          obtain ⟨rfl, rfl, rfl⟩ : [] = o ∧ _ = r ∧ _ = p := by simpa using hstep
          refine h.resumed hphase hstate _ rfl ?_ trivial
          rw [hthrown]
          simp [CallPhase.slot]
        · -- Nobody cancelled the task, so its future was handed a slot.
          obtain ⟨rfl, rfl, rfl⟩ : [] = o ∧ _ = r ∧ _ = p := by simpa using hstep
          refine h.resumed hphase hstate _ rfl ?_ trivial
          have hnot := Bool.eq_false_iff.mpr hthrown
          rw [hnot]
          cases state with
          | handed => rfl
          | pending => exact absurd rfl hpending
          | cancelled => simp at hthrown
    | _ => cases hstep
  | finish ending =>
    cases phase with
    | inNext =>
      obtain ⟨rfl, rfl, rfl⟩ : [] = o ∧ _ = r ∧ _ = p := by simpa [asyncCallStep] using hstep
      obtain ⟨hslots, hids, hvalue⟩ :=
        AsyncSemaphore.release_spec s.resource.sem h.value_nonneg
      -- `release` hands the slot to the first pending future, or adds it to the value.
      refine h.move ?_ hvalue (fun d _ => ?_) ?_ ?_ trivial
      · rw [hphase, hslots]
        simp only [CallPhase.slot]
        omega
      · rw [hids]
      · rw [hids, h.queue, hphase]
        rfl
      · rw [hids]
        exact h.queue_nodup
    | _ => cases hstep

/-- The invariant of the async bulkhead conserves the slots. -/
theorem AsyncInvariant.conserved {cfg : Config} {run : List ((CallId × AsyncAction) × List Event)}
    {s : Shared AsyncState CallId CallPhase} (h : AsyncInvariant cfg run s) :
    Conserved cfg s.resource.sem.value s.resource.sem.handed (Expired run) s.phase := by
  -- The handed futures are some of the queue, whose calls wait.
  have hsub : s.resource.sem.handed.Sublist (s.resource.sem.waiters.map Prod.fst) :=
    List.filter_sublist.map Prod.fst
  apply Conserved.of_slots h.finite h.slots h.value_nonneg
  · intro c hc
    have hwaiting := (h.queue c).mp (hsub.subset hc)
    cases hphase : s.phase c with
    | waiting wait => exact ⟨wait, rfl⟩
    | _ =>
      rw [hphase] at hwaiting
      cases hwaiting
  · exact hsub.nodup h.queue_nodup
  · exact h.sound

/-! ## The sync bulkhead -/

/-- The timeout of a sync call had passed when it looked for a slot. -/
def SyncExpired (run : List ((CallId × SyncAction) × List Event)) (c : CallId) : Prop :=
  ∃ escapes o, ((c, .expire escapes), o) ∈ run

/-- What every step of a sync call keeps. -/
structure SyncInvariant (cfg : Config) (run : List ((CallId × SyncAction) × List Event))
    (s : Shared ℤ CallId CallPhase) : Prop where
  finite : (Shared.those inside s.phase).Finite
  slots : (Shared.count inside s.phase : ℤ) + s.resource = cfg.maxConcurrent
  value_nonneg : 0 ≤ s.resource
  sound : ∀ c, (s.phase c).Sound cfg (SyncExpired run c)

/-- A step keeps the invariant if it keeps the sum of the call's slot and the value. -/
theorem SyncInvariant.move {cfg : Config} {run : List ((CallId × SyncAction) × List Event)}
    {s : Shared ℤ CallId CallPhase} (h : SyncInvariant cfg run s) {c : CallId} {a : SyncAction}
    {o : List Event} {value : ℤ} {p : CallPhase}
    (hslots : p.slot + value = (s.phase c).slot + s.resource) (hvalue : 0 ≤ value)
    (hsound : p.Sound cfg (SyncExpired (run ++ [((c, a), o)]) c)) :
    SyncInvariant cfg (run ++ [((c, a), o)]) ⟨value, Function.update s.phase c p⟩ where
  finite := Shared.finite_update h.finite c p
  slots := by
    have hcount := count_update h.finite c p
    have := h.slots
    dsimp only
    omega
  value_nonneg := hvalue
  sound d := by
    dsimp only
    rcases eq_or_ne d c with rfl | hdc
    · rw [Function.update_self]
      exact hsound
    · rw [Function.update_of_ne hdc]
      exact (h.sound d).mono fun ⟨e, o', hmem⟩ => ⟨e, o', List.mem_append_left _ hmem⟩

/-- A new bulkhead. -/
theorem SyncInvariant.init (cfg : Config) :
    SyncInvariant cfg [] ⟨cfg.maxConcurrent, fun _ => .idle⟩ where
  finite := by
    rw [Shared.those_const (by simp [inside])]
    exact Set.finite_empty
  slots := by
    rw [Shared.count, Shared.those_const (by simp [inside]), Set.ncard_empty]
    simp
  value_nonneg := by
    have := cfg.maxConcurrent_pos
    dsimp only
    omega
  sound c := trivial

/-- Every step of a sync call keeps the invariant. -/
theorem SyncInvariant.step {cfg : Config} {run : List ((CallId × SyncAction) × List Event)}
    {s : Shared ℤ CallId CallPhase} (h : SyncInvariant cfg run s) {request : Request} {c : CallId}
    {a : SyncAction} {o : List Event} {value : ℤ} {p : CallPhase}
    (hstep : syncCallStep cfg request s.resource (s.phase c) a = some (o, value, p)) :
    SyncInvariant cfg (run ++ [((c, a), o)]) ⟨value, Function.update s.phase c p⟩ := by
  have hsound := h.sound c
  have hnonneg := h.value_nonneg
  generalize hphase : s.phase c = phase at hstep hsound
  -- A call that finds a slot takes it.
  have htake : ∀ {a o}, phase.slot = 0 → s.resource ≠ 0 →
      SyncInvariant cfg (run ++ [((c, a), o)])
        ⟨s.resource - 1, Function.update s.phase c .inNext⟩ := by
    intro a o hout hne
    refine h.move ?_ ?_ trivial
    · rw [hphase, hout]
      simp only [CallPhase.slot]
      omega
    · omega
  unfold syncCallStep at hstep
  split at hstep
  · split_ifs at hstep with hzero
    · obtain ⟨rfl, rfl, rfl⟩ : [] = o ∧ s.resource = value ∧ _ = p := by simpa using hstep
      -- No slot yet: the call waits, unless it is not to wait at all.
      refine h.move ?_ hnonneg ⟨fun hbounded hnone => ?_, fun hexpired => by cases hexpired⟩
      · rw [hphase]
        rfl
      · rw [hnone] at hbounded
        cases hbounded
    · obtain ⟨rfl, rfl, rfl⟩ : [] = o ∧ _ = value ∧ _ = p := by simpa using hstep
      exact htake rfl hzero
  · next wait =>
    split_ifs at hstep with hzero
    · obtain ⟨rfl, rfl, rfl⟩ : [] = o ∧ s.resource = value ∧ _ = p := by simpa using hstep
      refine h.move ?_ hnonneg (hsound.mono ?_)
      · rw [hphase]
      · exact fun ⟨e, o', hmem⟩ => ⟨e, o', List.mem_append_left _ hmem⟩
    · obtain ⟨rfl, rfl, rfl⟩ : [] = o ∧ _ = value ∧ _ = p := by simpa using hstep
      exact htake rfl hzero
  · next wait escapes =>
    split_ifs at hstep with hbounded hzero
    · -- The timeout passed without a slot: the rejection shows this step as its expiry.
      obtain ⟨rfl, rfl, rfl⟩ : _ = o ∧ s.resource = value ∧ _ = p := by simpa using hstep
      refine h.move ?_ hnonneg ?_
      · rw [hphase]
        cases escapes <;> rfl
      · cases escapes with
        | false =>
          refine ⟨rfl, hsound.1 hbounded, false, [rejectedEvent cfg request], ?_⟩
          exact List.mem_append_right _ (List.mem_singleton_self _)
        | true => trivial
    · obtain ⟨rfl, rfl, rfl⟩ : [] = o ∧ _ = value ∧ _ = p := by simpa using hstep
      exact htake rfl hzero
  · obtain ⟨rfl, rfl, rfl⟩ : [] = o ∧ s.resource = value ∧ _ = p := by simpa using hstep
    refine h.move ?_ hnonneg trivial
    rw [hphase]
    rfl
  · obtain ⟨rfl, rfl, rfl⟩ : [] = o ∧ _ = value ∧ _ = p := by simpa using hstep
    refine h.move ?_ ?_ trivial
    · rw [hphase]
      simp only [CallPhase.slot]
      omega
    · omega
  · cases hstep

/-- The invariant of the sync bulkhead conserves the slots: none is ever handed over. -/
theorem SyncInvariant.conserved {cfg : Config} {run : List ((CallId × SyncAction) × List Event)}
    {s : Shared ℤ CallId CallPhase} (h : SyncInvariant cfg run s) :
    Conserved cfg s.resource [] (SyncExpired run) s.phase := by
  apply Conserved.of_slots h.finite
  · have := h.slots
    simpa using this
  · exact h.value_nonneg
  · intro c hc
    cases hc
  · exact List.nodup_nil
  · exact h.sound

/-! ## Every run -/

/-- Bulkheads conserve their slots: in every interleaving of calls through one `AsyncBulkhead` or one
`Bulkhead`, at every moment. -/
theorem slots_conserved (cfg : Config) (request : CallId → Request) :
    (∀ run s, (asyncBulkhead cfg request).Runs run s →
      Conserved cfg s.resource.sem.value s.resource.sem.handed (Expired run) s.phase) ∧
    (∀ run s, (bulkhead cfg request).Runs run s →
      Conserved cfg s.resource [] (SyncExpired run) s.phase) := by
  constructor
  · intro run s hrun
    apply AsyncInvariant.conserved
    apply Shared.invariant (I := fun run s => AsyncInvariant cfg run s) _ _ hrun
    · exact AsyncInvariant.init cfg
    · intro run s c a o r p h hstep
      exact h.step hstep
  · intro run s hrun
    apply SyncInvariant.conserved
    apply Shared.invariant (I := fun run s => SyncInvariant cfg run s) _ _ hrun
    · exact SyncInvariant.init cfg
    · intro run s c a o value p h hstep
      exact h.step hstep

/-- One slot, and a wait of a second. -/
def oneSlot : Config where
  maxConcurrent := 1
  accepted := by decide +kernel

/-- A second call waits, and is handed the slot of the first. -/
def handedOver : List (CallId × AsyncAction) :=
  [(0, .start 0), (1, .start 0), (0, .finish (.raised .networkError))]

/-- Before the second call resumes nobody is inside `next`: it holds the slot. -/
theorem slots_conserved_handed_over : ∃ run s,
    (asyncBulkhead oneSlot fun _ => ⟨"GET", ⟨"https", "a", none, "a", "https://a/"⟩, [], []⟩).Runs
        run s ∧
      s.resource.sem.handed = [1] ∧ Shared.count inside s.phase = 0 := by
  obtain ⟨run, s, hrun, hs⟩ := Machine.exists_runs_of_exec
    (asyncBulkhead oneSlot fun _ => ⟨"GET", ⟨"https", "a", none, "a", "https://a/"⟩, [], []⟩)
    (fun s => (s.resource.sem.value, s.resource.sem.handed)) handedOver (0, [1]) (by decide +kernel)
  obtain ⟨hvalue, hhanded⟩ := Prod.mk.inj hs
  -- The conserved sum leaves no slot for a call inside.
  have h := (slots_conserved oneSlot _).1 run s hrun
  refine ⟨run, s, hrun, hhanded, ?_⟩
  have hslots := h.slots
  rw [hvalue, hhanded] at hslots
  have hone : oneSlot.maxConcurrent = 1 := rfl
  simp only [hone, List.length_singleton] at hslots
  omega

end Httpware.Bulkhead
