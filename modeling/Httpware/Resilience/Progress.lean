import Httpware.Lib.Progress
import Httpware.Resilience.Composition

/-!
# No call is stuck, and each gets its own response

Chains of any length, of the resilience middleware in any order, over any terminal. Each middleware is a
live layer: a call that waits for a slot of a bulkhead waits for calls that have one, and asyncio's
semaphore forgets nobody (`asyncLayer_live`). Each has a rank, and a retry loop the one of the attempts
that it has left. So no chain deadlocks, and however its calls go on they come to an end (`never_stuck`).
Each relays the responses of its own attempts only, so a caller gets no response but one that the
terminal returned for that very call (`own_response`).
-/

namespace Httpware

open Python (AsyncSemaphore)

/-- The call ended with a response. -/
def Ending.IsReturned (ending : Ending) : Prop := ∃ response, ending = .returned response

/-! ## The circuit breaker -/

namespace CircuitBreakerState

variable {cfg : Config} {request : CallId → Request}

/-- A call that is neither idle nor inside `next` nor over can go on. -/
theorem callStep_isSome (r : Request) (st : CircuitBreakerState) {p : CallPhase}
    (hnext : p.isInNext = false) (hending : p.ending = none) :
    ∃ a, CallAction.finished a = none ∧ (callStep cfg r st p a).isSome = true := by
  cases p with
  | idle =>
    refine ⟨.read, rfl, ?_⟩
    simp only [callStep]
    cases st.closedTicket <;> rfl
  | unticketed =>
    refine ⟨.admitCall 0, rfl, ?_⟩
    simp only [callStep]
    rcases st.admitCall cfg r 0 with ⟨_ | _ | _, _⟩ <;> rfl
  | emittingHalfOpen ticket events => exact ⟨.emit false, rfl, rfl⟩
  | emittingRejection retryAfter events => exact ⟨.emit false, rfl, rfl⟩
  | emittingRecord ending events => exact ⟨.emit false, rfl, rfl⟩
  | inNext ticket => cases hnext
  | finished ending => cases hending

/-- So the layer can step there. -/
theorem layer_canStep {s : System} {c : CallId} (hnext : (s.calls c).isInNext = false)
    (hending : (s.calls c).ending = none) : (layer cfg request).CanStep s c := by
  obtain ⟨a, hfinish, hsome⟩ := @callStep_isSome cfg (request c) s.circuit _ hnext hending
  obtain ⟨r, hr⟩ := Option.isSome_iff_exists.mp hsome
  exact ⟨a, _, _, hfinish, step_of_callStep hr, trivial⟩

/-- No call through a breaker is stuck. -/
theorem layer_live (cfg : Config) (request : CallId → Request) : (layer cfg request).Live where
  begins run s _ c hidle := by
    have hphase : (s.calls c).isIdle = true := hidle
    apply layer_canStep
    · cases h : s.calls c with
      | inNext ticket =>
        rw [h] at hphase
        cases hphase
      | _ => rfl
    · exact (layer cfg request).idle_ending _ hidle
  goesOn run s _ c hc hnext := by
    have hactive : (!(s.calls c).isIdle && ((s.calls c).ending).isNone) = true := hc
    have hending := Option.isNone_iff_eq_none.mp (Bool.and_eq_true_iff.mp hactive).2
    refine ⟨c, hc, .inl rfl, .inr (layer_canStep ?_ hending)⟩
    exact Bool.eq_false_iff.mpr hnext
  finishes run s _ c hc e := by
    have hnext : (s.calls c).isInNext = true := hc
    obtain ⟨ticket, hphase⟩ : ∃ ticket, s.calls c = .inNext ticket := by
      cases h : s.calls c with
      | inNext ticket => exact ⟨ticket, rfl⟩
      | _ =>
        rw [h] at hnext
        cases hnext
    have hsome : (callStep cfg (request c) s.circuit (s.calls c) (.finish e ⟨0, 0⟩)).isSome = true := by
      rw [hphase]
      simp only [callStep]
      cases s.circuit.record cfg ticket (outcomeOf cfg e) (request c) ⟨0, 0⟩ <;> rfl
    obtain ⟨r, hr⟩ := Option.isSome_iff_exists.mp hsome
    exact ⟨⟨0, 0⟩, _, _, step_of_callStep hr⟩

/-- The steps that a call has left, at most. -/
def CallPhase.rank : CallPhase → ℕ
  | idle => 5
  | unticketed => 4
  | emittingHalfOpen _ _ => 3
  | inNext _ => 2
  | emittingRecord _ _ => 1
  | emittingRejection _ _ => 1
  | finished _ => 0

/-- Each step counts them down. -/
theorem CallMoves.rank_lt {p p' : CallPhase} {a : CallAction} (h : CallMoves p a p') :
    p'.rank < p.rank := by
  cases h <;> simp [CallPhase.rank]

/-- So a breaker has a rank. -/
theorem layer_ranked (cfg : Config) (request : CallId → Request) :
    (layer cfg request).Ranked fun _ => CallPhase.rank where
  le s c a o s' h := (CallMoves.rank_lt (Service.moves_of_step h)).le
  lt s c a o s' h _ := CallMoves.rank_lt (Service.moves_of_step h)
  suspended c p hnext := by
    cases p with
    | inNext ticket => exact Nat.two_pos
    | _ => cases hnext

/-- What the call has got from `next`. -/
def CallPhase.Carries (p : CallPhase) (ending : Ending) : Prop :=
  (∃ events, p = .emittingRecord ending events) ∨ p = .finished (.next ending)

/-- A breaker hands on the responses of `next`. -/
theorem layer_relays (cfg : Config) (request : CallId → Request) :
    (layer cfg request).Relays Ending.IsReturned := by
  apply Layer.relays_of_moves CallPhase.Carries
  · rintro p e hidle (⟨events, rfl⟩ | rfl) <;> cases hidle
  · rintro p a p' e hmoves (⟨events, rfl⟩ | rfl)
    · cases hmoves
      exact .inr rfl
    · cases hmoves with
      | recorded ticket _ clock => exact .inr rfl
      | recordEmitted _ events => exact .inl (.inl ⟨events, rfl⟩)
  · rintro p ending escaping hended ⟨response, hreturned⟩
    cases p with
    | finished left =>
      obtain rfl : (fun escaping => left.leaving escaping) = ending := Option.some.inj hended
      cases left with
      | next e => exact .inr rfl
      | rejected retryAfter => cases hreturned
      | error e => cases hreturned
      | escaped ticket => cases hreturned
    | _ => cases hended

end CircuitBreakerState

/-! ## The total deadline -/

namespace AsyncTimeout

/-- A step of a call under a deadline. -/
theorem calls_step {cfg : Config} {kinds : Kinds} {request : CallId → Request}
    {s : Shared Unit CallId CallPhase} {c : CallId} {a : CallAction} {o : List Event} {p : CallPhase}
    (h : callStep cfg kinds (request c) (s.phase c) a = some (o, p)) :
    (calls cfg kinds request).step s (c, a) =
      some (o, ⟨s.resource, Function.update s.phase c p⟩) := by
  apply Shared.step_of_party
  rw [h]
  rfl

/-- No call under a deadline is stuck. -/
theorem layer_live (cfg : Config) (kinds : Kinds) (request : CallId → Request) :
    (layer cfg kinds request).Live where
  begins run s _ c hidle := by
    have hphase : s.phase c = .idle := by
      have hp : (s.phase c).isIdle = true := hidle
      cases h : s.phase c with
      | idle => rfl
      | _ =>
        rw [h] at hp
        cases hp
    have hstep : callStep cfg kinds (request c) (s.phase c) (.enter 0) =
        some ([], .inNext ⟨cfg, request c, 0, false, false⟩) := by
      rw [hphase]
      rfl
    exact ⟨.enter 0, _, _, rfl, calls_step hstep, rfl⟩
  goesOn run s _ c hc hnext := by
    -- A call that is not suspended has not begun, or is over.
    have hactive : (!(s.phase c).isIdle && ((s.phase c).ending).isNone) = true := hc
    have hout : ¬ (s.phase c).isInNext = true := hnext
    cases h : s.phase c with
    | inNext block =>
      rw [h] at hout
      exact absurd rfl hout
    | _ =>
      rw [h] at hactive
      cases hactive
  finishes run s _ c hc e := by
    have hnext : (s.phase c).isInNext = true := hc
    cases h : s.phase c with
    | inNext block =>
      let left := block.exceptClause kinds none (block.aexit kinds 0 e).2
      have hstep : callStep cfg kinds (request c) (s.phase c) (.finish e ⟨0, none⟩) =
          some (left.1, .finished left.2) := by
        rw [h]
        rfl
      exact ⟨⟨0, none⟩, _, _, calls_step hstep⟩
    | _ =>
      rw [h] at hnext
      cases hnext

/-- The steps that a call has left, at most, and that are its own. -/
def CallPhase.rank : CallPhase → ℕ
  | idle => 2
  | inNext _ => 1
  | finished _ => 0

/-- A deadline has a rank. -/
theorem layer_ranked (cfg : Config) (kinds : Kinds) (request : CallId → Request) :
    (layer cfg kinds request).Ranked fun _ => CallPhase.rank where
  le s c a o s' h := by
    have hmoves : CallMoves (s.phase c) a (s'.phase c) := Service.moves_of_step h
    change (s'.phase c).rank ≤ (s.phase c).rank
    generalize s.phase c = p, s'.phase c = p' at hmoves
    cases hmoves <;> simp [CallPhase.rank]
  lt s c a o s' h hown := by
    have hmoves : CallMoves (s.phase c) a (s'.phase c) := Service.moves_of_step h
    change (s'.phase c).rank < (s.phase c).rank
    generalize s.phase c = p, s'.phase c = p' at hmoves
    cases hmoves with
    | entered cancelling block => exact Nat.one_lt_two
    | expired block block' => rcases hown with hown | hown <;> cases hown
    | finished block exit hleft => exact Nat.one_pos
  suspended c p hnext := by
    cases p with
    | inNext block => exact Nat.one_pos
    | _ => cases hnext

/-- What the call has got from `next`. -/
def CallPhase.Carries (p : CallPhase) (ending : Ending) : Prop :=
  p = .finished ending ∧ ending.IsReturned

/-- A deadline hands on the responses of `next`. -/
theorem layer_relays (cfg : Config) (kinds : Kinds) (request : CallId → Request) :
    (layer cfg kinds request).Relays Ending.IsReturned := by
  apply Layer.relays_of_moves CallPhase.Carries
  · rintro p e hidle ⟨rfl, -⟩
    cases hidle
  · rintro p a p' e hmoves ⟨rfl, response, rfl⟩
    cases hmoves with
    | @finished block e left exit hleft => exact .inr (congrArg some (hleft response rfl))
  · intro p ending escaping hended hreturned
    cases p with
    | finished left =>
      obtain rfl : (fun _ => left) = ending := Option.some.inj hended
      exact ⟨rfl, hreturned⟩
    | _ => cases hended

end AsyncTimeout

/-! ## The bulkheads -/

namespace Bulkhead

/-- A call of `next` is inside exactly when its phase is. -/
theorem CallPhase.eq_inNext {p : CallPhase} (h : p.isInNext = true) : p = .inNext := by
  cases p with
  | inNext => rfl
  | _ => cases h

/-- A call in progress that is not inside waits. -/
theorem CallPhase.isWaiting_of_inProgress {p : CallPhase}
    (h : (!p.isIdle && p.ending.isNone) = true) (hnext : ¬ p.isInNext = true) :
    p.isWaiting = true := by
  cases p with
  | waiting wait => rfl
  | inNext => exact absurd rfl hnext
  | idle => cases h
  | finished ending => cases h

/-- With no slot left somebody is inside. -/
theorem exists_inNext {cfg : Config} {phase : CallId → CallPhase} {slots : ℤ}
    (hslots : (Shared.count inside phase : ℤ) + slots = cfg.maxConcurrent) (hzero : slots ≤ 0) :
    ∃ d, phase d = .inNext := by
  have hmax := cfg.maxConcurrent_pos
  have hpos : 0 < Shared.count inside phase := by omega
  obtain ⟨d, hd⟩ := Set.nonempty_of_ncard_ne_zero hpos.ne'
  exact ⟨d, hd⟩

/-- The semaphore of an `AsyncBulkhead` forgets no waiter. -/
theorem served_of_runs {cfg : Config} {request : CallId → Request}
    {run : List ((CallId × AsyncAction) × List Event)} {s : Shared AsyncState CallId CallPhase}
    (h : (asyncBulkhead cfg request).Runs run s) : s.resource.sem.Served := by
  apply Shared.invariant (I := fun _ s => s.resource.sem.Served) _ _ h
  · intro i hi
    cases hi
  · intro _ s c a o r p hserved hstep
    dsimp only at hstep ⊢
    unfold asyncCallStep at hstep
    split at hstep
    · -- The start: the guard refuses the call, or it acquires.
      split at hstep
      · cases hstep
        exact hserved
      · have hacquired := hserved.acquire c
        simp only at hstep
        split at hstep
        · next sem hacquire =>
          cases hstep
          rwa [hacquire] at hacquired
        · next sem hacquire =>
          cases hstep
          rwa [hacquire] at hacquired
    · split_ifs at hstep
      cases hstep
      exact hserved.cancel c
    · cases hstep
      exact hserved.cancel c
    · split at hstep
      · cases hstep
      · cases hstep
      · simp only at hstep
        split_ifs at hstep
        · cases hstep
          exact AsyncSemaphore.served_resume _ _ _
        · cases hstep
          exact AsyncSemaphore.served_resume _ _ _
        · cases hstep
          exact AsyncSemaphore.served_resume _ _ _
    · cases hstep
      exact AsyncSemaphore.served_release
    · cases hstep

/-- A step of an async call is a step of the bulkhead. -/
theorem asyncBulkhead_step {cfg : Config} {request : CallId → Request}
    {s : Shared AsyncState CallId CallPhase} {c : CallId} {a : AsyncAction} {o : List Event}
    {r : AsyncState} {p : CallPhase}
    (h : asyncCallStep cfg (request c) c s.resource (s.phase c) a = some (o, r, p)) :
    (asyncBulkhead cfg request).step s (c, a) = some (o, ⟨r, Function.update s.phase c p⟩) :=
  Shared.step_of_party h

/-- A step of a sync call is a step of the bulkhead. -/
theorem bulkhead_step {cfg : Config} {request : CallId → Request} {s : Shared ℤ CallId CallPhase}
    {c : CallId} {a : SyncAction} {o : List Event} {value : ℤ} {p : CallPhase}
    (h : syncCallStep cfg (request c) s.resource (s.phase c) a = some (o, value, p)) :
    (bulkhead cfg request).step s (c, a) = some (o, ⟨value, Function.update s.phase c p⟩) :=
  Shared.step_of_party h

/-- A waiting call is in progress. -/
theorem CallPhase.inProgress_of_isWaiting {p : CallPhase} (h : p.isWaiting = true) :
    (!p.isIdle && p.ending.isNone) = true := by
  cases p with
  | waiting wait => rfl
  | _ => cases h

/-- So is one inside. -/
theorem CallPhase.inProgress_of_inNext {p : CallPhase} (h : p = .inNext) :
    (!p.isIdle && p.ending.isNone) = true := by
  rw [h]
  rfl

/-- The call has not begun. -/
theorem CallPhase.eq_idle {p : CallPhase} (h : p.isIdle = true) : p = .idle := by
  cases p with
  | idle => rfl
  | _ => cases h

/-- The call waits. -/
theorem CallPhase.exists_waiting {p : CallPhase} (h : p.isWaiting = true) :
    ∃ wait, p = .waiting wait := by
  cases p with
  | waiting wait => exact ⟨wait, rfl⟩
  | _ => cases h

/-- A waiting call whose future is not pending resumes. -/
theorem resume_isSome {cfg : Config} {r : Request} {c : CallId} {st : AsyncState} {wait : Wait}
    {state : Python.WaiterState} (hstate : st.sem.stateOf c = some state) (hdone : state ≠ .pending) :
    (asyncCallStep cfg r c st (.waiting wait) (.resume false)).isSome = true := by
  simp only [asyncCallStep, hstate]
  cases state with
  | pending => exact absurd rfl hdone
  | _ => split_ifs <;> rfl

/-- So the layer can step there. -/
theorem asyncLayer_canStep {cfg : Config} {request : CallId → Request}
    {s : Shared AsyncState CallId CallPhase} {c : CallId} (hwaiting : (s.phase c).isWaiting = true)
    {state : Python.WaiterState} (hstate : s.resource.sem.stateOf c = some state)
    (hdone : state ≠ .pending) : (asyncLayer cfg request).CanStep s c := by
  obtain ⟨wait, hphase⟩ := CallPhase.exists_waiting hwaiting
  have hsome := @resume_isSome cfg (request c) c s.resource wait state hstate hdone
  rw [← hphase] at hsome
  obtain ⟨r, hr⟩ := Option.isSome_iff_exists.mp hsome
  exact ⟨.resume false, _, _, rfl, asyncBulkhead_step hr, rfl⟩

/-- No call through an `AsyncBulkhead` is stuck: one whose slot is not there yet waits for a call that is
inside, or that a slot was handed to. -/
theorem asyncLayer_live (cfg : Config) (request : CallId → Request) :
    (asyncLayer cfg request).Live where
  begins run s _ c hidle := by
    have hphase : s.phase c = .idle := CallPhase.eq_idle hidle
    have hsome : (asyncCallStep cfg (request c) c s.resource (s.phase c) (.start 0)).isSome = true := by
      rw [hphase]
      simp only [asyncCallStep]
      split
      · rfl
      · rcases s.resource.sem.acquire c with ⟨_ | _, _⟩ <;> rfl
    obtain ⟨r, hr⟩ := Option.isSome_iff_exists.mp hsome
    exact ⟨.start 0, _, _, rfl, asyncBulkhead_step hr, rfl⟩
  goesOn run s h c hc hnext := by
    have hinv := asyncInvariant_of_runs h
    have hwaiting := CallPhase.isWaiting_of_inProgress hc hnext
    obtain ⟨⟨i, state⟩, hmem, rfl⟩ := List.mem_map.mp ((hinv.queue c).mpr hwaiting)
    by_cases hdone : state = .pending
    · subst hdone
      by_cases hhanded : ∃ d, (d, Python.WaiterState.handed) ∈ s.resource.sem.waiters
      · -- A slot was handed to a waiter, which can resume.
        obtain ⟨d, hd⟩ := hhanded
        have hdwaiting := (hinv.queue d).mp (List.mem_map.mpr ⟨_, hd, rfl⟩)
        have hdhanded : d ∈ s.resource.sem.handed :=
          List.mem_map.mpr ⟨_, List.mem_filter.mpr ⟨hd, decide_eq_true rfl⟩, rfl⟩
        have hstate := AsyncSemaphore.stateOf_of_mem hinv.queue_nodup hd
        exact ⟨d, CallPhase.inProgress_of_isWaiting hdwaiting, .inr ⟨hwaiting, .inr hdhanded⟩,
          .inr (asyncLayer_canStep hdwaiting hstate (by decide))⟩
      · -- No slot is free or handed over, so all are inside.
        have hvalue : s.resource.sem.value ≤ 0 := by
          by_contra hpos
          exact hhanded (served_of_runs h _ hmem (not_le.mp hpos))
        have hnone : s.resource.sem.handed = [] := by
          apply List.eq_nil_iff_forall_not_mem.mpr
          intro d hd
          obtain ⟨⟨d, state⟩, hw, rfl⟩ := List.mem_map.mp hd
          obtain ⟨hw, hstate⟩ := List.mem_filter.mp hw
          obtain rfl : state = .handed := of_decide_eq_true hstate
          exact hhanded ⟨d, hw⟩
        obtain ⟨d, hd⟩ := exists_inNext hinv.slots (by
          rw [AsyncSemaphore.slots, hnone]
          simpa using hvalue)
        exact ⟨d, CallPhase.inProgress_of_inNext hd, .inr ⟨hwaiting, .inl hd⟩, .inl (by
          change (s.phase d).isInNext = true
          rw [hd]
          rfl)⟩
    · exact ⟨i, hc, .inl rfl,
        .inr (asyncLayer_canStep hwaiting (AsyncSemaphore.stateOf_of_mem hinv.queue_nodup hmem) hdone)⟩
  finishes run s _ c hc e := by
    have hphase : s.phase c = .inNext := CallPhase.eq_inNext hc
    have hstep : asyncCallStep cfg (request c) c s.resource (s.phase c) (.finish e) =
        some ([], { s.resource with sem := s.resource.sem.release }, .finished (.next e)) := by
      rw [hphase]
      rfl
    exact ⟨(), _, _, asyncBulkhead_step hstep⟩

/-- No call through a `Bulkhead` is stuck: one that finds no slot waits for the calls inside. -/
theorem syncLayer_live (cfg : Config) (request : CallId → Request) :
    (syncLayer cfg request).Live where
  begins run s _ c hidle := by
    have hphase : s.phase c = .idle := CallPhase.eq_idle hidle
    have hsome : (syncCallStep cfg (request c) s.resource (s.phase c) .start).isSome = true := by
      rw [hphase]
      simp only [syncCallStep]
      split_ifs <;> rfl
    obtain ⟨r, hr⟩ := Option.isSome_iff_exists.mp hsome
    exact ⟨.start, _, _, rfl, bulkhead_step hr, rfl⟩
  goesOn run s h c hc hnext := by
    have hinv := syncInvariant_of_runs h
    have hwaiting := CallPhase.isWaiting_of_inProgress hc hnext
    by_cases hvalue : s.resource = 0
    · obtain ⟨d, hd⟩ := exists_inNext hinv.slots hvalue.le
      exact ⟨d, CallPhase.inProgress_of_inNext hd, .inr ⟨hwaiting, .inl hd⟩, .inl (by
        change (s.phase d).isInNext = true
        rw [hd]
        rfl)⟩
    · obtain ⟨wait, hphase⟩ : ∃ wait, s.phase c = .waiting wait := CallPhase.exists_waiting hwaiting
      have hstep : syncCallStep cfg (request c) s.resource (s.phase c) .wake =
          some ([], s.resource - 1, .inNext) := by
        rw [hphase]
        exact if_neg hvalue
      exact ⟨c, hc, .inl rfl, .inr ⟨.wake, _, _, rfl, bulkhead_step hstep, decide_eq_true hvalue⟩⟩
  finishes run s _ c hc e := by
    have hphase : s.phase c = .inNext := CallPhase.eq_inNext hc
    have hstep : syncCallStep cfg (request c) s.resource (s.phase c) (.finish e) =
        some ([], s.resource + 1, .finished (.next e)) := by
      rw [hphase]
      rfl
    exact ⟨(), _, _, bulkhead_step hstep⟩

/-- The steps that a call has left, at most, and that are its own. -/
def CallPhase.rank : CallPhase → ℕ
  | idle => 3
  | waiting _ => 2
  | inNext => 1
  | finished _ => 0

/-- No step adds to them. -/
theorem CallMoves.rank_le {α : Type} {finished : α → Option Ending} {p p' : CallPhase} {a : α}
    (h : CallMoves finished p a p') : p'.rank ≤ p.rank := by
  have hbegun : ∀ p : CallPhase, p.isIdle = false → p.rank ≤ 2 := by
    intro p hp
    cases p <;> simp_all [CallPhase.rank, CallPhase.isIdle]
  cases h with
  | started _ hp _ => exact (hbegun _ hp).trans (Nat.le_succ 2)
  | waited _ hp _ => exact hbegun _ hp
  | finished _ => exact Nat.zero_le 1

/-- A step leaves an idle call neither idle nor, if it is the call's own, a waiting one waiting. -/
theorem CallMoves.rank_lt {α : Type} {finished : α → Option Ending} {p p' : CallPhase} {a : α}
    (h : CallMoves finished p a p') (hwaiting : p.isWaiting = true → p'.isWaiting = false) :
    p'.rank < p.rank := by
  cases h with
  | started _ hp _ => cases p' <;> simp_all [CallPhase.rank, CallPhase.isIdle]
  | waited _ hp _ =>
    have hleft := hwaiting rfl
    cases p' <;> simp_all [CallPhase.rank, CallPhase.isIdle, CallPhase.isWaiting]
  | finished _ => exact Nat.one_pos

/-- A waiting call whose wait is over does not wait again. -/
theorem asyncCallStep_isWaiting {cfg : Config} {request : Request} {c : CallId} {st st' : AsyncState}
    {p p' : CallPhase} {a : AsyncAction} {o : List Event}
    (h : asyncCallStep cfg request c st p a = some (o, st', p'))
    (hown : a.isOwn = true ∨ a.finished.isSome = true) (hwaiting : p.isWaiting = true) :
    p'.isWaiting = false := by
  obtain ⟨wait, rfl⟩ := CallPhase.exists_waiting hwaiting
  cases a with
  | resume escapes =>
    simp only [asyncCallStep] at h
    split at h
    · cases h
    · cases h
    · split_ifs at h <;> cases h <;> rfl
  | start loop => cases h
  | finish ending => cases h
  | _ => simp [AsyncAction.isOwn, AsyncAction.finished] at hown

/-- Nor does one that finds a slot. -/
theorem syncCallStep_isWaiting {cfg : Config} {request : Request} {value value' : ℤ}
    {p p' : CallPhase} {a : SyncAction} {o : List Event}
    (h : syncCallStep cfg request value p a = some (o, value', p'))
    (hown : a.isOwn value = true ∨ a.finished.isSome = true) (hwaiting : p.isWaiting = true) :
    p'.isWaiting = false := by
  obtain ⟨wait, rfl⟩ := CallPhase.exists_waiting hwaiting
  cases a with
  | wake =>
    have hvalue : value ≠ 0 := by simpa [SyncAction.isOwn, SyncAction.finished] using hown
    simp only [syncCallStep, if_neg hvalue] at h
    cases h
    rfl
  | start => cases h
  | finish ending => cases h
  | _ => simp [SyncAction.isOwn, SyncAction.finished] at hown

/-- A bulkhead has a rank if a waiting call whose wait is over does not wait again. -/
theorem layerOf_ranked {σ α : Type} {init : σ} {finished : α → Option Ending} {finish : Ending → α}
    {own : σ → α → Bool} {handed : σ → List CallId}
    {hfinish : ∀ ending, finished (finish ending) = some ending}
    {step : CallId → σ → CallPhase → α → Option (List Event × σ × CallPhase)}
    {hstep : ∀ c st p a o st' p', step c st p a = some (o, st', p') → CallMoves finished p a p'}
    (hwaiting : ∀ c st p a o st' p', step c st p a = some (o, st', p') →
      own st a = true ∨ (finished a).isSome = true → p.isWaiting = true → p'.isWaiting = false) :
    (layerOf init finished finish own handed hfinish step hstep).Ranked fun _ => CallPhase.rank where
  le s c a o s' h := CallMoves.rank_le (Service.moves_of_step h)
  lt s c a o s' h hown := by
    obtain ⟨hcall, -⟩ := Shared.step_phase h
    exact (hstep _ _ _ _ _ _ _ hcall).rank_lt (hwaiting _ _ _ _ _ _ _ hcall hown)
  suspended c p hnext := by
    cases p with
    | inNext => exact Nat.one_pos
    | _ => cases hnext

/-- What the call has got from `next`. -/
def CallPhase.Carries (p : CallPhase) (ending : Ending) : Prop := p = .finished (.next ending)

/-- A bulkhead hands on the responses of `next`. -/
theorem layerOf_relays {σ α : Type} {init : σ} {finished : α → Option Ending} {finish : Ending → α}
    {own : σ → α → Bool} {handed : σ → List CallId}
    {hfinish : ∀ ending, finished (finish ending) = some ending}
    {step : CallId → σ → CallPhase → α → Option (List Event × σ × CallPhase)}
    {hstep : ∀ c st p a o st' p', step c st p a = some (o, st', p') → CallMoves finished p a p'} :
    (layerOf init finished finish own handed hfinish step hstep).Relays Ending.IsReturned := by
  apply Layer.relays_of_moves CallPhase.Carries
  · rintro p e hidle rfl
    cases hidle
  · rintro p a p' e hmoves rfl
    cases hmoves with
    | started _ _ hout => cases hout
    | waited _ _ hout => cases hout
    | finished ha => exact .inr ha
  · rintro p ending escaping hended ⟨response, hreturned⟩
    cases p with
    | finished left =>
      obtain rfl : (fun escaping => left.leaving escaping) = ending := Option.some.inj hended
      cases left with
      | next e => rfl
      | full e => cases hreturned
      | cancelled => cases hreturned
      | crossLoop bound running => cases hreturned
      | escaped => cases hreturned
    | _ => cases hended

end Bulkhead

/-! ## The retry loop -/

section Retry

variable {cfg : RetryBudget.Config} {httpDate : HttpDate} {policy : CallId → RetryPolicy}
  {request : CallId → Request}

/-- A step of a call is a step of the calls that share the budget. -/
theorem step_of_retryStep {s : RetrySystem} {c : CallId} {a : RetryAction} {o : RetryOutput}
    {budget : RetryBudget} {phase : RetryPhase}
    (h : retryStep cfg httpDate (policy c) (request c) s.budget (s.calls c) a =
      some (o, budget, phase)) :
    (retryCalls cfg httpDate policy request).step s (c, a) =
      some (o, ⟨budget, Function.update s.calls c phase⟩) := by
  simp [retryCalls, h]

/-- A call that is neither inside `next` nor over can go on. -/
theorem retryStep_isSome (p : RetryPolicy) (r : Request) (budget : RetryBudget) {phase : RetryPhase}
    (hnext : phase.isInNext = false) (hending : phase.ending = none) :
    ∃ a, RetryAction.finished a = none ∧ a.isOwn = true ∧
      (retryStep cfg httpDate p r budget phase a).isSome = true := by
  cases phase with
  | idle => exact ⟨.start 0, rfl, rfl, rfl⟩
  | ready attempt =>
    refine ⟨.forward, rfl, rfl, ?_⟩
    simp only [retryStep]
    split_ifs <;> rfl
  | attempting attempt => cases hnext
  | deciding attempt exc => exact ⟨.decide 0 .zero, rfl, rfl, rfl⟩
  | sleeping attempt delay => exact ⟨.wake, rfl, rfl, rfl⟩
  | done ending => cases hending

/-- So the layer can step there. -/
theorem retryLayer_canStep {s : RetrySystem} {c : CallId} (hnext : (s.calls c).isInNext = false)
    (hending : (s.calls c).ending = none) :
    (retryLayer cfg httpDate policy request).CanStep s c := by
  obtain ⟨a, hfinish, hown, hsome⟩ :=
    @retryStep_isSome cfg httpDate (policy c) (request c) s.budget _ hnext hending
  obtain ⟨r, hr⟩ := Option.isSome_iff_exists.mp hsome
  exact ⟨a, _, _, hfinish, step_of_retryStep hr, hown⟩

variable (cfg httpDate policy request) in
/-- No call through retry middleware is stuck. -/
theorem retryLayer_live : (retryLayer cfg httpDate policy request).Live where
  begins run s _ c hidle := by
    apply retryLayer_canStep
    · have hphase : (s.calls c).isIdle = true := hidle
      cases h : s.calls c with
      | attempting attempt =>
        rw [h] at hphase
        cases hphase
      | _ => rfl
    · exact (retryLayer cfg httpDate policy request).idle_ending _ hidle
  goesOn run s _ c hc hnext := by
    have hactive : (!(s.calls c).isIdle && ((s.calls c).ending).isNone) = true := hc
    have hending := Option.isNone_iff_eq_none.mp (Bool.and_eq_true_iff.mp hactive).2
    refine ⟨c, hc, .inl rfl, .inr (retryLayer_canStep ?_ hending)⟩
    exact Bool.eq_false_iff.mpr hnext
  finishes run s _ c hc e := by
    have hnext : (s.calls c).isInNext = true := hc
    obtain ⟨attempt, hphase⟩ : ∃ attempt, s.calls c = .attempting attempt := by
      cases h : s.calls c with
      | attempting attempt => exact ⟨attempt, rfl⟩
      | _ =>
        rw [h] at hnext
        cases hnext
    have hsome : (retryStep cfg httpDate (policy c) (request c) s.budget (s.calls c)
        (.finish e)).isSome = true := by
      rw [hphase]
      cases e with
      | returned response => rfl
      | raised exc =>
        simp only [retryStep]
        split_ifs <;> rfl
    obtain ⟨r, hr⟩ := Option.isSome_iff_exists.mp hsome
    exact ⟨(), _, _, step_of_retryStep hr⟩

/-- The steps that a call has left, at most, and that are its own. -/
def RetryPhase.rank (p : RetryPolicy) : RetryPhase → ℕ
  | idle => 4 * p.maxAttempts.toNat + 2
  | ready attempt => 4 * (p.maxAttempts.toNat - attempt) + 1
  | attempting attempt => 4 * max (p.maxAttempts.toNat - attempt) 1
  | deciding attempt _ => 4 * max (p.maxAttempts.toNat - attempt) 1 - 1
  | sleeping attempt _ => 4 * max (p.maxAttempts.toNat - attempt) 1 - 2
  | done _ => 0

/-- Each step counts them down. -/
theorem rank_lt_of_retryStep {p : RetryPolicy} {r : Request} {budget budget' : RetryBudget}
    {phase phase' : RetryPhase} {a : RetryAction} {o : RetryOutput}
    (h : retryStep cfg httpDate p r budget phase a = some (o, budget', phase')) :
    phase'.rank p < phase.rank p := by
  cases retryStep_cases h with
  | @decided attempt exc now draw =>
    cases (p.decide cfg httpDate budget now draw attempt r exc).decision with
    | sleep delay =>
      simp only [RetryPolicy.Decision.after, RetryPhase.rank]
      omega
    | raise exc' notes =>
      simp only [RetryPolicy.Decision.after, RetryPhase.rank]
      omega
  | _ =>
    simp only [RetryPhase.rank]
    omega

variable (cfg httpDate policy request) in
/-- So retry middleware has a rank. -/
theorem retryLayer_ranked :
    (retryLayer cfg httpDate policy request).Ranked fun c => RetryPhase.rank (policy c) := by
  have hlt : ∀ (s : RetrySystem) c a o s',
      (retryCalls cfg httpDate policy request).step s (c, a) = some (o, s') →
        (s'.calls c).rank (policy c) < (s.calls c).rank (policy c) := by
    intro s c a o s' h
    obtain ⟨budget, phase, hcall, rfl⟩ := retryCalls_step h
    dsimp only
    rw [Function.update_self]
    exact rank_lt_of_retryStep hcall
  constructor
  · exact fun s c a o s' h => (hlt s c a o s' h).le
  · exact fun s c a o s' h _ => hlt s c a o s' h
  · intro c p hnext
    cases p with
    | attempting attempt =>
      change 0 < 4 * max ((policy c).maxAttempts.toNat - attempt) 1
      omega
    | _ => cases hnext

/-- What the call has got from its last attempt. -/
def RetryPhase.Carries (p : RetryPhase) (ending : Ending) : Prop :=
  ∃ response, ending = .returned response ∧ p = .done (.returned response)

variable (cfg httpDate policy request) in
/-- Retry middleware hands on the responses of its attempts. -/
theorem retryLayer_relays :
    (retryLayer cfg httpDate policy request).Relays Ending.IsReturned := by
  apply Layer.relays_of_moves RetryPhase.Carries
  · rintro p e hidle ⟨response, rfl, rfl⟩
    cases hidle
  · rintro p a p' e hmoves ⟨response, rfl, rfl⟩
    cases hmoves
    exact .inr rfl
  · rintro p ending interruption hended ⟨response, hreturned⟩
    cases p with
    | done left =>
      obtain rfl : (fun interruption => left.leaving interruption) = ending :=
        Option.some.inj hended
      cases left with
      | returned response' => exact ⟨response', rfl, rfl⟩
      | raised exc notes => cases hreturned
      | interrupted => cases hreturned
      | assertionError => cases hreturned
    | _ => cases hended

end Retry

/-! ## Chains -/

namespace Composition

open Layer

/-- The resilience middleware, as layers. -/
inductive IsResilience : Layer Ending Exc → Prop
  | circuitBreaker (cfg : CircuitBreakerState.Config) (request : CallId → Request) :
      IsResilience (CircuitBreakerState.layer cfg request)
  | timeout (cfg : AsyncTimeout.Config) (kinds : AsyncTimeout.Kinds) (request : CallId → Request) :
      IsResilience (AsyncTimeout.layer cfg kinds request)
  | asyncBulkhead (cfg : Bulkhead.Config) (request : CallId → Request) :
      IsResilience (Bulkhead.asyncLayer cfg request)
  | bulkhead (cfg : Bulkhead.Config) (request : CallId → Request) :
      IsResilience (Bulkhead.syncLayer cfg request)
  | retry (cfg : RetryBudget.Config) (httpDate : HttpDate) (policy : CallId → RetryPolicy)
      (request : CallId → Request) : IsResilience (retryLayer cfg httpDate policy request)

namespace IsResilience

variable {A : Layer Ending Exc}

/-- No call through one is stuck. -/
theorem live (h : IsResilience A) : A.Live := by
  cases h with
  | circuitBreaker cfg request => exact CircuitBreakerState.layer_live cfg request
  | timeout cfg kinds request => exact AsyncTimeout.layer_live cfg kinds request
  | asyncBulkhead cfg request => exact Bulkhead.asyncLayer_live cfg request
  | bulkhead cfg request => exact Bulkhead.syncLayer_live cfg request
  | retry cfg httpDate policy request => exact retryLayer_live cfg httpDate policy request

/-- Each has a rank. -/
theorem exists_ranked (h : IsResilience A) : ∃ rank, A.Ranked rank := by
  cases h with
  | circuitBreaker cfg request => exact ⟨_, CircuitBreakerState.layer_ranked cfg request⟩
  | timeout cfg kinds request => exact ⟨_, AsyncTimeout.layer_ranked cfg kinds request⟩
  | asyncBulkhead cfg request =>
    exact ⟨_, Bulkhead.layerOf_ranked fun _ _ _ _ _ _ _ => Bulkhead.asyncCallStep_isWaiting⟩
  | bulkhead cfg request =>
    exact ⟨_, Bulkhead.layerOf_ranked fun _ _ _ _ _ _ _ => Bulkhead.syncCallStep_isWaiting⟩
  | retry cfg httpDate policy request => exact ⟨_, retryLayer_ranked cfg httpDate policy request⟩

/-- Each hands on the responses of `next`. -/
theorem relays (h : IsResilience A) : A.Relays Ending.IsReturned := by
  cases h with
  | circuitBreaker cfg request => exact CircuitBreakerState.layer_relays cfg request
  | timeout cfg kinds request => exact AsyncTimeout.layer_relays cfg kinds request
  | asyncBulkhead cfg request => exact Bulkhead.layerOf_relays
  | bulkhead cfg request => exact Bulkhead.layerOf_relays
  | retry cfg httpDate policy request => exact retryLayer_relays cfg httpDate policy request

end IsResilience

/-- The calls of the example's terminal are never stuck. -/
theorem terminal_live : terminal.Live where
  begins run s _ c hidle := by
    have hphase : s c = .idle := by
      have hp : terminal.isIdle (s c) = true := hidle
      cases h : s c with
      | idle => rfl
      | _ =>
        rw [h] at hp
        cases hp
    refine ⟨.send, (), Function.update s c .sent, ?_, trivial⟩
    simp [terminal, hphase]
  goesOn run s _ c hc := by
    have hphase : s c = .sent := by
      have hp : terminal.inProgress (s c) = true := hc
      cases h : s c with
      | sent => rfl
      | _ =>
        rw [h] at hp
        cases hp
    refine ⟨c, hc, .inl rfl, .answer (.raised .networkError), (),
      Function.update s c (.answered (.raised .networkError)), ?_, trivial⟩
    simp [terminal, hphase]

/-- The steps that one of them has left. -/
def ExchangePhase.rank : ExchangePhase → ℕ
  | idle => 2
  | sent => 1
  | answered _ => 0

/-- They count down. -/
theorem terminal_ranked : terminal.Ranked fun s c => (s c).rank where
  own run s _ c a o s' h _ := by
    rcases (terminal.step s c a o s' h).1 with ⟨hafter, hbefore⟩ | ⟨hbefore, ending, hafter⟩
    · change s' c = .sent at hafter
      change s c = .idle at hbefore
      rw [hafter, hbefore]
      exact Nat.one_lt_two
    · change s' c = .answered ending at hafter
      change s c = .sent at hbefore
      rw [hafter, hbefore]
      exact Nat.one_pos
  frame s c a o s' h d hd := congrArg ExchangePhase.rank ((terminal.step s c a o s' h).2 d hd)

/-- The chain of one bulkhead is one of resilience middleware. -/
theorem oneSlotChain_isResilience : ∀ A ∈ oneSlotChain, IsResilience A := by
  intro A hA
  rw [List.mem_singleton.mp hA]
  exact .asyncBulkhead _ _

section

variable {As : List (Layer Ending Exc)} {X : Service Ending Exc}
  {run : List ((CallId × (around As X).Action) × (around As X).Output)} {s : (around As X).State}

/-- No chain deadlocks, in whichever order it has the middleware: a call in progress can go on, or waits
for another one that can. And in whatever order the calls in progress go on, without a cancellation and
without a deadline that expires, they come to an end. -/
theorem never_stuck (hAs : ∀ A ∈ As, IsResilience A) (hX : X.Live) (hrank : ∃ rank, X.Ranked rank)
    (h : (around As X).machine.Runs run s) :
    (∀ c ∈ (around As X).active s, ∃ d ∈ (around As X).active s,
        (d = c ∨ (around As X).waits s c d) ∧ (around As X).CanStep s d) ∧
      (around As X).Quiesces s := by
  have : Nonempty Exc := ⟨.networkError⟩
  have hlive : (around As X).Live := Live.around (fun A hA => (hAs A hA).live) hX
  obtain ⟨rank, hranked⟩ := Ranked.around (fun A hA => (hAs A hA).exists_ranked) hrank
  exact ⟨hlive.goesOn run s h, hlive.quiesces hranked h⟩

/-- The call that waits for the slot can go on after the one that has it, and both come to an end. -/
theorem never_stuck_waiting : ∃ run s, (around oneSlotChain terminal).machine.Runs run s ∧
    1 ∈ (around oneSlotChain terminal).active s ∧ (around oneSlotChain terminal).Quiesces s := by
  obtain ⟨run, s, hrun, hs⟩ := Machine.exists_runs_of_exec (around oneSlotChain terminal).machine
    (fun s => (around oneSlotChain terminal).inProgress ((around oneSlotChain terminal).phase s 1))
    oneInFlight true (by decide)
  obtain ⟨-, hquiesces⟩ :=
    never_stuck oneSlotChain_isResilience terminal_live ⟨_, terminal_ranked⟩ hrun
  exact ⟨run, s, hrun, hs, hquiesces⟩

/-- A call through a chain ends with no response but one that the terminal returned for this very call:
however the calls interleave, retry, wait for slots, or share a budget, none gets the response of
another. -/
theorem own_response (hAs : ∀ A ∈ As, IsResilience A) (h : (around As X).machine.Runs run s)
    {c : CallId} {ending : Exc → Ending} {escaping : Exc} {response : Response}
    (hended : (around As X).ending ((around As X).phase s c) = some ending)
    (hreturned : ending escaping = .returned response) :
    ∃ i ending' escaping', root As.length i = c ∧
      X.ending (X.phase (innermost As X s) i) = some ending' ∧
        ending' escaping' = .returned response := by
  obtain ⟨i, ending', escaping', hroot, hended', hsame⟩ :=
    Relays.exists_innermost As (fun A hA => (hAs A hA).relays) X h hended ⟨response, hreturned⟩
  exact ⟨i, ending', escaping', hroot, hended', hsame.trans hreturned⟩

end

/-- The call with the slot gets its response while the second one waits. -/
def firstReturns : List (CallId × (around oneSlotChain terminal).Action) :=
  oneInFlight ++ [(0, .inner (.answer (.returned ⟨200, []⟩))), (0, .ret .networkError ())]

/-- It is that of an exchange of its own. -/
theorem own_response_first : ∃ run s, (around oneSlotChain terminal).machine.Runs run s ∧
    ∃ i ending escaping, root 1 i = 0 ∧
      terminal.ending (terminal.phase (innermost oneSlotChain terminal s) i) = some ending ∧
        ending escaping = .returned ⟨200, []⟩ := by
  obtain ⟨run, s, hrun, hs⟩ := Machine.exists_runs_of_exec (around oneSlotChain terminal).machine
    (fun s => (Both.outer s).phase 0) firstReturns (.finished (.next (.returned ⟨200, []⟩))) rfl
  have hended : (around oneSlotChain terminal).ending ((around oneSlotChain terminal).phase s 0) =
      some fun escaping => (Bulkhead.CallEnding.next (.returned ⟨200, []⟩)).leaving escaping := by
    change Bulkhead.CallPhase.ending ((Both.outer s).phase 0) = _
    rw [hs]
    rfl
  exact ⟨run, s, hrun,
    @own_response _ _ _ _ oneSlotChain_isResilience hrun _ _ .networkError _ hended rfl⟩

end Composition

end Httpware
