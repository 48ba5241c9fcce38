import Httpware.CircuitBreaker.FirstEpoch
import Httpware.Lib.Layers
import Httpware.Resilience.BreakerRetry
import Httpware.Resilience.BulkheadSlots
import Httpware.Resilience.Timeout

/-!
# The resilience middleware as layers

Each middleware of `middleware/resilience`, as a layer that may stand anywhere in a chain: the machine
of its calls, with what a phase says of a call to those around it. Nobody looks further into a layer
than that: whether a call has begun, whether it is suspended in `next`, and how it has ended.
-/

namespace Httpware

open Python (Number)

/-! ## The circuit breaker -/

namespace CircuitBreakerState

namespace CallPhase

/-- The call has not begun. -/
def isIdle : CallPhase → Bool
  | idle => true
  | _ => false

/-- The call is inside `next`. -/
def isInNext : CallPhase → Bool
  | inNext _ => true
  | _ => false

/-- The call has not come to `next`; a call that was rejected, or whose handler raised when it was let
in as the probe, never does. -/
def isBefore : CallPhase → Bool
  | idle => true
  | unticketed => true
  | emittingHalfOpen _ _ => true
  | emittingRejection _ _ => true
  | finished (.rejected _) => true
  | finished (.escaped (some _)) => true
  | _ => false

/-- The call has no ticket yet, or is about to raise the error of its rejection. -/
def isUnadmitted : CallPhase → Bool
  | idle => true
  | unticketed => true
  | emittingRejection _ _ => true
  | _ => false

/-- Where a rejected call can be: with its error, which is emitted first, or with the exception of a
handler. -/
def isRejected : CallPhase → Bool
  | emittingRejection _ _ => true
  | finished (.rejected _) => true
  | finished (.escaped none) => true
  | _ => false

end CallPhase

/-- What a call ends with; `escaping` is the exception of a handler that raised. -/
def CallEnding.leaving (escaping : Exc) : CallEnding → Ending
  | next ending => ending
  | rejected retryAfter => .raised (.circuitOpen retryAfter)
  | error e => .raised (.ofError e)
  | escaped _ => .raised escaping

/-- How a call has ended. -/
def CallPhase.ending : CallPhase → Option (Exc → Ending)
  | finished ending => some fun escaping => ending.leaving escaping
  | _ => none

/-- From where to where the steps of a call lead. -/
inductive CallMoves : CallPhase → CallAction → CallPhase → Prop
  | ticketed (ticket : ℤ) : CallMoves .idle .read (.inNext ticket)
  | unticketed : CallMoves .idle .read .unticketed
  | admitted (now : ℚ) (ticket : ℤ) : CallMoves .unticketed (.admitCall now) (.inNext ticket)
  | halfOpened (now : ℚ) (ticket : ℤ) (events : List Event) :
      CallMoves .unticketed (.admitCall now) (.emittingHalfOpen ticket events)
  | rejecting (now : ℚ) (retryAfter : Option Number) (events : List Event) :
      CallMoves .unticketed (.admitCall now) (.emittingRejection retryAfter events)
  | rejected (now : ℚ) (retryAfter : Option Number) :
      CallMoves .unticketed (.admitCall now) (.finished (.rejected retryAfter))
  | probing (ticket : ℤ) (events : List Event) :
      CallMoves (.emittingHalfOpen ticket events) (.emit false) (.inNext ticket)
  | probeEscaped (ticket : ℤ) (events : List Event) :
      CallMoves (.emittingHalfOpen ticket events) (.emit true) (.finished (.escaped (some ticket)))
  | rejectionEmitted (retryAfter : Option Number) (events : List Event) :
      CallMoves (.emittingRejection retryAfter events) (.emit false) (.finished (.rejected retryAfter))
  | rejectionEscaped (retryAfter : Option Number) (events : List Event) :
      CallMoves (.emittingRejection retryAfter events) (.emit true) (.finished (.escaped none))
  | failed (ticket : ℤ) (ending : Ending) (clock : Readings) (e : Python.Error) :
      CallMoves (.inNext ticket) (.finish ending clock) (.finished (.error e))
  | recording (ticket : ℤ) (ending : Ending) (clock : Readings) (events : List Event) :
      CallMoves (.inNext ticket) (.finish ending clock) (.emittingRecord ending events)
  | recorded (ticket : ℤ) (ending : Ending) (clock : Readings) :
      CallMoves (.inNext ticket) (.finish ending clock) (.finished (.next ending))
  | recordEmitted (ending : Ending) (events : List Event) :
      CallMoves (.emittingRecord ending events) (.emit false) (.finished (.next ending))
  | recordEscaped (ending : Ending) (events : List Event) :
      CallMoves (.emittingRecord ending events) (.emit true) (.finished (.escaped none))

/-- A step of a call leads from one of the listed phases to another. -/
theorem callStep_moves {cfg : Config} {request : Request} {st st' : CircuitBreakerState}
    {phase phase' : CallPhase} {a : CallAction} {o : Shown}
    (h : callStep cfg request st phase a = some (o, st', phase')) : CallMoves phase a phase' := by
  unfold callStep at h
  split at h
  · split at h
    · cases h
      exact .ticketed _
    · cases h
      exact .unticketed
  · -- `_admit`: a section that hands events to the call lets it emit them first.
    split at h
    · cases h
      exact .admitted _ _
    · next ticket events _ _ =>
      cases h
      cases events with
      | none => exact .admitted _ ticket
      | some events => exact .halfOpened _ ticket events
    · next retryAfter events _ _ =>
      cases h
      cases events with
      | none => exact .rejected _ retryAfter
      | some events => exact .rejecting _ retryAfter events
  · next ticket events escapes =>
    cases h
    cases escapes with
    | false => exact .probing ticket events
    | true => exact .probeEscaped ticket events
  · next retryAfter events escapes =>
    cases h
    cases escapes with
    | false => exact .rejectionEmitted retryAfter events
    | true => exact .rejectionEscaped retryAfter events
  · split at h
    · cases h
      exact .failed _ _ _ _
    · next ticket ending clock _ events _ _ =>
      cases h
      cases events with
      | none => exact .recorded ticket ending clock
      | some events => exact .recording ticket ending clock events
  · next ending events escapes =>
    cases h
    cases escapes with
    | false => exact .recordEmitted ending events
    | true => exact .recordEscaped ending events
  · cases h

/-- A step of the machine leads from one of the listed phases to another, and moves its own call. -/
theorem calls_moves {cfg : Config} {request : CallId → Request} {s s' : System} {c : CallId}
    {a : CallAction} {o : Shown} (h : (calls cfg request).step s (c, a) = some (o, s')) :
    CallMoves (s.calls c) a (s'.calls c) ∧ ∀ d, d ≠ c → s'.calls d = s.calls d := by
  obtain ⟨st, phase, hcall, rfl⟩ := calls_step h
  refine ⟨?_, fun d hd => Function.update_of_ne hd _ _⟩
  dsimp only
  rw [Function.update_self]
  exact callStep_moves hcall

/-- A circuit breaker as a layer: `CircuitBreaker` and `AsyncCircuitBreaker`. -/
def layer (cfg : Config) (request : CallId → Request) : Layer Ending Exc where
  State := System
  Phase := CallPhase
  Action := CallAction
  Output := Shown
  machine := calls cfg request
  phase := System.calls
  isIdle := CallPhase.isIdle
  ending := CallPhase.ending
  moves := CallMoves
  own _ _ _ := True
  waits _ _ _ := False
  init _ := rfl
  idle_ending p h := by
    cases p with
    | idle => rfl
    | _ => cases h
  step _ _ _ _ _ h := calls_moves h
  begun p a p' h := by cases h <;> rfl
  ended p a p' h := by cases h <;> rfl
  Reading := Readings
  finish := .finish
  finished := CallAction.finished
  inNext := CallPhase.isInNext
  finished_finish _ _ := rfl
  inNext_open p h := by
    cases p with
    | inNext ticket => exact ⟨rfl, rfl⟩
    | _ => cases h
  stays p a p' h hfinish hnext := by
    cases h <;> first | exact Bool.noConfusion hnext | cases hfinish
  leaves p a p' e h hfinish := by
    cases h <;> first | exact ⟨rfl, rfl⟩ | cases hfinish

variable {cfg : Config} {request : CallId → Request}

/-- The phases before `next`. -/
theorem layer_before : Layer.Before (layer cfg request) {p | p.isBefore = true} where
  notInNext p hp := by
    cases p with
    | inNext ticket => exact Bool.noConfusion hp
    | _ => rfl
  back p a p' h hp := by cases h <;> first | rfl | exact Bool.noConfusion hp

/-- A breaker calls `next` once. -/
theorem layer_once : Layer.Once (layer cfg request) {p | p.isPast = true} where
  notInNext p hp := by
    cases p with
    | inNext ticket => exact Bool.noConfusion hp
    | _ => rfl
  enters p a p' e h hfinish := by cases h <;> first | rfl | cases hfinish
  remains p a p' h hp := by cases h <;> first | rfl | exact Bool.noConfusion hp

/-- The step lets a call in. -/
def CallResult.isAdmission : CallResult → Bool
  | .read (some _) => true
  | .admitted _ => true
  | .halfOpened _ => true
  | _ => false

/-- The step rejects a call. -/
def CallResult.isRejection : CallResult → Bool
  | .rejected _ => true
  | _ => false

/-- A run lets a call in. -/
def LetsIn (run : List ((CallId × CallAction) × Shown)) (c : CallId) : Prop :=
  ∃ x ∈ Machine.ofParty c run, x.2.result.isAdmission = true

/-- A longer run lets in the same calls, and the one that its last step lets in. -/
theorem letsIn_snoc {run : List ((CallId × CallAction) × Shown)} {c d : CallId} {a : CallAction}
    {o : Shown} : LetsIn (run ++ [((d, a), o)]) c ↔
      LetsIn run c ∨ (d = c ∧ o.result.isAdmission = true) := Machine.exists_ofParty_snoc

/-- So does a longer run. -/
theorem LetsIn.snoc {run : List ((CallId × CallAction) × Shown)} {c : CallId} (h : LetsIn run c)
    (x : (CallId × CallAction) × Shown) : LetsIn (run ++ [x]) c := letsIn_snoc.mpr (.inl h)

/-- A step that lets its call in. -/
theorem letsIn_of_step (run : List ((CallId × CallAction) × Shown)) (c : CallId) (a : CallAction)
    {o : Shown} (ho : o.result.isAdmission = true) : LetsIn (run ++ [((c, a), o)]) c :=
  letsIn_snoc.mpr (.inr ⟨rfl, ho⟩)

/-- A call that holds a ticket was let in. -/
theorem letsIn_of_holds {run : List ((CallId × CallAction) × Shown)} {s : System}
    (h : (calls cfg request).Runs run s) :
    ∀ c, (s.calls c).holds.isSome = true → LetsIn run c := by
  apply h.invariant (I := fun run s => ∀ c, (s.calls c).holds.isSome = true → LetsIn run c)
  · exact fun c hc => Bool.noConfusion hc
  · rintro run s ⟨d, action⟩ o s' hrun ih hstep c hc
    obtain ⟨st, phase, hcases, rfl⟩ := step_cases hrun hstep
    rcases eq_or_ne c d with rfl | hcd
    · dsimp only at hc
      rw [Function.update_self] at hc
      have hbefore := ih c
      generalize s.calls c = before at hcases hbefore
      cases hcases with
      | readTicket => exact letsIn_of_step run c _ rfl
      | admitted => exact letsIn_of_step run c _ rfl
      | halfOpened => exact letsIn_of_step run c _ rfl
      | emittedHalfOpen => exact (hbefore rfl).snoc _
      | readNone => cases hc
      | @rejected _ _ events _ _ => cases events <;> cases hc
      | @recorded _ _ _ events _ _ => cases events <;> cases hc
      | failed => cases hc
      | emittedRejection => cases hc
      | emittedRecord => cases hc
    · dsimp only at hc
      rw [Function.update_of_ne hcd] at hc
      exact (ih c hc).snoc _

/-- A call whose call inside has begun was let in. -/
theorem letsIn_of_begun {X : Service Ending Exc} {s : Layer.Both (layer cfg request) X}
    {run : List ((CallId × Layer.BothAction (layer cfg request) X) ×
      Layer.BothOutput (layer cfg request) X)}
    (h : ((layer cfg request).wrap X).machine.Runs run s) (c k : ℕ)
    (hbegun : X.isIdle (X.phase s.inner (Nat.pair c k)) = false) :
    LetsIn (Layer.outerRun run) c := by
  apply Layer.of_begun (Q := LetsIn) (fun run x c hc => hc.snoc x) _ h c k hbegun
  intro run s hrun c hc
  apply letsIn_of_holds hrun c
  have hnext : (s.calls c).isInNext = true := hc
  generalize s.calls c = p at hnext ⊢
  cases p with
  | inNext ticket => rfl
  | _ => cases hnext

/-- A run turns a call away: `_admit` rejects it. -/
def TurnsAway (run : List ((CallId × CallAction) × Shown)) (c : CallId) : Prop :=
  ∃ x ∈ Machine.ofParty c run, x.2.result.isRejection = true

/-- A longer run turns away the same calls, and the one that its last step rejects. -/
theorem turnsAway_snoc {run : List ((CallId × CallAction) × Shown)} {c d : CallId} {a : CallAction}
    {o : Shown} : TurnsAway (run ++ [((d, a), o)]) c ↔
      TurnsAway run c ∨ (d = c ∧ o.result.isRejection = true) := Machine.exists_ofParty_snoc

/-- Who is not let in: a call that has no ticket yet, and one that was rejected. -/
structure NotLetIn (run : List ((CallId × CallAction) × Shown)) (c : CallId) (p : CallPhase) : Prop where
  unadmitted : p.isUnadmitted = true → ¬ LetsIn run c
  rejected : TurnsAway run c → p.isRejected = true ∧ ¬ LetsIn run c

namespace NotLetIn

variable {run : List ((CallId × CallAction) × Shown)} {c : CallId} {p p' : CallPhase} {a : CallAction}
  {o : Shown}

/-- A call that was not rejected, after a step that does not reject it. -/
theorem admitted (h : NotLetIn run c p) (hp : p.isRejected = false)
    (ho : o.result.isRejection = false) (hp' : p'.isUnadmitted = false) :
    NotLetIn (run ++ [((c, a), o)]) c p' where
  unadmitted hunadmitted := by
    rw [hp'] at hunadmitted
    cases hunadmitted
  rejected hrejects := by
    rcases turnsAway_snoc.mp hrejects with hold | ⟨-, hnew⟩
    · have hrejected := (h.rejected hold).1
      rw [hp] at hrejected
      cases hrejected
    · rw [ho] at hnew
      cases hnew

/-- A call that was not let in, after a step that does not let it in. -/
theorem refused (hnot : ¬ LetsIn run c) (ho : o.result.isAdmission = false)
    (hp' : TurnsAway (run ++ [((c, a), o)]) c → p'.isRejected = true) :
    NotLetIn (run ++ [((c, a), o)]) c p' := by
  have hnone : ¬ LetsIn (run ++ [((c, a), o)]) c := by
    rw [letsIn_snoc, ho]
    simp [hnot]
  exact ⟨fun _ => hnone, fun hrejects => ⟨hp' hrejects, hnone⟩⟩

/-- After a step of the call. -/
theorem step {cfg : Config} {request : Request} {st st' : CircuitBreakerState}
    (h : NotLetIn run c p) (hstep : CallSteps cfg request st p a o st' p') :
    NotLetIn (run ++ [((c, a), o)]) c p' := by
  cases hstep with
  | readNone =>
    -- Nothing is decided.
    refine refused (h.unadmitted rfl) rfl fun hrejects => ?_
    rcases turnsAway_snoc.mp hrejects with hold | ⟨-, hnew⟩
    · exact (h.rejected hold).1
    · cases hnew
  | @rejected _ _ events _ _ => exact refused (h.unadmitted rfl) rfl fun _ => by cases events <;> rfl
  | @emittedRejection _ _ escapes =>
    exact refused (h.unadmitted rfl) rfl fun _ => by cases escapes <;> rfl
  | readTicket => exact h.admitted rfl rfl rfl
  | admitted => exact h.admitted rfl rfl rfl
  | @halfOpened _ _ events _ _ => exact h.admitted rfl rfl (by cases events <;> rfl)
  | @recorded _ _ _ events _ _ => exact h.admitted rfl rfl (by cases events <;> rfl)
  | failed => exact h.admitted rfl rfl rfl
  | @emittedHalfOpen _ _ escapes => exact h.admitted rfl rfl (by cases escapes <;> rfl)
  | @emittedRecord _ _ escapes => exact h.admitted rfl rfl (by cases escapes <;> rfl)

end NotLetIn

/-- After every run, a call is let in or rejected, but not both. -/
theorem notLetIn_of_runs {run : List ((CallId × CallAction) × Shown)} {s : System}
    (h : (calls cfg request).Runs run s) : ∀ c, NotLetIn run c (s.calls c) := by
  apply h.invariant (I := fun run s => ∀ c, NotLetIn run c (s.calls c))
  · intro c
    have hnone : ¬ LetsIn [] c ∧ ¬ TurnsAway [] c := by simp [LetsIn, TurnsAway]
    exact ⟨fun _ => hnone.1, fun hrejects => absurd hrejects hnone.2⟩
  · rintro run s ⟨d, action⟩ o s' hrun ih hstep c
    obtain ⟨st, phase, hcases, rfl⟩ := step_cases hrun hstep
    dsimp only
    rcases eq_or_ne d c with rfl | hdc
    · rw [Function.update_self]
      exact (ih d).step hcases
    · rw [Function.update_of_ne (Ne.symm hdc)]
      constructor
      · rw [letsIn_snoc, or_iff_left fun h => hdc h.1]
        exact (ih c).unadmitted
      · rw [letsIn_snoc, turnsAway_snoc, or_iff_left fun h => hdc h.1, or_iff_left fun h => hdc h.1]
        exact (ih c).rejected

/-- The breaker's part of a run. -/
def breakerRun {X : Service Ending Exc}
    (run : List ((CallId × Layer.BothAction (layer cfg request) X) ×
      Layer.BothOutput (layer cfg request) X)) : List ((CallId × CallAction) × Shown) :=
  Layer.outerRun run

/-- What is recorded for a call is how the inside ended, one after the other. -/
theorem recorded_breakerRun {X : Service Ending Exc}
    (run : List ((CallId × Layer.BothAction (layer cfg request) X) ×
      Layer.BothOutput (layer cfg request) X)) (c : CallId) :
    recorded cfg c (breakerRun run) =
      ((layer cfg request).endings c (Layer.outerRun run)).map (outcomeOf cfg) :=
  List.map_filterMap.symm

/-- What is recorded for a call is how its call inside ended. -/
theorem ended_of_mem_recorded {X : Service Ending Exc} {s : Layer.Both (layer cfg request) X}
    {run : List ((CallId × Layer.BothAction (layer cfg request) X) ×
      Layer.BothOutput (layer cfg request) X)}
    (h : ((layer cfg request).wrap X).machine.Runs run s) {c : CallId} {outcome : Outcome}
    (hmem : outcome ∈ recorded cfg c (breakerRun run)) :
    ∃ k ending escaping, X.ending (X.phase s.inner (Nat.pair c k)) = some ending ∧
      outcome = outcomeOf cfg (ending escaping) := by
  rw [recorded_breakerRun] at hmem
  obtain ⟨left, hleft, rfl⟩ := List.mem_map.mp hmem
  obtain ⟨k, hk, rfl⟩ := List.getElem_of_mem hleft
  obtain ⟨ending, escaping, hending, he⟩ :=
    (Layer.returns_of_runs h c).ended k _ (List.getElem?_eq_getElem hk)
  exact ⟨k, ending, escaping, hending, by rw [he]⟩

end CircuitBreakerState

/-! ## The total deadline -/

namespace AsyncTimeout

/-- Where a call is: inside its block while it is inside `next`. -/
inductive CallPhase
  | idle
  | inNext (block : Block)
  | finished (ending : Ending)

/-- What `AsyncTimeout` reads when `next` has ended: the task's count of requests, and the exception of a
handler of the event, if one raises. -/
structure Exit where
  cancelling : ℕ
  escapes : Option Exc := none

/-- What can happen to a call. -/
inductive CallAction
  /-- It starts, with this count of its task's requests. -/
  | enter (cancelling : ℕ)
  /-- Its deadline expires. -/
  | expire
  /-- `next` ends. -/
  | finish (ending : Ending) (exit : Exit)

/-- One step of a call: `__call__` of `AsyncTimeout`. -/
def callStep (cfg : Config) (kinds : Kinds) (request : Request) :
    CallPhase → CallAction → Option (List Event × CallPhase)
  | .idle, .enter cancelling => some ([], .inNext ⟨cfg, request, cancelling, false, false⟩)
  | .inNext block, .expire =>
    if block.expiring then none else some ([], .inNext { block with expiring := true })
  | .inNext block, .finish ending exit =>
    let left := block.aexit kinds exit.cancelling ending
    let caught := block.exceptClause kinds exit.escapes left.2
    some (caught.1, .finished caught.2)
  | _, _ => none

/-- Calls through one `AsyncTimeout`, each in a task, in any order. -/
def calls (cfg : Config) (kinds : Kinds) (request : CallId → Request) :
    Machine (Shared Unit CallId CallPhase) (CallId × CallAction) (List Event) :=
  Shared.machine () .idle fun c st p a =>
    (callStep cfg kinds (request c) p a).map fun r => (r.1, st, r.2)

/-- The call has not begun. -/
def CallPhase.isIdle : CallPhase → Bool
  | idle => true
  | _ => false

/-- The call is inside `next`. -/
def CallPhase.isInNext : CallPhase → Bool
  | inNext _ => true
  | _ => false

/-- How a call has ended. -/
def CallPhase.ending : CallPhase → Option (Exc → Ending)
  | finished ending => some fun _ => ending
  | _ => none

/-- The ending of `next`. -/
def CallAction.finished : CallAction → Option Ending
  | finish ending _ => some ending
  | _ => none

/-- From where to where the steps of a call lead. A response leaves the block as it came. -/
inductive CallMoves : CallPhase → CallAction → CallPhase → Prop
  | entered (cancelling : ℕ) (block : Block) : CallMoves .idle (.enter cancelling) (.inNext block)
  | expired (block block' : Block) : CallMoves (.inNext block) .expire (.inNext block')
  | finished (block : Block) {ending left : Ending} (exit : Exit)
      (hleft : ∀ response, left = .returned response → ending = .returned response) :
      CallMoves (.inNext block) (.finish ending exit) (.finished left)

/-- What leaves the block as a response came as one. -/
theorem returned_of_left {kinds : Kinds} {block : Block} {cancelling : ℕ} {ending : Ending}
    {escapes : Option Exc} {response : Response}
    (h : (block.exceptClause kinds escapes (block.aexit kinds cancelling ending).2).2 =
      .returned response) : ending = .returned response := by
  have hclause : (block.aexit kinds cancelling ending).2 = .returned response := by
    simp only [Block.exceptClause] at h
    split_ifs at h
    exact h
  simp only [Block.aexit] at hclause
  split_ifs at hclause
  · exact hclause
  · exact hclause

/-- A step of a call leads from one of the listed phases to another. -/
theorem callStep_moves {cfg : Config} {kinds : Kinds} {request : Request} {p p' : CallPhase}
    {a : CallAction} {o : List Event} (h : callStep cfg kinds request p a = some (o, p')) :
    CallMoves p a p' := by
  unfold callStep at h
  split at h
  · cases h
    exact .entered _ _
  · split_ifs at h
    cases h
    exact .expired _ _
  · cases h
    exact .finished _ _ fun _ hleft => returned_of_left hleft
  · cases h

/-- The step is the call's own: its deadline does not expire by itself. -/
def CallAction.isOwn : CallAction → Bool
  | expire => false
  | _ => true

/-- A total deadline as a layer. -/
def layer (cfg : Config) (kinds : Kinds) (request : CallId → Request) : Layer Ending Exc where
  State := Shared Unit CallId CallPhase
  Phase := CallPhase
  Action := CallAction
  Output := List Event
  machine := calls cfg kinds request
  phase := Shared.phase
  isIdle := CallPhase.isIdle
  ending := CallPhase.ending
  moves := CallMoves
  own _ _ a := a.isOwn = true
  waits _ _ _ := False
  init _ := rfl
  idle_ending p h := by
    cases p with
    | idle => rfl
    | _ => cases h
  step s c a o s' h := by
    obtain ⟨hstep, hframe⟩ := Shared.step_phase h
    obtain ⟨r, hcall, hr⟩ := Option.map_eq_some_iff.mp hstep
    obtain ⟨rfl, -, hphase⟩ : r.1 = o ∧ s.resource = s'.resource ∧ r.2 = s'.phase c := by
      simpa using hr
    refine ⟨?_, hframe⟩
    rw [← hphase]
    exact callStep_moves hcall
  begun p a p' h := by cases h <;> rfl
  ended p a p' h := by cases h <;> rfl
  Reading := Exit
  finish := .finish
  finished := CallAction.finished
  inNext := CallPhase.isInNext
  finished_finish _ _ := rfl
  inNext_open p h := by
    cases p with
    | inNext block => exact ⟨rfl, rfl⟩
    | _ => cases h
  stays p a p' h hfinish hnext := by
    cases h <;> first | rfl | cases hfinish
  leaves p a p' e h hfinish := by
    cases h <;> first | exact ⟨rfl, rfl⟩ | cases hfinish

/-- A deadline calls `next` once. -/
theorem layer_isOnce (cfg : Config) (kinds : Kinds) (request : CallId → Request) :
    (layer cfg kinds request).IsOnce := by
  refine ⟨{p | p.ending.isSome = true}, ?_, ?_, ?_⟩
  · intro p hp
    cases p with
    | inNext block => exact Bool.noConfusion hp
    | _ => rfl
  · intro p a p' e h hfinish
    cases h <;> first | rfl | cases hfinish
  · intro p a p' h hp
    cases h <;> exact Bool.noConfusion hp

end AsyncTimeout

/-! ## The bulkheads -/

namespace Bulkhead

namespace CallPhase

/-- The call has not begun. -/
def isIdle : CallPhase → Bool
  | idle => true
  | _ => false

/-- The call is inside `next`. -/
def isInNext : CallPhase → Bool
  | inNext => true
  | _ => false

/-- The call is past `next`, or has ended without it. -/
def isFinished : CallPhase → Bool
  | finished _ => true
  | _ => false

/-- The call has ended as `next` did. -/
def isPassedOn : CallPhase → Bool
  | finished (.next _) => true
  | _ => false

end CallPhase

/-- What a call ends with; `escaping` is the exception of a handler that raised, and the one that
interrupted the wait. -/
def CallEnding.leaving (escaping : Exc) : CallEnding → Ending
  | next ending => ending
  | full _ => .raised (.other "BulkheadFullError")
  | cancelled => .raised escaping
  | crossLoop _ _ => .raised (.other "RuntimeError")
  | escaped => .raised escaping

/-- How a call has ended. -/
def CallPhase.ending : CallPhase → Option (Exc → Ending)
  | finished ending => some fun escaping => ending.leaving escaping
  | _ => none

/-- A rejected call does not end as `next` did. -/
theorem isPassedOn_rejection (cfg : Config) (escapes : Bool) :
    (CallPhase.finished (rejection cfg escapes)).isPassedOn = false := by
  cases escapes <;> rfl

/-- From where to where the steps of a call lead, whether it is sync or async. -/
inductive CallMoves {α : Type} (finished : α → Option Ending) : CallPhase → α → CallPhase → Prop
  | started {a : α} {p : CallPhase} (ha : finished a = none) (hp : p.isIdle = false)
      (hout : p.isPassedOn = false) : CallMoves finished .idle a p
  | waited {a : α} {wait : Wait} {p : CallPhase} (ha : finished a = none) (hp : p.isIdle = false)
      (hout : p.isPassedOn = false) : CallMoves finished (.waiting wait) a p
  | finished {a : α} {e : Ending} (ha : finished a = some e) :
      CallMoves finished .inNext a (.finished (.next e))

/-- A bulkhead as a layer, from the step function of its calls. A waiting call waits for the calls inside,
and for those that a slot was handed to. -/
def layerOf {σ α : Type} (init : σ) (finished : α → Option Ending) (finish : Ending → α)
    (own : σ → α → Bool) (handed : σ → List CallId)
    (hfinish : ∀ ending, finished (finish ending) = some ending)
    (step : CallId → σ → CallPhase → α → Option (List Event × σ × CallPhase))
    (hstep : ∀ c st p a o st' p', step c st p a = some (o, st', p') → CallMoves finished p a p') :
    Layer Ending Exc where
  State := Shared σ CallId CallPhase
  Phase := CallPhase
  Action := α
  Output := List Event
  machine := Shared.machine init .idle step
  phase := Shared.phase
  isIdle := CallPhase.isIdle
  ending := CallPhase.ending
  moves := CallMoves finished
  own s _ a := own s.resource a = true
  waits s c d := (s.phase c).isWaiting = true ∧ (s.phase d = .inNext ∨ d ∈ handed s.resource)
  init _ := rfl
  idle_ending p h := by
    cases p with
    | idle => rfl
    | _ => cases h
  step s c a o s' h := by
    obtain ⟨hcall, hframe⟩ := Shared.step_phase h
    exact ⟨hstep _ _ _ _ _ _ _ hcall, hframe⟩
  begun p a p' h := by
    cases h with
    | started ha hp _ => exact hp
    | waited ha hp _ => exact hp
    | finished ha => rfl
  ended p a p' h := by cases h <;> rfl
  Reading := Unit
  finish ending _ := finish ending
  finished := finished
  inNext := CallPhase.isInNext
  finished_finish ending _ := hfinish ending
  inNext_open p h := by
    cases p with
    | inNext => exact ⟨rfl, rfl⟩
    | _ => cases h
  stays p a p' h ha hnext := by
    cases h with
    | started _ _ _ => cases hnext
    | waited _ _ _ => cases hnext
    | finished hfin => cases ha.symm.trans hfin
  leaves p a p' e h ha := by
    cases h with
    | started hno _ _ => cases hno.symm.trans ha
    | waited hno _ _ => cases hno.symm.trans ha
    | finished _ => exact ⟨rfl, rfl⟩

/-- The ending of `next`. -/
def AsyncAction.finished : AsyncAction → Option Ending
  | finish ending => some ending
  | _ => none

/-- The ending of `next`. -/
def SyncAction.finished : SyncAction → Option Ending
  | finish ending => some ending
  | _ => none

/-- The step is the call's own: no timeout expires by itself, and somebody else cancels the task. -/
def AsyncAction.isOwn : AsyncAction → Bool
  | expire => false
  | cancel => false
  | _ => true

/-- The step is the call's own, and brings it on: a call that wakes up without a slot goes on waiting. -/
def SyncAction.isOwn (value : ℤ) : SyncAction → Bool
  | wake => value ≠ 0
  | expire _ => false
  | interrupt => false
  | _ => true

/-- A step of an async call leads from one of the listed phases to another. -/
theorem asyncCallStep_moves {cfg : Config} {request : Request} {c : CallId} {st st' : AsyncState}
    {p p' : CallPhase} {a : AsyncAction} {o : List Event}
    (h : asyncCallStep cfg request c st p a = some (o, st', p')) :
    CallMoves AsyncAction.finished p a p' := by
  unfold asyncCallStep at h
  split at h
  · -- The start: refused by the guard, or with the answer of `acquire`.
    split at h
    · cases h
      exact .started rfl rfl rfl
    · simp only at h
      split at h
      · cases h
        exact .started rfl rfl rfl
      · cases h
        exact .started rfl rfl rfl
  · split_ifs at h
    cases h
    exact .waited rfl rfl rfl
  · cases h
    exact .waited rfl rfl rfl
  · split at h
    · cases h
    · cases h
    · simp only at h
      split_ifs at h
      · cases h
        exact .waited rfl rfl (isPassedOn_rejection _ _)
      · cases h
        exact .waited rfl rfl rfl
      · cases h
        exact .waited rfl rfl rfl
  · cases h
    exact .finished rfl
  · cases h

/-- A step of a sync call leads from one of the listed phases to another. -/
theorem syncCallStep_moves {cfg : Config} {request : Request} {value value' : ℤ} {p p' : CallPhase}
    {a : SyncAction} {o : List Event}
    (h : syncCallStep cfg request value p a = some (o, value', p')) :
    CallMoves SyncAction.finished p a p' := by
  unfold syncCallStep at h
  split at h
  · split_ifs at h
    · cases h
      exact .started rfl rfl rfl
    · cases h
      exact .started rfl rfl rfl
  · split_ifs at h
    · cases h
      exact .waited rfl rfl rfl
    · cases h
      exact .waited rfl rfl rfl
  · split_ifs at h
    · cases h
      exact .waited rfl rfl (isPassedOn_rejection _ _)
    · cases h
      exact .waited rfl rfl rfl
  · cases h
    exact .waited rfl rfl rfl
  · cases h
    exact .finished rfl
  · cases h

/-- An `AsyncBulkhead` as a layer. -/
def asyncLayer (cfg : Config) (request : CallId → Request) : Layer Ending Exc :=
  layerOf ⟨none, .init cfg.maxConcurrent⟩ AsyncAction.finished .finish (fun _ => AsyncAction.isOwn)
    (fun st => st.sem.handed) (fun _ => rfl) (fun c st => asyncCallStep cfg (request c) c st)
    fun _ _ _ _ _ _ _ h => asyncCallStep_moves h

/-- A `Bulkhead` as a layer. -/
def syncLayer (cfg : Config) (request : CallId → Request) : Layer Ending Exc :=
  layerOf cfg.maxConcurrent SyncAction.finished .finish SyncAction.isOwn (fun _ => []) (fun _ => rfl)
    (fun c => syncCallStep cfg (request c)) fun _ _ _ _ _ _ _ h => syncCallStep_moves h

section

variable {σ α : Type} {init : σ} {finished : α → Option Ending} {finish : Ending → α}
  {own : σ → α → Bool} {handed : σ → List CallId}
  {hfinish : ∀ ending, finished (finish ending) = some ending}
  {step : CallId → σ → CallPhase → α → Option (List Event × σ × CallPhase)}
  {hstep : ∀ c st p a o st' p', step c st p a = some (o, st', p') → CallMoves finished p a p'}

/-- A bulkhead calls `next` once. -/
theorem layerOf_isOnce : (layerOf init finished finish own handed hfinish step hstep).IsOnce := by
  refine ⟨{p | p.isFinished = true}, ?_, ?_, ?_⟩
  · intro p hp
    cases p with
    | inNext => exact Bool.noConfusion hp
    | _ => rfl
  · intro p a p' e h ha
    cases h with
    | started hno _ _ => cases hno.symm.trans ha
    | waited hno _ _ => cases hno.symm.trans ha
    | finished _ => rfl
  · intro p a p' h hp
    cases h <;> exact Bool.noConfusion hp

/-- What a bulkhead conserves caps the calls that are suspended in it. -/
theorem layerOf_caps {cfg : Config} (hconserved : ∀ run s,
      (Shared.machine init CallPhase.idle step).Runs run s →
        ∃ free given expired, Conserved cfg free given expired s.phase) :
    (layerOf init finished finish own handed hfinish step hstep).Caps cfg.maxConcurrent.toNat := by
  intro run s hrun
  obtain ⟨free, given, expired, h⟩ := hconserved run s hrun
  -- The suspended calls are those that the bulkhead counts.
  have hsame : (layerOf init finished finish own handed hfinish step hstep).suspended s =
      Shared.those inside s.phase := by
    ext c
    change (s.phase c).isInNext = true ↔ s.phase c = .inNext
    cases s.phase c <;> simp [CallPhase.isInNext]
  have hcapped := h.capped
  rw [hsame, ← h.finite.cast_ncard_eq]
  rw [Shared.count] at hcapped
  exact Nat.cast_le.mpr (by omega)

end

/-- Every run keeps the invariant of the async bulkhead. -/
theorem asyncInvariant_of_runs {cfg : Config} {request : CallId → Request}
    {run : List ((CallId × AsyncAction) × List Event)} {s : Shared AsyncState CallId CallPhase}
    (h : (asyncBulkhead cfg request).Runs run s) : AsyncInvariant cfg run s := by
  apply Shared.invariant (I := fun run s => AsyncInvariant cfg run s) _ _ h
  · exact AsyncInvariant.init cfg
  · intro run s c a o r p h hstep
    exact h.step hstep

/-- An `AsyncBulkhead` caps the calls that are suspended in it. -/
theorem asyncLayer_caps (cfg : Config) (request : CallId → Request) :
    (asyncLayer cfg request).Caps cfg.maxConcurrent.toNat := by
  apply layerOf_caps
  intro run s hrun
  exact ⟨_, _, _, (asyncInvariant_of_runs hrun).conserved⟩

/-- Every run keeps the invariant of the sync bulkhead. -/
theorem syncInvariant_of_runs {cfg : Config} {request : CallId → Request}
    {run : List ((CallId × SyncAction) × List Event)} {s : Shared ℤ CallId CallPhase}
    (h : (bulkhead cfg request).Runs run s) : SyncInvariant cfg run s := by
  apply Shared.invariant (I := fun run s => SyncInvariant cfg run s) _ _ h
  · exact SyncInvariant.init cfg
  · intro run s c a o value p h hstep
    exact h.step hstep

/-- A `Bulkhead` caps the calls that are suspended in it. -/
theorem syncLayer_caps (cfg : Config) (request : CallId → Request) :
    (syncLayer cfg request).Caps cfg.maxConcurrent.toNat := by
  apply layerOf_caps
  intro run s hrun
  exact ⟨_, _, _, (syncInvariant_of_runs hrun).conserved⟩

end Bulkhead

/-! ## The retry loop -/

/-- The call has not begun. -/
def RetryPhase.isIdle : RetryPhase → Bool
  | idle => true
  | _ => false

/-- The call is inside `next`. -/
def RetryPhase.isInNext : RetryPhase → Bool
  | attempting _ => true
  | _ => false

/-- How a call has ended; `interruption` is the exception that interrupted a sleep. -/
def RetryPhase.ending : RetryPhase → Option (Exc → Ending)
  | done ending => some fun interruption => ending.leaving interruption
  | _ => none

/-- The ending of an attempt. -/
def RetryAction.finished : RetryAction → Option Ending
  | finish ending => some ending
  | _ => none

/-- From where to where the steps of a call lead. -/
inductive RetryMoves : RetryPhase → RetryAction → RetryPhase → Prop
  | started (now : ℚ) : RetryMoves .idle (.start now) (.ready 0)
  | forwarded (attempt : ℕ) : RetryMoves (.ready attempt) .forward (.attempting attempt)
  | fellThrough (attempt : ℕ) : RetryMoves (.ready attempt) .forward (.done .assertionError)
  | caught (attempt : ℕ) (exc : Exc) :
      RetryMoves (.attempting attempt) (.finish (.raised exc)) (.deciding attempt exc)
  | returned (attempt : ℕ) (response : Response) :
      RetryMoves (.attempting attempt) (.finish (.returned response)) (.done (.returned response))
  | escaped (attempt : ℕ) (exc : Exc) :
      RetryMoves (.attempting attempt) (.finish (.raised exc)) (.done (.raised exc []))
  | slept (attempt : ℕ) (exc : Exc) (now : ℚ) (draw : Draw) (delay : Number) :
      RetryMoves (.deciding attempt exc) (.decide now draw) (.sleeping attempt delay)
  | raised (attempt : ℕ) (exc : Exc) (now : ℚ) (draw : Draw) (raised : Exc)
      (notes : List RetryPolicy.Note) :
      RetryMoves (.deciding attempt exc) (.decide now draw) (.done (.raised raised notes))
  | woke (attempt : ℕ) (delay : Number) :
      RetryMoves (.sleeping attempt delay) .wake (.ready (attempt + 1))
  | interrupted (attempt : ℕ) (delay : Number) :
      RetryMoves (.sleeping attempt delay) .interrupt (.done .interrupted)

/-- A step of a call leads from one of the listed phases to another. -/
theorem retryStep_moves {cfg : RetryBudget.Config} {httpDate : HttpDate} {p : RetryPolicy}
    {request : Request} {budget budget' : RetryBudget} {phase phase' : RetryPhase}
    {action : RetryAction} {o : RetryOutput}
    (h : retryStep cfg httpDate p request budget phase action = some (o, budget', phase')) :
    RetryMoves phase action phase' := by
  cases retryStep_cases h with
  | started now => exact .started now
  | forwarded hleft => exact .forwarded _
  | fellThrough hleft => exact .fellThrough _
  | returned response => exact .returned _ _
  | caught hclass => exact .caught _ _
  | escaped hclass => exact .escaped _ _
  | @decided attempt exc now draw =>
    cases (p.decide cfg httpDate budget now draw attempt request exc).decision with
    | sleep delay => exact .slept attempt exc now draw delay
    | raise exc' notes => exact .raised attempt exc now draw exc' notes
  | woke => exact .woke _ _
  | interrupted => exact .interrupted _ _

/-- The step is the call's own: a sleep is not interrupted by itself. -/
def RetryAction.isOwn : RetryAction → Bool
  | interrupt => false
  | _ => true

/-- The retry loop as a layer: calls through `Retry` or `AsyncRetry` instances that share a budget. -/
def retryLayer (cfg : RetryBudget.Config) (httpDate : HttpDate) (policy : CallId → RetryPolicy)
    (request : CallId → Request) : Layer Ending Exc where
  State := RetrySystem
  Phase := RetryPhase
  Action := RetryAction
  Output := RetryOutput
  machine := retryCalls cfg httpDate policy request
  phase := RetrySystem.calls
  isIdle := RetryPhase.isIdle
  ending := RetryPhase.ending
  moves := RetryMoves
  own _ _ a := a.isOwn = true
  waits _ _ _ := False
  init _ := rfl
  idle_ending p h := by
    cases p with
    | idle => rfl
    | _ => cases h
  step s c a o s' h := by
    obtain ⟨budget, phase, hcall, rfl⟩ := retryCalls_step h
    refine ⟨?_, fun d hd => Function.update_of_ne hd _ _⟩
    dsimp only
    rw [Function.update_self]
    exact retryStep_moves hcall
  begun p a p' h := by cases h <;> rfl
  ended p a p' h := by cases h <;> rfl
  Reading := Unit
  finish ending _ := .finish ending
  finished := RetryAction.finished
  inNext := RetryPhase.isInNext
  finished_finish _ _ := rfl
  inNext_open p h := by
    cases p with
    | attempting attempt => exact ⟨rfl, rfl⟩
    | _ => cases h
  stays p a p' h hfinish hnext := by
    cases h <;> first | exact Bool.noConfusion hnext | cases hfinish
  leaves p a p' e h hfinish := by
    cases h <;> first | exact ⟨rfl, rfl⟩ | cases hfinish

end Httpware
