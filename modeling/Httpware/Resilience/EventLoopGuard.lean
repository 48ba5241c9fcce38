import Httpware.Lib.Lock
import Httpware.Resilience.Bulkhead

/-!
# The guard of the event loop

`check_event_loop` of `middleware/resilience/_event_loop_guard.py`, with the unlocked look at `_loop`
that `AsyncBulkhead`, `AsyncCircuitBreaker` and `AsyncKeyedCircuitBreaker` make before it. Calls may
run in any number of threads, each on the loop of its own, so every read, every write and every
operation on the lock is a step, and the steps of all calls interleave in any order (`guard`).

`guard_linearizable` says that the steps amount to one atomic `checkEventLoop` for each call, the one
with which the bulkhead's model starts; a call's answer is fixed when it finds its own loop without the
lock, when it reads another's loop under the lock, or when it writes its own.
-/

namespace Httpware.EventLoopGuard

open Bulkhead (LoopId checkEventLoop)

/-- `_loop`, and the call that holds `_loop_lock`. -/
structure State where
  loop : Option LoopId
  lock : Option CallId
deriving DecidableEq

/-- Where a call is in the guard; `current` is the loop that it runs on. -/
inductive Phase
  | idle
  /-- The unlocked look has not found the call's loop. -/
  | checking (current : LoopId)
  /-- In the critical section, before `get_loop()`. -/
  | locked (current : LoopId)
  /-- After `get_loop()`. -/
  | read (cached : Option LoopId) (current : LoopId)
  /-- After `set_loop(current)`. -/
  | bound (current : LoopId)
  /-- Outside the critical section again, with the loop that was there. -/
  | comparing (first current : LoopId)
  /-- Past the guard. -/
  | passed (current : LoopId)
  /-- With the `RuntimeError` that names both loops. -/
  | raised (first current : LoopId)
deriving DecidableEq

/-- What can happen to a call. -/
inductive Action
  /-- It looks at `_loop`, on this loop. -/
  | call (current : LoopId)
  /-- Its next step in `check_event_loop`. -/
  | next

/-- What the guard says to a call. -/
inductive Answer
  | passes
  | refuses (first : LoopId)
deriving DecidableEq

/-- The answer of a guard that is bound to `first`. -/
def answer (first current : LoopId) : Answer := if first = current then .passes else .refuses first

/-- One step of a call `c`, and the answer that is fixed by it, if one is. -/
def guardStep (c : CallId) (st : State) :
    Phase → Action → Option (Option (LoopId × Answer) × State × Phase)
  | .idle, .call current =>
    if st.loop = some current then some (some (current, .passes), st, .passed current)
    else some (none, st, .checking current)
  | .checking current, .next =>
    if st.lock = none then some (none, { st with lock := some c }, .locked current) else none
  | .locked current, .next =>
    some (st.loop.map fun first => (current, answer first current), st, .read st.loop current)
  | .read none current, .next =>
    some (some (current, .passes), { st with loop := some current }, .bound current)
  | .bound current, .next => some (none, { st with lock := none }, .passed current)
  | .read (some first) current, .next =>
    some (none, { st with lock := none }, .comparing first current)
  | .comparing first current, .next =>
    some (none, st, if first = current then .passed current else .raised first current)
  | _, _ => none

/-- The calls through one guard, in any order. -/
def guard : Machine (Shared State CallId Phase) (CallId × Action) (Option (LoopId × Answer)) :=
  Shared.machine ⟨none, none⟩ .idle guardStep

/-- `_ASYNCBULKHEAD_CROSS_LOOP_MSG`, `_CROSS_LOOP_MSG` and `_KEYED_CROSS_LOOP_MSG`, formatted with the
`repr` of the loops. -/
def crossLoopMessage (owner first current : String) : String :=
  owner ++ " is bound to the event loop it first ran on (" ++ first ++ ") and was called from " ++
    current ++ ". " ++
    "Create async resilience middleware, and the AsyncClient holding it, once per event loop, " ++
    "for example inside the coroutine passed to asyncio.run(). " ++
    "Sharing one instance across pytest-asyncio's function-scoped loops is the usual way to hit this."

/-- The `RuntimeError` of a call that is past the guard without an answer in its favour. -/
def Phase.error (owner : String) (repr : LoopId → String) : Phase → Option String
  | raised first current => some (crossLoopMessage owner (repr first) (repr current))
  | _ => none

/-! ## The steps by cases -/

/-- The ways in which a call can take a step. -/
inductive GuardSteps (c : CallId) (st : State) :
    Phase → Action → Option (LoopId × Answer) → State → Phase → Prop
  | found {current : LoopId} (h : st.loop = some current) :
      GuardSteps c st .idle (.call current) (some (current, .passes)) st (.passed current)
  | missed {current : LoopId} (h : st.loop ≠ some current) :
      GuardSteps c st .idle (.call current) none st (.checking current)
  | acquired {current : LoopId} (h : st.lock = none) :
      GuardSteps c st (.checking current) .next none { st with lock := some c } (.locked current)
  | readNone {current : LoopId} (h : st.loop = none) :
      GuardSteps c st (.locked current) .next none st (.read none current)
  | readSome {first current : LoopId} (h : st.loop = some first) :
      GuardSteps c st (.locked current) .next (some (current, answer first current)) st
        (.read (some first) current)
  | wrote {current : LoopId} :
      GuardSteps c st (.read none current) .next (some (current, .passes))
        { st with loop := some current } (.bound current)
  | returned {current : LoopId} :
      GuardSteps c st (.bound current) .next none { st with lock := none } (.passed current)
  | left {first current : LoopId} :
      GuardSteps c st (.read (some first) current) .next none { st with lock := none }
        (.comparing first current)
  | same {current : LoopId} :
      GuardSteps c st (.comparing current current) .next none st (.passed current)
  | other {first current : LoopId} (h : first ≠ current) :
      GuardSteps c st (.comparing first current) .next none st (.raised first current)

/-- A call takes a step in one of the listed ways. -/
theorem guardStep_cases {c : CallId} {st st' : State} {phase phase' : Phase} {action : Action}
    {o : Option (LoopId × Answer)} (h : guardStep c st phase action = some (o, st', phase')) :
    GuardSteps c st phase action o st' phase' := by
  unfold guardStep at h
  split at h
  · -- The unlocked look.
    split_ifs at h with hloop
    · obtain ⟨rfl, rfl, rfl⟩ : _ = o ∧ st = st' ∧ _ = phase' := by simpa using h
      exact .found hloop
    · obtain ⟨rfl, rfl, rfl⟩ : _ = o ∧ st = st' ∧ _ = phase' := by simpa using h
      exact .missed hloop
  · split_ifs at h with hlock
    obtain ⟨rfl, rfl, rfl⟩ : _ = o ∧ _ = st' ∧ _ = phase' := by simpa using h
    exact .acquired hlock
  · next current =>
    obtain ⟨rfl, rfl, rfl⟩ : _ = o ∧ st = st' ∧ _ = phase' := by simpa using h
    cases hloop : st.loop with
    | none => exact .readNone hloop
    | some first => exact .readSome hloop
  · obtain ⟨rfl, rfl, rfl⟩ : _ = o ∧ _ = st' ∧ _ = phase' := by simpa using h
    exact .wrote
  · obtain ⟨rfl, rfl, rfl⟩ : _ = o ∧ _ = st' ∧ _ = phase' := by simpa using h
    exact .returned
  · obtain ⟨rfl, rfl, rfl⟩ : _ = o ∧ _ = st' ∧ _ = phase' := by simpa using h
    exact .left
  · next first current =>
    obtain ⟨rfl, rfl, rfl⟩ : _ = o ∧ st = st' ∧ _ = phase' := by simpa using h
    split_ifs with hsame
    · subst hsame
      exact .same
    · exact .other hsame
  · cases h

/-! ## The invariant -/

/-- The call is in the critical section. -/
def Phase.isInside : Phase → Bool
  | locked _ => true
  | read _ _ => true
  | bound _ => true
  | _ => false

/-- The phases in the critical section. -/
def inside : Set Phase := {p | p.isInside = true}

/-- What a phase says of `_loop`. -/
def Phase.Agrees (loop : Option LoopId) : Phase → Prop
  | read cached _ => loop = cached
  | bound current => loop = some current
  | comparing first _ => loop = some first
  | passed current => loop = some current
  | raised first current => loop = some first ∧ first ≠ current
  | _ => True

/-- The answer that a call has when it is in the phase. -/
def Phase.answered : Phase → List (LoopId × Answer)
  | read (some first) current => [(current, answer first current)]
  | bound current => [(current, .passes)]
  | comparing first current => [(current, answer first current)]
  | passed current => [(current, .passes)]
  | raised first current => [(current, .refuses first)]
  | _ => []

/-- The answer that a step fixes, as a step of the atomic guard. -/
def decision (a : CallId × Action) (o : Option (LoopId × Answer)) :
    Option ((CallId × LoopId) × Answer) :=
  o.map fun x => ((a.1, x.1), x.2)

/-- The answers that a run has fixed, in their order. -/
def decisions (run : List ((CallId × Action) × Option (LoopId × Answer))) :
    List ((CallId × LoopId) × Answer) :=
  run.filterMap fun x => decision x.1 x.2

/-- The invariant of the guard: the lock excludes, every phase agrees with `_loop`, and a call has been
answered as its phase says. -/
structure Guarded (run : List ((CallId × Action) × Option (LoopId × Answer)))
    (s : Shared State CallId Phase) : Prop where
  exclusive : s.Exclusive State.lock inside
  agrees : ∀ c, (s.phase c).Agrees s.resource.loop
  answered : ∀ c, Machine.ofParty c (decisions run) = (s.phase c).answered

/-- A step that fixes an answer adds it to the answers of the run. -/
theorem decisions_snoc (run : List ((CallId × Action) × Option (LoopId × Answer)))
    (a : CallId × Action) (o : Option (LoopId × Answer)) :
    decisions (run ++ [(a, o)]) = decisions run ++ (decision a o).toList := by
  cases o <;> simp [decisions, decision]

/-- The first call that writes its loop contradicts no phase outside the critical section. -/
theorem Phase.Agrees.of_none {p : Phase} (h : p.Agrees none) (hp : p ∉ inside)
    (loop : Option LoopId) : p.Agrees loop := by
  cases p with
  | idle => trivial
  | checking current => trivial
  | locked current => trivial
  | read cached current => exact absurd rfl hp
  | bound current => cases h
  | comparing first current => cases h
  | passed current => cases h
  | raised first current => cases h.1

namespace Guarded

variable {run : List ((CallId × Action) × Option (LoopId × Answer))}
  {s : Shared State CallId Phase} {c : CallId} {a : Action} {o : Option (LoopId × Answer)}
  {r : State} {p : Phase}

/-- Before the first call. -/
theorem init : Guarded [] ⟨⟨none, none⟩, fun _ => .idle⟩ where
  exclusive := Shared.Exclusive.init rfl Bool.false_ne_true
  agrees _ := trivial
  answered _ := rfl

/-- The lock excludes after a step. -/
theorem exclusive_step (h : Guarded run s) (hstep : GuardSteps c s.resource (s.phase c) a o r p) :
    Shared.Exclusive State.lock inside ⟨r, Function.update s.phase c p⟩ := by
  generalize hphase : s.phase c = phase at hstep
  cases hstep with
  | found hloop => exact h.exclusive.stay rfl (by rw [hphase]; exact Iff.rfl)
  | missed hloop => exact h.exclusive.stay rfl (by rw [hphase]; exact Iff.rfl)
  | acquired hlock => exact h.exclusive.acquire hlock rfl rfl
  | readNone hloop => exact h.exclusive.stay rfl (by rw [hphase]; exact Iff.rfl)
  | readSome hloop => exact h.exclusive.stay rfl (by rw [hphase]; exact Iff.rfl)
  | wrote => exact h.exclusive.stay rfl (by rw [hphase]; exact Iff.rfl)
  | returned => exact h.exclusive.release (by rw [hphase]; rfl) rfl Bool.false_ne_true
  | left => exact h.exclusive.release (by rw [hphase]; rfl) rfl Bool.false_ne_true
  | same => exact h.exclusive.stay rfl (by rw [hphase]; exact Iff.rfl)
  | other hne => exact h.exclusive.stay rfl (by rw [hphase]; exact Iff.rfl)

/-- Every phase agrees with `_loop` after a step. -/
theorem agrees_step (h : Guarded run s) (hstep : GuardSteps c s.resource (s.phase c) a o r p) (d : CallId) :
    (Function.update s.phase c p d).Agrees r.loop := by
  have hc := h.agrees c
  have hin := h.exclusive c
  generalize hphase : s.phase c = phase at hstep hc hin
  rcases eq_or_ne d c with rfl | hdc
  · rw [Function.update_self]
    cases hstep with
    | found hloop => exact hloop
    | missed hloop => trivial
    | acquired hlock => trivial
    | readNone hloop => exact hloop
    | readSome hloop => exact hloop
    | wrote => rfl
    | returned => exact hc
    | left => exact hc
    | same => exact hc
    | other hne => exact ⟨hc, hne⟩
  · rw [Function.update_of_ne hdc]
    have hd := h.agrees d
    cases hstep with
    | @wrote current =>
      -- The other calls are outside, and `_loop` was not yet written.
      have hnone : s.resource.loop = none := hc
      have hout : s.phase d ∉ inside := fun hd' =>
        hdc (h.exclusive.unique hd' ((h.exclusive c).mpr (hin.mp rfl)))
      rw [hnone] at hd
      exact hd.of_none hout (some current)
    | _ => exact hd

/-- A call has been answered as its phase says after a step. -/
theorem answered_step (h : Guarded run s) (hstep : GuardSteps c s.resource (s.phase c) a o r p)
    (d : CallId) :
    Machine.ofParty d (decisions (run ++ [((c, a), o)])) = (Function.update s.phase c p d).answered := by
  have hc := h.answered c
  have hagrees := h.agrees c
  generalize s.phase c = phase at hstep hc hagrees
  rw [decisions_snoc]
  rcases eq_or_ne d c with rfl | hdc
  · -- The call's own answers grow by the one that the step fixes.
    have hown : Machine.ofParty d (decisions run ++ (decision (d, a) o).toList) =
        phase.answered ++ o.toList := by
      rw [← hc]
      cases o with
      | none => simp [decision]
      | some x => exact Machine.ofParty_snoc_self d (decisions run) x.1 x.2
    rw [hown, Function.update_self]
    cases hstep with
    | found hloop => rfl
    | missed hloop => rfl
    | acquired hlock => rfl
    | readNone hloop => rfl
    | readSome hloop => rfl
    | wrote => rfl
    | returned => rfl
    | left => rfl
    | same => simp [Phase.answered, answer]
    | other hne => simp [Phase.answered, answer, hne]
  · rw [Function.update_of_ne hdc, ← h.answered d]
    cases o with
    | none => simp [decision]
    | some x => exact Machine.ofParty_snoc_of_ne hdc.symm (decisions run) x.1 x.2

/-- The invariant after a step. -/
theorem step (h : Guarded run s) (hstep : GuardSteps c s.resource (s.phase c) a o r p) :
    Guarded (run ++ [((c, a), o)]) ⟨r, Function.update s.phase c p⟩ :=
  ⟨h.exclusive_step hstep, h.agrees_step hstep, h.answered_step hstep⟩

end Guarded

/-- The invariant holds after every run. -/
theorem guarded_of_runs {run : List ((CallId × Action) × Option (LoopId × Answer))}
    {s : Shared State CallId Phase} (h : guard.Runs run s) : Guarded run s := by
  apply Shared.invariant (I := Guarded) Guarded.init _ h
  intro run s i a o r p hI hstep
  exact hI.step (guardStep_cases hstep)

/-! ## The guard is atomic -/

/-- The guard in one step: `checkEventLoop`, with which a call of the bulkhead starts. -/
def atomicGuard : Machine (Option LoopId) (CallId × LoopId) Answer where
  init := none
  step loop a :=
    match checkEventLoop loop a.2 with
    | .ok loop => some (.passes, loop)
    | .error first => some (.refuses first, loop)

/-- The atomic guard binds the first loop. -/
theorem atomicGuard_none (c : CallId) (current : LoopId) :
    atomicGuard.step none (c, current) = some (.passes, some current) := rfl

/-- A bound atomic guard compares. -/
theorem atomicGuard_some (c : CallId) (first current : LoopId) :
    atomicGuard.step (some first) (c, current) = some (answer first current, some first) := by
  unfold atomicGuard
  simp only [checkEventLoop, answer]
  by_cases hsame : first = current
  · simp [hsame]
  · simp [hsame]

/-- The atomic guard follows every step: it takes its own step where an answer is fixed. -/
theorem atomicGuard_follows {run : List ((CallId × Action) × Option (LoopId × Answer))}
    {s : Shared State CallId Phase} {c : CallId} {a : Action} {o : Option (LoopId × Answer)}
    {r : State} {p : Phase} (h : Guarded run s)
    (hstep : GuardSteps c s.resource (s.phase c) a o r p) :
    atomicGuard.Follows (fun loop' loop => loop = loop') r.loop s.resource.loop
      (decision (c, a) o) := by
  have hc := h.agrees c
  generalize s.phase c = phase at hstep hc
  cases hstep with
  | @found current hloop =>
    refine ⟨s.resource.loop, ?_, rfl⟩
    change atomicGuard.step s.resource.loop (c, current) = _
    rw [hloop, atomicGuard_some, answer, if_pos rfl]
  | @readSome first current hloop =>
    refine ⟨s.resource.loop, ?_, rfl⟩
    change atomicGuard.step s.resource.loop (c, current) = _
    rw [hloop, atomicGuard_some]
  | @wrote current =>
    have hnone : s.resource.loop = none := hc
    refine ⟨some current, ?_, rfl⟩
    change atomicGuard.step s.resource.loop (c, current) = _
    rw [hnone, atomicGuard_none]
  | missed hloop => rfl
  | acquired hlock => rfl
  | readNone hloop => rfl
  | returned => rfl
  | left => rfl
  | same => rfl
  | other hne => rfl

/-- The answers of a run, in the order in which they were fixed, are a run of the atomic guard. -/
theorem atomicGuard_runs {run : List ((CallId × Action) × Option (LoopId × Answer))}
    {s : Shared State CallId Phase} (h : guard.Runs run s) :
    atomicGuard.Runs (decisions run) s.resource.loop := by
  obtain ⟨loop, hruns, rfl⟩ := Machine.Runs.project (N := atomicGuard)
    (R := fun s loop => loop = s.resource.loop) decision rfl (fun run s a o s' loop hrun hR hs => by
      obtain ⟨r, p, hparty, rfl⟩ := Shared.step_eq hs
      subst hR
      exact atomicGuard_follows (guarded_of_runs hrun) (guardStep_cases hparty)) h
  exact hruns

/-- A loop is bound by a call that ran on it and was let through. -/
theorem bound_by {run : List ((CallId × LoopId) × Answer)} {loop : Option LoopId}
    (h : atomicGuard.Runs run loop) (first : LoopId) (hfirst : loop = some first) :
    ∃ c, ((c, first), Answer.passes) ∈ run := by
  revert hfirst
  apply h.invariant (I := fun run loop => loop = some first → ∃ c, ((c, first), Answer.passes) ∈ run)
  · exact fun hfirst => nomatch hfirst
  · intro run loop a o loop' _ ih hstep hfirst
    obtain ⟨c, current⟩ := a
    cases loop with
    | none =>
      rw [atomicGuard_none] at hstep
      obtain ⟨rfl, rfl⟩ : Answer.passes = o ∧ some current = loop' := by simpa using hstep
      cases hfirst
      exact ⟨c, by simp⟩
    | some bound =>
      rw [atomicGuard_some] at hstep
      obtain ⟨-, rfl⟩ : _ = o ∧ some bound = loop' := by simpa using hstep
      obtain ⟨d, hd⟩ := ih hfirst
      exact ⟨d, by simp [hd]⟩

/-- A bound guard stays bound to its loop. -/
theorem bound_stays {s s' : Shared State CallId Phase} {first : LoopId}
    {run : List ((CallId × Action) × Option (LoopId × Answer))}
    {run' : List ((CallId × Action) × Option (LoopId × Answer))} (h : guard.Runs run s)
    (hbound : s.resource.loop = some first) (h' : guard.RunsFrom s run' s') :
    s'.resource.loop = some first := by
  have key : s'.resource.loop = some first ∧ guard.Runs (run ++ run') s' := by
    refine h'.invariant (I := fun run' s' => s'.resource.loop = some first ∧
      guard.Runs (run ++ run') s') ⟨hbound, ?_⟩ ?_
    · rwa [List.append_nil]
    · intro run' t a o t' _ ih hstep
      refine ⟨?_, by rw [← List.append_assoc]; exact ih.2.snoc hstep⟩
      obtain ⟨r, p, hparty, rfl⟩ := Shared.step_eq hstep
      have hagrees := (guarded_of_runs ih.2).agrees a.1
      have hcases := guardStep_cases hparty
      generalize t.phase a.1 = phase at hcases hagrees
      generalize a.2 = action at hcases
      cases hcases with
      | wrote =>
        -- A call writes only when it has read that there is no loop yet.
        have hnone : t.resource.loop = none := hagrees
        rw [ih.1] at hnone
        cases hnone
      | _ => exact ih.1
  exact key.1

section Guard

variable {run : List ((CallId × Action) × Option (LoopId × Answer))} {s : Shared State CallId Phase}

/-- The guard is linearizable: in every interleaving, the answers are those of the atomic guard that
the calls go through one after the other, each at the step that fixes its answer; a call has at most
one answer, and ends as it says. -/
theorem guard_linearizable (h : guard.Runs run s) :
    atomicGuard.Runs (decisions run) s.resource.loop ∧
      (∀ c, (Machine.ofParty c (decisions run)).length ≤ 1) ∧
      ∀ c current,
        (s.phase c = .passed current → Machine.ofParty c (decisions run) = [(current, .passes)]) ∧
        ∀ first, s.phase c = .raised first current →
          Machine.ofParty c (decisions run) = [(current, .refuses first)] := by
  have hinv := guarded_of_runs h
  refine ⟨atomicGuard_runs h, fun c => ?_, fun c current => ⟨fun hc => ?_, fun first hc => ?_⟩⟩
  · rw [hinv.answered c]
    rcases s.phase c with _ | _ | _ | ⟨_ | _, _⟩ | _ | _ | _ | _ <;> simp [Phase.answered]
  · rw [hinv.answered c, hc, Phase.answered]
  · rw [hinv.answered c, hc, Phase.answered]

/-- All the calls that an instance lets through run on one event loop, in any number of threads and in
every interleaving: the loop that is bound, for good, by one of them. A refused call ran on another
loop, and its error names the bound loop first. -/
theorem one_event_loop (h : guard.Runs run s) :
    (∀ c d current current', s.phase c = .passed current → s.phase d = .passed current' →
      current = current') ∧
    (∀ c first current, s.phase c = .raised first current → first ≠ current ∧
      ∀ d current', s.phase d = .passed current' → current' = first) ∧
    (∀ first, s.resource.loop = some first →
      (∃ c, ((c, first), Answer.passes) ∈ decisions run) ∧
      ∀ run' s', guard.RunsFrom s run' s' → s'.resource.loop = some first) := by
  have hinv := guarded_of_runs h
  -- A call that was let through ran on the bound loop.
  have hpassed : ∀ c current, s.phase c = .passed current → s.resource.loop = some current := by
    intro c current hc
    have hagrees := hinv.agrees c
    rwa [hc] at hagrees
  refine ⟨?_, ?_, ?_⟩
  · intro c d current current' hc hd
    have hsame := hpassed c current hc
    rw [hpassed d current' hd] at hsame
    exact (Option.some.inj hsame).symm
  · intro c first current hc
    have hagrees := hinv.agrees c
    rw [hc] at hagrees
    obtain ⟨hfirst, hne⟩ := hagrees
    refine ⟨hne, fun d current' hd => ?_⟩
    rw [hpassed d current' hd] at hfirst
    exact Option.some.inj hfirst
  · intro first hfirst
    exact ⟨bound_by (atomicGuard_runs h) first hfirst, fun run' s' h' => bound_stays h hfirst h'⟩

/-- A call has begun and not ended. -/
def Phase.inProgress : Phase → Bool
  | idle => false
  | passed _ => false
  | raised _ _ => false
  | _ => true

/-- The most steps that a call has taken when it is in the phase. -/
def Phase.taken : Phase → ℕ
  | idle => 0
  | checking _ => 1
  | locked _ => 2
  | read _ _ => 3
  | bound _ => 4
  | comparing _ _ => 4
  | passed _ => 5
  | raised _ _ => 5

/-- Every step is counted. -/
theorem GuardSteps.taken_lt {c : CallId} {st st' : State} {phase phase' : Phase} {a : Action}
    {o : Option (LoopId × Answer)} (h : GuardSteps c st phase a o st' phase') :
    phase.taken < phase'.taken := by
  cases h <;> simp [Phase.taken]

/-- A call has taken at most the steps of its phase. -/
theorem length_ofParty_le (h : guard.Runs run s) (c : CallId) :
    (Machine.ofParty c run).length ≤ (s.phase c).taken := by
  have key : ∀ d, (Machine.ofParty d run).length ≤ (s.phase d).taken := by
    apply Shared.invariant
      (I := fun run s => ∀ d, (Machine.ofParty d run).length ≤ (s.phase d).taken) _ _ h
    · intro d
      exact Nat.zero_le _
    · intro run s i a o r p ih hparty d
      have hi := ih i
      have hmore := (guardStep_cases hparty).taken_lt
      rcases eq_or_ne d i with rfl | hdi
      · simp only [Machine.ofParty_snoc_self, List.length_append, List.length_singleton,
          Function.update_self]
        omega
      · simp only [Machine.ofParty_snoc_of_ne hdi.symm, Function.update_of_ne hdi]
        exact ih d
  exact key c

/-- A call in progress can take its next step, unless it waits for the lock. -/
theorem guardStep_isSome (st : State) {phase : Phase} (c : CallId) (hphase : phase.inProgress = true)
    (hlock : phase.isInside = true ∨ st.lock = none) :
    (guardStep c st phase .next).isSome = true := by
  cases phase with
  | idle => cases hphase
  | checking current =>
    have hfree : st.lock = none := hlock.resolve_left Bool.false_ne_true
    simp [guardStep, hfree]
  | locked current => rfl
  | read cached current => cases cached <;> rfl
  | bound current => rfl
  | comparing first current => rfl
  | passed current => cases hphase
  | raised first current => cases hphase

/-- The guard does not deadlock and does not go on for ever: while a call is in progress, it can take its
next step or waits for a call that can, and no call takes more than five steps. -/
theorem guard_ends (h : guard.Runs run s) (c : CallId) :
    (Machine.ofParty c run).length ≤ 5 ∧
      ((s.phase c).inProgress = true →
        ∃ d, (d = c ∨ s.resource.lock = some d) ∧ (guard.step s (d, .next)).isSome = true) := by
  constructor
  · have htaken := length_ofParty_le h c
    have hmost : (s.phase c).taken ≤ 5 := by
      cases s.phase c <;> simp [Phase.taken]
    omega
  · intro hc
    have hexclusive := (guarded_of_runs h).exclusive
    by_cases hfree : s.resource.lock = none
    · refine ⟨c, .inl rfl, ?_⟩
      have hstep := guardStep_isSome s.resource c hc (.inr hfree)
      simpa [guard, Shared.machine] using hstep
    · -- The holder of the lock is inside, and never waits there.
      obtain ⟨d, hd⟩ := Option.ne_none_iff_exists'.mp hfree
      have hinside : (s.phase d).isInside = true := (hexclusive d).mpr hd
      have hprogress : (s.phase d).inProgress = true := by
        generalize s.phase d = phase at hinside
        cases phase <;> first | rfl | cases hinside
      refine ⟨d, .inr hd, ?_⟩
      have hstep := guardStep_isSome s.resource d hprogress (.inl hinside)
      simpa [guard, Shared.machine] using hstep

end Guard

/-! ## Two threads -/

/-- Two calls on different loops look at `_loop` before either holds the lock, and the second overtakes
the first. -/
def overtaken : List (CallId × Action) :=
  [(0, .call 7), (1, .call 8), (1, .next), (1, .next), (1, .next), (1, .next), (0, .next), (0, .next),
    (0, .next), (0, .next)]

/-- The loop that is bound, and where the two calls are. -/
def ends (s : Shared State CallId Phase) : Option LoopId × Phase × Phase :=
  (s.resource.loop, s.phase 0, s.phase 1)

/-- The first call is answered after the second. -/
theorem guard_linearizable_overtaken : ∃ run s, guard.Runs run s ∧
    atomicGuard.Runs (decisions run) (some 8) ∧
      Machine.ofParty 0 (decisions run) = [(7, .refuses 8)] := by
  obtain ⟨run, s, hrun, hs⟩ := Machine.exists_runs_of_exec guard ends overtaken
    (some 8, .raised 8 7, .passed 8) (by decide)
  obtain ⟨hloop, hphases⟩ := Prod.mk.inj hs
  have h := guard_linearizable hrun
  exact ⟨run, s, hrun, hloop ▸ h.1, ((h.2.2 0 7).2 8 (Prod.mk.inj hphases).1)⟩

/-- The instance belongs to the loop of the second call. -/
theorem one_event_loop_overtaken : ∃ run s, guard.Runs run s ∧
    ∀ d current, s.phase d = .passed current → current = 8 := by
  obtain ⟨run, s, hrun, hs⟩ := Machine.exists_runs_of_exec guard ends overtaken
    (some 8, .raised 8 7, .passed 8) (by decide)
  have hphase : s.phase 0 = .raised 8 7 := (Prod.mk.inj (Prod.mk.inj hs).2).1
  exact ⟨run, s, hrun, ((one_event_loop hrun).2.1 0 8 7 hphase).2⟩

/-- While the second call holds the lock, the first waits for it. -/
theorem guard_ends_waiting : ∃ run s, guard.Runs run s ∧
    ∃ d, (d = 0 ∨ s.resource.lock = some d) ∧ (guard.step s (d, .next)).isSome = true := by
  obtain ⟨run, s, hrun, hs⟩ := Machine.exists_runs_of_exec guard ends (overtaken.take 3)
    (none, .checking 7, .locked 8) (by decide)
  have hphase : s.phase 0 = .checking 7 := (Prod.mk.inj (Prod.mk.inj hs).2).1
  exact ⟨run, s, hrun, (guard_ends hrun 0).2 (by rw [hphase]; rfl)⟩

end Httpware.EventLoopGuard
