import Httpware.CircuitBreaker.CircuitKey
import Httpware.CircuitBreaker.Tickets

/-!
# Keyed circuit breakers

`_KeyedStates` with the `__call__` of both keyed breakers: a map from circuit keys to circuits, which
are objects that calls hold by reference. A call evaluates the key and reads the map (`get`), creates
the circuit under a lock if the read missed (`create`), and then is a call through its circuit. The
steps of any number of calls interleave in any order (`keyedCalls`).

`InMap` says that every circuit that a call holds is the one of its key in the map. The label of a
circuit reaches its events and nothing else (`callStep_withKey`), so the steps of the calls with one
key are a run of a plain breaker, whose events then carry the label (`keyed_product`).
-/

namespace Httpware

open CircuitBreakerState
open Python (Error Number)

/-- `_origin`. -/
def origin (request : Request) : String × String × Option ℤ :=
  (request.url.scheme, request.url.rawHost, request.url.port)

/-- `_origin_label`. -/
def originLabel (request : Request) : String := s!"{request.url.scheme}://{request.url.netloc}"

namespace KeyedStates

/-- The key function of a keyed breaker, and the label of a circuit that a call creates, which is `str`
of the key unless the key function is the default one. Both are asked once in a call, and may raise
(`none`). -/
structure KeyFunction (κ : Type*) where
  key : CallId → Request → Option κ
  label : CallId → Request → κ → Option String

/-- The default key function. -/
def byOrigin : KeyFunction (String × String × Option ℤ) where
  key _ request := some (origin request)
  label _ request _ := some (originLabel request)

/-- Where a call through a keyed breaker is. -/
inductive KeyedPhase (κ : Type*)
  | idle
  /-- In `_create`, before the lock. -/
  | creating (circuitKey : κ)
  /-- In `_call_sync` or `_call_async`, with a reference to its circuit. -/
  | inCall (circuit : ℕ) (phase : CallPhase)
  /-- The key function or `str` raised. -/
  | failed

/-- What can happen to a call. -/
inductive KeyedAction
  /-- The key function and the unlocked read of `get`. -/
  | get
  /-- `_create`. -/
  | create
  /-- A step of the call through its circuit. -/
  | call (action : CallAction)

/-- What a step did, with the circuit that it was about. -/
inductive KeyedShown
  | failed
  | missed
  | found (circuit : ℕ)
  | created (circuit : ℕ)
  | called (circuit : ℕ) (shown : Shown)
deriving DecidableEq

/-- The map of a keyed breaker, the circuits ever made with their labels, and where each call is. -/
structure KeyedSystem (κ : Type*) where
  states : κ → Option ℕ
  circuits : List (String × CircuitBreakerState)
  calls : CallId → KeyedPhase κ

variable {κ : Type*} [DecidableEq κ]

/-- A call goes on in another phase. -/
def KeyedSystem.goto (s : KeyedSystem κ) (c : CallId) (phase : KeyedPhase κ) : KeyedSystem κ :=
  { s with calls := Function.update s.calls c phase }

/-- `get`: the key, and the read of the map. -/
def get (keys : KeyFunction κ) (request : Request) (s : KeyedSystem κ) (c : CallId) :
    KeyedShown × KeyedSystem κ :=
  match keys.key c request with
  | none => (.failed, s.goto c .failed)
  | some k =>
    match s.states k with
    | some circuit => (.found circuit, s.goto c (.inCall circuit .idle))
    | none => (.missed, s.goto c (.creating k))

/-- `_create`: the label, and the check and the insertion under the lock. -/
def create (cfg : Config) (keys : KeyFunction κ) (request : Request) (s : KeyedSystem κ)
    (c : CallId) (k : κ) : KeyedShown × KeyedSystem κ :=
  match keys.label c request k with
  | none => (.failed, s.goto c .failed)
  | some label =>
    match s.states k with
    | some circuit => (.found circuit, s.goto c (.inCall circuit .idle))
    | none =>
      let circuit := s.circuits.length
      (.created circuit,
        { states := Function.update s.states k (some circuit)
          circuits := s.circuits ++ [(label, init (cfg.withKey label))]
          calls := Function.update s.calls c (.inCall circuit .idle) })

/-- A step of a call through its circuit. -/
def call (cfg : Config) (request : Request) (s : KeyedSystem κ) (c : CallId) (circuit : ℕ)
    (phase : CallPhase) (action : CallAction) : Option (KeyedShown × KeyedSystem κ) :=
  match s.circuits[circuit]? with
  | none => none
  | some (label, st) =>
    (callStep (cfg.withKey label) request st phase action).map fun r =>
      (.called circuit r.1,
        { s with
          circuits := s.circuits.set circuit (label, r.2.1)
          calls := Function.update s.calls c (.inCall circuit r.2.2) })

/-- The steps of any number of calls through one keyed breaker, in any order. -/
def keyedCalls (cfg : Config) (keys : KeyFunction κ) (request : CallId → Request) :
    Machine (KeyedSystem κ) (CallId × KeyedAction) KeyedShown where
  init := ⟨fun _ => none, [], fun _ => .idle⟩
  step s a :=
    match s.calls a.1, a.2 with
    | .idle, .get => some (get keys (request a.1) s a.1)
    | .creating k, .create => some (create cfg keys (request a.1) s a.1 k)
    | .inCall circuit phase, .call action => call cfg (request a.1) s a.1 circuit phase action
    | _, _ => none

/-! ## The steps by cases -/

/-- The ways in which call `c` can take a step. -/
inductive Steps (cfg : Config) (keys : KeyFunction κ) (request : Request) (s : KeyedSystem κ)
    (c : CallId) : KeyedPhase κ → KeyedAction → KeyedShown → KeyedSystem κ → Prop
  /-- The call ends before it has a circuit. -/
  | failed {phase : KeyedPhase κ} {action : KeyedAction} (h : ∀ circuit p, phase ≠ .inCall circuit p) :
      Steps cfg keys request s c phase action .failed (s.goto c .failed)
  /-- The read missed. -/
  | missed {k : κ} (hkey : keys.key c request = some k) (h : s.states k = none) :
      Steps cfg keys request s c .idle .get .missed (s.goto c (.creating k))
  /-- The map has the circuit, at the read or under the lock. -/
  | found {phase : KeyedPhase κ} {action : KeyedAction} {k : κ} {circuit : ℕ}
      (hphase : phase = .idle ∧ keys.key c request = some k ∨ phase = .creating k)
      (h : s.states k = some circuit) :
      Steps cfg keys request s c phase action (.found circuit) (s.goto c (.inCall circuit .idle))
  /-- The circuit is made and inserted. -/
  | created {k : κ} {label : String} (hlabel : keys.label c request k = some label)
      (h : s.states k = none) :
      Steps cfg keys request s c (.creating k) .create (.created s.circuits.length)
        { states := Function.update s.states k (some s.circuits.length)
          circuits := s.circuits ++ [(label, init (cfg.withKey label))]
          calls := Function.update s.calls c (.inCall s.circuits.length .idle) }
  /-- A step through the circuit. -/
  | called {circuit : ℕ} {phase phase' : CallPhase} {action : CallAction} {label : String}
      {st st' : CircuitBreakerState} {shown : Shown}
      (hcircuit : s.circuits[circuit]? = some (label, st))
      (h : callStep (cfg.withKey label) request st phase action = some (shown, st', phase')) :
      Steps cfg keys request s c (.inCall circuit phase) (.call action) (.called circuit shown)
        { s with
          circuits := s.circuits.set circuit (label, st')
          calls := Function.update s.calls c (.inCall circuit phase') }

variable {cfg : Config} {keys : KeyFunction κ} {request : CallId → Request}

/-- A step is one of the listed ones. -/
theorem steps_cases {s s' : KeyedSystem κ} {c : CallId} {action : KeyedAction} {o : KeyedShown}
    (h : (keyedCalls cfg keys request).step s (c, action) = some (o, s')) :
    Steps cfg keys (request c) s c (s.calls c) action o s' := by
  unfold keyedCalls at h
  dsimp only at h
  split at h
  · next hphase =>
    rw [hphase]
    obtain ⟨rfl, rfl⟩ := Prod.ext_iff.mp (Option.some.inj h)
    unfold get
    split
    · exact .failed nofun
    · next k hkey =>
      split
      · next circuit hfound => exact .found (.inl ⟨rfl, hkey⟩) hfound
      · next hmissed => exact .missed hkey hmissed
  · next k hphase =>
    rw [hphase]
    obtain ⟨rfl, rfl⟩ := Prod.ext_iff.mp (Option.some.inj h)
    unfold create
    split
    · exact .failed nofun
    · next label hlabel =>
      split
      · next circuit hfound => exact .found (.inr rfl) hfound
      · next hmissed => exact .created hlabel hmissed
  · next circuit phase action hphase =>
    rw [hphase]
    unfold call at h
    split at h
    · cases h
    · next label st hcircuit =>
      obtain ⟨⟨shown, st', phase'⟩, hcall, hr⟩ := Option.map_eq_some_iff.mp h
      obtain ⟨rfl, rfl⟩ := Prod.ext_iff.mp hr
      exact .called hcircuit hcall
  · cases h

/-! ## One circuit for each key -/

/-- Every circuit that a call holds is the one of its key in the map. -/
structure InMap (keys : KeyFunction κ) (request : CallId → Request) (s : KeyedSystem κ) : Prop where
  /-- The map holds circuits that exist. -/
  bound : ∀ k circuit, s.states k = some circuit → circuit < s.circuits.length
  /-- No circuit has two keys. -/
  injective : ∀ k k' circuit, s.states k = some circuit → s.states k' = some circuit → k = k'
  creating : ∀ c k, s.calls c = .creating k → keys.key c (request c) = some k
  inCall : ∀ c circuit phase, s.calls c = .inCall circuit phase →
    ∃ k, keys.key c (request c) = some k ∧ s.states k = some circuit

namespace InMap

variable {s s' : KeyedSystem κ} {c : CallId}

omit [DecidableEq κ] in
/-- A call goes on with the circuit of its key, or without one. -/
theorem goto (h : InMap keys request s) {phase : KeyedPhase κ}
    (hcreating : ∀ k, phase = .creating k → keys.key c (request c) = some k)
    (hinCall : ∀ circuit p, phase = .inCall circuit p →
      ∃ k, keys.key c (request c) = some k ∧ s.states k = some circuit) :
    InMap keys request (s.goto c phase) where
  bound := h.bound
  injective := h.injective
  creating d k hd := by
    by_cases hdc : d = c
    · subst hdc
      exact hcreating k (by simpa [KeyedSystem.goto] using hd)
    · exact h.creating d k (by simpa [KeyedSystem.goto, hdc] using hd)
  inCall d circuit p hd := by
    by_cases hdc : d = c
    · subst hdc
      exact hinCall circuit p (by simpa [KeyedSystem.goto] using hd)
    · exact h.inCall d circuit p (by simpa [KeyedSystem.goto, hdc] using hd)

/-- The map only grows. -/
theorem states_of_steps {phase : KeyedPhase κ} {action : KeyedAction} {o : KeyedShown}
    (hstep : Steps cfg keys (request c) s c phase action o s') {k : κ} {circuit : ℕ}
    (h : s.states k = some circuit) : s'.states k = some circuit := by
  cases hstep with
  | @created k' _ _ hmissed =>
    have hne : k ≠ k' := by
      rintro rfl
      rw [hmissed] at h
      cases h
    exact (Function.update_of_ne hne _ _).trans h
  | _ => exact h

/-- Every step keeps the circuits in the map. -/
theorem step (h : InMap keys request s) {action : KeyedAction} {o : KeyedShown}
    (hstep : Steps cfg keys (request c) s c (s.calls c) action o s') : InMap keys request s' := by
  generalize hbefore : s.calls c = before at hstep
  cases hstep with
  | failed _ => exact h.goto nofun nofun
  | missed hkey _ =>
    refine h.goto (fun k hk => ?_) nofun
    obtain rfl := KeyedPhase.creating.inj hk
    exact hkey
  | found hphase hfound =>
    refine h.goto nofun fun circuit p hp => ?_
    obtain ⟨rfl, -⟩ := KeyedPhase.inCall.inj hp
    -- The circuit was found by the fast path, or under the lock.
    rcases hphase with ⟨-, hkey⟩ | rfl
    · exact ⟨_, hkey, hfound⟩
    · exact ⟨_, h.creating c _ hbefore, hfound⟩
  | @created k label hlabel hmissed =>
    -- The new circuit is at the end of the list, where no key points yet.
    have hnew : ∀ k', s.states k' ≠ some s.circuits.length := fun k' hk' =>
      lt_irrefl _ (h.bound k' _ hk')
    have hstates : ∀ k' circuit,
        Function.update s.states k (some s.circuits.length) k' = some circuit →
          k' = k ∧ circuit = s.circuits.length ∨ k' ≠ k ∧ s.states k' = some circuit := by
      intro k' circuit hk'
      by_cases hkk : k' = k
      · subst hkk
        rw [Function.update_self] at hk'
        exact .inl ⟨rfl, (Option.some.inj hk').symm⟩
      · rw [Function.update_of_ne hkk] at hk'
        exact .inr ⟨hkk, hk'⟩
    refine ⟨fun k' circuit hk' => ?_, fun k₁ k₂ circuit h₁ h₂ => ?_, fun d k' hd => ?_,
      fun d circuit p hd => ?_⟩
    · rw [List.length_append, List.length_singleton]
      rcases hstates k' circuit hk' with ⟨-, rfl⟩ | ⟨-, hk'⟩
      · exact Nat.lt_succ_self _
      · exact Nat.lt_succ_of_lt (h.bound k' circuit hk')
    · rcases hstates k₁ circuit h₁ with ⟨rfl, rfl⟩ | ⟨-, h₁⟩
      · rcases hstates k₂ _ h₂ with ⟨rfl, -⟩ | ⟨-, h₂⟩
        · rfl
        · exact absurd h₂ (hnew k₂)
      · rcases hstates k₂ _ h₂ with ⟨-, rfl⟩ | ⟨-, h₂⟩
        · exact absurd h₁ (hnew k₁)
        · exact h.injective k₁ k₂ circuit h₁ h₂
    · by_cases hdc : d = c
      · simp [hdc] at hd
      · exact h.creating d k' (by simpa [hdc] using hd)
    · by_cases hdc : d = c
      · subst hdc
        obtain ⟨rfl, -⟩ : s.circuits.length = circuit ∧ _ := by simpa using hd
        exact ⟨k, h.creating d k hbefore, Function.update_self k _ _⟩
      · obtain ⟨k', hkey, hk'⟩ := h.inCall d circuit p (by simpa [hdc] using hd)
        refine ⟨k', hkey, ?_⟩
        have hkk : k' ≠ k := by
          rintro rfl
          rw [hmissed] at hk'
          cases hk'
        exact (Function.update_of_ne hkk _ _).trans hk'
  | called hcircuit _ =>
    -- The step replaces a circuit by its next state: the map is the same.
    refine ⟨fun k circuit hk => ?_, h.injective, fun d k hd => ?_, fun d circuit p hd => ?_⟩
    · rw [List.length_set]
      exact h.bound k circuit hk
    · by_cases hdc : d = c
      · simp [hdc] at hd
      · exact h.creating d k (by simpa [hdc] using hd)
    · by_cases hdc : d = c
      · subst hdc
        obtain ⟨rfl, -⟩ : _ = circuit ∧ _ := by simpa using hd
        exact h.inCall d _ _ hbefore
      · exact h.inCall d circuit p (by simpa [hdc] using hd)

/-- The circuits are in the map after every run. -/
theorem of_runs {run : List ((CallId × KeyedAction) × KeyedShown)}
    (h : (keyedCalls cfg keys request).Runs run s) : InMap keys request s := by
  refine h.state_invariant ⟨nofun, nofun, nofun, nofun⟩ ?_
  rintro s ⟨c, action⟩ o s' hs hstep
  exact hs.step (steps_cases hstep)

end InMap

/-! ## Each circuit is a plain breaker -/

/-- What the calls with key `k` did to their circuit. -/
def ofKey (keys : KeyFunction κ) (request : CallId → Request) (k : κ) :
    (CallId × KeyedAction) × KeyedShown → Option ((CallId × CallAction) × Shown)
  | ((c, .call action), .called _ shown) =>
    if keys.key c (request c) = some k then some ((c, action), shown) else none
  | _ => none

/-- Where a call is in its circuit. -/
def KeyedPhase.phase : KeyedPhase κ → CallPhase
  | inCall _ phase => phase
  | _ => .idle

/-- The circuit with key `k` is the one of a plain breaker, in a run of which the calls with that key
did what they did here. -/
structure Mirrors (cfg : Config) (keys : KeyFunction κ) (request : CallId → Request) (k : κ)
    (run : List ((CallId × KeyedAction) × KeyedShown)) (s : KeyedSystem κ) (label : String)
    (plain : List ((CallId × CallAction) × Shown)) (t : System) : Prop where
  runs : (calls cfg.plain request).Runs plain t
  /-- The same steps with the same results, and with the label on the events. -/
  steps : run.filterMap (ofKey keys request k) = plain.map fun x => (x.1, x.2.withKey label)
  /-- The circuit is the same, and some call with the key labelled it. -/
  circuit : ∀ circuit, s.states k = some circuit →
    s.circuits[circuit]? = some (label, t.circuit) ∧
      ∃ c, keys.key c (request c) = some k ∧ keys.label c (request c) k = some label
  /-- Nobody uses a circuit that is not there. -/
  fresh : s.states k = none → plain = []
  /-- The calls with the key are where they are there. -/
  phases : ∀ c, keys.key c (request c) = some k →
    (s.calls c).phase = (t.calls c).withKey label

namespace Mirrors

variable {k : κ} {run : List ((CallId × KeyedAction) × KeyedShown)} {s s' : KeyedSystem κ}
  {c : CallId} {label : String} {plain : List ((CallId × CallAction) × Shown)} {t : System}

/-- A step that is not a step of a call with the key through its circuit. -/
theorem other (h : Mirrors cfg keys request k run s label plain t)
    {x : (CallId × KeyedAction) × KeyedShown} (hnot : ofKey keys request k x = none)
    (hstates : s'.states k = s.states k)
    (hcircuit : ∀ circuit, s.states k = some circuit → s'.circuits[circuit]? = s.circuits[circuit]?)
    (hphases : ∀ d, keys.key d (request d) = some k → (s'.calls d).phase = (s.calls d).phase) :
    Mirrors cfg keys request k (run ++ [x]) s' label plain t where
  runs := h.runs
  steps := by
    rw [List.filterMap_append, h.steps]
    simp [hnot]
  circuit circuit hk := by
    rw [hstates] at hk
    rw [hcircuit circuit hk]
    exact h.circuit circuit hk
  fresh hk := h.fresh (hstates.symm.trans hk)
  phases d hd := (hphases d hd).trans (h.phases d hd)

/-- A call of another phase outside its circuit. -/
theorem goto (h : Mirrors cfg keys request k run s label plain t) {phase : KeyedPhase κ}
    {x : (CallId × KeyedAction) × KeyedShown} (hnot : ofKey keys request k x = none)
    (hphase : phase.phase = (s.calls c).phase) :
    Mirrors cfg keys request k (run ++ [x]) (s.goto c phase) label plain t := by
  refine h.other hnot rfl (fun _ _ => rfl) fun d _ => ?_
  by_cases hdc : d = c
  · subst hdc
    simpa [KeyedSystem.goto] using hphase
  · simp [KeyedSystem.goto, hdc]

/-- A circuit is made. -/
theorem created (h : Mirrors cfg keys request k run s label plain t) (hs : InMap keys request s)
    {k' : κ} {label' : String} (hbefore : s.calls c = .creating k')
    (hlabel : keys.label c (request c) k' = some label') (hmissed : s.states k' = none) :
    ∃ label plain t, Mirrors cfg keys request k
      (run ++ [((c, .create), .created s.circuits.length)])
      { states := Function.update s.states k' (some s.circuits.length)
        circuits := s.circuits ++ [(label', init (cfg.withKey label'))]
        calls := Function.update s.calls c (.inCall s.circuits.length .idle) } label plain t := by
  have hphases : ∀ d, (Function.update s.calls c
      (KeyedPhase.inCall s.circuits.length .idle) d).phase = (s.calls d).phase := by
    intro d
    by_cases hdc : d = c
    · subst hdc
      rw [Function.update_self, hbefore]
      rfl
    · rw [Function.update_of_ne hdc]
  by_cases hk : k = k'
  · subst hk
    -- Nothing has happened in the plain breaker yet.
    obtain rfl := h.fresh hmissed
    obtain rfl : t = (calls cfg.plain request).init := h.runs.eq_of_nil
    refine ⟨label', [], _, .nil, ?_, fun circuit hcircuit => ?_, fun hk => ?_, fun d hd => ?_⟩
    · rw [List.filterMap_append, h.steps]
      rfl
    · obtain rfl : s.circuits.length = circuit :=
        Option.some.inj ((Function.update_self k _ _).symm.trans hcircuit)
      exact ⟨List.getElem?_concat_length, c, hs.creating c k hbefore, hlabel⟩
    · cases (Function.update_self k _ _).symm.trans hk
    · exact (hphases d).trans (h.phases d hd)
  · refine ⟨label, plain, t, h.other rfl (Function.update_of_ne hk _ _) (fun circuit hcircuit => ?_)
      fun d _ => hphases d⟩
    exact List.getElem?_append_left (hs.bound k circuit hcircuit)

/-- A step through the circuit of a key. -/
theorem called (h : Mirrors cfg keys request k run s label plain t) (hs : InMap keys request s)
    {circuit : ℕ} {phase phase' : CallPhase} {action : CallAction} {label' : String}
    {st st' : CircuitBreakerState} {shown : Shown} (hbefore : s.calls c = .inCall circuit phase)
    (hcircuit : s.circuits[circuit]? = some (label', st))
    (hcall : callStep (cfg.withKey label') (request c) st phase action = some (shown, st', phase')) :
    ∃ label plain t, Mirrors cfg keys request k
      (run ++ [((c, .call action), .called circuit shown)])
      { s with
        circuits := s.circuits.set circuit (label', st')
        calls := Function.update s.calls c (.inCall circuit phase') } label plain t := by
  obtain ⟨k', hkey, hk'⟩ := hs.inCall c circuit phase hbefore
  by_cases hk : k' = k
  · subst hk
    obtain ⟨hsame, hlabelled⟩ := h.circuit circuit hk'
    obtain ⟨rfl, rfl⟩ : label' = label ∧ st = t.circuit := by
      rw [hcircuit] at hsame
      exact Prod.mk.inj (Option.some.inj hsame)
    have hphase : phase = (t.calls c).withKey label' := by
      have := h.phases c hkey
      rwa [hbefore] at this
    -- The step of the plain breaker, from which this one differs by the label.
    have hkeyed := callStep_withKey cfg label' (request c) t.circuit (t.calls c) action
    rw [withKey_of_events (events_of_runs h.runs), ← hphase, hcall, eq_comm,
      Option.map_eq_some_iff] at hkeyed
    obtain ⟨⟨shown₁, st₁, phase₁⟩, hplain, hr⟩ := hkeyed
    simp only [Prod.mk.injEq] at hr
    obtain ⟨rfl, rfl, rfl⟩ := hr
    have hrun := h.runs.snoc (step_of_callStep hplain)
    have hst₁ : st₁.withKey label' = st₁ := withKey_of_events (events_of_runs hrun)
    refine ⟨label', _, _, hrun, ?_, fun circuit₁ hcircuit₁ => ?_, fun hnone => ?_, fun d hd => ?_⟩
    · rw [List.filterMap_append, h.steps, List.map_append]
      simp [ofKey, hkey]
    · obtain rfl : circuit = circuit₁ := Option.some.inj (hk'.symm.trans hcircuit₁)
      refine ⟨?_, hlabelled⟩
      rw [hst₁]
      exact List.getElem?_set_self (hs.bound k' circuit hk')
    · rw [hk'] at hnone
      cases hnone
    · by_cases hdc : d = c
      · subst hdc
        simp [KeyedPhase.phase]
      · simpa [hdc] using h.phases d hd
  · have hnot : ofKey keys request k ((c, .call action), .called circuit shown) = none := by
      simp [ofKey, hkey, hk]
    refine ⟨label, plain, t, h.other hnot rfl (fun circuit₁ hcircuit₁ => ?_) fun d hd => ?_⟩
    · have hne : circuit ≠ circuit₁ := by
        rintro rfl
        exact hk (hs.injective k' k circuit hk' hcircuit₁)
      exact List.getElem?_set_ne hne
    · have hdc : d ≠ c := by
        rintro rfl
        exact hk (Option.some.inj (hkey.symm.trans hd))
      simp [hdc]

/-- Every step keeps the circuit of a key a plain breaker's. -/
theorem step (h : Mirrors cfg keys request k run s label plain t) (hs : InMap keys request s)
    {action : KeyedAction} {o : KeyedShown}
    (hstep : Steps cfg keys (request c) s c (s.calls c) action o s') :
    ∃ label plain t, Mirrors cfg keys request k (run ++ [((c, action), o)]) s' label plain t := by
  generalize hbefore : s.calls c = before at hstep
  cases hstep with
  | failed hout =>
    refine ⟨label, plain, t, h.goto ?_ ?_⟩
    · cases action <;> rfl
    · rw [hbefore]
      cases before with
      | inCall circuit phase => exact absurd rfl (hout circuit phase)
      | _ => rfl
  | missed _ _ => exact ⟨label, plain, t, h.goto rfl (by rw [hbefore]; rfl)⟩
  | found hphase _ =>
    refine ⟨label, plain, t, h.goto ?_ ?_⟩
    · cases action <;> rfl
    · rw [hbefore]
      rcases hphase with ⟨rfl, -⟩ | rfl <;> rfl
  | created hlabel hmissed => exact h.created hs hbefore hlabel hmissed
  | called hcircuit hcall => exact h.called hs hbefore hcircuit hcall

end Mirrors

/-- The circuit of every key is a plain breaker's after every run. -/
theorem mirrors_of_runs {run : List ((CallId × KeyedAction) × KeyedShown)} {s : KeyedSystem κ}
    (h : (keyedCalls cfg keys request).Runs run s) (k : κ) :
    ∃ label plain t, Mirrors cfg keys request k run s label plain t := by
  refine h.invariant
    (I := fun run s => ∃ label plain t, Mirrors cfg keys request k run s label plain t) ?_ ?_
  · exact ⟨"", [], _, .nil, rfl, nofun, fun _ => rfl, fun _ _ => rfl⟩
  · rintro run s ⟨c, action⟩ o s' hrun ⟨label, plain, t, ih⟩ hstep
    exact ih.step (.of_runs hrun) (steps_cases hstep)

/-- A circuit that was called stays in the map, under the key of its callers. -/
theorem called_in_map {run : List ((CallId × KeyedAction) × KeyedShown)} {s : KeyedSystem κ}
    (h : (keyedCalls cfg keys request).Runs run s) :
    ∀ x ∈ run, ∀ circuit shown, x.2 = .called circuit shown →
      ∃ k, keys.key x.1.1 (request x.1.1) = some k ∧ s.states k = some circuit := by
  refine h.invariant (I := fun run s => ∀ x ∈ run, ∀ circuit shown, x.2 = .called circuit shown →
    ∃ k, keys.key x.1.1 (request x.1.1) = some k ∧ s.states k = some circuit)
    (fun x hx => absurd hx List.not_mem_nil) ?_
  rintro run s ⟨c, action⟩ o s' hrun ih hstep x hx circuit shown hcalled
  have hsteps := steps_cases hstep
  have hs := InMap.of_runs hrun
  rcases List.mem_append.mp hx with hx | hx
  · obtain ⟨k, hkey, hk⟩ := ih x hx circuit shown hcalled
    exact ⟨k, hkey, InMap.states_of_steps hsteps hk⟩
  · obtain rfl := List.mem_singleton.mp hx
    dsimp only at hcalled
    subst hcalled
    generalize hbefore : s.calls c = before at hsteps
    cases hsteps with
    | called _ _ => exact hs.inCall c circuit _ hbefore

/-- A keyed breaker is a product of independent plain breakers. In every run, what the calls with key
`k` did to their circuit is a run of a plain breaker with the same configuration, the same calls in
the same order and at the same readings, and the same results, but for the label on the events; their
circuit is then in the state of that breaker. Every circuit that was ever called is the one of its
callers' key in the map, and no two keys have one circuit. -/
theorem keyed_product {run : List ((CallId × KeyedAction) × KeyedShown)} {s : KeyedSystem κ}
    (h : (keyedCalls cfg keys request).Runs run s) :
    (∀ k, ∃ label plain t, (calls cfg.plain request).Runs plain t ∧
        run.filterMap (ofKey keys request k) = plain.map (fun x => (x.1, x.2.withKey label)) ∧
        ∀ circuit, s.states k = some circuit → s.circuits[circuit]? = some (label, t.circuit) ∧
          ∃ c, keys.key c (request c) = some k ∧ keys.label c (request c) k = some label) ∧
      (∀ x ∈ run, ∀ circuit shown, x.2 = .called circuit shown →
        ∃ k, keys.key x.1.1 (request x.1.1) = some k ∧ s.states k = some circuit) ∧
      ∀ k k' circuit, s.states k = some circuit → s.states k' = some circuit → k = k' := by
  refine ⟨fun k => ?_, called_in_map h, (InMap.of_runs h).injective⟩
  obtain ⟨label, plain, t, hmirrors⟩ := mirrors_of_runs h k
  exact ⟨label, plain, t, hmirrors.runs, hmirrors.steps, hmirrors.circuit⟩

/-- Two calls race to create the circuit of their origin. -/
def race : List (CallId × KeyedAction) :=
  [(0, .get), (1, .get), (0, .create), (1, .create), (1, .call .read)]

/-- What these steps show. -/
def raceShown : List KeyedShown :=
  [.missed, .missed, .created 0, .found 0, .called 0 ⟨.read (some 0), [], .CLOSED⟩]

/-- The second call used the circuit that the first one created, and it is in the map. -/
theorem keyed_product_race : ∃ s,
    (keyedCalls defaultConfig byOrigin fun _ => getRequest).Runs (race.zip raceShown) s ∧
      s.states ("https", "a", none) = some 0 := by
  obtain ⟨s, hrun, -⟩ := Machine.exists_runs_of_observe
    (keyedCalls defaultConfig byOrigin fun _ => getRequest) (fun s => s.circuits.length) race
    raceShown 1 (by decide +kernel)
  obtain ⟨k, hkey, hk⟩ := (keyed_product hrun).2.1
    ((1, .call .read), .called 0 ⟨.read (some 0), [], .CLOSED⟩)
    (by simp [race, raceShown]) 0 _ rfl
  obtain rfl : ("https", "a", none) = k := Option.some.inj hkey
  exact ⟨s, hrun, hk⟩

end KeyedStates

end Httpware
