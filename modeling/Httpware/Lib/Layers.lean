import Mathlib.Data.Nat.Pairing
import Mathlib.Data.Set.Card
import Httpware.Lib.Machine

/-!
# Layers of calls

A `Service` is a machine whose actions are those of calls: a call, named by a number, begins, takes
steps, and ends. In a `Layer` a call may also be suspended while it waits for a call that it made to the
service inside, and it goes on when that one has ended. `Layer.wrap` puts a layer over a service, so
that call number `k` of call `c` is the call `Nat.pair c k` of the service inside, and the result is a
service again: `around` puts any list of layers over a service.

`Nested` is the invariant of two levels: a call of the inside is in progress only while the call that
made it is suspended there, and each call of the outside has made its calls one after the other. The
rest follows from it: a bound on suspended calls bounds what is in progress further inside
(`encard_active_le`), a call that has not come to its first `next` has made no call (`Untouched`), and a
layer that calls `next` once has made at most one (`Once`).
-/

/-- A machine of calls. They end with an `ε`, which may depend on some `υ` beside the phase. -/
structure Service (ε υ : Type) where
  State : Type
  Phase : Type
  Action : Type
  Output : Type
  machine : Machine State (ℕ × Action) Output
  /-- Where a call is. -/
  phase : State → ℕ → Phase
  /-- The call has not begun. -/
  isIdle : Phase → Bool
  /-- How the call has ended, if it has. -/
  ending : Phase → Option (υ → ε)
  /-- From where to where an action leads a call. -/
  moves : Phase → Action → Phase → Prop
  /-- The action brings its call on, and nobody else has a part in it: it is no cancellation and no
  deadline that expires. -/
  own : State → ℕ → Action → Prop
  /-- A call waits for what another one has. -/
  waits : State → ℕ → ℕ → Prop
  init : ∀ c, isIdle (phase machine.init c) = true
  idle_ending : ∀ p, isIdle p = true → ending p = none
  /-- A step moves its own call only. -/
  step : ∀ s c a o s', machine.step s (c, a) = some (o, s') →
    moves (phase s c) a (phase s' c) ∧ ∀ d, d ≠ c → phase s' d = phase s d
  begun : ∀ p a p', moves p a p' → isIdle p' = false
  /-- A call that has ended takes no step. -/
  ended : ∀ p a p', moves p a p' → ending p = none

/-- A machine of calls that call the service inside, `next`. -/
structure Layer (ε υ : Type) extends Service ε υ where
  /-- What the layer reads when `next` has ended. -/
  Reading : Type
  /-- `next` ends. -/
  finish : ε → Reading → Action
  /-- The ending of `next`, if the action is that. -/
  finished : Action → Option ε
  /-- The call is suspended in `next`. -/
  inNext : Phase → Bool
  finished_finish : ∀ e b, finished (finish e b) = some e
  inNext_open : ∀ p, inNext p = true → isIdle p = false ∧ ending p = none
  /-- A call stays in `next` until that ends. -/
  stays : ∀ p a p', moves p a p' → finished a = none → inNext p = true → inNext p' = true
  leaves : ∀ p a p' e, moves p a p' → finished a = some e → inNext p = true ∧ inNext p' = false

namespace Service

variable {ε υ : Type} (X : Service ε υ)

/-- The call has begun and not ended. -/
def inProgress (p : X.Phase) : Bool := !X.isIdle p && (X.ending p).isNone

/-- The calls in progress. -/
def active (s : X.State) : Set ℕ := {i | X.inProgress (X.phase s i) = true}

/-- The calls that have begun. -/
def begunCalls (s : X.State) : Set ℕ := {i | X.isIdle (X.phase s i) = false}

variable {X} in
/-- The steps of other calls leave a call where it is. -/
theorem frame {s s' : X.State} {c d : ℕ} {a : X.Action} {o : X.Output}
    (h : X.machine.step s (c, a) = some (o, s')) (hd : d ≠ c) : X.phase s' d = X.phase s d :=
  (X.step s c a o s' h).2 d hd

variable {X} in
/-- A step moves its call. -/
theorem moves_of_step {s s' : X.State} {c : ℕ} {a : X.Action} {o : X.Output}
    (h : X.machine.step s (c, a) = some (o, s')) : X.moves (X.phase s c) a (X.phase s' c) :=
  (X.step s c a o s' h).1

/-- A call without a step is idle. -/
theorem isIdle_of_notMem {run : List ((ℕ × X.Action) × X.Output)} {s : X.State}
    (h : X.machine.Runs run s) : ∀ c, c ∉ Machine.parties run → X.isIdle (X.phase s c) = true := by
  apply h.invariant (I := fun run s => ∀ c, c ∉ Machine.parties run → X.isIdle (X.phase s c) = true)
  · exact fun c _ => X.init c
  · rintro run s ⟨d, a⟩ o s' - ih hstep c hc
    rw [Machine.mem_parties_snoc, not_or] at hc
    rw [frame hstep hc.2]
    exact ih c hc.1

end Service

namespace Layer

variable {ε υ : Type}

/-- The calls that are suspended in `next`. -/
def suspended (A : Layer ε υ) (s : A.State) : Set ℕ := {c | A.inNext (A.phase s c) = true}

/-- A layer and the service inside; `nexts` counts the calls of `next` that have ended. -/
structure Both (A : Layer ε υ) (X : Service ε υ) where
  outer : A.State
  inner : X.State
  nexts : ℕ → ℕ

namespace Both

variable {A : Layer ε υ} {X : Service ε υ}

/-- The next, or current, call that the call `c` makes. -/
def child (s : Both A X) (c : ℕ) : ℕ := Nat.pair c (s.nexts c)

end Both

/-- What can happen to a call of the outside. -/
inductive BothAction (A : Layer ε υ) (X : Service ε υ)
  /-- A step of its own. -/
  | outer (a : A.Action)
  /-- A step of the call that it made. -/
  | inner (x : X.Action)
  /-- The call that it made has ended, and it goes on. -/
  | ret (u : υ) (b : A.Reading)

/-- What a step shows: which call of the inside has moved, and with what the outside goes on. -/
inductive BothOutput (A : Layer ε υ) (X : Service ε υ)
  | outer (o : A.Output)
  | inner (i : ℕ) (o : X.Output)
  | ret (e : ε) (o : A.Output)

/-- One step of a call of the outside. -/
def wrapStep (A : Layer ε υ) (X : Service ε υ) (s : Both A X) (c : ℕ) :
    BothAction A X → Option (BothOutput A X × Both A X)
  | .outer a =>
    if (A.finished a).isSome then none
    else (A.machine.step s.outer (c, a)).map fun r => (.outer r.1, { s with outer := r.2 })
  | .inner x =>
    if A.inNext (A.phase s.outer c) then
      (X.machine.step s.inner (s.child c, x)).map
        fun r => (.inner (s.child c) r.1, { s with inner := r.2 })
    else none
  | .ret u b =>
    (X.ending (X.phase s.inner (s.child c))).bind fun ending =>
      (A.machine.step s.outer (c, A.finish (ending u) b)).map fun r =>
        (.ret (ending u) r.1,
          { s with outer := r.2, nexts := Function.update s.nexts c (s.nexts c + 1) })

/-- The ways in which a call of the outside can take a step. -/
inductive WrapSteps (A : Layer ε υ) (X : Service ε υ) (s : Both A X) (c : ℕ) :
    BothAction A X → BothOutput A X → Both A X → Prop
  | outer {a : A.Action} {o : A.Output} {s' : A.State} (hfinish : A.finished a = none)
      (hstep : A.machine.step s.outer (c, a) = some (o, s')) :
      WrapSteps A X s c (.outer a) (.outer o) { s with outer := s' }
  | inner {x : X.Action} {o : X.Output} {s' : X.State}
      (hnext : A.inNext (A.phase s.outer c) = true)
      (hstep : X.machine.step s.inner (s.child c, x) = some (o, s')) :
      WrapSteps A X s c (.inner x) (.inner (s.child c) o) { s with inner := s' }
  | ret {u : υ} {b : A.Reading} {ending : υ → ε} {o : A.Output} {s' : A.State}
      (hending : X.ending (X.phase s.inner (s.child c)) = some ending)
      (hstep : A.machine.step s.outer (c, A.finish (ending u) b) = some (o, s')) :
      WrapSteps A X s c (.ret u b) (.ret (ending u) o)
        { s with outer := s', nexts := Function.update s.nexts c (s.nexts c + 1) }

/-- A call of the outside takes a step in one of the listed ways. -/
theorem wrapStep_cases {A : Layer ε υ} {X : Service ε υ} {s s' : Both A X} {c : ℕ}
    {a : BothAction A X} {o : BothOutput A X} (h : wrapStep A X s c a = some (o, s')) :
    WrapSteps A X s c a o s' := by
  cases a with
  | outer a =>
    simp only [wrapStep] at h
    split_ifs at h with hfinish
    obtain ⟨r, hstep, hr⟩ := Option.map_eq_some_iff.mp h
    cases hr
    exact .outer (by simpa using hfinish) hstep
  | inner x =>
    simp only [wrapStep] at h
    split_ifs at h with hnext
    obtain ⟨r, hstep, hr⟩ := Option.map_eq_some_iff.mp h
    cases hr
    exact .inner hnext hstep
  | ret u b =>
    obtain ⟨ending, hending, h⟩ := Option.bind_eq_some_iff.mp h
    obtain ⟨r, hstep, hr⟩ := Option.map_eq_some_iff.mp h
    cases hr
    exact .ret hending hstep

/-- From where to where an action leads a call of the outside: while it acts inside, it stays. -/
def BothMoves (A : Layer ε υ) (X : Service ε υ) (p : A.Phase) : BothAction A X → A.Phase → Prop
  | .outer a, p' => A.moves p a p'
  | .inner _, p' => A.inNext p = true ∧ p' = p
  | .ret _ b, p' => ∃ e, A.moves p (A.finish e b) p'

/-- The own actions of a call of the outside, with those of the call that it made. -/
def BothOwn (A : Layer ε υ) (X : Service ε υ) (s : Both A X) (c : ℕ) : BothAction A X → Prop
  | .outer a => A.own s.outer c a
  | .inner x => X.own s.inner (s.child c) x
  | .ret _ _ => True

/-- A call of the outside waits for another one there, or the call that it, or one that it waits for, has
made waits inside. -/
def BothWaits (A : Layer ε υ) (X : Service ε υ) (s : Both A X) (c d : ℕ) : Prop :=
  A.waits s.outer c d ∨ ∃ e, (e = c ∨ A.waits s.outer c e) ∧ A.inNext (A.phase s.outer e) = true ∧
    A.inNext (A.phase s.outer d) = true ∧ X.waits s.inner (s.child e) (s.child d)

/-- A layer over a service: the calls of the outside, with what they do inside. -/
def wrap (A : Layer ε υ) (X : Service ε υ) : Service ε υ where
  State := Both A X
  Phase := A.Phase
  Action := BothAction A X
  Output := BothOutput A X
  machine := ⟨⟨A.machine.init, X.machine.init, fun _ => 0⟩, fun s a => wrapStep A X s a.1 a.2⟩
  phase s c := A.phase s.outer c
  isIdle := A.isIdle
  ending := A.ending
  moves := BothMoves A X
  own := BothOwn A X
  waits := BothWaits A X
  init := A.init
  idle_ending := A.idle_ending
  step s c a o s' h := by
    cases wrapStep_cases h with
    | outer _ hstep => exact A.step _ _ _ _ _ hstep
    | inner hnext _ => exact ⟨⟨hnext, rfl⟩, fun _ _ => rfl⟩
    | ret _ hstep => exact ⟨⟨_, Service.moves_of_step hstep⟩, fun d hd => Service.frame hstep hd⟩
  begun p a p' h := by
    cases a with
    | outer a => exact A.begun p a p' h
    | inner x => exact h.2 ▸ (A.inNext_open p h.1).1
    | ret u b =>
      obtain ⟨e, hmoves⟩ := h
      exact A.begun p _ p' hmoves
  ended p a p' h := by
    cases a with
    | outer a => exact A.ended p a p' h
    | inner x => exact (A.inNext_open p h.1).2
    | ret u b =>
      obtain ⟨e, hmoves⟩ := h
      exact A.ended p _ p' hmoves

section Over

variable {A : Layer ε υ} {X : Service ε υ} {s : Both A X}
  {run : List ((ℕ × BothAction A X) × BothOutput A X)}

/-! ## The two levels of a run -/

/-- The outside's part of a step. -/
def outerPart : ℕ × BothAction A X → BothOutput A X → Option ((ℕ × A.Action) × A.Output)
  | (c, .outer a), .outer o => some ((c, a), o)
  | (c, .ret _ b), .ret e o => some ((c, A.finish e b), o)
  | _, _ => none

/-- The inside's part of a step. -/
def innerPart : ℕ × BothAction A X → BothOutput A X → Option ((ℕ × X.Action) × X.Output)
  | (_, .inner x), .inner i o => some ((i, x), o)
  | _, _ => none

/-- The outside's part of a run. -/
def outerRun (run : List ((ℕ × BothAction A X) × BothOutput A X)) :
    List ((ℕ × A.Action) × A.Output) := run.filterMap fun x => outerPart x.1 x.2

/-- The inside's part of a run. -/
def innerRun (run : List ((ℕ × BothAction A X) × BothOutput A X)) :
    List ((ℕ × X.Action) × X.Output) := run.filterMap fun x => innerPart x.1 x.2

/-- The outside's part of a run is a run of the layer. -/
theorem outer_runs (h : (A.wrap X).machine.Runs run s) : A.machine.Runs (outerRun run) s.outer := by
  obtain ⟨t, ht, rfl⟩ := Machine.Runs.project (N := A.machine) (R := fun s t => t = s.outer)
    outerPart rfl (fun run s a o s' t _ hR hs => by
      subst hR
      obtain ⟨c, action⟩ := a
      cases wrapStep_cases hs with
      | outer hfinish hstep => exact ⟨_, hstep, rfl⟩
      | inner hnext hstep => exact rfl
      | ret hending hstep => exact ⟨_, hstep, rfl⟩) h
  exact ht

/-- The inside's part of a run is a run of the service. -/
theorem inner_runs (h : (A.wrap X).machine.Runs run s) : X.machine.Runs (innerRun run) s.inner := by
  obtain ⟨t, ht, rfl⟩ := Machine.Runs.project (N := X.machine) (R := fun s t => t = s.inner)
    innerPart rfl (fun run s a o s' t _ hR hs => by
      subst hR
      obtain ⟨c, action⟩ := a
      cases wrapStep_cases hs with
      | outer hfinish hstep => exact rfl
      | inner hnext hstep => exact ⟨_, hstep, rfl⟩
      | ret hending hstep => exact rfl) h
  exact ht

/-! ## Calls are nested -/

/-- The calls that a call has made: the earlier ones have ended, the later ones have not begun, and the
current one has begun only if the call is suspended. -/
structure Nested (s : Both A X) : Prop where
  earlier : ∀ c k, k < s.nexts c → (X.ending (X.phase s.inner (Nat.pair c k))).isSome = true
  current : ∀ c, A.inNext (A.phase s.outer c) = false →
    X.isIdle (X.phase s.inner (s.child c)) = true
  later : ∀ c k, s.nexts c < k → X.isIdle (X.phase s.inner (Nat.pair c k)) = true

namespace Nested

/-- A step of the outside leaves what is inside alone. -/
theorem outer (h : Nested s) {c : ℕ} {a : A.Action} {o : A.Output} {s' : A.State}
    (hfinish : A.finished a = none) (hstep : A.machine.step s.outer (c, a) = some (o, s')) :
    Nested { s with outer := s' } where
  earlier := h.earlier
  current d hd := by
    apply h.current d
    dsimp only at hd
    rcases eq_or_ne d c with rfl | hdc
    · -- A call that is not suspended after the step was not before.
      by_contra hnext
      rw [Bool.not_eq_false] at hnext
      rw [A.stays _ _ _ (Service.moves_of_step hstep) hfinish hnext] at hd
      cases hd
    · rwa [Service.frame hstep hdc] at hd
  later := h.later

/-- A step of the inside moves the current call of a suspended one. -/
theorem inner (h : Nested s) {c : ℕ} {x : X.Action} {o : X.Output} {s' : X.State}
    (hnext : A.inNext (A.phase s.outer c) = true)
    (hstep : X.machine.step s.inner (s.child c, x) = some (o, s')) :
    Nested { s with inner := s' } := by
  -- The other calls of the inside are where they were.
  have hframe : ∀ d k, (d = c → k ≠ s.nexts c) →
      X.phase s' (Nat.pair d k) = X.phase s.inner (Nat.pair d k) := by
    intro d k hk
    apply Service.frame hstep
    intro heq
    obtain ⟨hd, hn⟩ := Nat.pair_eq_pair.mp heq
    exact hk hd hn
  constructor
  · intro d k hk
    change (X.ending (X.phase s' _)).isSome = true
    rw [hframe d k (fun hd => by subst hd; exact hk.ne)]
    exact h.earlier d k hk
  · intro d hd
    have hdc : d ≠ c := by
      rintro rfl
      exact Bool.false_ne_true (hd.symm.trans hnext)
    change X.isIdle (X.phase s' (Nat.pair d (s.nexts d))) = true
    rw [hframe d (s.nexts d) (fun heq => absurd heq hdc)]
    exact h.current d hd
  · intro d k hk
    change X.isIdle (X.phase s' _) = true
    rw [hframe d k (fun hd => by subst hd; exact hk.ne')]
    exact h.later d k hk

/-- The current call has ended, and the call that made it goes on. -/
theorem ret (h : Nested s) {c : ℕ} {u : υ} {b : A.Reading} {ending : υ → ε} {o : A.Output}
    {s' : A.State} (hending : X.ending (X.phase s.inner (s.child c)) = some ending)
    (hstep : A.machine.step s.outer (c, A.finish (ending u) b) = some (o, s')) :
    Nested { s with outer := s', nexts := Function.update s.nexts c (s.nexts c + 1) } where
  earlier d k hk := by
    dsimp only at hk ⊢
    rcases eq_or_ne d c with rfl | hdc
    · rw [Function.update_self] at hk
      rcases Nat.lt_succ_iff_lt_or_eq.mp hk with hlt | rfl
      · exact h.earlier d k hlt
      · rw [show Nat.pair d (s.nexts d) = s.child d from rfl, hending]
        rfl
    · rw [Function.update_of_ne hdc] at hk
      exact h.earlier d k hk
  current d hd := by
    change X.isIdle (X.phase s.inner (Nat.pair d _)) = true
    dsimp only at hd ⊢
    rcases eq_or_ne d c with rfl | hdc
    · rw [Function.update_self]
      exact h.later d _ (Nat.lt_succ_self _)
    · rw [Service.frame hstep hdc] at hd
      rw [Function.update_of_ne hdc]
      exact h.current d hd
  later d k hk := by
    dsimp only at hk ⊢
    rcases eq_or_ne d c with rfl | hdc
    · rw [Function.update_self] at hk
      exact h.later d k (by omega)
    · rw [Function.update_of_ne hdc] at hk
      exact h.later d k hk

/-- The invariant after a step. -/
theorem step (h : Nested s) {c : ℕ} {a : BothAction A X} {o : BothOutput A X} {s' : Both A X}
    (hstep : WrapSteps A X s c a o s') : Nested s' := by
  cases hstep with
  | outer hfinish hstep => exact h.outer hfinish hstep
  | inner hnext hstep => exact h.inner hnext hstep
  | ret hending hstep => exact h.ret hending hstep

/-- A call of the inside that has begun is one that some call has made. -/
theorem exists_child (h : Nested s) {i : ℕ} (hi : X.isIdle (X.phase s.inner i) = false) :
    ∃ c k, i = Nat.pair c k ∧
      (k < s.nexts c ∨ k = s.nexts c ∧ A.inNext (A.phase s.outer c) = true) := by
  refine ⟨i.unpair.1, i.unpair.2, (Nat.pair_unpair i).symm, ?_⟩
  have hpair := Nat.pair_unpair i
  rcases lt_trichotomy i.unpair.2 (s.nexts i.unpair.1) with hlt | heq | hgt
  · exact .inl hlt
  · refine .inr ⟨heq, ?_⟩
    by_contra hnext
    have hidle := h.current i.unpair.1 (by simpa using hnext)
    rw [Both.child, ← heq, hpair, hi] at hidle
    cases hidle
  · have hidle := h.later _ _ hgt
    rw [hpair, hi] at hidle
    cases hidle

/-- A call of the inside in progress is the current one of a suspended call. -/
theorem of_inProgress (h : Nested s) {i : ℕ} (hi : i ∈ X.active s.inner) :
    ∃ c, c ∈ A.suspended s.outer ∧ i = s.child c := by
  have hactive : X.isIdle (X.phase s.inner i) = false ∧ (X.ending (X.phase s.inner i)).isNone = true := by
    simpa [Service.active, Service.inProgress] using hi
  obtain ⟨c, k, rfl, hlt | ⟨rfl, hnext⟩⟩ := h.exists_child hactive.1
  · have hsome := h.earlier c k hlt
    rw [Option.isNone_iff_eq_none.mp hactive.2] at hsome
    cases hsome
  · exact ⟨c, hnext, rfl⟩

/-- No more calls are in progress inside than are suspended. -/
theorem encard_active_le (h : Nested s) :
    (X.active s.inner).encard ≤ (A.suspended s.outer).encard := by
  have hsub : X.active s.inner ⊆ s.child '' A.suspended s.outer := by
    intro i hi
    obtain ⟨c, hc, rfl⟩ := h.of_inProgress hi
    exact ⟨c, hc, rfl⟩
  calc (X.active s.inner).encard ≤ (s.child '' A.suspended s.outer).encard := Set.encard_le_encard hsub
    _ ≤ (A.suspended s.outer).encard := Set.encard_image_le _ _

end Nested

/-- Calls are nested in every run. -/
theorem nested_of_runs (h : (A.wrap X).machine.Runs run s) : Nested s := by
  apply h.state_invariant (I := Nested)
  · exact ⟨fun c k hk => absurd hk (Nat.not_lt_zero k), fun c _ => X.init _, fun c k _ => X.init _⟩
  · exact fun s a o s' hI hs => hI.step (wrapStep_cases hs)

/-- A suspended call is in progress. -/
theorem suspended_subset_active : A.suspended s.outer ⊆ (A.wrap X).active s := by
  intro c hc
  obtain ⟨hidle, hnone⟩ := A.inNext_open _ hc
  change (!A.isIdle (A.phase s.outer c) && (A.ending (A.phase s.outer c)).isNone) = true
  rw [hidle, hnone]
  rfl

/-! ## What the outside saw of the inside -/

/-- The endings of `next` that a call has gone on with. -/
def endings (A : Layer ε υ) (c : ℕ) (run : List ((ℕ × A.Action) × A.Output)) : List ε :=
  (Machine.ofParty c run).filterMap fun x => A.finished x.1

@[simp]
theorem endings_snoc_self (c : ℕ) (run : List ((ℕ × A.Action) × A.Output)) (a : A.Action)
    (o : A.Output) :
    A.endings c (run ++ [((c, a), o)]) = A.endings c run ++ (A.finished a).toList := by
  rw [endings, Machine.ofParty_snoc_self, List.filterMap_append]
  cases h : A.finished a <;> simp [endings, h]

theorem endings_snoc_of_ne {c d : ℕ} (h : d ≠ c) (run : List ((ℕ × A.Action) × A.Output))
    (a : A.Action) (o : A.Output) : A.endings c (run ++ [((d, a), o)]) = A.endings c run := by
  rw [endings, Machine.ofParty_snoc_of_ne h, endings]

/-- The outside's part of a longer run. -/
theorem outerRun_snoc (run : List ((ℕ × BothAction A X) × BothOutput A X))
    (x : (ℕ × BothAction A X) × BothOutput A X) :
    outerRun (run ++ [x]) = outerRun run ++ (outerPart x.1 x.2).toList := by
  rw [outerRun, List.filterMap_append, outerRun]
  cases h : outerPart x.1 x.2 <;> simp [h]

/-- The calls that a call has made have ended with what it went on with, one after the other. -/
structure Returns (s : Both A X) (c : ℕ) (endings : List ε) : Prop where
  length : endings.length = s.nexts c
  ended : ∀ k e, endings[k]? = some e →
    ∃ ending u, X.ending (X.phase s.inner (Nat.pair c k)) = some ending ∧ e = ending u

/-- A call that has ended stays as it is. -/
theorem Returns.inner {c i : ℕ} {endings : List ε} (h : Returns s c endings) {x : X.Action}
    {o : X.Output} {s' : X.State} (hstep : X.machine.step s.inner (i, x) = some (o, s')) :
    Returns { s with inner := s' } c endings where
  length := h.length
  ended k e he := by
    obtain ⟨ending, u, hending, rfl⟩ := h.ended k e he
    refine ⟨ending, u, ?_, rfl⟩
    have hne : Nat.pair c k ≠ i := by
      rintro rfl
      rw [X.ended _ _ _ (Service.moves_of_step hstep)] at hending
      cases hending
    change X.ending (X.phase s' (Nat.pair c k)) = some ending
    rw [Service.frame hstep hne]
    exact hending

/-- One ending more. -/
theorem Returns.ret {c : ℕ} {endings : List ε} (h : Returns s c endings) {u : υ} {ending : υ → ε}
    (s' : A.State) (hending : X.ending (X.phase s.inner (s.child c)) = some ending) :
    Returns { s with outer := s', nexts := Function.update s.nexts c (s.nexts c + 1) } c
      (endings ++ [ending u]) where
  length := by
    dsimp only
    rw [List.length_append, h.length, Function.update_self, List.length_singleton]
  ended k e he := by
    rcases Nat.lt_or_ge k endings.length with hk | hk
    · rw [List.getElem?_append_left hk] at he
      exact h.ended k e he
    · obtain ⟨hzero, hlast⟩ : k - endings.length = 0 ∧ ending u = e := by
        rw [List.getElem?_append_right hk, List.getElem?_singleton] at he
        split_ifs at he with hzero
        exact ⟨hzero, Option.some.inj he⟩
      have hn : k = s.nexts c := by
        rw [← h.length]
        omega
      subst hn
      exact ⟨ending, u, hending, hlast.symm⟩

/-- In every run, a call goes on with the endings of the calls that it made, in order. -/
theorem returns_of_runs (h : (A.wrap X).machine.Runs run s) (c : ℕ) :
    Returns s c (A.endings c (outerRun run)) := by
  apply h.invariant (I := fun run s => Returns s c (A.endings c (outerRun run)))
  · exact ⟨rfl, fun k e he => by cases he⟩
  · rintro run s ⟨d, action⟩ o s' - ih hs
    rw [outerRun_snoc]
    cases wrapStep_cases hs with
    | @outer a o s' hfinish hstep =>
      have hsame : A.endings c (outerRun run ++ [((d, a), o)]) = A.endings c (outerRun run) := by
        rcases eq_or_ne d c with rfl | hdc
        · rw [endings_snoc_self, hfinish, Option.toList_none, List.append_nil]
        · exact endings_snoc_of_ne hdc _ _ _
      change Returns _ c (A.endings c (outerRun run ++ [((d, a), o)]))
      rw [hsame]
      exact ⟨ih.length, ih.ended⟩
    | inner _ hstep =>
      change Returns _ c (A.endings c (outerRun run ++ []))
      rw [List.append_nil]
      exact ih.inner hstep
    | @ret u b ending o s' hending _ =>
      change Returns _ c (A.endings c (outerRun run ++ [((d, A.finish (ending u) b), o)]))
      rcases eq_or_ne d c with rfl | hdc
      · rw [endings_snoc_self, A.finished_finish]
        exact ih.ret s' hending
      · rw [endings_snoc_of_ne hdc]
        refine ⟨?_, ih.ended⟩
        dsimp only
        rw [ih.length, Function.update_of_ne hdc.symm]

/-! ## How many calls are made -/

/-- The calls that have been made inside: those that have begun, and those for which a call is
suspended. -/
def made (s : Both A X) : Set ℕ := X.begunCalls s.inner ∪ s.child '' A.suspended s.outer

/-- A step of the outside makes a call only if it suspends its own. -/
theorem made_outer {c : ℕ} {a : A.Action} {o : A.Output} {s' : A.State}
    (hstep : A.machine.step s.outer (c, a) = some (o, s')) :
    ∀ i ∈ made ({ s with outer := s' } : Both A X), i ∈ made s ∨
      i = s.child c ∧ A.inNext (A.phase s.outer c) = false ∧ A.inNext (A.phase s' c) = true := by
  rintro i (hi | ⟨d, hd, rfl⟩)
  · exact .inl (.inl hi)
  · have hnext : A.inNext (A.phase s' d) = true := hd
    rcases eq_or_ne d c with rfl | hdc
    · cases hbefore : A.inNext (A.phase s.outer d) with
      | false => exact .inr ⟨rfl, rfl, hnext⟩
      | true => exact .inl (.inr ⟨d, hbefore, rfl⟩)
    · rw [Service.frame hstep hdc] at hnext
      exact .inl (.inr ⟨d, hnext, rfl⟩)

/-- The call that takes a step inside has been made. -/
theorem made_inner {c : ℕ} {x : X.Action} {o : X.Output} {s' : X.State}
    (hnext : A.inNext (A.phase s.outer c) = true)
    (hstep : X.machine.step s.inner (s.child c, x) = some (o, s')) :
    made ({ s with inner := s' } : Both A X) ⊆ made s := by
  rintro i (hi | hi)
  · rcases eq_or_ne i (s.child c) with rfl | hne
    · exact .inr ⟨c, hnext, rfl⟩
    · have hbegun : X.isIdle (X.phase s' i) = false := hi
      rw [Service.frame hstep hne] at hbegun
      exact .inl hbegun
  · exact .inr hi

/-- A call that goes on has made no new one yet. -/
theorem made_ret {c n : ℕ} {e : ε} {b : A.Reading} {o : A.Output} {s' : A.State}
    (hstep : A.machine.step s.outer (c, A.finish e b) = some (o, s')) :
    made ({ s with outer := s', nexts := Function.update s.nexts c n } : Both A X) ⊆ made s := by
  rintro i (hi | ⟨d, hd, rfl⟩)
  · exact .inl hi
  · have hnext : A.inNext (A.phase s' d) = true := hd
    rcases eq_or_ne d c with rfl | hdc
    · have hleaves := A.leaves _ _ _ _ (Service.moves_of_step hstep) (A.finished_finish e b)
      rw [hleaves.2] at hnext
      cases hnext
    · rw [Service.frame hstep hdc] at hnext
      refine .inr ⟨d, hnext, ?_⟩
      simp only [Both.child]
      rw [Function.update_of_ne hdc]

/-- No more calls have begun inside than there are steps that suspend a call. -/
theorem encard_begun_le_countP {mark : A.Output → Bool}
    (hmark : ∀ run s c a o s', A.machine.Runs run s → A.machine.step s (c, a) = some (o, s') →
      A.inNext (A.phase s c) = false → A.inNext (A.phase s' c) = true → mark o = true)
    (h : (A.wrap X).machine.Runs run s) :
    (X.begunCalls s.inner).encard ≤ ((outerRun run).countP fun x => mark x.2 : ℕ) := by
  have key : (made s).encard ≤ ((outerRun run).countP fun x => mark x.2 : ℕ) := by
    apply h.invariant
      (I := fun run s => (made s).encard ≤ ((outerRun run).countP fun x => mark x.2 : ℕ))
    · have hnone : made (⟨A.machine.init, X.machine.init, fun _ => 0⟩ : Both A X) = ∅ := by
        apply Set.eq_empty_of_forall_notMem
        rintro i (hi | ⟨c, hc, -⟩)
        · cases (X.init i).symm.trans hi
        · cases (A.inNext_open _ hc).1.symm.trans (A.init c)
      change (made (⟨A.machine.init, X.machine.init, fun _ => 0⟩ : Both A X)).encard ≤ _
      rw [hnone, Set.encard_empty]
      exact zero_le
    · rintro run s ⟨c, action⟩ o s' hrun ih hs
      rw [outerRun_snoc, List.countP_append]
      cases wrapStep_cases hs with
      | @outer a o s' hfinish hstep =>
        have hmade := made_outer (X := X) (s := s) hstep
        cases hnew : mark o with
        | false =>
          -- The step suspends no call.
          have hsub : made ({ s with outer := s' } : Both A X) ⊆ made s := by
            intro i hi
            rcases hmade i hi with hold | ⟨-, hbefore, hafter⟩
            · exact hold
            · rw [hmark _ _ _ _ _ _ (outer_runs hrun) hstep hbefore hafter] at hnew
              cases hnew
          refine (Set.encard_le_encard hsub).trans (ih.trans ?_)
          exact_mod_cast Nat.le_add_right _ _
        | true =>
          have hsub : made ({ s with outer := s' } : Both A X) ⊆ insert (s.child c) (made s) := by
            intro i hi
            rcases hmade i hi with hold | ⟨rfl, -⟩
            · exact Set.mem_insert_of_mem _ hold
            · exact Set.mem_insert _ _
          have hone : (outerPart (A := A) (X := X) (c, .outer a) (.outer o)).toList.countP
              (fun x => mark x.2) = 1 := by
            simp [outerPart, hnew]
          rw [hone]
          calc (made ({ s with outer := s' } : Both A X)).encard
              ≤ (insert (s.child c) (made s)).encard := Set.encard_le_encard hsub
            _ ≤ (made s).encard + 1 := Set.encard_insert_le _ _
            _ ≤ ((outerRun run).countP fun x => mark x.2 : ℕ) + 1 := by gcongr
      | inner hnext hstep =>
        refine (Set.encard_le_encard (made_inner hnext hstep)).trans (ih.trans ?_)
        exact_mod_cast Nat.le_add_right _ _
      | ret _ hstep =>
        refine (Set.encard_le_encard (made_ret hstep)).trans (ih.trans ?_)
        exact_mod_cast Nat.le_add_right _ _
  exact (Set.encard_le_encard Set.subset_union_left).trans key

/-! ## Calls that have not come to `next`, and layers that call it once -/

/-- The phases of `K` are before the first `next`: no call is suspended in one, and a call comes to one
only from another. -/
structure Before (A : Layer ε υ) (K : Set A.Phase) : Prop where
  notInNext : ∀ p ∈ K, A.inNext p = false
  back : ∀ p a p', A.moves p a p' → p' ∈ K → p ∈ K

/-- A call before its first `next` has not gone on. -/
theorem Before.nexts_eq_zero {K : Set A.Phase} (hK : Before A K) (h : (A.wrap X).machine.Runs run s) :
    ∀ c, A.phase s.outer c ∈ K → s.nexts c = 0 := by
  apply h.state_invariant (I := fun s => ∀ c, A.phase s.outer c ∈ K → s.nexts c = 0)
  · exact fun _ _ => rfl
  · rintro s ⟨c, action⟩ o s' ih hs d hd
    cases wrapStep_cases hs with
    | outer hfinish hstep =>
      apply ih d
      rcases eq_or_ne d c with rfl | hdc
      · exact hK.back _ _ _ (Service.moves_of_step hstep) hd
      · rwa [← Service.frame hstep hdc]
    | inner _ _ => exact ih d hd
    | ret _ hstep =>
      dsimp only at hd ⊢
      rcases eq_or_ne d c with rfl | hdc
      · -- Only a suspended call goes on.
        have hmoves := Service.moves_of_step hstep
        have hin := (A.leaves _ _ _ _ hmoves (A.finished_finish _ _)).1
        rw [hK.notInNext _ (hK.back _ _ _ hmoves hd)] at hin
        cases hin
      · rw [Function.update_of_ne hdc]
        apply ih d
        rwa [← Service.frame hstep hdc]

/-- A call before its first `next` has made no call. -/
theorem Before.untouched {K : Set A.Phase} (hK : Before A K) (h : (A.wrap X).machine.Runs run s)
    {c : ℕ} (hc : A.phase s.outer c ∈ K) (k : ℕ) :
    X.isIdle (X.phase s.inner (Nat.pair c k)) = true := by
  have hnested := nested_of_runs h
  have hzero := hK.nexts_eq_zero h c hc
  rcases Nat.eq_zero_or_pos k with rfl | hpos
  · have hcurrent := hnested.current c (hK.notInNext _ hc)
    rwa [Both.child, hzero] at hcurrent
  · exact hnested.later c k (by rw [hzero]; exact hpos)

/-- What holds, from then on, of every call that is suspended holds of the calls that have made one. -/
theorem of_begun {Q : List ((ℕ × A.Action) × A.Output) → ℕ → Prop}
    (hmore : ∀ run x c, Q run c → Q (run ++ [x]) c)
    (hnext : ∀ run s, A.machine.Runs run s → ∀ c ∈ A.suspended s, Q run c)
    (h : (A.wrap X).machine.Runs run s) :
    ∀ c k, X.isIdle (X.phase s.inner (Nat.pair c k)) = false → Q (outerRun run) c := by
  apply h.invariant (I := fun run s => ∀ c k,
    X.isIdle (X.phase s.inner (Nat.pair c k)) = false → Q (outerRun run) c)
  · intro c k hbegun
    cases (X.init (Nat.pair c k)).symm.trans hbegun
  · rintro run s ⟨d, action⟩ o s' hrun ih hs c k hbegun
    rw [outerRun_snoc]
    cases wrapStep_cases hs with
    | outer _ _ => exact hmore _ _ _ (ih c k hbegun)
    | @inner x o s' hin hstep =>
      change Q (outerRun run ++ []) c
      rw [List.append_nil]
      by_cases hchild : Nat.pair c k = s.child d
      · -- The step is one of its own call, which is suspended.
        obtain ⟨rfl, -⟩ := Nat.pair_eq_pair.mp hchild
        exact hnext _ _ (outer_runs hrun) c hin
      · apply ih c k
        rw [← Service.frame hstep hchild]
        exact hbegun
    | ret _ _ => exact hmore _ _ _ (ih c k hbegun)

/-- A call is before its first `next` when it has not begun. -/
theorem idle_before (A : Layer ε υ) : Before A {p | A.isIdle p = true} where
  notInNext p hp := by
    have hidle : A.isIdle p = true := hp
    by_contra hnext
    rw [Bool.not_eq_false] at hnext
    rw [(A.inNext_open p hnext).1] at hidle
    cases hidle
  back p a p' h hp := by
    have hidle : A.isIdle p' = true := hp
    rw [A.begun p a p' h] at hidle
    cases hidle

/-- The phases of `K` are after the only `next`: a call that goes on is in one, and leaves them no
more. -/
structure Once (A : Layer ε υ) (K : Set A.Phase) : Prop where
  notInNext : ∀ p ∈ K, A.inNext p = false
  enters : ∀ p a p' e, A.moves p a p' → A.finished a = some e → p' ∈ K
  remains : ∀ p a p', A.moves p a p' → p ∈ K → p' ∈ K

/-- A layer that calls `next` once has gone on at most once, and has made at most that call. -/
theorem Once.nexts_le {K : Set A.Phase} (hK : Once A K) (h : (A.wrap X).machine.Runs run s) (c : ℕ) :
    s.nexts c ≤ 1 ∧ (0 < s.nexts c → A.phase s.outer c ∈ K) := by
  revert c
  apply h.state_invariant
    (I := fun s => ∀ c, s.nexts c ≤ 1 ∧ (0 < s.nexts c → A.phase s.outer c ∈ K))
  · exact fun c => ⟨Nat.zero_le _, fun hpos => absurd hpos (lt_irrefl 0)⟩
  · rintro s ⟨c, action⟩ o s' ih hs d
    obtain ⟨hle, hafter⟩ := ih d
    cases wrapStep_cases hs with
    | outer hfinish hstep =>
      refine ⟨hle, fun hpos => ?_⟩
      dsimp only at hpos ⊢
      rcases eq_or_ne d c with rfl | hdc
      · exact hK.remains _ _ _ (Service.moves_of_step hstep) (hafter hpos)
      · rw [Service.frame hstep hdc]
        exact hafter hpos
    | inner _ _ => exact ⟨hle, hafter⟩
    | ret _ hstep =>
      dsimp only
      rcases eq_or_ne d c with rfl | hdc
      · -- The call was suspended, so this is its first ending.
        have hmoves := Service.moves_of_step hstep
        have hin := (A.leaves _ _ _ _ hmoves (A.finished_finish _ _)).1
        have hzero : s.nexts d = 0 := by
          by_contra hne
          rw [hK.notInNext _ (hafter (Nat.pos_of_ne_zero hne))] at hin
          cases hin
        rw [Function.update_self, hzero]
        exact ⟨le_rfl, fun _ => hK.enters _ _ _ _ hmoves (A.finished_finish _ _)⟩
      · rw [Function.update_of_ne hdc, Service.frame hstep hdc]
        exact ⟨hle, hafter⟩

/-- The calls inside a layer that calls `next` once are those numbered 0. -/
theorem Once.idle {K : Set A.Phase} (hK : Once A K) (h : (A.wrap X).machine.Runs run s) (c k : ℕ)
    (hk : k ≠ 0) : X.isIdle (X.phase s.inner (Nat.pair c k)) = true := by
  obtain ⟨hle, hafter⟩ := hK.nexts_le h c
  have hnested := nested_of_runs h
  rcases Nat.lt_or_ge (s.nexts c) k with hlt | hge
  · exact hnested.later c k hlt
  · -- The call has gone on, so it is not suspended again.
    have hone : s.nexts c = k := by omega
    have hcurrent := hnested.current c (hK.notInNext _ (hafter (by omega)))
    rwa [Both.child, hone] at hcurrent

/-- No more calls have begun inside a layer that calls `next` once than there are calls whose call has
begun. -/
theorem Once.encard_begun_le {K : Set A.Phase} (hK : Once A K) (h : (A.wrap X).machine.Runs run s)
    {S : Set ℕ} (hS : ∀ c, X.isIdle (X.phase s.inner (Nat.pair c 0)) = false → c ∈ S) :
    (X.begunCalls s.inner).encard ≤ S.encard := by
  have hsub : X.begunCalls s.inner ⊆ (fun c => Nat.pair c 0) '' S := by
    intro i hi
    have hbegun : X.isIdle (X.phase s.inner i) = false := hi
    obtain ⟨c, k, rfl, -⟩ := (nested_of_runs h).exists_child hbegun
    have hk : k = 0 := by
      by_contra hne
      rw [hK.idle h c k hne] at hbegun
      cases hbegun
    subst hk
    exact ⟨c, hS c hbegun, rfl⟩
  calc (X.begunCalls s.inner).encard ≤ ((fun c => Nat.pair c 0) '' S).encard :=
        Set.encard_le_encard hsub
    _ ≤ S.encard := Set.encard_image_le _ _

end Over

/-- The layer calls `next` once in each call. -/
def IsOnce (A : Layer ε υ) : Prop := ∃ K, Once A K

/-! ## Any number of layers -/

/-- Layers around a service, the first one outermost. -/
def around : List (Layer ε υ) → Service ε υ → Service ε υ
  | [], X => X
  | A :: As, X => A.wrap (around As X)

/-- The state of the service inside all layers. -/
def innermost : (As : List (Layer ε υ)) → (X : Service ε υ) → (around As X).State → X.State
  | [], _, s => s
  | A :: As, X, s => innermost As X (Both.inner (A := A) (X := around As X) s)

/-- The part of a run inside all layers. -/
def innermostRun : (As : List (Layer ε υ)) → (X : Service ε υ) →
    List ((ℕ × (around As X).Action) × (around As X).Output) → List ((ℕ × X.Action) × X.Output)
  | [], _, run => run
  | A :: As, X, run => innermostRun As X (innerRun (A := A) (X := around As X) run)

/-- The part of a run inside all layers is a run of the service there. -/
theorem innermost_runs (As : List (Layer ε υ)) (X : Service ε υ)
    {run : List ((ℕ × (around As X).Action) × (around As X).Output)} {s : (around As X).State}
    (h : (around As X).machine.Runs run s) :
    X.machine.Runs (innermostRun As X run) (innermost As X s) := by
  induction As with
  | nil => exact h
  | cons A As ih => exact ih (inner_runs h)

/-- No more calls are in progress inside all layers than outside. -/
theorem encard_innermost_le (As : List (Layer ε υ)) (X : Service ε υ)
    {run : List ((ℕ × (around As X).Action) × (around As X).Output)} {s : (around As X).State}
    (h : (around As X).machine.Runs run s) :
    (X.active (innermost As X s)).encard ≤ ((around As X).active s).encard := by
  induction As with
  | nil => exact le_rfl
  | cons A As ih =>
    calc (X.active (innermost As X (Both.inner (A := A) (X := around As X) s))).encard
        ≤ ((around As X).active (Both.inner (A := A) (X := around As X) s)).encard :=
          ih (inner_runs h)
      _ ≤ (A.suspended (Both.outer (A := A) (X := around As X) s)).encard :=
          (nested_of_runs h).encard_active_le
      _ ≤ ((A.wrap (around As X)).active s).encard := Set.encard_le_encard suspended_subset_active

/-- The call of the outside from which a call inside `n` layers comes. -/
def root : ℕ → ℕ → ℕ
  | 0, i => i
  | n + 1, i => (root n i).unpair.1

/-- A call that has begun inside all layers comes from one that has begun outside. -/
theorem begun_root (As : List (Layer ε υ)) (X : Service ε υ)
    {run : List ((ℕ × (around As X).Action) × (around As X).Output)} {s : (around As X).State}
    (h : (around As X).machine.Runs run s) {i : ℕ}
    (hi : X.isIdle (X.phase (innermost As X s) i) = false) :
    (around As X).isIdle ((around As X).phase s (root As.length i)) = false := by
  induction As with
  | nil => exact hi
  | cons A As ih =>
    have hinner := ih (inner_runs h) hi
    -- The calls of a call that has not begun have not begun.
    by_contra hidle
    rw [Bool.not_eq_false] at hidle
    have huntouched := (idle_before A).untouched h hidle (root As.length i).unpair.2
    rw [List.length_cons, root, Nat.pair_unpair, hinner] at huntouched
    cases huntouched

/-- Through layers that call `next` once, no more calls come in than have begun outside. -/
theorem encard_begun_le (As : List (Layer ε υ)) (hAs : ∀ A ∈ As, A.IsOnce) (X : Service ε υ)
    {run : List ((ℕ × (around As X).Action) × (around As X).Output)} {s : (around As X).State}
    (h : (around As X).machine.Runs run s) :
    (X.begunCalls (innermost As X s)).encard ≤ ((around As X).begunCalls s).encard := by
  induction As with
  | nil => exact le_rfl
  | cons A As ih =>
    obtain ⟨K, hK⟩ := hAs A List.mem_cons_self
    have hrest := ih (fun B hB => hAs B (List.mem_cons_of_mem A hB)) (inner_runs h)
    calc (X.begunCalls (innermost As X (Both.inner (A := A) (X := around As X) s))).encard
        ≤ ((around As X).begunCalls (Both.inner (A := A) (X := around As X) s)).encard := hrest
      _ ≤ ((A.wrap (around As X)).begunCalls s).encard := by
        apply hK.encard_begun_le h
        intro c hc
        by_contra hidle
        have huntouched := (idle_before A).untouched h ((Bool.not_eq_false _).mp hidle) 0
        rw [hc] at huntouched
        cases huntouched

/-- In every run of the layer, no more than `n` calls are suspended. -/
def Caps (A : Layer ε υ) (n : ℕ∞) : Prop :=
  ∀ run s, A.machine.Runs run s → (A.suspended s).encard ≤ n

/-- A layer that caps the calls suspended in it caps the calls in progress inside, wherever it
stands. -/
theorem Caps.encard_innermost_le {A : Layer ε υ} {n : ℕ∞} (hA : A.Caps n) (As : List (Layer ε υ))
    (hmem : A ∈ As) (X : Service ε υ)
    {run : List ((ℕ × (around As X).Action) × (around As X).Output)} {s : (around As X).State}
    (h : (around As X).machine.Runs run s) : (X.active (innermost As X s)).encard ≤ n := by
  induction As with
  | nil => exact (List.not_mem_nil hmem).elim
  | cons B As ih =>
    rcases List.mem_cons.mp hmem with rfl | hmem
    · calc (X.active (innermost As X (Both.inner (A := A) (X := around As X) s))).encard
          ≤ ((around As X).active (Both.inner (A := A) (X := around As X) s)).encard :=
            Layer.encard_innermost_le As X (inner_runs h)
        _ ≤ (A.suspended (Both.outer (A := A) (X := around As X) s)).encard :=
            (nested_of_runs h).encard_active_le
        _ ≤ n := hA _ _ (outer_runs h)
    · exact ih hmem (inner_runs h)

end Layer
