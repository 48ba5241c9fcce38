import Mathlib.Algebra.Order.BigOperators.Group.Finset
import Mathlib.Logic.Relation
import Mathlib.Order.Interval.Finset.Nat
import Httpware.Lib.Layers

/-!
# Layers that go on, and what they hand on

A service is live (`Service.Live`) when no call in it is stuck: a call that has not begun can begin, and
one in progress can go on, or waits for another one that can, by steps that nobody outside has a part in.
A layer is live (`Layer.Live`) when the same holds of the calls that are not suspended in it; layers that
are live around a service that is live make a live one (`Live.around`), so no chain of them deadlocks.

A rank bounds the steps that a call has left (`Service.Ranked`), and through a layer the ranks of the
calls inside that it may still make add up (`Layer.Ranked.wrap`). A live service with a rank quiesces: in
whatever order its calls take their own steps, these come to an end, and no call is in progress then
(`Service.Live.quiesces`).

A layer relays (`Layer.Relays`) what its calls get from inside: a call ends with a value of some kind only
if a call that it made has ended with it. Through any number of such layers, what a call ends with comes
from a call innermost that was made for it (`Relays.exists_innermost`).
-/

namespace Service

variable {ε υ : Type} (X : Service ε υ)

/-- A call can go on by a step of its own. -/
def CanStep (s : X.State) (c : ℕ) : Prop :=
  ∃ a o s', X.machine.step s (c, a) = some (o, s') ∧ X.own s c a

/-- No call is stuck in any run. -/
structure Live : Prop where
  begins : ∀ run s, X.machine.Runs run s → ∀ c, X.isIdle (X.phase s c) = true → X.CanStep s c
  goesOn : ∀ run s, X.machine.Runs run s → ∀ c ∈ X.active s,
    ∃ d ∈ X.active s, (d = c ∨ X.waits s c d) ∧ X.CanStep s d

/-- A call in progress takes a step of its own. -/
def ProgressStep (s s' : X.State) : Prop :=
  ∃ c ∈ X.active s, ∃ a o, X.machine.step s (c, a) = some (o, s') ∧ X.own s c a

/-- In whatever order the calls in progress take their own steps, they come to an end, and no call is in
progress then. -/
def Quiesces (s : X.State) : Prop :=
  Acc (fun t' t => X.ProgressStep t t') s ∧
    ∀ t, Relation.ReflTransGen X.ProgressStep s t → (∀ t', ¬ X.ProgressStep t t') → X.active t = ∅

/-- The rank of a call counts down its own steps, and those of others leave it. -/
structure Ranked (rank : X.State → ℕ → ℕ) : Prop where
  own : ∀ run s, X.machine.Runs run s → ∀ c a o s', X.machine.step s (c, a) = some (o, s') →
    X.own s c a → rank s' c < rank s c
  frame : ∀ s c a o s', X.machine.step s (c, a) = some (o, s') → ∀ d ≠ c, rank s' d = rank s d

variable {X}

/-- A step of a call in progress begins no other. -/
theorem ProgressStep.active_subset {s s' : X.State} (h : X.ProgressStep s s') :
    X.active s' ⊆ X.active s := by
  obtain ⟨c, hc, a, o, hstep, -⟩ := h
  intro d hd
  rcases eq_or_ne d c with rfl | hdc
  · exact hc
  · change X.inProgress (X.phase s d) = true
    rw [← frame hstep hdc]
    exact hd

/-- Such a step goes on with a run. -/
theorem ProgressStep.exists_runs {s s' : X.State} (h : X.ProgressStep s s')
    (hrun : ∃ run, X.machine.Runs run s) : ∃ run, X.machine.Runs run s' := by
  obtain ⟨c, -, a, o, hstep, -⟩ := h
  obtain ⟨run, hrun⟩ := hrun
  exact ⟨_, hrun.snoc hstep⟩

/-- With a rank the own steps of the calls in progress come to an end: their sum counts down. -/
theorem Ranked.acc {rank : X.State → ℕ → ℕ} (hrank : X.Ranked rank) (S : Finset ℕ) :
    ∀ n s, (∃ run, X.machine.Runs run s) → X.active s ⊆ S → (∑ c ∈ S, rank s c) = n →
      Acc (fun t' t => X.ProgressStep t t') s := by
  intro n
  induction n using Nat.strong_induction_on with
  | _ n ih =>
    rintro s hrun hactive rfl
    constructor
    intro s' hprogress
    refine ih _ ?_ s' (hprogress.exists_runs hrun) (hprogress.active_subset.trans hactive) rfl
    obtain ⟨c, hc, a, o, hstep, hown⟩ := hprogress
    obtain ⟨run, hrun⟩ := hrun
    apply Finset.sum_lt_sum
    · intro d _
      rcases eq_or_ne d c with rfl | hdc
      · exact (hrank.own _ _ hrun _ _ _ _ hstep hown).le
      · exact (hrank.frame _ _ _ _ _ hstep d hdc).le
    · exact ⟨c, hactive hc, hrank.own _ _ hrun _ _ _ _ hstep hown⟩

/-- A live service with a rank quiesces. -/
theorem Live.quiesces (hX : X.Live) {rank : X.State → ℕ → ℕ} (hrank : X.Ranked rank)
    {run : List ((ℕ × X.Action) × X.Output)} {s : X.State} (h : X.machine.Runs run s) :
    X.Quiesces s := by
  constructor
  · refine hrank.acc (Machine.parties run) _ s ⟨run, h⟩ ?_ rfl
    intro c hc
    by_contra hnone
    have hbegun : X.inProgress (X.phase s c) = true := hc
    rw [inProgress, X.isIdle_of_notMem h c hnone] at hbegun
    cases hbegun
  · intro t ht hlast
    have hreached : ∀ t, Relation.ReflTransGen X.ProgressStep s t → ∃ run, X.machine.Runs run t := by
      intro t ht
      induction ht with
      | refl => exact ⟨run, h⟩
      | tail _ hstep ih => exact hstep.exists_runs ih
    obtain ⟨run', hrun'⟩ := hreached t ht
    by_contra hsome
    obtain ⟨c, hc⟩ := Set.nonempty_iff_ne_empty.mpr hsome
    obtain ⟨d, hd, -, a, o, t', hstep, hown⟩ := hX.goesOn _ _ hrun' c hc
    exact hlast t' ⟨d, hd, a, o, hstep, hown⟩

end Service

namespace Layer

variable {ε υ : Type}

/-- A call can go on by a step of its own, other than the end of `next`. -/
def CanStep (A : Layer ε υ) (s : A.State) (c : ℕ) : Prop :=
  ∃ a o s', A.finished a = none ∧ A.machine.step s (c, a) = some (o, s') ∧ A.own s c a

/-- No call is stuck in any run, if the calls inside end. -/
structure Live (A : Layer ε υ) : Prop where
  begins : ∀ run s, A.machine.Runs run s → ∀ c, A.isIdle (A.phase s c) = true → A.CanStep s c
  goesOn : ∀ run s, A.machine.Runs run s → ∀ c ∈ A.active s, c ∉ A.suspended s →
    ∃ d ∈ A.active s, (d = c ∨ A.waits s c d) ∧ (d ∈ A.suspended s ∨ A.CanStep s d)
  finishes : ∀ run s, A.machine.Runs run s → ∀ c ∈ A.suspended s, ∀ e,
    ∃ b o s', A.machine.step s (c, A.finish e b) = some (o, s')

section Both

variable {A : Layer ε υ} {X : Service ε υ} {s : Both A X}

/-- A step of the outside's own is one of the whole. -/
theorem CanStep.wrap {c : ℕ} (h : A.CanStep s.outer c) : (A.wrap X).CanStep s c := by
  obtain ⟨a, o, s', hfinish, hstep, hown⟩ := h
  have hwrap : wrapStep A X s c (.outer a) = some (.outer o, { s with outer := s' }) := by
    simp [wrapStep, hfinish, hstep]
  exact ⟨.outer a, _, _, hwrap, hown⟩

/-- A step of the call inside is one of the suspended call that made it. -/
theorem canStep_of_inner {c : ℕ} (hnext : A.inNext (A.phase s.outer c) = true)
    (h : X.CanStep s.inner (s.child c)) : (A.wrap X).CanStep s c := by
  obtain ⟨x, o, s', hstep, hown⟩ := h
  have hwrap : wrapStep A X s c (.inner x) = some (.inner (s.child c) o, { s with inner := s' }) := by
    simp [wrapStep, hnext, hstep]
  exact ⟨.inner x, _, _, hwrap, hown⟩

/-- A call that is suspended can go on inside or return, or what it made waits inside for another one
that can go on. -/
theorem goesOn_of_suspended [Nonempty υ] (hA : A.Live) (hX : X.Live)
    {run : List ((ℕ × BothAction A X) × BothOutput A X)} (h : (A.wrap X).machine.Runs run s) {e : ℕ}
    (he : e ∈ A.suspended s.outer) :
    ∃ d ∈ A.suspended s.outer, (d = e ∨ X.waits s.inner (s.child e) (s.child d)) ∧
      (A.wrap X).CanStep s d := by
  have hinner := inner_runs h
  cases hidle : X.isIdle (X.phase s.inner (s.child e)) with
  | true => exact ⟨e, he, .inl rfl, canStep_of_inner he (hX.begins _ _ hinner _ hidle)⟩
  | false =>
    cases hending : X.ending (X.phase s.inner (s.child e)) with
    | some ending =>
      -- The call inside has ended, so this one can return.
      obtain ⟨u⟩ := ‹Nonempty υ›
      obtain ⟨b, o, s', hstep⟩ := hA.finishes _ _ (outer_runs h) e he (ending u)
      have hwrap : wrapStep A X s e (.ret u b) = some (.ret (ending u) o,
          { s with outer := s', nexts := Function.update s.nexts e (s.nexts e + 1) }) := by
        simp [wrapStep, hending, hstep]
      exact ⟨e, he, .inl rfl, .ret u b, _, _, hwrap, trivial⟩
    | none =>
      have hactive : s.child e ∈ X.active s.inner := by
        change (!X.isIdle _ && (X.ending _).isNone) = true
        rw [hidle, hending]
        rfl
      obtain ⟨j, hj, hwaits, hcan⟩ := hX.goesOn _ _ hinner _ hactive
      -- What can go on inside was made by a suspended call.
      obtain ⟨d, hd, rfl⟩ := (nested_of_runs h).of_inProgress hj
      refine ⟨d, hd, ?_, canStep_of_inner hd hcan⟩
      rcases hwaits with hsame | hwaits
      · exact .inl (Nat.pair_eq_pair.mp hsame).1
      · exact .inr hwaits

/-- A live layer over a live service is a live service. -/
theorem Live.wrap [Nonempty υ] (hA : A.Live) (hX : X.Live) : (A.wrap X).Live where
  begins run s h c hidle := (hA.begins _ _ (outer_runs h) c hidle).wrap
  goesOn run s h c hc := by
    have houter := outer_runs h
    -- The call is suspended, or waits outside, or can go on.
    have hgo : ∃ e ∈ A.active s.outer, (e = c ∨ A.waits s.outer c e) ∧
        (e ∈ A.suspended s.outer ∨ A.CanStep s.outer e) := by
      by_cases hnext : c ∈ A.suspended s.outer
      · exact ⟨c, hc, .inl rfl, .inl hnext⟩
      · exact hA.goesOn _ _ houter c hc hnext
    obtain ⟨e, he, hwaits, hnext | hcan⟩ := hgo
    · obtain ⟨d, hd, hinside, hcan⟩ := goesOn_of_suspended hA hX h hnext
      refine ⟨d, suspended_subset_active hd, ?_, hcan⟩
      rcases hinside with rfl | hinside
      · exact hwaits.imp_right .inl
      · exact .inr (.inr ⟨e, hwaits, hnext, hd, hinside⟩)
    · exact ⟨e, he, hwaits.imp_right .inl, hcan.wrap⟩

end Both

/-! ## Ranks -/

/-- The rank of a call, which its phase determines, counts down the steps that it takes by itself and the
endings of `next`. -/
structure Ranked (A : Layer ε υ) (rank : ℕ → A.Phase → ℕ) : Prop where
  le : ∀ s c a o s', A.machine.step s (c, a) = some (o, s') →
    rank c (A.phase s' c) ≤ rank c (A.phase s c)
  lt : ∀ s c a o s', A.machine.step s (c, a) = some (o, s') →
    A.own s c a ∨ (A.finished a).isSome = true → rank c (A.phase s' c) < rank c (A.phase s c)
  suspended : ∀ c p, A.inNext p = true → 0 < rank c p

section Ranks

variable {A : Layer ε υ} {X : Service ε υ} {rank : ℕ → A.Phase → ℕ} {rankX : X.State → ℕ → ℕ}

/-- The rank that a call has when it begins bounds the calls of `next` that it makes. -/
def most (A : Layer ε υ) (rank : ℕ → A.Phase → ℕ) (c : ℕ) : ℕ := rank c (A.phase A.machine.init c)

/-- The rank of a call through a layer: its own, and those of the calls inside that it may make. -/
def wrapRank (A : Layer ε υ) (X : Service ε υ) (rank : ℕ → A.Phase → ℕ) (rankX : X.State → ℕ → ℕ)
    (s : Both A X) (c : ℕ) : ℕ :=
  rank c (A.phase s.outer c) +
    ∑ k ∈ Finset.Ico (s.nexts c) (A.most rank c), rankX s.inner (Nat.pair c k)

/-- The rank counts down the endings of `next`. -/
theorem Ranked.lt_of_finish (hA : A.Ranked rank) {s s' : A.State} {c : ℕ} {e : ε} {b : A.Reading}
    {o : A.Output} (h : A.machine.step s (c, A.finish e b) = some (o, s')) :
    rank c (A.phase s' c) < rank c (A.phase s c) := by
  apply hA.lt _ _ _ _ _ h
  rw [A.finished_finish]
  exact .inr rfl

/-- A call has made no more calls of `next` than its rank has counted down. -/
theorem Ranked.nexts_add_le (hA : A.Ranked rank) {s : Both A X}
    {run : List ((ℕ × BothAction A X) × BothOutput A X)} (h : (A.wrap X).machine.Runs run s) (c : ℕ) :
    s.nexts c + rank c (A.phase s.outer c) ≤ A.most rank c := by
  revert c
  apply h.state_invariant
    (I := fun s => ∀ c, s.nexts c + rank c (A.phase s.outer c) ≤ A.most rank c)
  · exact fun c => (Nat.zero_add _).le
  · rintro s ⟨c, action⟩ o s' ih hs d
    have hbefore := ih d
    cases wrapStep_cases hs with
    | outer hfinish hstep =>
      dsimp only
      rcases eq_or_ne d c with rfl | hdc
      · exact (Nat.add_le_add_left (hA.le _ _ _ _ _ hstep) _).trans hbefore
      · rwa [Service.frame hstep hdc]
    | inner _ _ => exact hbefore
    | ret _ hstep =>
      dsimp only
      rcases eq_or_ne d c with rfl | hdc
      · have hlt := hA.lt_of_finish hstep
        dsimp only at hlt
        rw [Function.update_self]
        omega
      · rwa [Function.update_of_ne hdc, Service.frame hstep hdc]

/-- A layer with a rank over a service with one has one. -/
theorem Ranked.wrap (hA : A.Ranked rank) (hX : X.Ranked rankX) :
    (A.wrap X).Ranked (wrapRank A X rank rankX) where
  own run s h c a o s' hs hown := by
    unfold wrapRank
    cases wrapStep_cases hs with
    | outer hfinish hstep => exact Nat.add_lt_add_right (hA.lt _ _ _ _ _ hstep (.inl hown)) _
    | inner hnext hstep =>
      apply Nat.add_lt_add_left
      have hpos : 0 < rank c (A.phase s.outer c) := hA.suspended c _ hnext
      have hmost := hA.nexts_add_le h c
      have hlt := hX.own _ _ (inner_runs h) _ _ _ _ hstep hown
      apply Finset.sum_lt_sum
      · intro k _
        rcases eq_or_ne (Nat.pair c k) (s.child c) with heq | hne
        · rw [heq]
          exact hlt.le
        · exact (hX.frame _ _ _ _ _ hstep _ hne).le
      · exact ⟨s.nexts c, Finset.mem_Ico.mpr ⟨le_rfl, by omega⟩, hlt⟩
    | ret hending hstep =>
      -- One call of `next` fewer is left.
      apply Nat.add_lt_add_of_lt_of_le (hA.lt_of_finish hstep)
      dsimp only
      rw [Function.update_self]
      exact Finset.sum_le_sum_of_subset (Finset.Ico_subset_Ico_left (Nat.le_succ _))
  frame s c a o s' hs d hdc := by
    unfold wrapRank
    cases wrapStep_cases hs with
    | outer hfinish hstep =>
      dsimp only
      rw [Service.frame hstep hdc]
    | inner hnext hstep =>
      dsimp only
      congr 1
      apply Finset.sum_congr rfl
      intro k _
      apply hX.frame _ _ _ _ _ hstep
      intro heq
      exact hdc (Nat.pair_eq_pair.mp heq).1
    | ret hending hstep =>
      dsimp only
      rw [Service.frame hstep hdc, Function.update_of_ne hdc]

end Ranks

/-- Layers with ranks around a service with one make a service with one. -/
theorem Ranked.around {As : List (Layer ε υ)} (hAs : ∀ A ∈ As, ∃ rank, A.Ranked rank)
    {X : Service ε υ} (hX : ∃ rank, X.Ranked rank) : ∃ rank, (Layer.around As X).Ranked rank := by
  induction As with
  | nil => exact hX
  | cons A As ih =>
    obtain ⟨rank, hA⟩ := hAs A List.mem_cons_self
    obtain ⟨rankX, hinner⟩ := ih fun B hB => hAs B (List.mem_cons_of_mem A hB)
    exact ⟨_, hA.wrap hinner⟩

/-- Live layers around a live service make a live service: no chain of them deadlocks. -/
theorem Live.around [Nonempty υ] {As : List (Layer ε υ)} (hAs : ∀ A ∈ As, A.Live) {X : Service ε υ}
    (hX : X.Live) : (Layer.around As X).Live := by
  induction As with
  | nil => exact hX
  | cons A As ih =>
    exact (hAs A List.mem_cons_self).wrap (ih fun B hB => hAs B (List.mem_cons_of_mem A hB))

/-! ## What is handed on -/

/-- A call that ends with a value of the kind `T` got it from `next`. -/
def Relays (A : Layer ε υ) (T : ε → Prop) : Prop :=
  ∀ run s, A.machine.Runs run s → ∀ c ending u, A.ending (A.phase s c) = some ending →
    T (ending u) → ending u ∈ A.endings c run

/-- A layer relays if a call carries a value only since `next` ended with it, and ends with a value of the
kind only if it carries it. -/
theorem relays_of_moves {A : Layer ε υ} {T : ε → Prop} (carries : A.Phase → ε → Prop)
    (hidle : ∀ p e, A.isIdle p = true → ¬ carries p e)
    (hmoves : ∀ p a p' e, A.moves p a p' → carries p' e → carries p e ∨ A.finished a = some e)
    (hending : ∀ p ending u, A.ending p = some ending → T (ending u) → carries p (ending u)) :
    A.Relays T := by
  intro run s h c ending u hended hT
  have key : ∀ c e, carries (A.phase s c) e → e ∈ A.endings c run := by
    apply h.invariant (I := fun run s => ∀ c e, carries (A.phase s c) e → e ∈ A.endings c run)
    · exact fun c e hcarries => absurd hcarries (hidle _ _ (A.init c))
    · rintro run s ⟨d, a⟩ o s' - ih hstep c e hcarries
      rcases eq_or_ne d c with rfl | hdc
      · rw [endings_snoc_self, List.mem_append]
        rcases hmoves _ _ _ _ (Service.moves_of_step hstep) hcarries with hbefore | hfinish
        · exact .inl (ih d e hbefore)
        · rw [hfinish]
          exact .inr (List.mem_singleton.mpr rfl)
      · rw [endings_snoc_of_ne hdc]
        rw [Service.frame hstep hdc.symm] at hcarries
        exact ih c e hcarries
  exact key c _ (hending _ _ _ hended hT)

/-- Through layers that relay a kind of values, a call ends with one only if a call innermost that was
made for it has. -/
theorem Relays.exists_innermost {T : ε → Prop} (As : List (Layer ε υ)) (hAs : ∀ A ∈ As, A.Relays T)
    (X : Service ε υ) {run : List ((ℕ × (Layer.around As X).Action) × (Layer.around As X).Output)}
    {s : (Layer.around As X).State} (h : (Layer.around As X).machine.Runs run s) {c : ℕ}
    {ending : υ → ε} {u : υ}
    (hended : (Layer.around As X).ending ((Layer.around As X).phase s c) = some ending)
    (hT : T (ending u)) :
    ∃ i ending' u', root As.length i = c ∧
      X.ending (X.phase (innermost As X s) i) = some ending' ∧ ending' u' = ending u := by
  induction As generalizing c ending u with
  | nil => exact ⟨c, ending, u, rfl, hended, rfl⟩
  | cons A As ih =>
    have hmem := hAs A List.mem_cons_self _ _ (outer_runs h) c ending u hended hT
    -- The call of the next level that this one went on with.
    obtain ⟨k, hk, heq⟩ := List.getElem_of_mem hmem
    obtain ⟨ending₁, u₁, hended₁, he⟩ :=
      (returns_of_runs h c).ended k _ (List.getElem?_eq_getElem hk)
    rw [heq] at he
    obtain ⟨i, ending', u', hroot, hended', hsame⟩ :=
      ih (fun B hB => hAs B (List.mem_cons_of_mem A hB)) (inner_runs h) hended₁ (he ▸ hT)
    refine ⟨i, ending', u', ?_, hended', hsame.trans he.symm⟩
    rw [List.length_cons, root, hroot, Nat.unpair_pair]

end Layer
