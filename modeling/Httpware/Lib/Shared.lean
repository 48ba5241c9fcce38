import Mathlib.Data.Set.Card
import Httpware.Lib.Machine

/-!
# Parties that share a resource

A step function of one party, which may read and change a resource that all parties share, gives a
machine of any number of parties whose steps interleave in any order (`Shared.machine`).
`Shared.invariant` is its invariant rule. `Shared.count` is the number of parties in some kind of
phase, and `Shared.count_update` says how a step of one party changes it.
-/

/-- A resource, and where each party is. -/
structure Shared (σ ι φ : Type*) where
  resource : σ
  phase : ι → φ

namespace Shared

variable {σ ι φ α ω : Type*} [DecidableEq ι]

/-- Any number of parties over one resource, all in the phase `idle` at first. -/
def machine (init : σ) (idle : φ) (step : ι → σ → φ → α → Option (ω × σ × φ)) :
    Machine (Shared σ ι φ) (ι × α) ω where
  init := ⟨init, fun _ => idle⟩
  step s a :=
    (step a.1 s.resource (s.phase a.1) a.2).map
      fun r => (r.1, ⟨r.2.1, Function.update s.phase a.1 r.2.2⟩)

variable {init : σ} {idle : φ} {step : ι → σ → φ → α → Option (ω × σ × φ)}

/-- A step of the machine is a step of one party. -/
theorem step_eq {s s' : Shared σ ι φ} {i : ι} {a : α} {o : ω}
    (h : (machine init idle step).step s (i, a) = some (o, s')) :
    ∃ r p, step i s.resource (s.phase i) a = some (o, r, p) ∧
      s' = ⟨r, Function.update s.phase i p⟩ := by
  obtain ⟨⟨o, r, p⟩, hstep, hr⟩ := Option.map_eq_some_iff.mp h
  obtain ⟨rfl, rfl⟩ := Prod.mk.inj hr
  exact ⟨r, p, hstep, rfl⟩

/-- A step of a party is a step of the machine. -/
theorem step_of_party {s : Shared σ ι φ} {i : ι} {a : α} {o : ω} {r : σ} {p : φ}
    (h : step i s.resource (s.phase i) a = some (o, r, p)) :
    (machine init idle step).step s (i, a) = some (o, ⟨r, Function.update s.phase i p⟩) := by
  simp [machine, h]

/-- A step of the machine moves its party as its step says, and no other. -/
theorem step_phase {s s' : Shared σ ι φ} {i : ι} {a : α} {o : ω}
    (h : (machine init idle step).step s (i, a) = some (o, s')) :
    step i s.resource (s.phase i) a = some (o, s'.resource, s'.phase i) ∧
      ∀ j, j ≠ i → s'.phase j = s.phase j := by
  obtain ⟨r, p, hstep, rfl⟩ := step_eq h
  refine ⟨?_, fun j hj => Function.update_of_ne hj _ _⟩
  dsimp only
  rw [Function.update_self]
  exact hstep

/-- The invariant rule: what holds at the start and is kept by every step of a party holds after
every run. -/
theorem invariant {I : List ((ι × α) × ω) → Shared σ ι φ → Prop} (h0 : I [] ⟨init, fun _ => idle⟩)
    (hstep : ∀ run s i a o r p, I run s → step i s.resource (s.phase i) a = some (o, r, p) →
      I (run ++ [((i, a), o)]) ⟨r, Function.update s.phase i p⟩)
    {run : List ((ι × α) × ω)} {s : Shared σ ι φ} (h : (machine init idle step).Runs run s) :
    I run s := by
  apply h.invariant (I := I)
  · exact h0
  · intro run s a o s' _ hI hs
    obtain ⟨r, p, hparty, rfl⟩ := step_eq hs
    exact hstep run s a.1 a.2 o r p hI hparty

/-! ## Counting parties -/

/-- The parties in a phase of the kind `K`. -/
def those (K : Set φ) (phase : ι → φ) : Set ι := {i | phase i ∈ K}

/-- Their number. -/
noncomputable def count (K : Set φ) (phase : ι → φ) : ℕ := (those K phase).ncard

variable {K : Set φ} {phase : ι → φ} {i : ι} {p : φ}

/-- A party that enters. -/
theorem those_update_of_mem (hp : p ∈ K) :
    those K (Function.update phase i p) = insert i (those K phase) := by
  ext j
  rcases eq_or_ne j i with rfl | hji
  · simp [those, hp]
  · simp [those, hji]

/-- A party that leaves, or stays out. -/
theorem those_update_of_notMem (hp : p ∉ K) :
    those K (Function.update phase i p) = those K phase \ {i} := by
  ext j
  rcases eq_or_ne j i with rfl | hji
  · simp [those, hp]
  · simp [those, hji]

/-- A step of one party leaves finitely many parties there. -/
theorem finite_update (h : (those K phase).Finite) (i : ι) (p : φ) :
    (those K (Function.update phase i p)).Finite := by
  by_cases hp : p ∈ K
  · rw [those_update_of_mem hp]
    exact h.insert i
  · rw [those_update_of_notMem hp]
    exact h.sdiff

/-- One more when a party enters. -/
theorem count_enter (h : (those K phase).Finite) (hi : phase i ∉ K) (hp : p ∈ K) :
    count K (Function.update phase i p) = count K phase + 1 := by
  have hnew : i ∉ those K phase := hi
  rw [count, those_update_of_mem hp, Set.ncard_insert_of_notMem hnew h, count]

/-- One less when a party leaves. -/
theorem count_leave (h : (those K phase).Finite) (hi : phase i ∈ K) (hp : p ∉ K) :
    count K (Function.update phase i p) + 1 = count K phase := by
  rw [count, those_update_of_notMem hp, count]
  exact Set.ncard_sdiff_singleton_add_one hi h

/-- The same number when a party stays out. -/
theorem count_out (hi : phase i ∉ K) (hp : p ∉ K) :
    count K (Function.update phase i p) = count K phase := by
  have hout : i ∉ those K phase := hi
  rw [count, those_update_of_notMem hp, Set.sdiff_singleton_eq_self hout, count]

/-- The same number when a party stays in. -/
theorem count_in (hi : phase i ∈ K) (hp : p ∈ K) :
    count K (Function.update phase i p) = count K phase := by
  have hin : i ∈ those K phase := hi
  rw [count, those_update_of_mem hp, Set.insert_eq_of_mem hin, count]

/-- What a step of one party does to the number of parties there. -/
theorem count_update [DecidablePred (· ∈ K)] (h : (those K phase).Finite) (i : ι) (p : φ) :
    count K (Function.update phase i p) + (if phase i ∈ K then 1 else 0) =
      count K phase + (if p ∈ K then 1 else 0) := by
  by_cases hi : phase i ∈ K <;> by_cases hp : p ∈ K
  · have hin : i ∈ those K phase := hi
    rw [count, those_update_of_mem hp, Set.insert_eq_of_mem hin, count]
    simp [hi, hp]
  · rw [if_pos hi, if_neg hp]
    exact count_leave h hi hp
  · rw [if_neg hi, if_pos hp]
    exact count_enter h hi hp
  · rw [if_neg hi, if_neg hp, count_out hi hp]

omit [DecidableEq ι] in
/-- Nobody is there at the start. -/
theorem those_const (hidle : idle ∉ K) : those K (fun _ : ι => idle) = ∅ := by
  ext j
  simp [those, hidle]

end Shared
