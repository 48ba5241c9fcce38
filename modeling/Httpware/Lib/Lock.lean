import Httpware.Lib.Shared

/-!
# A lock among parties that share a resource

`Exclusive` ties the holder of a lock, which is a part of the shared resource, to the parties whose
phases are inside the critical section. `Exclusive.update` is its rule for one step of one party.
-/

namespace Shared

variable {σ ι φ : Type*} [DecidableEq ι]

/-- The parties inside the critical section are the holder of the lock, if there is one. -/
def Exclusive (holder : σ → Option ι) (K : Set φ) (s : Shared σ ι φ) : Prop :=
  ∀ i, s.phase i ∈ K ↔ holder s.resource = some i

namespace Exclusive

variable {holder : σ → Option ι} {K : Set φ} {s : Shared σ ι φ} {i : ι} {r : σ} {p : φ}

omit [DecidableEq ι] in
/-- Nobody is inside at the start. -/
theorem init {r : σ} {idle : φ} (hholder : holder r = none) (hidle : idle ∉ K) :
    Exclusive holder K (⟨r, fun _ => idle⟩ : Shared σ ι φ) := by
  intro i
  simp [hholder, hidle]

omit [DecidableEq ι] in
/-- At most one party is inside. -/
theorem unique (h : Exclusive holder K s) {i j : ι} (hi : s.phase i ∈ K) (hj : s.phase j ∈ K) :
    i = j := by
  have hholder := (h i).mp hi
  rw [(h j).mp hj] at hholder
  exact (Option.some.inj hholder).symm

/-- A party enters with the lock, leaves it, or stays where it is. -/
theorem update (h : Exclusive holder K s) (hi : p ∈ K ↔ holder r = some i)
    (hothers : ∀ j, j ≠ i → (holder r = some j ↔ holder s.resource = some j)) :
    Exclusive holder K ⟨r, Function.update s.phase i p⟩ := by
  intro j
  rcases eq_or_ne j i with rfl | hji
  · simpa using hi
  · simpa [hji, hothers j hji] using h j

/-- A free lock is taken. -/
theorem acquire (h : Exclusive holder K s) (hfree : holder s.resource = none)
    (htaken : holder r = some i) (hp : p ∈ K) :
    Exclusive holder K ⟨r, Function.update s.phase i p⟩ := by
  apply h.update
  · simp [htaken, hp]
  · intro j hji
    simp [htaken, hfree, Ne.symm hji]

/-- The lock is given back. -/
theorem release (h : Exclusive holder K s) (hi : s.phase i ∈ K) (hfree : holder r = none)
    (hp : p ∉ K) : Exclusive holder K ⟨r, Function.update s.phase i p⟩ := by
  have hheld := (h i).mp hi
  apply h.update
  · simp [hfree, hp]
  · intro j hji
    simp [hfree, hheld, Ne.symm hji]

/-- A step that leaves the lock alone, inside or outside. -/
theorem stay (h : Exclusive holder K s) (hsame : holder r = holder s.resource)
    (hp : p ∈ K ↔ s.phase i ∈ K) : Exclusive holder K ⟨r, Function.update s.phase i p⟩ := by
  apply h.update
  · rw [hsame, hp]
    exact h i
  · intro j _
    rw [hsame]

end Exclusive

end Shared
