import Httpware.Lib.Program

/-!
# Programs that refine others

A program that keeps more state than another one, such as a cache, refines it if nothing else can be told
of the two: from every state that an invariant allows, both end alike, they leave the part of the state
that they share (its `view`) the same, and the invariant holds again. There is one rule for each way of
building a program, so that the refinement of a program follows its text.
-/

namespace Program

variable {σ τ ε α β γ δ : Type}

/-- The values stay as they are. -/
theorem Result.map_id (r : Result ε α) : r.map id = r := by
  cases r with
  | ok a => rfl
  | raised e => rfl
  | pending => rfl

/-- A program over a part of the state. -/
def within (view : τ → σ) (put : σ → τ → τ) (p : Program σ ε α) : Program τ ε α := fun t =>
  ((p (view t)).1, put (p (view t)).2 t)

/-- `p'` refines `p`, where the values of `p'` stand for those of `p`. -/
def Refines (I : τ → Prop) (view : τ → σ) (g : α → β) (p' : Program τ ε α) (p : Program σ ε β) :
    Prop :=
  ∀ t, I t → p (view t) = ((p' t).1.map g, view (p' t).2) ∧ I (p' t).2

namespace Refines

variable {I : τ → Prop} {view : τ → σ} {g : α → β} {p' : Program τ ε α} {p : Program σ ε β}

theorem pure (a : α) : Refines I view g (Pure.pure a : Program τ ε α) (Pure.pure (g a)) :=
  fun _ ht => ⟨rfl, ht⟩

theorem raise (e : ε) : Refines I view g (Program.raise e : Program τ ε α) (Program.raise e) :=
  fun _ ht => ⟨rfl, ht⟩

theorem get (f : σ → α) :
    Refines I view id (Program.get fun t => f (view t) : Program τ ε α) (Program.get f) :=
  fun _ ht => ⟨rfl, ht⟩

/-- A program over the shared part alone. -/
theorem within {put : σ → τ → τ} (hview : ∀ s t, view (put s t) = s)
    (hput : ∀ s t, I t → I (put s t)) (p : Program σ ε α) :
    Refines I view id (Program.within view put p) p := by
  intro t ht
  refine ⟨?_, hput _ _ ht⟩
  unfold Program.within
  dsimp only
  rw [Result.map_id, hview]

/-- Sequences. -/
theorem bind {k : γ → δ} {f' : α → Program τ ε γ} {f : β → Program σ ε δ} (h : Refines I view g p' p)
    (hf : ∀ a, Refines I view k (f' a) (f (g a))) : Refines I view k (p' >>= f') (p >>= f) := by
  intro t ht
  obtain ⟨heq, hI⟩ := h t ht
  generalize hp : p' t = r at heq hI
  obtain ⟨r, u⟩ := r
  cases r with
  | ok a =>
    rw [bind_of_ok hp, bind_of_ok heq]
    exact hf a u hI
  | raised e =>
    rw [bind_of_raised hp, bind_of_raised heq]
    exact ⟨rfl, hI⟩
  | pending =>
    rw [bind_of_pending hp, bind_of_pending heq]
    exact ⟨rfl, hI⟩

/-- `try: p except e: handler(e)`. -/
theorem catching {q' : ε → Program τ ε α} {q : ε → Program σ ε β} (h : Refines I view g p' p)
    (hq : ∀ e, Refines I view g (q' e) (q e)) :
    Refines I view g (p'.catching q') (p.catching q) := by
  intro t ht
  obtain ⟨heq, hI⟩ := h t ht
  generalize hp : p' t = r at heq hI
  obtain ⟨r, u⟩ := r
  cases r with
  | ok a =>
    rw [catching_of_ok hp, catching_of_ok heq]
    exact ⟨rfl, hI⟩
  | raised e =>
    rw [catching_of_raised hp, catching_of_raised heq]
    exact hq e u hI
  | pending =>
    rw [catching_of_pending hp, catching_of_pending heq]
    exact ⟨rfl, hI⟩

end Refines

end Program
