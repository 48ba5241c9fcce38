import Mathlib.Algebra.BigOperators.Group.Finset.Piecewise
import Mathlib.Data.Finset.Dedup
import Mathlib.Data.List.Basic
import Mathlib.Tactic.Common

/-!
# Machines with outputs, and their runs

A machine takes actions from a state, each of which is refused (`none`) or gives an output and the
next state. A run (`RunsFrom`) is a list of actions with their outputs. `RunsFrom.invariant` is the
induction rule of the safety proofs, whose predicate may speak of the whole run so far.
`Runs.project` carries a run to another machine that follows its visible steps. Where the actions are
those of many parties, `ofParty` is one party's part of a run, and `countP_eq_sum_ofParty` counts a
run party by party.
-/

/-- A deterministic machine over states `σ`, actions `α`, and outputs `ω`. -/
structure Machine (σ α ω : Type*) where
  /-- The state in which every run starts. -/
  init : σ
  /-- One action: refused, or its output and the next state. -/
  step : σ → α → Option (ω × σ)

namespace Machine

variable {σ τ α β ω υ : Type*}

/-- `M.RunsFrom s run t`: the actions of `run` take the machine from `s` to `t` and give the outputs
written beside them. -/
inductive RunsFrom (M : Machine σ α ω) (s : σ) : List (α × ω) → σ → Prop
  | nil : RunsFrom M s [] s
  | snoc {run : List (α × ω)} {t t' : σ} {a : α} {o : ω} :
      RunsFrom M s run t → M.step t a = some (o, t') → RunsFrom M s (run ++ [(a, o)]) t'

/-- A run from the initial state. -/
abbrev Runs (M : Machine σ α ω) (run : List (α × ω)) (s : σ) : Prop := M.RunsFrom M.init run s

/-- Runs compose. -/
theorem RunsFrom.append {M : Machine σ α ω} {s t u : σ} {run run' : List (α × ω)}
    (h : M.RunsFrom s run t) (h' : M.RunsFrom t run' u) : M.RunsFrom s (run ++ run') u := by
  induction h' with
  | nil => rwa [List.append_nil]
  | snoc _ hstep ih =>
    rw [← List.append_assoc]
    exact ih.snoc hstep

/-- One step is a run. -/
theorem RunsFrom.single {M : Machine σ α ω} {s t : σ} {a : α} {o : ω}
    (h : M.step s a = some (o, t)) : M.RunsFrom s [(a, o)] t := RunsFrom.nil.snoc h

/-- A step in front of a run. -/
theorem RunsFrom.cons {M : Machine σ α ω} {s t u : σ} {a : α} {o : ω} {run : List (α × ω)}
    (h : M.step s a = some (o, t)) (h' : M.RunsFrom t run u) :
    M.RunsFrom s ((a, o) :: run) u := (RunsFrom.single h).append h'

/-- A run without steps stays where it is. -/
theorem RunsFrom.eq_of_nil {M : Machine σ α ω} {s t : σ} (h : M.RunsFrom s [] t) : t = s := by
  -- The index `[]` has to be a variable before the cases on the run.
  generalize hr : [] = r at h
  cases h with
  | nil => rfl
  | snoc _ _ => simp at hr

/-- The last step of a nonempty run. -/
theorem RunsFrom.of_snoc {M : Machine σ α ω} {s u : σ} {run : List (α × ω)} {a : α} {o : ω}
    (h : M.RunsFrom s (run ++ [(a, o)]) u) :
    ∃ t, M.RunsFrom s run t ∧ M.step t a = some (o, u) := by
  generalize hr : run ++ [(a, o)] = r at h
  cases h with
  | nil => simp at hr
  | snoc hrun hstep =>
    obtain ⟨rfl, hlast⟩ := List.append_inj' hr rfl
    simp only [List.cons.injEq, Prod.mk.injEq, and_true] at hlast
    obtain ⟨rfl, rfl⟩ := hlast
    exact ⟨_, hrun, hstep⟩

/-- The invariant rule: what holds at the start and is kept by every step holds after every run. The
predicate may speak of the run so far, and a step may use that the run leads to its state. -/
theorem RunsFrom.invariant {M : Machine σ α ω} {s : σ} {I : List (α × ω) → σ → Prop}
    (h0 : I [] s)
    (hstep : ∀ run t a o t', M.RunsFrom s run t → I run t → M.step t a = some (o, t') →
      I (run ++ [(a, o)]) t')
    {run : List (α × ω)} {t : σ} (h : M.RunsFrom s run t) : I run t := by
  induction h with
  | nil => exact h0
  | snoc hrun hs ih => exact hstep _ _ _ _ _ hrun ih hs

/-- The invariant rule for a predicate on states. -/
theorem RunsFrom.state_invariant {M : Machine σ α ω} {s : σ} {I : σ → Prop} (h0 : I s)
    (hstep : ∀ t a o t', I t → M.step t a = some (o, t') → I t')
    {run : List (α × ω)} {t : σ} (h : M.RunsFrom s run t) : I t :=
  h.invariant (I := fun _ t => I t) h0 fun _ t a o t' _ => hstep t a o t'

/-- The machine `N` follows a step into `s'` from its own state `t`: a visible step is a step of `N`
with the translated output, and a step that is not visible leaves `N` where it is. -/
def Follows (N : Machine τ β υ) (R : σ → τ → Prop) (s' : σ) (t : τ) : Option (β × υ) → Prop
  | some (b, u) => ∃ t', N.step t b = some (u, t') ∧ R s' t'
  | none => R s' t

/-- Runs carry over to another machine that follows every step. -/
theorem Runs.project {M : Machine σ α ω} {N : Machine τ β υ} {R : σ → τ → Prop}
    (visible : α → ω → Option (β × υ)) (h0 : R M.init N.init)
    (hstep : ∀ run s a o s' t, M.Runs run s → R s t → M.step s a = some (o, s') →
      N.Follows R s' t (visible a o))
    {run : List (α × ω)} {s : σ} (h : M.Runs run s) :
    ∃ t, N.Runs (run.filterMap fun x => visible x.1 x.2) t ∧ R s t := by
  induction h with
  | nil => exact ⟨N.init, .nil, h0⟩
  | snoc hrun hs ih =>
    obtain ⟨t, ht, hR⟩ := ih
    -- The other machine is in a related state, and follows the last step or stays.
    have key := hstep _ _ _ _ _ t hrun hR hs
    rw [List.filterMap_append]
    generalize hv : visible _ _ = v at key
    rcases v with _ | ⟨b, u⟩
    · exact ⟨t, by simpa [hv] using ht, key⟩
    · obtain ⟨t', hn, hR'⟩ := key
      exact ⟨t', by simpa [hv] using ht.snoc hn, hR'⟩

/-- The actions of a list taken in order, with the outputs that they give. -/
def exec (M : Machine σ α ω) (s : σ) : List α → Option (List (α × ω) × σ)
  | [] => some ([], s)
  | a :: actions =>
    match M.step s a with
    | none => none
    | some (o, t) => (M.exec t actions).map fun r => ((a, o) :: r.1, r.2)

/-- A machine whose steps are those of another one, with states, actions and outputs translated, takes
the translated actions and shows the translated outputs. -/
theorem exec_map {M : Machine σ α ω} {N : Machine τ β υ} (F : σ → τ) (K : α → β) (G : ω → υ)
    (h : ∀ s a, N.step (F s) (K a) = (M.step s a).map fun r => (G r.1, F r.2)) (s : σ)
    (actions : List α) :
    N.exec (F s) (actions.map K) =
      (M.exec s actions).map fun r => (r.1.map fun x => (K x.1, G x.2), F r.2) := by
  induction actions generalizing s with
  | nil => rfl
  | cons a actions ih =>
    simp only [List.map_cons, exec, h]
    cases M.step s a with
    | none => rfl
    | some r =>
      simp only [Option.map_some, ih, Option.map_map]
      rfl

/-- What a list of actions taken in order shows: their outputs, and `f` of the last state. -/
def observe (M : Machine σ α ω) (f : σ → υ) (s : σ) (actions : List α) : Option (List ω × υ) :=
  (M.exec s actions).map fun r => (r.1.map Prod.snd, f r.2)

/-- The actions that show some outputs are a run with them. -/
theorem exists_runsFrom_of_observe {M : Machine σ α ω} {f : σ → υ} {s : σ} {actions : List α}
    {os : List ω} {v : υ} (h : M.observe f s actions = some (os, v)) :
    ∃ t, M.RunsFrom s (actions.zip os) t ∧ f t = v := by
  induction actions generalizing s os with
  | nil =>
    obtain ⟨rfl, hv⟩ : [] = os ∧ f s = v := by simpa [observe, exec] using h
    exact ⟨s, .nil, hv⟩
  | cons a actions ih =>
    simp only [observe, exec] at h
    split at h
    · cases h
    · next o u hs =>
      simp only [Option.map_map, Option.map_eq_some_iff] at h
      obtain ⟨r, hexec, hr⟩ := h
      obtain ⟨rfl, hv⟩ : o :: r.1.map Prod.snd = os ∧ f r.2 = v := by simpa using hr
      -- The rest of the actions shows the rest of the outputs, from the next state.
      have hrest : M.observe f u actions = some (r.1.map Prod.snd, v) := by
        simp [observe, hexec, hv]
      obtain ⟨t, ht, hft⟩ := ih hrest
      exact ⟨t, .cons hs ht, hft⟩

/-- The actions that show some outputs from the start are a run with them. -/
theorem exists_runs_of_observe (M : Machine σ α ω) (f : σ → υ) (actions : List α) (os : List ω)
    (v : υ) (h : M.observe f M.init actions = some (os, v)) :
    ∃ t, M.Runs (actions.zip os) t ∧ f t = v := exists_runsFrom_of_observe h

/-- The actions with the outputs that they give are a run. -/
theorem runsFrom_of_exec {M : Machine σ α ω} {s : σ} {actions : List α} {r : List (α × ω) × σ}
    (h : M.exec s actions = some r) : M.RunsFrom s r.1 r.2 := by
  induction actions generalizing s r with
  | nil =>
    cases h
    exact .nil
  | cons a actions ih =>
    simp only [exec] at h
    split at h
    · cases h
    · next o u hs =>
      obtain ⟨r', hexec, rfl⟩ := Option.map_eq_some_iff.mp h
      exact .cons hs (ih hexec)

/-- The actions from the start are a run, and what is computed of it and its last state holds. -/
theorem exists_runs_of_exec_run (M : Machine σ α ω) (f : List (α × ω) → σ → υ) (actions : List α) (v : υ)
    (h : (M.exec M.init actions).map (fun r => f r.1 r.2) = some v) :
    ∃ run t, M.Runs run t ∧ f run t = v := by
  obtain ⟨r, hexec, hv⟩ := Option.map_eq_some_iff.mp h
  exact ⟨r.1, r.2, runsFrom_of_exec hexec, hv⟩

/-- The actions that lead from the start to a state where `f` is `v` are a run there. -/
theorem exists_runs_of_exec (M : Machine σ α ω) (f : σ → υ) (actions : List α) (v : υ)
    (h : (M.exec M.init actions).map (fun r => f r.2) = some v) :
    ∃ run t, M.Runs run t ∧ f t = v := exists_runs_of_exec_run M (fun _ t => f t) actions v h

/-! ## Many parties -/

variable {ι : Type*} [DecidableEq ι]

/-- What one party did in a run. -/
def ofParty (c : ι) (run : List ((ι × α) × ω)) : List (α × ω) :=
  run.filterMap fun x => if x.1.1 = c then some (x.1.2, x.2) else none

@[simp]
theorem ofParty_nil (c : ι) : ofParty c ([] : List ((ι × α) × ω)) = [] := rfl

/-- A step appends to its own party's part. -/
@[simp]
theorem ofParty_snoc_self (c : ι) (run : List ((ι × α) × ω)) (a : α) (o : ω) :
    ofParty c (run ++ [((c, a), o)]) = ofParty c run ++ [(a, o)] := by
  simp [ofParty]

/-- A step leaves the other parties' parts alone. -/
theorem ofParty_snoc_of_ne {c d : ι} (h : d ≠ c) (run : List ((ι × α) × ω)) (a : α) (o : ω) :
    ofParty c (run ++ [((d, a), o)]) = ofParty c run := by
  simp [ofParty, h]

/-- A party has done something in a longer run if it had before, or the last step is its own and this. -/
theorem exists_ofParty_snoc {c d : ι} {run : List ((ι × α) × ω)} {a : α} {o : ω} {P : α × ω → Prop} :
    (∃ x ∈ ofParty c (run ++ [((d, a), o)]), P x) ↔
      (∃ x ∈ ofParty c run, P x) ∨ (d = c ∧ P (a, o)) := by
  rcases eq_or_ne d c with rfl | hdc
  · simp [or_and_right, exists_or]
  · rw [ofParty_snoc_of_ne hdc, or_iff_left fun h => hdc h.1]

/-- The parties of a run. -/
def parties (run : List ((ι × α) × ω)) : Finset ι := (run.map fun x => x.1.1).toFinset

/-- The parties of a longer run. -/
theorem mem_parties_snoc {c d : ι} {run : List ((ι × α) × ω)} {a : α} {o : ω} :
    c ∈ parties (run ++ [((d, a), o)]) ↔ c ∈ parties run ∨ c = d := by
  simp [parties, or_comm]

/-- A count over a run is the sum of the counts of its parties. -/
theorem countP_eq_sum_ofParty (p : ω → Bool) (run : List ((ι × α) × ω)) {s : Finset ι}
    (h : parties run ⊆ s) :
    run.countP (fun x => p x.2) = ∑ c ∈ s, (ofParty c run).countP fun x => p x.2 := by
  induction run with
  | nil => simp
  | cons x run ih =>
    obtain ⟨⟨d, a⟩, o⟩ := x
    rw [parties, List.map_cons, List.toFinset_cons, Finset.insert_subset_iff] at h
    -- A step in front counts for its own party only.
    have hparty : ∀ c, (ofParty c (((d, a), o) :: run)).countP (fun x => p x.2) =
        (ofParty c run).countP (fun x => p x.2) + if d = c then (if p o then 1 else 0) else 0 := by
      intro c
      by_cases hc : d = c <;> simp [ofParty, hc, List.countP_cons]
    rw [List.countP_cons, ih h.2, Finset.sum_congr rfl fun c _ => hparty c,
      Finset.sum_add_distrib, Finset.sum_ite_eq, if_pos h.1]

end Machine
