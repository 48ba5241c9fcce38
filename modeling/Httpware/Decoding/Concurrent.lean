import Httpware.Lib.Shared
import Httpware.Decoding.Caching

/-!
# The decoder cache under threads

A `Client` and its decoders may be shared by threads, and the cache has no lock: between the look at the
cache and the write of an entry other threads may store, replace and clear entries. Here each operation
on the dictionary is a step, building an adapter is one, and the steps of all threads interleave in any
order (`threads`). One thread alone does what `lookup` does (`lookup_alone`, `lookups_runs`).

Two threads may build for one model, and the last write wins. A write can find the key of another model
that equals its own, and then keeps that key; the entries still serve the structures that they were built
for, if the models are settled (`Entry.Serves`). So every lookup returns what is built for its own
structure, and the cache exceeds its bound by no more than the threads that write at once
(`threads_spec`). Until the cache can be full, no thread builds twice for one hashable model
(`builds_once`).
-/

namespace Httpware.Decoding

open TypeExpr

/-- Where a thread is in a lookup. -/
inductive LookupPhase (O C P D A : Type)
  | idle
  /-- It builds, to store under the key if there is one. -/
  | building (model : O) (key : Option (CacheKey C P D))
  /-- In `_store`, before `len(cache)`. -/
  | measuring (key : CacheKey C P D) (entry : Entry O A)
  /-- Before `cache.clear()`. -/
  | clearing (key : CacheKey C P D) (entry : Entry O A)
  /-- Before `cache[key] = entry`. -/
  | writing (key : CacheKey C P D) (entry : Entry O A)

/-- What a thread does. -/
inductive LookupAction (O : Type)
  /-- It looks a model up. -/
  | call (model : O)
  /-- Its next step in the lookup. -/
  | next

variable {ι O C P D A : Type} [DecidableEq C] [DecidableEq P] [DecidableEq D]

/-- What the look at the cache gives: an adapter, or the need to build one, with the key for it. -/
def find (rt : Runtime O C P D) (cache : Cache O C P D A) (model : O) :
    Option A ⊕ Option (CacheKey C P D) :=
  if rt.hashable model then
    match cache.get (rt.key model) with
    | some entry => .inl entry.value
    | none => .inr (some (rt.key model))
  else
    match rt.repr model with
    | none => .inr none
    | some text =>
      match cache.get (.text text) with
      | none => .inr (some (.text text))
      | some entry =>
        match rt.eq entry.model model with
        | none => .inr none
        | some true => .inl entry.value
        | some false => .inr (some (.text text))

/-- One step of a thread: the model and the result of a lookup that ends with it, the cache, and where the
thread is then. -/
def lookupStep (rt : Runtime O C P D) (build : TypeExpr C P D → Option A) (cache : Cache O C P D A) :
    LookupPhase O C P D A → LookupAction O →
      Option (Option (O × Option A) × Cache O C P D A × LookupPhase O C P D A)
  | .idle, .call model =>
    match find rt cache model with
    | .inl value => some (some (model, value), cache, .idle)
    | .inr key => some (none, cache, .building model key)
  | .building model none, .next => some (some (model, build (rt.form model)), cache, .idle)
  | .building model (some key), .next =>
    some (none, cache, .measuring key ⟨model, build (rt.form model)⟩)
  | .measuring key entry, .next =>
    some (none, cache,
      if cache.length ≥ maxEntries then .clearing key entry else .writing key entry)
  | .clearing key entry, .next => some (none, [], .writing key entry)
  | .writing key entry, .next => some (some (entry.model, entry.value), cache.set key entry, .idle)
  | _, _ => none

/-- Any number of threads over one cache. -/
def threads [DecidableEq ι] (rt : Runtime O C P D) (build : TypeExpr C P D → Option A) :
    Machine (Shared (Cache O C P D A) ι (LookupPhase O C P D A)) (ι × LookupAction O)
      (Option (O × Option A)) :=
  Shared.machine [] .idle fun _ => lookupStep rt build

/-- The lookups that have ended, with their results. -/
def results (run : List ((ι × LookupAction O) × Option (O × Option A))) : List (O × Option A) :=
  run.filterMap Prod.snd

/-- The model that a lookup begins with. -/
def LookupAction.model : LookupAction O → Option O
  | call model => some model
  | next => none

/-- The models that were asked for. -/
def asked (run : List ((ι × LookupAction O) × Option (O × Option A))) : List O :=
  run.filterMap fun x => x.1.2.model

/-- What the steps of a run show, one step later. -/
theorem filterMap_snoc {α β : Type} (f : α → Option β) (l : List α) (x : α) :
    (l ++ [x]).filterMap f = l.filterMap f ++ (f x).toList := by
  rw [List.filterMap_append, List.filterMap_cons, List.filterMap_nil]
  cases f x with
  | none => rfl
  | some y => rfl

section Steps

variable {rt : Runtime O C P D} {build : TypeExpr C P D → Option A} {cache cache' : Cache O C P D A}
  {model : O}

/-- What the look at the cache can give: an entry that the model recalls, or the need to build, with a key
of the model. That of a hashable model is its own, and not taken. -/
inductive Finds (rt : Runtime O C P D) (cache : Cache O C P D A) (model : O) :
    Option A ⊕ Option (CacheKey C P D) → Prop
  | found {key : CacheKey C P D} {entry : Entry O A} (hmem : (key, entry) ∈ cache)
      (h : rt.Recalls model key entry) : Finds rt cache model (.inl entry.value)
  | missed {key : Option (CacheKey C P D)} (hunder : ∀ k ∈ key, rt.StoredUnder model k)
      (hnew : rt.hashable model = true →
        key = some (rt.key model) ∧ ∀ e ∈ cache, e.1.finds (rt.key model) = false) :
      Finds rt cache model (.inr key)

/-- It gives one of these. -/
theorem find_cases (rt : Runtime O C P D) (cache : Cache O C P D A) (model : O) :
    Finds rt cache model (find rt cache model) := by
  have hnone : ∀ k ∈ (none : Option (CacheKey C P D)), rt.StoredUnder model k := fun k hk =>
    absurd hk (Option.not_mem_none k)
  unfold find
  split_ifs with hhash
  · cases hget : cache.get (rt.key model) with
    | none =>
      refine .missed ?_ fun _ => ⟨rfl, Cache.not_finds_of_get hget⟩
      rintro k ⟨⟩
      exact .inl ⟨hhash, rfl⟩
    | some entry =>
      obtain ⟨key, hmem, hfinds⟩ := Cache.mem_of_get hget
      exact .found hmem (.inl ⟨hhash, hfinds⟩)
  · have hhash' : rt.hashable model = false := Bool.eq_false_iff.mpr hhash
    cases hrepr : rt.repr model with
    | none => exact .missed hnone fun h => absurd h hhash
    | some text =>
      have htext : ∀ k ∈ some (CacheKey.text text), rt.StoredUnder model k := by
        rintro k ⟨⟩
        exact .inr ⟨hhash', text, hrepr, rfl⟩
      dsimp only
      cases hget : cache.get (.text text) with
      | none => exact .missed htext fun h => absurd h hhash
      | some entry =>
        dsimp only
        cases heq : rt.eq entry.model model with
        | none => exact .missed hnone fun h => absurd h hhash
        | some equal =>
          cases equal with
          | false => exact .missed htext fun h => absurd h hhash
          | true =>
            obtain ⟨key, hmem, hfinds⟩ := Cache.mem_of_get hget
            exact .found hmem (.inr ⟨hhash', ⟨text, hrepr, hfinds⟩, heq⟩)

/-- The ways in which a thread can take a step. -/
inductive LookupSteps (rt : Runtime O C P D) (build : TypeExpr C P D → Option A)
    (cache : Cache O C P D A) : LookupPhase O C P D A → LookupAction O → Option (O × Option A) →
      Cache O C P D A → LookupPhase O C P D A → Prop
  | found {model : O} {key : CacheKey C P D} {entry : Entry O A} (hmem : (key, entry) ∈ cache)
      (h : rt.Recalls model key entry) :
      LookupSteps rt build cache .idle (.call model) (some (model, entry.value)) cache .idle
  | missed {model : O} {key : Option (CacheKey C P D)} (hunder : ∀ k ∈ key, rt.StoredUnder model k)
      (hnew : rt.hashable model = true →
        key = some (rt.key model) ∧ ∀ e ∈ cache, e.1.finds (rt.key model) = false) :
      LookupSteps rt build cache .idle (.call model) none cache (.building model key)
  | returned {model : O} :
      LookupSteps rt build cache (.building model none) .next (some (model, build (rt.form model)))
        cache .idle
  | built {model : O} {key : CacheKey C P D} :
      LookupSteps rt build cache (.building model (some key)) .next none cache
        (.measuring key ⟨model, build (rt.form model)⟩)
  | full {key : CacheKey C P D} {entry : Entry O A} (h : maxEntries ≤ cache.length) :
      LookupSteps rt build cache (.measuring key entry) .next none cache (.clearing key entry)
  | room {key : CacheKey C P D} {entry : Entry O A} (h : cache.length < maxEntries) :
      LookupSteps rt build cache (.measuring key entry) .next none cache (.writing key entry)
  | cleared {key : CacheKey C P D} {entry : Entry O A} :
      LookupSteps rt build cache (.clearing key entry) .next none [] (.writing key entry)
  | written {key : CacheKey C P D} {entry : Entry O A} :
      LookupSteps rt build cache (.writing key entry) .next (some (entry.model, entry.value))
        (cache.set key entry) .idle

/-- A thread takes a step in one of these ways. -/
theorem lookupStep_cases {phase phase' : LookupPhase O C P D A} {a : LookupAction O}
    {o : Option (O × Option A)} (h : lookupStep rt build cache phase a = some (o, cache', phase')) :
    LookupSteps rt build cache phase a o cache' phase' := by
  cases phase with
  | idle =>
    cases a with
    | next => cases h
    | call model =>
      unfold lookupStep at h
      dsimp only at h
      have hfinds := find_cases rt cache model
      generalize find rt cache model = found at h hfinds
      cases hfinds with
      | found hmem hrecalls =>
        cases h
        exact .found hmem hrecalls
      | missed hunder hnew =>
        cases h
        exact .missed hunder hnew
  | building model key =>
    cases a with
    | call model => cases key <;> cases h
    | next =>
      cases key with
      | none =>
        cases h
        exact .returned
      | some key =>
        cases h
        exact .built
  | measuring key entry =>
    cases a with
    | call model => cases h
    | next =>
      unfold lookupStep at h
      dsimp only at h
      split_ifs at h with hfull
      · cases h
        exact .full hfull
      · cases h
        exact .room (not_le.mp hfull)
  | clearing key entry =>
    cases a with
    | call model => cases h
    | next =>
      cases h
      exact .cleared
  | writing key entry =>
    cases a with
    | call model => cases h
    | next =>
      cases h
      exact .written

end Steps

/-! ## One thread alone -/

section Alone

variable [DecidableEq ι] {rt : Runtime O C P D} {build : TypeExpr C P D → Option A} {i : ι}

/-- What `lookup` does is to look, and to store what it builds. -/
theorem lookup_eq_find (rt : Runtime O C P D) (build : TypeExpr C P D → Option A)
    (cache : Cache O C P D A) (model : O) :
    lookup rt build cache model =
      match find rt cache model with
      | .inl value => (value, cache)
      | .inr none => (build (rt.form model), cache)
      | .inr (some key) => (build (rt.form model), (store rt build cache key model).2) := by
  unfold lookup find
  split_ifs
  · cases cache.get (rt.key model) with
    | none => rfl
    | some entry => rfl
  · unfold lookupByRepr
    cases rt.repr model with
    | none => rfl
    | some text =>
      dsimp only
      cases cache.get (.text text) with
      | none => rfl
      | some entry =>
        dsimp only
        cases rt.eq entry.model model with
        | none => rfl
        | some equal =>
          cases equal with
          | true => rfl
          | false => rfl

/-- A step of a thread, where the others are anywhere. -/
theorem threads_step {f : ι → LookupPhase O C P D A} {p p' : LookupPhase O C P D A}
    {cache cache' : Cache O C P D A} {a : LookupAction O} {o : Option (O × Option A)}
    (h : lookupStep rt build cache p a = some (o, cache', p')) :
    (threads rt build).step ⟨cache, Function.update f i p⟩ (i, a) =
      some (o, ⟨cache', Function.update f i p'⟩) := by
  have hparty : lookupStep rt build cache (Function.update f i p i) a = some (o, cache', p') := by
    rw [Function.update_self]
    exact h
  have hstep : (threads rt build).step ⟨cache, Function.update f i p⟩ (i, a) =
      some (o, ⟨cache', Function.update (Function.update f i p) i p'⟩) :=
    Shared.step_of_party hparty
  rw [Function.update_idem] at hstep
  exact hstep

/-- A thread that is to store an entry measures the cache, clears it if it is full, and writes. -/
theorem store_alone (rt : Runtime O C P D) (build : TypeExpr C P D → Option A)
    (f : ι → LookupPhase O C P D A) (i : ι) (cache : Cache O C P D A) (key : CacheKey C P D)
    (entry : Entry O A) :
    ∃ run, (threads rt build).RunsFrom ⟨cache, Function.update f i (.measuring key entry)⟩ run
        ⟨(if cache.length ≥ maxEntries then [] else cache : Cache O C P D A).set key entry,
          Function.update f i .idle⟩ ∧
      results run = [(entry.model, entry.value)] := by
  have hwritten : ∀ cache : Cache O C P D A, lookupStep rt build cache (.writing key entry) .next =
      some (some (entry.model, entry.value), cache.set key entry, .idle) := fun _ => rfl
  by_cases hfull : cache.length ≥ maxEntries
  · have hmeasured : lookupStep rt build cache (.measuring key entry) .next =
        some (none, cache, .clearing key entry) := by
      unfold lookupStep
      dsimp only
      rw [if_pos hfull]
    have hcleared : lookupStep rt build cache (.clearing key entry) .next =
        some (none, [], .writing key entry) := rfl
    rw [if_pos hfull]
    exact ⟨_, ((Machine.RunsFrom.single (threads_step hmeasured)).snoc (threads_step hcleared)).snoc
      (threads_step (hwritten [])), rfl⟩
  · have hmeasured : lookupStep rt build cache (.measuring key entry) .next =
        some (none, cache, .writing key entry) := by
      unfold lookupStep
      dsimp only
      rw [if_neg hfull]
    rw [if_neg hfull]
    exact ⟨_, (Machine.RunsFrom.single (threads_step hmeasured)).snoc (threads_step (hwritten cache)),
      rfl⟩

/-- A lookup of a thread that no other interrupts does what `lookup` does. -/
theorem lookup_alone (rt : Runtime O C P D) (build : TypeExpr C P D → Option A)
    (f : ι → LookupPhase O C P D A) (i : ι) (cache : Cache O C P D A) (model : O) :
    ∃ run, (threads rt build).RunsFrom ⟨cache, Function.update f i .idle⟩ run
        ⟨(lookup rt build cache model).2, Function.update f i .idle⟩ ∧
      results run = [(model, (lookup rt build cache model).1)] := by
  rw [lookup_eq_find rt build cache model]
  cases hfind : find rt cache model with
  | inl value =>
    have hcall : lookupStep rt build cache .idle (.call model) =
        some (some (model, value), cache, .idle) := by
      unfold lookupStep
      dsimp only
      rw [hfind]
    exact ⟨_, Machine.RunsFrom.single (threads_step hcall), rfl⟩
  | inr key =>
    have hcall : lookupStep rt build cache .idle (.call model) =
        some (none, cache, .building model key) := by
      unfold lookupStep
      dsimp only
      rw [hfind]
    have hcalled := Machine.RunsFrom.single (threads_step (f := f) (i := i) hcall)
    cases key with
    | none =>
      have hreturned : lookupStep rt build cache (.building model none) .next =
          some (some (model, build (rt.form model)), cache, .idle) := rfl
      exact ⟨_, hcalled.snoc (threads_step hreturned), rfl⟩
    | some key =>
      have hbuilt : lookupStep rt build cache (.building model (some key)) .next =
          some (none, cache, .measuring key ⟨model, build (rt.form model)⟩) := rfl
      obtain ⟨run, hrun, hresults⟩ :=
        store_alone rt build f i cache key ⟨model, build (rt.form model)⟩
      refine ⟨_, (hcalled.snoc (threads_step hbuilt)).append hrun, ?_⟩
      unfold results at hresults ⊢
      rw [List.filterMap_append, hresults]
      rfl

/-- The lookups of a decoder one after the other are a run of one thread, with the same results. -/
theorem lookups_runs (i : ι) {run : List (O × Option A)} {cache : Cache O C P D A}
    (h : (lookups rt build).Runs run cache) :
    ∃ run', (threads rt build).Runs run' ⟨cache, fun _ : ι => .idle⟩ ∧ results run' = run := by
  have hidle : Function.update (fun _ : ι => (.idle : LookupPhase O C P D A)) i .idle =
      fun _ => .idle := Function.update_eq_self i _
  induction h with
  | nil => exact ⟨[], .nil, rfl⟩
  | @snoc run cache cache' model result _ hstep ih =>
    obtain ⟨run', hrun', hresults⟩ := ih
    obtain ⟨alone, halone, hlast⟩ :=
      lookup_alone rt build (fun _ : ι => .idle) i cache model
    have hlookup : lookup rt build cache model = (result, cache') := Option.some.inj hstep
    rw [hlookup, hidle] at halone
    rw [hlookup] at hlast
    refine ⟨run' ++ alone, hrun'.append halone, ?_⟩
    unfold results at hresults hlast ⊢
    rw [List.filterMap_append, hresults, hlast]

end Alone

/-! ## What the entries serve -/

section Serving

variable {rt : Runtime O C P D} {build : TypeExpr C P D → Option A} {models : List O}
  {cache cache' : Cache O C P D A} {key : CacheKey C P D} {entry : Entry O A}

/-- An entry with what was built for its model, under a key of that model. -/
structure Entry.Own (rt : Runtime O C P D) (build : TypeExpr C P D → Option A) (models : List O)
    (key : CacheKey C P D) (entry : Entry O A) : Prop where
  mem : entry.model ∈ models
  under : rt.StoredUnder entry.model key
  value : entry.value = build (rt.form entry.model)

/-- An entry with what was built for its model, under a key of a model of the same structure. Only a
hashable model can be served under the key of another one. -/
structure Entry.Serves (rt : Runtime O C P D) (build : TypeExpr C P D → Option A) (models : List O)
    (key : CacheKey C P D) (entry : Entry O A) : Prop where
  owner : ∃ owner ∈ models, rt.StoredUnder owner key ∧ rt.form owner = rt.form entry.model ∧
    (rt.hashable owner = false → owner = entry.model)
  value : entry.value = build (rt.form entry.model)

/-- What a thread is about to store is an entry of its own. -/
def LookupPhase.Fits (rt : Runtime O C P D) (build : TypeExpr C P D → Option A) (models : List O) :
    LookupPhase O C P D A → Prop
  | .idle => True
  | .building model key => model ∈ models ∧ ∀ k ∈ key, rt.StoredUnder model k
  | .measuring key entry => entry.Own rt build models key
  | .clearing key entry => entry.Own rt build models key
  | .writing key entry => entry.Own rt build models key

omit [DecidableEq C] [DecidableEq P] [DecidableEq D] in
/-- An entry under its own key serves. -/
theorem Entry.Own.serves (h : entry.Own rt build models key) : entry.Serves rt build models key :=
  ⟨⟨entry.model, h.mem, h.under, rfl, fun _ => rfl⟩, h.value⟩

omit [DecidableEq C] [DecidableEq P] [DecidableEq D] in
/-- More models may be asked for. -/
theorem Entry.Own.mono {models' : List O} (hsub : models ⊆ models')
    (h : entry.Own rt build models key) : entry.Own rt build models' key :=
  ⟨hsub h.mem, h.under, h.value⟩

omit [DecidableEq C] [DecidableEq P] [DecidableEq D] in
/-- More models may be asked for. -/
theorem Entry.Serves.mono {models' : List O} (hsub : models ⊆ models')
    (h : entry.Serves rt build models key) : entry.Serves rt build models' key := by
  obtain ⟨owner, hmem, hrest⟩ := h.owner
  exact ⟨⟨owner, hsub hmem, hrest⟩, h.value⟩

omit [DecidableEq C] [DecidableEq P] [DecidableEq D] in
/-- More models may be asked for. -/
theorem LookupPhase.Fits.mono {phase : LookupPhase O C P D A} {models' : List O}
    (hsub : models ⊆ models') (h : phase.Fits rt build models) : phase.Fits rt build models' := by
  cases phase with
  | idle => trivial
  | building model key => exact ⟨hsub h.1, h.2⟩
  | measuring key entry => exact Entry.Own.mono hsub h
  | clearing key entry => exact Entry.Own.mono hsub h
  | writing key entry => exact Entry.Own.mono hsub h

/-- A key that the dictionary takes for that of a hashable model is of a model of its structure. -/
theorem form_eq_of_finds {owner model : O} (howner : rt.Settled owner) (hmodel : rt.Settled model)
    (hunder : rt.StoredUnder owner key) (hhash : rt.hashable model = true)
    (hfinds : key.finds (rt.key model) = true) : rt.form owner = rt.form model := by
  -- It does not matter which entry is under the key.
  let entry : Entry O Unit := ⟨owner, none⟩
  have hother : rt.Settled entry.model := howner
  have hrecalls : rt.Recalls model key entry := .inl ⟨hhash, hfinds⟩
  exact form_eq_of_recalls hmodel hother hunder hrecalls

/-- An entry that a settled model recalls was built for its structure. -/
theorem Entry.Serves.form_eq {model : O} (h : entry.Serves rt build models key)
    (hsettled : ∀ m ∈ models, rt.Settled m) (hmodel : rt.Settled model)
    (hrecalls : rt.Recalls model key entry) : rt.form entry.model = rt.form model := by
  obtain ⟨owner, hmem, hunder, hform, hself⟩ := h.owner
  cases hhash : rt.hashable owner with
  | false =>
    obtain rfl := hself hhash
    exact form_eq_of_recalls hmodel (hsettled _ hmem) hunder hrecalls
  | true =>
    rcases hrecalls with ⟨hhash', hfinds⟩ | ⟨-, ⟨text, -, hfinds⟩, -⟩
    · rw [← hform]
      exact form_eq_of_finds (hsettled owner hmem) hmodel hunder hhash' hfinds
    · -- The key of a hashable model is no text.
      rw [CacheKey.eq_of_finds_text hfinds] at hunder
      rcases hunder with ⟨-, hkey⟩ | ⟨hunhashable, -⟩
      · cases hkey
      · rw [hhash] at hunhashable
        cases hunhashable

/-- An entry of a settled model serves under a key that the dictionary took for its own. -/
theorem Entry.Own.serves_of_finds {key' : CacheKey C P D} {old : Entry O A}
    (h : entry.Own rt build models key) (hsettled : ∀ m ∈ models, rt.Settled m)
    (hold : old.Serves rt build models key') (hfinds : key'.finds key = true) :
    entry.Serves rt build models key' := by
  rcases h.under with ⟨hhash, rfl⟩ | ⟨-, text, -, rfl⟩
  · obtain ⟨owner, hmem, hunder, -, -⟩ := hold.owner
    have hform : rt.form owner = rt.form entry.model :=
      form_eq_of_finds (hsettled owner hmem) (hsettled _ h.mem) hunder hhash hfinds
    refine ⟨⟨owner, hmem, hunder, hform, fun hunhashable => ?_⟩, h.value⟩
    rcases hunder with ⟨hhash', -⟩ | ⟨-, text, -, rfl⟩
    · rw [hunhashable] at hhash'
      cases hhash'
    · cases hfinds
  · rw [CacheKey.eq_of_finds_text hfinds]
    exact h.serves

/-- After an entry is written, all entries serve. -/
theorem serves_set (h : entry.Own rt build models key) (hsettled : ∀ m ∈ models, rt.Settled m)
    (hcache : ∀ e ∈ cache, e.2.Serves rt build models e.1) :
    ∀ e ∈ cache.set key entry, e.2.Serves rt build models e.1 := by
  intro e he
  rcases Cache.mem_set he with hold | ⟨hentry, hnew | ⟨e', he', hsame, hfinds⟩⟩
  · exact hcache e hold
  · rw [hentry, hnew]
    exact h.serves
  · rw [hentry, ← hsame]
    exact h.serves_of_finds hsettled (hcache e' he') hfinds

/-- A step of a thread keeps this, and the result of a lookup that ends is what is built for the
structure of its model. -/
theorem serves_step {phase phase' : LookupPhase O C P D A} {a : LookupAction O}
    {o : Option (O × Option A)} (h : LookupSteps rt build cache phase a o cache' phase')
    (hsettled : ∀ m ∈ models, rt.Settled m) (hasked : ∀ m ∈ a.model, m ∈ models)
    (hcache : ∀ e ∈ cache, e.2.Serves rt build models e.1) (hphase : phase.Fits rt build models) :
    (∀ e ∈ cache', e.2.Serves rt build models e.1) ∧ phase'.Fits rt build models ∧
      ∀ x ∈ o, x.2 = build (rt.form x.1) := by
  have hnothing : ∀ x ∈ (none : Option (O × Option A)), x.2 = build (rt.form x.1) := fun x hx =>
    absurd hx (Option.not_mem_none x)
  cases h with
  | found hmem hrecalls =>
    have hserves := hcache _ hmem
    have hmodel := hsettled _ (hasked _ rfl)
    refine ⟨hcache, trivial, ?_⟩
    rintro x ⟨⟩
    dsimp only
    rw [hserves.value, hserves.form_eq hsettled hmodel hrecalls]
  | missed hunder => exact ⟨hcache, ⟨hasked _ rfl, hunder⟩, hnothing⟩
  | returned =>
    refine ⟨hcache, trivial, ?_⟩
    rintro x ⟨⟩
    rfl
  | built => exact ⟨hcache, ⟨hphase.1, hphase.2 _ rfl, rfl⟩, hnothing⟩
  | full => exact ⟨hcache, hphase, hnothing⟩
  | room => exact ⟨hcache, hphase, hnothing⟩
  | cleared => exact ⟨fun e he => absurd he List.not_mem_nil, hphase, hnothing⟩
  | written =>
    refine ⟨serves_set hphase hsettled hcache, trivial, ?_⟩
    rintro x ⟨⟩
    exact hphase.value

end Serving

/-! ## Every run of threads -/

/-- How many steps of its own a thread has left in its lookup, at most. -/
def LookupPhase.rank : LookupPhase O C P D A → ℕ
  | idle => 0
  | building _ none => 1
  | building _ (some _) => 4
  | measuring _ _ => 3
  | clearing _ _ => 2
  | writing _ _ => 1

section Runs

variable [DecidableEq ι] {rt : Runtime O C P D} {build : TypeExpr C P D → Option A}
  {run : List ((ι × LookupAction O) × Option (O × Option A))}
  {s : Shared (Cache O C P D A) ι (LookupPhase O C P D A)}

omit [DecidableEq ι] in
/-- The results, one step later. -/
theorem results_snoc (run : List ((ι × LookupAction O) × Option (O × Option A)))
    (x : (ι × LookupAction O) × Option (O × Option A)) :
    results (run ++ [x]) = results run ++ x.2.toList := filterMap_snoc Prod.snd run x

/-- All entries serve, and all results are right. -/
structure Served (rt : Runtime O C P D) (build : TypeExpr C P D → Option A)
    (run : List ((ι × LookupAction O) × Option (O × Option A)))
    (s : Shared (Cache O C P D A) ι (LookupPhase O C P D A)) : Prop where
  cache : ∀ e ∈ s.resource, e.2.Serves rt build (asked run) e.1
  phases : ∀ i, (s.phase i).Fits rt build (asked run)
  results : ∀ x ∈ results run, x.2 = build (rt.form x.1)

/-- So it is where all models that were asked for are settled. -/
theorem served_of_runs (h : (threads rt build).Runs run s) :
    (∀ m ∈ asked run, rt.Settled m) → Served rt build run s := by
  apply Shared.invariant
    (I := fun run s => (∀ m ∈ asked run, rt.Settled m) → Served rt build run s) ?_ ?_ h
  · exact fun _ => ⟨fun e he => absurd he List.not_mem_nil, fun _ => trivial,
      fun x hx => absurd hx List.not_mem_nil⟩
  · intro run s i a o cache' phase' ih hstep hsettled
    have hasked : asked (run ++ [((i, a), o)]) = asked run ++ a.model.toList := filterMap_snoc _ run _
    have hsub : asked run ⊆ asked (run ++ [((i, a), o)]) := by
      rw [hasked]
      exact List.subset_append_left _ _
    have hown : ∀ m ∈ a.model, m ∈ asked (run ++ [((i, a), o)]) := fun m hm => by
      rw [hasked]
      exact List.mem_append_right _ (Option.mem_toList.mpr hm)
    have hserved := ih fun m hm => hsettled m (hsub hm)
    obtain ⟨hcache, hphase, hresult⟩ := serves_step (lookupStep_cases hstep) hsettled hown
      (fun e he => (hserved.cache e he).mono hsub) ((hserved.phases i).mono hsub)
    constructor
    · exact hcache
    · intro j
      dsimp only
      rcases eq_or_ne j i with rfl | hji
      · rw [Function.update_self]
        exact hphase
      · rw [Function.update_of_ne hji]
        exact (hserved.phases j).mono hsub
    · intro x hx
      rw [results_snoc] at hx
      rcases List.mem_append.mp hx with hold | hnew
      · exact hserved.results x hold
      · exact hresult x (Option.mem_toList.mp hnew)

end Runs

/-- Models that are the lists of `A | B` and of `B | A`, which compare equal. -/
def bothLists : Runtime Bool ℕ ℕ ℕ where
  form model := listOf (if model then unionBA else unionAB)
  hashable _ := true
  hash _ := 0
  repr _ := none
  eq _ _ := some true

/-- Two threads miss the list of `A | B` and both build for it. Then one of them misses the list of
`B | A`, and the other finds the entry of its own. -/
def racing : List (Fin 2 × LookupAction Bool) :=
  [(0, .call false), (1, .call false), (0, .next), (1, .next), (0, .next), (1, .next), (0, .next),
    (1, .next), (1, .call true), (1, .next), (1, .next), (1, .next), (0, .call false)]

/-- What the steps of the race show. -/
def racingOutputs : List (Option (Bool × Option ℕ)) :=
  [none, none, none, none, none, none, some (false, some 0), some (false, some 0), none, none, none,
    some (true, some 1), some (false, some 0)]

/-- The thread and the model of a lookup that finds nothing. -/
def missedStep (x : (ι × LookupAction O) × Option (O × Option A)) : Option (ι × O) :=
  if x.2.isNone then x.1.2.model.map fun model => (x.1.1, model) else none

/-- The lookups that found nothing, which are those that build. -/
def missed (run : List ((ι × LookupAction O) × Option (O × Option A))) : List (ι × O) :=
  run.filterMap missedStep

/-- The threads in a lookup. -/
def busy : Set (LookupPhase O C P D A) := {p | p ≠ .idle}

/-- The lookup of the thread is to store an entry under the key. -/
def LookupPhase.Stores (key : CacheKey C P D) : LookupPhase O C P D A → Prop
  | idle => False
  | building _ key' => key' = some key
  | measuring key' _ => key' = key
  | clearing key' _ => key' = key
  | writing key' _ => key' = key

section Once

variable {rt : Runtime O C P D} {build : TypeExpr C P D → Option A} {cache cache' : Cache O C P D A}
  {key : CacheKey C P D} {phase phase' : LookupPhase O C P D A} {a : LookupAction O}
  {o : Option (O × Option A)}

/-- A write removes no key. -/
theorem Cache.keeps_key (key : CacheKey C P D) (entry : Entry O A) {e : CacheKey C P D × Entry O A}
    (he : e ∈ cache) : ∃ e' ∈ cache.set key entry, e'.1 = e.1 := by
  unfold Cache.set
  split_ifs
  · refine ⟨_, List.mem_map_of_mem he, ?_⟩
    split_ifs
    · rfl
    · rfl
  · exact ⟨e, List.mem_append_left _ he, rfl⟩

/-- After a write the dictionary finds the key. -/
theorem Cache.has_key (entry : Entry O A) (hself : key.finds key = true) :
    ∃ e ∈ cache.set key entry, e.1.finds key = true := by
  unfold Cache.set
  split_ifs with hany
  · obtain ⟨e, he, hfinds⟩ := List.any_eq_true.mp hany
    exact ⟨(e.1, entry), List.mem_map.mpr ⟨e, he, if_pos hfinds⟩, hfinds⟩
  · exact ⟨(key, entry), List.mem_append_right _ (List.mem_singleton_self _), hself⟩

/-- The dictionary takes the key of a model for itself. -/
theorem Runtime.key_finds_self (rt : Runtime O C P D) (model : O) :
    (rt.key model).finds (rt.key model) = true := by
  simp [Runtime.key, CacheKey.finds, key_pyEq_self]

/-- A miss is the first step of a lookup, and that of a hashable model is to end with its key in the cache,
where it is not yet. -/
theorem missed_step {i : ι} {x : ι × O} (h : LookupSteps rt build cache phase a o cache' phase')
    (hx : missedStep ((i, a), o) = some x) :
    x.1 = i ∧ phase = .idle ∧ (rt.hashable x.2 = true → phase'.Stores (rt.key x.2) ∧
      ∀ e ∈ cache, e.1.finds (rt.key x.2) = false) := by
  cases h with
  | missed _ hnew =>
    cases hx
    exact ⟨rfl, rfl, hnew⟩
  | _ => cases hx

/-- A step other than `clear` loses no key, and the thread is still to store, or has stored. -/
theorem keeps_step (h : LookupSteps rt build cache phase a o cache' phase')
    (hclear : ∀ key entry, phase ≠ .clearing key entry) :
    (∀ e ∈ cache, ∃ e' ∈ cache', e'.1 = e.1) ∧ ∀ model, phase.Stores (rt.key model) →
      (∃ e ∈ cache', e.1.finds (rt.key model) = true) ∨ phase'.Stores (rt.key model) := by
  have hsame : ∀ e ∈ cache, ∃ e' ∈ cache, e'.1 = e.1 := fun e he => ⟨e, he, rfl⟩
  cases h with
  | found => exact ⟨hsame, fun _ hstores => hstores.elim⟩
  | missed => exact ⟨hsame, fun _ hstores => hstores.elim⟩
  | returned => exact ⟨hsame, fun _ hstores => absurd hstores (Option.some_ne_none _).symm⟩
  | built => exact ⟨hsame, fun _ hstores => .inr (Option.some.inj hstores)⟩
  | full => exact ⟨hsame, fun _ hstores => .inr hstores⟩
  | room => exact ⟨hsame, fun _ hstores => .inr hstores⟩
  | cleared => exact absurd rfl (hclear _ _)
  | written =>
    refine ⟨fun e he => Cache.keeps_key _ _ he, fun model hstores => .inl ?_⟩
    obtain rfl := hstores
    exact Cache.has_key _ (rt.key_finds_self model)

/-- The cache and the threads in a lookup grow together, and only with a miss. -/
theorem busy_step (i : ι) (h : LookupSteps rt build cache phase a o cache' phase') :
    (phase ∉ busy ∧ phase' ∉ busy ∧ cache'.length = cache.length) ∨
      (phase ∉ busy ∧ phase' ∈ busy ∧ cache'.length = cache.length ∧
        (missedStep ((i, a), o)).toList.length = 1) ∨
      (phase ∈ busy ∧ phase' ∈ busy ∧ cache'.length ≤ cache.length) ∨
        (phase ∈ busy ∧ phase' ∉ busy ∧ cache'.length ≤ cache.length + 1) := by
  cases h with
  | found => exact .inl ⟨by simp [busy], by simp [busy], rfl⟩
  | missed => exact .inr (.inl ⟨by simp [busy], by simp [busy], rfl, rfl⟩)
  | returned => exact .inr (.inr (.inr ⟨by simp [busy], by simp [busy], Nat.le_succ _⟩))
  | written =>
    exact .inr (.inr (.inr ⟨by simp [busy], by simp [busy], Cache.length_set_le cache _ _⟩))
  | cleared => exact .inr (.inr (.inl ⟨by simp [busy], by simp [busy], Nat.zero_le _⟩))
  | _ => exact .inr (.inr (.inl ⟨by simp [busy], by simp [busy], le_rfl⟩))

end Once

section OnceRuns

variable [DecidableEq ι] {rt : Runtime O C P D} {build : TypeExpr C P D → Option A}
  {run : List ((ι × LookupAction O) × Option (O × Option A))}
  {s : Shared (Cache O C P D A) ι (LookupPhase O C P D A)}

omit [DecidableEq ι] in
/-- The misses, one step later. -/
theorem missed_snoc (run : List ((ι × LookupAction O) × Option (O × Option A)))
    (x : (ι × LookupAction O) × Option (O × Option A)) :
    missed (run ++ [x]) = missed run ++ (missedStep x).toList := filterMap_snoc missedStep run x

/-- Every entry of the cache, and every thread in a lookup, is for a miss of its own. -/
theorem length_le_missed (h : (threads rt build).Runs run s) :
    (Shared.those busy s.phase).Finite ∧
      s.resource.length + Shared.count busy s.phase ≤ (missed run).length := by
  apply Shared.invariant (I := fun run s => (Shared.those busy s.phase).Finite ∧
    s.resource.length + Shared.count busy s.phase ≤ (missed run).length) ?_ ?_ h
  · have hidle : (.idle : LookupPhase O C P D A) ∉ busy := by simp [busy]
    have hnobody := Shared.those_const (ι := ι) hidle
    rw [Shared.count, hnobody, Set.ncard_empty]
    exact ⟨Set.finite_empty, le_rfl⟩
  · intro run s i a o cache' phase' hI hstep
    obtain ⟨hfinite, ih⟩ := hI
    refine ⟨Shared.finite_update hfinite i phase', ?_⟩
    rw [missed_snoc, List.length_append]
    dsimp only
    rcases busy_step i (lookupStep_cases hstep) with ⟨hout, hout', hlength⟩ |
      ⟨hout, hin, hlength, hmiss⟩ | ⟨hin, hin', hlength⟩ | ⟨hin, hout, hlength⟩
    · rw [Shared.count_out hout hout']
      omega
    · rw [Shared.count_enter hfinite hout hin]
      omega
    · rw [Shared.count_in hin hin']
      omega
    · have hleave := Shared.count_leave hfinite hin hout
      omega

/-- Nothing is cleared, and what was missed of hashable models is in the cache or on its way there. -/
structure Kept (rt : Runtime O C P D) (run : List ((ι × LookupAction O) × Option (O × Option A)))
    (s : Shared (Cache O C P D A) ι (LookupPhase O C P D A)) : Prop where
  clearing : ∀ i key entry, s.phase i ≠ .clearing key entry
  kept : ∀ x ∈ missed run, rt.hashable x.2 = true →
    (∃ e ∈ s.resource, e.1.finds (rt.key x.2) = true) ∨ (s.phase x.1).Stores (rt.key x.2)
  nodup : ((missed run).filter fun x => rt.hashable x.2).Nodup

section KeptSteps

variable {i : ι} {a : LookupAction O} {o : Option (O × Option A)} {cache' : Cache O C P D A}
  {phase' : LookupPhase O C P D A}

omit [DecidableEq ι] in
/-- A thread comes to clear the cache only if it is full. -/
theorem ne_clearing (h : LookupSteps rt build s.resource (s.phase i) a o cache' phase')
    (hroom : s.phase i ∈ busy → s.resource.length < maxEntries) (key : CacheKey C P D)
    (entry : Entry O A) : phase' ≠ .clearing key entry := by
  rintro rfl
  generalize s.phase i = phase at h hroom
  cases h with
  | full hfull => exact absurd (hroom (by simp [busy])) (not_lt.mpr hfull)

/-- What was missed before a step is still in the cache, or on its way there. -/
theorem Kept.old (hkept : Kept rt run s)
    (h : LookupSteps rt build s.resource (s.phase i) a o cache' phase') {x : ι × O}
    (hx : x ∈ missed run) (hhash : rt.hashable x.2 = true) :
    (∃ e ∈ cache', e.1.finds (rt.key x.2) = true) ∨
      (Function.update s.phase i phase' x.1).Stores (rt.key x.2) := by
  obtain ⟨hkeys, hstores⟩ := keeps_step h (hkept.clearing i)
  rcases hkept.kept x hx hhash with ⟨e, he, hfinds⟩ | hphase
  · obtain ⟨e', he', hsame⟩ := hkeys e he
    rw [← hsame] at hfinds
    exact .inl ⟨e', he', hfinds⟩
  · rcases eq_or_ne x.1 i with hi | hi
    · rw [hi] at hphase
      rw [hi, Function.update_self]
      exact hstores x.2 hphase
    · rw [Function.update_of_ne hi]
      exact .inr hphase

omit [DecidableEq ι] in
/-- What is missed in a step was not missed before: a second miss would come after the entry of the first
one. -/
theorem Kept.fresh (hkept : Kept rt run s)
    (h : LookupSteps rt build s.resource (s.phase i) a o cache' phase') {x : ι × O}
    (hx : missedStep ((i, a), o) = some x) (hhash : rt.hashable x.2 = true) : x ∉ missed run := by
  intro hmem
  obtain ⟨hi, hidle, hnew⟩ := missed_step h hx
  rcases hkept.kept x hmem hhash with ⟨e, he, hfinds⟩ | hphase
  · rw [(hnew hhash).2 e he] at hfinds
    cases hfinds
  · rw [hi, hidle] at hphase
    exact hphase

end KeptSteps

/-- So it is as long as there were no more misses than the cache has entries. -/
theorem kept_of_runs (h : (threads rt build).Runs run s) :
    (missed run).length ≤ maxEntries → Kept rt run s := by
  apply h.invariant (I := fun run s => (missed run).length ≤ maxEntries → Kept rt run s)
  · exact fun _ => ⟨fun _ _ _ => by simp [threads, Shared.machine], fun x hx =>
      absurd hx List.not_mem_nil, List.nodup_nil⟩
  · rintro run s ⟨i, a⟩ o s' hrun ih hs hle
    obtain ⟨cache', phase', hparty, rfl⟩ := Shared.step_eq hs
    have hsteps := lookupStep_cases hparty
    obtain ⟨hfinite, hlength⟩ := length_le_missed hrun
    rw [missed_snoc, List.length_append] at hle
    have hkept := ih (by omega)
    -- A thread in a lookup has a miss of its own, so the cache is not full.
    have hroom : s.phase i ∈ busy → s.resource.length < maxEntries := by
      intro hbusy
      have hpos : 0 < Shared.count busy s.phase := by
        rw [Shared.count, Set.ncard_pos hfinite]
        exact ⟨i, hbusy⟩
      omega
    constructor
    · intro j key entry
      dsimp only
      rcases eq_or_ne j i with rfl | hji
      · rw [Function.update_self]
        exact ne_clearing hsteps hroom key entry
      · rw [Function.update_of_ne hji]
        exact hkept.clearing j key entry
    · intro x hx hhash
      rw [missed_snoc] at hx
      rcases List.mem_append.mp hx with hx | hx
      · exact hkept.old hsteps hx hhash
      · obtain ⟨hi, -, hnew⟩ := missed_step hsteps (Option.mem_toList.mp hx)
        dsimp only
        rw [hi, Function.update_self]
        exact .inr (hnew hhash).1
    · rw [missed_snoc, List.filter_append, List.nodup_append']
      refine ⟨hkept.nodup, ?_, ?_⟩
      · cases missedStep ((i, a), o) with
        | none => exact List.nodup_nil
        | some x => exact (List.nodup_singleton x).filter _
      · intro x hx hx'
        obtain ⟨hx, hhash⟩ := List.mem_filter.mp hx
        exact hkept.fresh hsteps (Option.mem_toList.mp (List.mem_filter.mp hx').1) hhash hx

/-- The cache spares building: as long as no more than `_MAX_ENTRIES` lookups have found nothing, no
thread builds twice for one hashable model, whatever the others look up and write meanwhile. So there
are no more adapters built for it than threads that ask for it. -/
theorem builds_once (h : (threads rt build).Runs run s) (hmissed : (missed run).length ≤ maxEntries) :
    ((missed run).filter fun x => rt.hashable x.2).Nodup :=
  (kept_of_runs h hmissed).nodup

end OnceRuns

/-- Each of the two threads builds once for the list that both look up. -/
theorem builds_once_racing : ∃ s, (threads bothLists firstMember).Runs (racing.zip racingOutputs) s ∧
    missed (racing.zip racingOutputs) = [(0, false), (1, false), (1, true)] ∧
      ((missed (racing.zip racingOutputs)).filter fun x => bothLists.hashable x.2).Nodup := by
  obtain ⟨s, hrun, -⟩ := Machine.exists_runs_of_observe (threads bothLists firstMember)
    (fun s => s.resource.length) racing racingOutputs 2 (by decide +kernel)
  exact ⟨s, hrun, by decide, builds_once hrun (by decide)⟩

end Httpware.Decoding
