import Httpware.Lib.Machine
import Httpware.Decoding.TypeExpr

/-!
# The decoder cache

`_lookup`, `_lookup_by_repr` and `_store` of `decoders/_caching.py`, over the objects `O` that are
models. A `Runtime` is what Python says of such an object: its ordered structure, whether the cache can
hash its key, its `repr` and its `==`. Every entry holds what was built for the structure of its model
(`Sound`), so a lookup is right where the model that it finds has the structure that was asked for, and
`Settled` is when it must have.
-/

namespace Httpware.Decoding

open TypeExpr

/-! ## The cache -/

/-- What Python says of the objects that are models. -/
structure Runtime (O C P D : Type) where
  /-- The ordered structure. -/
  form : O → TypeExpr C P D
  /-- `_key` and the dictionary take the object. -/
  hashable : O → Bool
  /-- The hash of its key. -/
  hash : O → ℤ
  /-- `repr`, or none when it raises. -/
  repr : O → Option String
  /-- `==`, or none when it raises. -/
  eq : O → O → Option Bool

/-- A key of the dictionary. -/
inductive CacheKey (C P D : Type)
  | structural (hash : ℤ) (key : Key C P D)
  | text (repr : String)

/-- An entry: the model that it was stored for, and what was built. -/
structure Entry (O A : Type) where
  model : O
  value : Option A

/-- `_Cache`. -/
abbrev Cache (O C P D A : Type) := List (CacheKey C P D × Entry O A)

/-- `_MAX_ENTRIES`. -/
def maxEntries : ℕ := 4096

variable {O C P D A : Type} [DecidableEq C] [DecidableEq P] [DecidableEq D]

/-- The dictionary takes two keys for one: they have one hash, and are equal. -/
def CacheKey.finds : CacheKey C P D → CacheKey C P D → Bool
  | .structural hash key, .structural hash' key' => hash = hash' && key.pyEq key'
  | .text repr, .text repr' => repr = repr'
  | _, _ => false

namespace Cache

/-- `cache.get(key)`. -/
def get (cache : Cache O C P D A) (key : CacheKey C P D) : Option (Entry O A) :=
  (cache.find? fun e => e.1.finds key).map Prod.snd

/-- `cache[key] = entry`, which keeps the key of an entry that it replaces. -/
def set (cache : Cache O C P D A) (key : CacheKey C P D) (entry : Entry O A) : Cache O C P D A :=
  if cache.any fun e => e.1.finds key then
    cache.map fun e => if e.1.finds key then (e.1, entry) else e
  else cache ++ [(key, entry)]

end Cache

/-- `_key`, as the dictionary sees it. -/
def Runtime.key (rt : Runtime O C P D) (model : O) : CacheKey C P D :=
  .structural (rt.hash model) (rt.form model).key

/-- `_store`. -/
def store (rt : Runtime O C P D) (build : TypeExpr C P D → Option A) (cache : Cache O C P D A)
    (key : CacheKey C P D) (model : O) : Entry O A × Cache O C P D A :=
  let entry : Entry O A := ⟨model, build (rt.form model)⟩
  let cache : Cache O C P D A := if cache.length ≥ maxEntries then [] else cache
  (entry, cache.set key entry)

/-- `_lookup_by_repr`. -/
def lookupByRepr (rt : Runtime O C P D) (build : TypeExpr C P D → Option A)
    (cache : Cache O C P D A) (model : O) : Option A × Cache O C P D A :=
  let stored (text : String) : Option A × Cache O C P D A :=
    let r := store rt build cache (.text text) model
    (r.1.value, r.2)
  match rt.repr model with
  | none => (build (rt.form model), cache)
  | some text =>
    match cache.get (.text text) with
    | none => stored text
    | some entry =>
      match rt.eq entry.model model with
      | none => (build (rt.form model), cache)
      | some true => (entry.value, cache)
      | some false => stored text

/-- `_lookup`, for a `build` that looks at the structure alone. -/
def lookup (rt : Runtime O C P D) (build : TypeExpr C P D → Option A) (cache : Cache O C P D A)
    (model : O) : Option A × Cache O C P D A :=
  if rt.hashable model then
    match cache.get (rt.key model) with
    | some entry => (entry.value, cache)
    | none =>
      let r := store rt build cache (rt.key model) model
      (r.1.value, r.2)
  else lookupByRepr rt build cache model

/-- The lookups of a decoder, one after the other. -/
def lookups (rt : Runtime O C P D) (build : TypeExpr C P D → Option A) :
    Machine (Cache O C P D A) O (Option A) where
  init := []
  step cache model := some (lookup rt build cache model)

/-! ## The dictionary -/

namespace Cache

variable {cache : Cache O C P D A} {key : CacheKey C P D}

/-- What `get` finds is an entry under a key that the dictionary takes for the given one. -/
theorem mem_of_get {entry : Entry O A} (h : cache.get key = some entry) :
    ∃ key', (key', entry) ∈ cache ∧ key'.finds key = true := by
  obtain ⟨e, hfind, rfl⟩ := Option.map_eq_some_iff.mp h
  exact ⟨e.1, List.mem_of_find?_eq_some hfind, by simpa using List.find?_some hfind⟩

/-- Where `get` finds nothing, no key is taken for the given one. -/
theorem not_finds_of_get (h : cache.get key = none) : ∀ e ∈ cache, e.1.finds key = false := by
  have hfind := Option.map_eq_none_iff.mp h
  intro e he
  simpa using List.find?_eq_none.mp hfind e he

/-- An entry after `set` was there before, or it is the new one, under its own key or one that the
dictionary took for it. -/
theorem mem_set {entry : Entry O A} {e : CacheKey C P D × Entry O A} (h : e ∈ cache.set key entry) :
    e ∈ cache ∨ (e.2 = entry ∧ (e.1 = key ∨ ∃ e' ∈ cache, e'.1 = e.1 ∧ e'.1.finds key = true)) := by
  unfold set at h
  split_ifs at h
  · -- The key was there.
    obtain ⟨e', he', rfl⟩ := List.mem_map.mp h
    split_ifs with hfinds
    · exact .inr ⟨rfl, .inr ⟨e', he', rfl, hfinds⟩⟩
    · exact .inl he'
  · rcases List.mem_append.mp h with hold | hnew
    · exact .inl hold
    · rw [List.mem_singleton.mp hnew]
      exact .inr ⟨rfl, .inl rfl⟩

/-- `set` adds at most one entry. -/
theorem length_set_le (cache : Cache O C P D A) (key : CacheKey C P D) (entry : Entry O A) :
    (cache.set key entry).length ≤ cache.length + 1 := by
  unfold set
  split_ifs
  · rw [List.length_map]
    exact Nat.le_succ _
  · rw [List.length_append, List.length_singleton]

end Cache

/-! ## What a lookup does -/

variable {rt : Runtime O C P D} {build : TypeExpr C P D → Option A} {cache : Cache O C P D A}
  {model : O}

/-- The key under which a model is stored. -/
def Runtime.StoredUnder (rt : Runtime O C P D) (model : O) (key : CacheKey C P D) : Prop :=
  (rt.hashable model = true ∧ key = rt.key model) ∨
    (rt.hashable model = false ∧ ∃ text, rt.repr model = some text ∧ key = .text text)

/-- An entry that a lookup of the model returns. -/
def Runtime.Recalls (rt : Runtime O C P D) (model : O) (key : CacheKey C P D) (entry : Entry O A) :
    Prop :=
  (rt.hashable model = true ∧ key.finds (rt.key model) = true) ∨
    (rt.hashable model = false ∧ (∃ text, rt.repr model = some text ∧ key.finds (.text text) = true) ∧
      rt.eq entry.model model = some true)

/-- The ways in which a lookup can end. -/
inductive Looks (rt : Runtime O C P D) (build : TypeExpr C P D → Option A) (cache : Cache O C P D A)
    (model : O) : Option A → Cache O C P D A → Prop
  /-- With an entry of the cache. -/
  | recalled {key : CacheKey C P D} {entry : Entry O A} (hmem : (key, entry) ∈ cache)
      (h : rt.Recalls model key entry) : Looks rt build cache model entry.value cache
  /-- With an adapter that is not stored: the model has no `repr`, or its `==` raises. -/
  | uncached : Looks rt build cache model (build (rt.form model)) cache
  /-- With an adapter that is stored, under a key that no other key is taken for. -/
  | stored {key : CacheKey C P D} (h : rt.StoredUnder model key)
      (hkey : ∀ e ∈ cache, e.1.finds key = true → e.1 = key) :
      Looks rt build cache model (build (rt.form model)) (store rt build cache key model).2

/-- The dictionary takes texts for one only if they are. -/
theorem CacheKey.eq_of_finds_text {key : CacheKey C P D} {text : String}
    (h : key.finds (.text text) = true) : key = .text text := by
  cases key with
  | structural hash key => cases h
  | text repr => rw [of_decide_eq_true h]

/-- `_lookup_by_repr` ends in one of these ways. -/
theorem lookupByRepr_cases (hhash : rt.hashable model = false) :
    Looks rt build cache model (lookupByRepr rt build cache model).1
      (lookupByRepr rt build cache model).2 := by
  unfold lookupByRepr
  cases hrepr : rt.repr model with
  | none => exact .uncached
  | some text =>
    dsimp only
    have hown : rt.StoredUnder model (.text text) := .inr ⟨hhash, text, hrepr, rfl⟩
    have hkey : ∀ e ∈ cache, e.1.finds (.text text) = true → e.1 = .text text :=
      fun e _ => CacheKey.eq_of_finds_text
    cases hget : cache.get (.text text) with
    | none => exact .stored hown hkey
    | some entry =>
      dsimp only
      cases heq : rt.eq entry.model model with
      | none => exact .uncached
      | some same =>
        cases same with
        | false => exact .stored hown hkey
        | true =>
          obtain ⟨key, hmem, hfinds⟩ := Cache.mem_of_get hget
          exact .recalled hmem (.inr ⟨hhash, ⟨text, hrepr, hfinds⟩, heq⟩)

/-- `_lookup` ends in one of these ways. -/
theorem lookup_cases (rt : Runtime O C P D) (build : TypeExpr C P D → Option A)
    (cache : Cache O C P D A) (model : O) :
    Looks rt build cache model (lookup rt build cache model).1 (lookup rt build cache model).2 := by
  unfold lookup
  split_ifs with hhash
  · cases hget : cache.get (rt.key model) with
    | some entry =>
      obtain ⟨key, hmem, hfinds⟩ := Cache.mem_of_get hget
      exact .recalled hmem (.inl ⟨hhash, hfinds⟩)
    | none =>
      -- No key is taken for this one.
      refine .stored (.inl ⟨hhash, rfl⟩) fun e he hfinds => ?_
      rw [Cache.not_finds_of_get hget e he] at hfinds
      cases hfinds
  · exact lookupByRepr_cases (Bool.eq_false_iff.mpr hhash)

/-! ## What the cache holds -/

/-- Every entry is stored under the key of its model, which is one of these, and holds what was built for
its structure. -/
def Sound (rt : Runtime O C P D) (build : TypeExpr C P D → Option A) (models : List O)
    (cache : Cache O C P D A) : Prop :=
  ∀ e ∈ cache, e.2.model ∈ models ∧ rt.StoredUnder e.2.model e.1 ∧
    e.2.value = build (rt.form e.2.model)

/-- Storing keeps this, and the bound. -/
theorem Sound.store {models : List O} (h : Sound rt build models cache)
    (hmodel : model ∈ models) {key : CacheKey C P D} (hown : rt.StoredUnder model key)
    (hkey : ∀ e ∈ cache, e.1.finds key = true → e.1 = key) :
    Sound rt build models (store rt build cache key model).2 := by
  intro e he
  -- What is left of the cache before the entry is set.
  have hleft : ∀ e' ∈ (if cache.length ≥ maxEntries then [] else cache : Cache O C P D A),
      e' ∈ cache := by
    intro e' he'
    split_ifs at he'
    · exact absurd he' List.not_mem_nil
    · exact he'
  rcases Cache.mem_set he with hold | ⟨hentry, hkeys⟩
  · exact h e (hleft e hold)
  · have hunder : e.1 = key := by
      rcases hkeys with hnew | ⟨e', he', hsame, hfinds⟩
      · exact hnew
      · rw [← hsame]
        exact hkey e' (hleft e' he') hfinds
    rw [hentry, hunder]
    exact ⟨hmodel, hown, rfl⟩

/-- The cache never holds more than its number of entries. -/
theorem length_store_le (rt : Runtime O C P D) (build : TypeExpr C P D → Option A)
    (cache : Cache O C P D A) (key : CacheKey C P D) (model : O) :
    (store rt build cache key model).2.length ≤ maxEntries := by
  refine (Cache.length_set_le _ key _).trans ?_
  split_ifs with hfull
  · exact Nat.succ_le_of_lt (Nat.zero_lt_succ _)
  · exact Nat.succ_le_of_lt (not_le.mp hfull)

/-- A model that the cache tells from every model of another structure: a hashable one is unambiguous,
and an unhashable one has no twin, an unhashable model with the same `repr` that equals it. -/
structure Runtime.Settled (rt : Runtime O C P D) (model : O) : Prop where
  hashable : rt.hashable model = true → (rt.form model).isUnambiguous = true
  unhashable : rt.hashable model = false → ∀ other text, rt.hashable other = false →
    rt.repr other = some text → rt.repr model = some text → rt.eq other model = some true →
      rt.form other = rt.form model

/-- The ways in which the cache takes one model for another: their keys are one for the dictionary, or
they have one `repr` and are equal. -/
inductive Runtime.TakenFor (rt : Runtime O C P D) : O → O → Prop
  | itself (model : O) : rt.TakenFor model model
  | hashable {first second : O} (hfirst : rt.hashable first = true)
      (hsecond : rt.hashable second = true) (h : (rt.key first).finds (rt.key second) = true) :
      rt.TakenFor first second
  | unhashable {first second : O} {text : String} (hfirst : rt.hashable first = false)
      (hsecond : rt.hashable second = false) (hrepr : rt.repr first = some text)
      (hrepr' : rt.repr second = some text) (h : rt.eq first second = some true) :
      rt.TakenFor first second

/-- The model of an entry that a lookup returns is taken for the one that was asked for. -/
theorem takenFor_of_recalls {key : CacheKey C P D} {entry : Entry O A}
    (hown : rt.StoredUnder entry.model key) (h : rt.Recalls model key entry) :
    rt.TakenFor entry.model model := by
  rcases h with ⟨hhash, hfinds⟩ | ⟨hhash, ⟨text, hrepr, hfinds⟩, heq⟩
  · -- Under the structural key.
    rcases hown with ⟨hhash', rfl⟩ | ⟨-, text, -, rfl⟩
    · exact .hashable hhash' hhash hfinds
    · cases hfinds
  · -- Under the text of the `repr`.
    obtain rfl := CacheKey.eq_of_finds_text hfinds
    rcases hown with ⟨-, hkey⟩ | ⟨hhash', text', hrepr', hkey⟩
    · cases hkey
    · obtain rfl := CacheKey.text.inj hkey
      exact .unhashable hhash' hhash hrepr' hrepr heq

/-- Settled models that are taken for one have one structure. -/
theorem form_eq_of_takenFor {first second : O} (hfirst : rt.Settled first) (hsecond : rt.Settled second)
    (h : rt.TakenFor first second) : rt.form first = rt.form second := by
  cases h with
  | itself => rfl
  | hashable hhash hhash' hfinds =>
    simp only [Runtime.key, CacheKey.finds, Bool.and_eq_true] at hfinds
    exact eq_of_key _ _ (hfirst.hashable hhash) (hsecond.hashable hhash') hfinds.2
  | unhashable hhash hhash' hrepr hrepr' heq =>
    exact hsecond.unhashable hhash' first _ hhash hrepr hrepr' heq

/-- An entry that a lookup of a settled model returns was stored for its structure. -/
theorem form_eq_of_recalls {key : CacheKey C P D} {entry : Entry O A}
    (hmodel : rt.Settled model) (hother : rt.Settled entry.model)
    (hown : rt.StoredUnder entry.model key) (h : rt.Recalls model key entry) :
    rt.form entry.model = rt.form model :=
  form_eq_of_takenFor hother hmodel (takenFor_of_recalls hown h)

/-! ## Every run of lookups -/

variable {run : List (O × Option A)}

/-- A step of the machine is a lookup. -/
theorem lookups_step {cache' : Cache O C P D A} {result : Option A}
    (h : (lookups rt build).step cache model = some (result, cache')) :
    Looks rt build cache model result cache' := by
  have hlooks := lookup_cases rt build cache model
  rw [Option.some.inj h] at hlooks
  exact hlooks

/-- After every run the cache is sound, and within its bound. -/
theorem sound_of_runs (h : (lookups rt build).Runs run cache) :
    Sound rt build (run.map Prod.fst) cache ∧ cache.length ≤ maxEntries := by
  apply h.invariant
    (I := fun run cache => Sound rt build (run.map Prod.fst) cache ∧ cache.length ≤ maxEntries)
  · exact ⟨fun e he => absurd he List.not_mem_nil, Nat.zero_le _⟩
  · intro run cache model result cache' _ ⟨hsound, hlength⟩ hstep
    rw [List.map_append]
    have hlonger : Sound rt build (run.map Prod.fst ++ [model]) cache := fun e he =>
      ⟨List.mem_append_left _ (hsound e he).1, (hsound e he).2⟩
    cases lookups_step hstep with
    | recalled => exact ⟨hlonger, hlength⟩
    | uncached => exact ⟨hlonger, hlength⟩
    | stored hown hkey =>
      have hmodel : model ∈ run.map Prod.fst ++ [model] :=
        List.mem_append_right _ (List.mem_singleton_self _)
      exact ⟨hlonger.store hmodel hown hkey, length_store_le rt build cache _ model⟩

/-- What a lookup returns was built for a model of the run that is taken for the one asked for. -/
theorem built_of_runs (h : (lookups rt build).Runs run cache) :
    ∀ x ∈ run, ∃ y ∈ run, x.2 = build (rt.form y.1) ∧ rt.TakenFor y.1 x.1 := by
  apply h.invariant
    (I := fun run _ => ∀ x ∈ run, ∃ y ∈ run, x.2 = build (rt.form y.1) ∧ rt.TakenFor y.1 x.1)
  · intro x hx
    exact absurd hx List.not_mem_nil
  · intro run cache model result cache' hrun ih hstep x hx
    have hlast : (model, result) ∈ run ++ [(model, result)] :=
      List.mem_append_right _ (List.mem_singleton_self _)
    rcases List.mem_append.mp hx with hx | hx
    · obtain ⟨y, hy, hbuilt⟩ := ih x hx
      exact ⟨y, List.mem_append_left _ hy, hbuilt⟩
    · obtain rfl := List.mem_singleton.mp hx
      cases lookups_step hstep with
      | recalled hmem hrecalls =>
        -- The entry was stored for a model of the run.
        obtain ⟨hasked, hown, hvalue⟩ := (sound_of_runs hrun).1 _ hmem
        obtain ⟨y, hy, hmodel⟩ := List.mem_map.mp hasked
        rw [← hmodel] at hvalue
        refine ⟨y, List.mem_append_left _ hy, hvalue, ?_⟩
        rw [hmodel]
        exact takenFor_of_recalls hown hrecalls
      | uncached => exact ⟨_, hlast, rfl, .itself _⟩
      | stored => exact ⟨_, hlast, rfl, .itself _⟩

/-- An adapter that tells which member comes first. -/
def firstMember : TypeExpr ℕ ℕ ℕ → Option ℕ
  | .cls c => some c
  | .union (m :: _) => firstMember m
  | .generic _ _ (m :: _) => firstMember m
  | .parameters (m :: _) => firstMember m
  | .literal (v :: _) => some v.type
  | .annotated origin _ => firstMember origin
  | _ => none

/-- `A | B`. -/
def unionAB : TypeExpr ℕ ℕ ℕ := .union [.cls 0, .cls 1]

/-- `B | A`. -/
def unionBA : TypeExpr ℕ ℕ ℕ := .union [.cls 1, .cls 0]

/-- A list of the members. -/
def listOf (model : TypeExpr ℕ ℕ ℕ) : TypeExpr ℕ ℕ ℕ := .generic .builtin 2 [model]

end Httpware.Decoding
