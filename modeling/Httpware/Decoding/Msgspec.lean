import Httpware.Decoding.Caching
import Httpware.Lib.Search

/-!
# What the msgspec decoder claims

`_child_types`, `_is_native` and `_build_adapter` of `decoders/msgspec.py`. What `msgspec.inspect` says
of a model is a finite graph of type nodes, which is cyclic for a model that refers to itself; the nodes
are known by identity. `_is_native` is the stack search of `Lib/Search.lean` on it, for a `CustomType`.
msgspec itself is a parameter (`Msgspec`).
-/

namespace Httpware.Decoding

/-! ## Type graphs -/

/-- An item of a tuple in a field of a type node. -/
inductive TupleItem (ι : Type)
  | type (info : ι)
  /-- A `msgspec.inspect.Field`, by its type. -/
  | field (info : ι)
  | other

/-- The value of a field of a type node. -/
inductive FieldValue (ι : Type)
  | type (info : ι)
  | tuple (items : List (TupleItem ι))
  | other

/-- A type node: whether it is a `CustomType`, and the values of its `__struct_fields__` in order. -/
structure TypeInfo (ι : Type) where
  isCustom : Bool
  fields : List (FieldValue ι)

/-- A finite graph of type nodes. -/
structure TypeGraph where
  size : ℕ
  info : Fin size → TypeInfo (Fin size)

/-- The body of the inner loop of `_child_types`. -/
def TupleItem.childType {ι : Type} : TupleItem ι → Option ι
  | type info => some info
  | field info => some info
  | other => none

/-- The body of the outer loop of `_child_types`. -/
def FieldValue.childTypes {ι : Type} : FieldValue ι → List ι
  | type info => [info]
  | tuple items => items.filterMap TupleItem.childType
  | other => []

namespace TypeGraph

/-- `_child_types`. -/
def childTypes (g : TypeGraph) (info : Fin g.size) : List (Fin g.size) :=
  (g.info info).fields.flatMap FieldValue.childTypes

/-- `isinstance(node, msgspec.inspect.CustomType)`. -/
def isCustom (g : TypeGraph) (node : Fin g.size) : Bool := (g.info node).isCustom

/-- `_is_native`, for a number of rounds of its loop. -/
def isNative (g : TypeGraph) (rounds : ℕ) (info : Fin g.size) : Option Bool :=
  Search.run g.childTypes g.isCustom rounds (Search.start info)

/-- Rounds enough: one for every edge, one for the root, and the last. -/
def enoughRounds (g : TypeGraph) : ℕ := ∑ node, (g.childTypes node).length + 2

/-- Some `CustomType` can be reached along `_child_types`. -/
def NeedsHook (g : TypeGraph) (info : Fin g.size) : Prop :=
  ∃ node, Search.Reaches g.childTypes info node ∧ g.isCustom node = true

/-- `_is_native` ends, and answers whether no `CustomType` can be reached. -/
theorem isNative_spec (g : TypeGraph) (info : Fin g.size) :
    ∃ native, (∀ rounds, g.enoughRounds ≤ rounds → g.isNative rounds info = some native) ∧
      (native = false ↔ g.NeedsHook info) :=
  Search.run_spec g.childTypes g.isCustom info

end TypeGraph

/-! ## The decoder -/

/-- msgspec. Both functions can raise. -/
structure Msgspec (C P D A : Type) where
  /-- `msgspec.inspect.type_info`: a graph with the node of the model. -/
  typeInfo : TypeExpr C P D → Option ((g : TypeGraph) × Fin g.size)
  /-- `msgspec.json.Decoder`. -/
  decoder : TypeExpr C P D → Option A

variable {O C P D A : Type} [DecidableEq C] [DecidableEq P] [DecidableEq D]

/-- `_build_adapter`. -/
def Msgspec.buildAdapter (msgspec : Msgspec C P D A) (model : TypeExpr C P D) : Option A :=
  match msgspec.typeInfo model with
  | none => none
  | some ⟨g, info⟩ =>
    match g.isNative g.enoughRounds info with
    | some true => msgspec.decoder model
    | _ => none

/-- The graph of the model has a type that msgspec needs a `dec_hook` for. -/
def Msgspec.NeedsHook (msgspec : Msgspec C P D A) (model : TypeExpr C P D) : Prop :=
  ∃ info, msgspec.typeInfo model = some info ∧ info.1.NeedsHook info.2

omit [DecidableEq C] [DecidableEq P] [DecidableEq D] in
/-- An adapter is built only for a model that has a graph and needs no hook. -/
theorem Msgspec.native_of_buildAdapter {msgspec : Msgspec C P D A} {model : TypeExpr C P D}
    (h : (msgspec.buildAdapter model).isSome = true) :
    (msgspec.typeInfo model).isSome = true ∧ ¬ msgspec.NeedsHook model := by
  unfold buildAdapter at h
  cases hinfo : msgspec.typeInfo model with
  | none =>
    rw [hinfo] at h
    cases h
  | some info =>
    refine ⟨rfl, fun hneeds => ?_⟩
    obtain ⟨info', hinfo', hneeds⟩ := hneeds
    obtain rfl : info = info' := Option.some.inj (hinfo.symm.trans hinfo')
    obtain ⟨native, hrun, hiff⟩ := info.1.isNative_spec info.2
    rw [hinfo] at h
    simp only [hrun _ le_rfl, hiff.mpr hneeds] at h
    cases h

/-- Models that the cache takes for one, such as the same union in another order, need a hook alike. -/
def Msgspec.HooksAlike (msgspec : Msgspec C P D A) (rt : Runtime O C P D) : Prop :=
  ∀ first second, rt.TakenFor first second →
    (msgspec.NeedsHook (rt.form first) ↔ msgspec.NeedsHook (rt.form second))

/-- `_is_native` decides whether a `CustomType` can be reached, in every finite type graph; an adapter is
built for no model whose graph has one; and if models that the cache takes for one need a hook alike, the
decoder claims no such model, in every run of its cache. -/
theorem claims_native (msgspec : Msgspec C P D A) (rt : Runtime O C P D) :
    (∀ (g : TypeGraph) (info : Fin g.size), ∃ native,
      (∀ rounds, g.enoughRounds ≤ rounds → g.isNative rounds info = some native) ∧
        (native = false ↔ g.NeedsHook info)) ∧
    (∀ model, (msgspec.buildAdapter model).isSome = true →
      (msgspec.typeInfo model).isSome = true ∧ ¬ msgspec.NeedsHook model) ∧
    (msgspec.HooksAlike rt → ∀ run cache, (lookups rt msgspec.buildAdapter).Runs run cache →
      ∀ x ∈ run, x.2.isSome = true → ¬ msgspec.NeedsHook (rt.form x.1)) := by
  refine ⟨TypeGraph.isNative_spec, fun model => Msgspec.native_of_buildAdapter, ?_⟩
  intro halike run cache hrun x hx hclaimed
  obtain ⟨y, -, hbuilt, htaken⟩ := built_of_runs hrun x hx
  rw [hbuilt] at hclaimed
  rw [← halike y.1 x.1 htaken]
  exact (Msgspec.native_of_buildAdapter hclaimed).2

/-! ## Twins -/

/-- A node whose children, which have none themselves, are the last ones of the graph. -/
def TypeGraph.ofChildren (isCustom : Bool) (children : List Bool) : (g : TypeGraph) × Fin g.size :=
  ⟨{ size := children.length + 1
     info := Fin.cases
      { isCustom, fields := [.tuple ((List.finRange children.length).map fun i => .type i.succ)] }
      fun i => { isCustom := children.get i, fields := [] } },
    ⟨0, Nat.succ_pos _⟩⟩

/-- A msgspec that decodes every class but one. -/
def allBut (c : ℕ) : Msgspec ℕ ℕ ℕ ℕ where
  typeInfo
    | .annotated (.union args) _ => some (TypeGraph.ofChildren false (args.map (TypeExpr.isClass c)))
    | .cls c' => some (TypeGraph.ofChildren (c = c') [])
    | _ => none
  decoder := firstMember

/-- The models of a run: two unhashable ones with one `repr` that compare equal, and a class. -/
def twinsAnd (c : ℕ) : Runtime (Option Bool) ℕ ℕ ℕ where
  form
    | none => .cls c
    | some true => .annotated unionAB [7]
    | some false => .annotated unionBA [7]
  hashable := Option.isNone
  hash _ := 0
  repr _ := some "Annotated[T | T, m]"
  eq _ _ := some true

/-- The decoder claims both twins by the adapter of the first, and not the class that needs a hook. -/
theorem claims_native_twins : ∃ cache,
    (lookups (twinsAnd 9) (allBut 9).buildAdapter).Runs
      [(some true, some 0), (some false, some 0), (none, none)] cache ∧
    ¬ (allBut 9).NeedsHook ((twinsAnd 9).form (some false)) := by
  obtain ⟨cache, hrun, -⟩ := Machine.exists_runs_of_observe
    (lookups (twinsAnd 9) (allBut 9).buildAdapter) List.length [some true, some false, none]
    [some 0, some 0, none] 2 (by decide +kernel)
  have hnative : ∀ twin, ¬ (allBut 9).NeedsHook ((twinsAnd 9).form (some twin)) := by
    intro twin
    apply And.right (Msgspec.native_of_buildAdapter ?_)
    cases twin <;> decide +kernel
  -- The cache takes no twin for the class.
  have halike : (allBut 9).HooksAlike (twinsAnd 9) := by
    intro first second htaken
    cases htaken with
    | itself => rfl
    | hashable hfirst hsecond =>
      rw [Option.isNone_iff_eq_none.mp hfirst, Option.isNone_iff_eq_none.mp hsecond]
    | unhashable hfirst hsecond =>
      obtain ⟨twin, rfl⟩ := Option.isSome_iff_exists.mp (Option.isNone_eq_false_iff.mp hfirst)
      obtain ⟨twin', rfl⟩ := Option.isSome_iff_exists.mp (Option.isNone_eq_false_iff.mp hsecond)
      exact iff_of_false (hnative twin) (hnative twin')
  exact ⟨cache, hrun, (claims_native (allBut 9) (twinsAnd 9)).2.2 halike _ cache hrun
    (some false, some 0) (List.mem_cons_of_mem _ List.mem_cons_self) rfl⟩

end Httpware.Decoding
