import Mathlib.Tactic.Common

/-!
# The models that a decoder is asked for, and their keys

A `TypeExpr` is a model by its ordered structure: classes, unions, generic aliases, `Literal` and
`Annotated`, nested to any depth. `pyEq` is Python's `==` on them, which forgets the order of the
members of a union, and `key` is `_key` of `decoders/_caching.py`, which adds the keys of the arguments
in order, but those of no parameter list. `eq_of_key` says for which models equal keys mean the same
structure.
-/

namespace Httpware.Decoding

/-- The kinds of generic aliases: those of the built-in classes, such as `list[int]`, and those of the
`typing` module, which classes that derive from `Generic` make too. -/
inductive AliasKind
  | builtin
  | typing
deriving DecidableEq, Repr

/-- A value in a `Literal`: its type, and what `==` compares. So `1` and `True` have one `value`. -/
structure LiteralValue (C P : Type) where
  type : C
  value : P
deriving DecidableEq, Repr

/-- A model by its ordered structure, over classes `C`, the values `P` of literals up to `==`, and
metadata `D` up to `==`. An alias of a class with a `ParamSpec` has a parameter list among its
arguments, which is a bare tuple: `Z[[int, str]].__args__` is `((int, str),)`. -/
inductive TypeExpr (C P D : Type)
  | cls (c : C)
  | union (args : List (TypeExpr C P D))
  | generic (kind : AliasKind) (origin : C) (args : List (TypeExpr C P D))
  | parameters (args : List (TypeExpr C P D))
  | literal (values : List (LiteralValue C P))
  | annotated (origin : TypeExpr C P D) (metadata : List D)

namespace TypeExpr

variable {C P D : Type} [DecidableEq C] [DecidableEq P] [DecidableEq D]

/-- The alias of a class that is applied to this class and nothing else. -/
def isSelfAlias (c : C) : List (TypeExpr C P D) → Bool
  | [.cls c'] => c = c'
  | _ => false

/-- A class. -/
def isClass (c : C) : TypeExpr C P D → Bool
  | .cls c' => c = c'
  | _ => false

mutual

/-- Python's `==`. A union compares as the set of its members, a `Literal` as the set of its values with
their types, `Annotated` by its origin and metadata, and a tuple one by one. An alias of `typing` compares
its `__origin__` and `__args__` with those of an `Annotated` too, which has its origin for both. -/
def pyEq : TypeExpr C P D → TypeExpr C P D → Bool
  | .cls c, .cls c' => c = c'
  | .union args, .union args' => allIn args args' && args'.all (anyEq args)
  | .generic kind origin args, .generic kind' origin' args' =>
    kind = kind' && origin = origin' && listEq args args'
  | .parameters args, .parameters args' => listEq args args'
  | .literal values, .literal values' =>
    values.all (fun v => v ∈ values') && values'.all (fun v => v ∈ values)
  | .annotated origin metadata, .annotated origin' metadata' =>
    pyEq origin origin' && metadata = metadata'
  | .generic .typing c args, .annotated origin _ => isClass c origin && isSelfAlias c args
  | .annotated origin _, .generic .typing c args => isClass c origin && isSelfAlias c args
  | _, _ => false

/-- Every one of the first equals one of the second. -/
def allIn : List (TypeExpr C P D) → List (TypeExpr C P D) → Bool
  | [], _ => true
  | m :: rest, args' => args'.any (pyEq m) && allIn rest args'

/-- One of them equals the model. -/
def anyEq : List (TypeExpr C P D) → TypeExpr C P D → Bool
  | [], _ => false
  | m :: rest, m' => pyEq m m' || anyEq rest m'

/-- They are equal one by one. -/
def listEq : List (TypeExpr C P D) → List (TypeExpr C P D) → Bool
  | [], [] => true
  | m :: rest, m' :: rest' => pyEq m m' && listEq rest rest'
  | _, _ => false

end

/-- What `_key` returns: a class, or the tuple of a model and the keys of its arguments. The tuple of a
`Literal`'s value has nothing but the value. -/
inductive Key (C P D : Type)
  | cls (c : C)
  | tuple (model : TypeExpr C P D) (args : List (Key C P D))
  | value (v : LiteralValue C P)

mutual

/-- `_key`. A parameter list has no `__args__`, so its tuple has nothing but the list. -/
def key : TypeExpr C P D → Key C P D
  | .cls c => .cls c
  | .union args => .tuple (.union args) (keys args)
  | .generic kind origin args => .tuple (.generic kind origin args) (keys args)
  | .parameters args => .tuple (.parameters args) []
  | .literal values => .tuple (.literal values) (values.map .value)
  | .annotated origin metadata => .tuple (.annotated origin metadata) [key origin]

/-- `map(_key, args)`. -/
def keys : List (TypeExpr C P D) → List (Key C P D)
  | [] => []
  | m :: rest => key m :: keys rest

end

mutual

/-- Python's `==` on keys. -/
def Key.pyEq : Key C P D → Key C P D → Bool
  | .cls c, .cls c' => c = c'
  | .tuple model args, .tuple model' args' => model.pyEq model' && Key.listEq args args'
  | .value v, .value v' => v.value = v'.value
  | _, _ => false

/-- Tuples of keys are equal one by one. -/
def Key.listEq : List (Key C P D) → List (Key C P D) → Bool
  | [], [] => true
  | k :: rest, k' :: rest' => Key.pyEq k k' && Key.listEq rest rest'
  | _, _ => false

end

/-! ## Keys of one structure -/

mutual

/-- `==` alone tells the model from those of another structure: it has no union, no `Literal` with two
values, and no alias of `typing` that is applied to its own class and nothing else. -/
def isRigid : TypeExpr C P D → Bool
  | .cls _ => true
  | .union _ => false
  | .generic kind origin args => !(kind = .typing && isSelfAlias origin args) && allRigid args
  | .parameters args => allRigid args
  | .literal values => values.length ≤ 1
  | .annotated origin _ => isRigid origin

/-- It tells all of these from others. -/
def allRigid : List (TypeExpr C P D) → Bool
  | [] => true
  | m :: rest => isRigid m && allRigid rest

end

mutual

/-- No `Literal` in the model has two values that `==` takes for one although their types differ, no
alias of `typing` in it is applied to its own class and nothing else, and every parameter list in it is
told from others by `==`. -/
def isUnambiguous : TypeExpr C P D → Bool
  | .cls _ => true
  | .union args => allUnambiguous args
  | .generic kind origin args =>
    !(kind = .typing && isSelfAlias origin args) && allUnambiguous args
  | .parameters args => allRigid args
  | .literal values => values.all fun v => values.all fun w => v.value ≠ w.value || v.type = w.type
  | .annotated origin _ => isUnambiguous origin

/-- So is each of these. -/
def allUnambiguous : List (TypeExpr C P D) → Bool
  | [] => true
  | m :: rest => isUnambiguous m && allUnambiguous rest

end

omit [DecidableEq P] [DecidableEq D] in
/-- Such an alias of `typing` is not applied to its own class alone. -/
theorem isSelfAlias_eq_false {origin : C} {args : List (TypeExpr C P D)} {rest : Bool}
    (h : (!(decide (AliasKind.typing = .typing) && isSelfAlias origin args) && rest) = true) :
    isSelfAlias origin args = false := by
  simp only [Bool.and_eq_true, decide_true, Bool.true_and, Bool.not_eq_true'] at h
  exact h.1

/-- A `Literal` of at most one value equals no other of this kind. -/
theorem literal_eq_of_pyEq {values values' : List (LiteralValue C P)}
    (h : isRigid (.literal values : TypeExpr C P D) = true)
    (h' : isRigid (.literal values' : TypeExpr C P D) = true)
    (heq : pyEq (.literal values : TypeExpr C P D) (.literal values') = true) : values = values' := by
  simp only [isRigid, decide_eq_true_eq] at h h'
  simp only [pyEq, Bool.and_eq_true, List.all_eq_true, decide_eq_true_eq] at heq
  cases values with
  | nil => rw [List.eq_nil_iff_forall_not_mem.mpr fun w hw => List.not_mem_nil (heq.2 w hw)]
  | cons v rest =>
    have hv := heq.1 v List.mem_cons_self
    have hpos := List.length_pos_of_mem hv
    rw [List.length_cons] at h
    obtain ⟨w, rfl⟩ := List.length_eq_one_iff.mp (show values'.length = 1 by omega)
    rw [List.mem_singleton.mp hv, List.length_eq_zero_iff.mp (show rest.length = 0 by omega)]

mutual

/-- Such models that are equal have the same structure. -/
theorem eq_of_pyEq : ∀ m m' : TypeExpr C P D, isRigid m = true → isRigid m' = true →
    m.pyEq m' = true → m = m'
  | .cls c, m', _, _, h => by
    cases m' with
    | cls c' => simpa [pyEq] using h
    | _ => simp [pyEq] at h
  | .union _, _, hm, _, _ => by simp [isRigid] at hm
  | .generic kind origin args, m', hm, hm', h => by
    cases m' with
    | generic kind' origin' args' =>
      simp only [pyEq, Bool.and_eq_true, decide_eq_true_eq] at h
      simp only [isRigid, Bool.and_eq_true] at hm hm'
      rw [h.1.1, h.1.2, eq_of_listEq args args' hm.2 hm'.2 h.2]
    | annotated origin' metadata =>
      -- Only an alias of `typing` that is applied to its own class would be equal.
      cases kind with
      | typing =>
        simp only [isRigid] at hm
        simp [pyEq, isSelfAlias_eq_false hm] at h
      | builtin => simp [pyEq] at h
    | _ => simp [pyEq] at h
  | .parameters args, m', hm, hm', h => by
    cases m' with
    | parameters args' =>
      simp only [pyEq] at h
      simp only [isRigid] at hm hm'
      rw [eq_of_listEq args args' hm hm' h]
    | _ => simp [pyEq] at h
  | .literal values, m', hm, hm', h => by
    cases m' with
    | literal values' => rw [literal_eq_of_pyEq hm hm' h]
    | _ => simp [pyEq] at h
  | .annotated origin metadata, m', hm, hm', h => by
    cases m' with
    | annotated origin' metadata' =>
      simp only [pyEq, Bool.and_eq_true, decide_eq_true_eq] at h
      simp only [isRigid] at hm hm'
      rw [eq_of_pyEq origin origin' hm hm' h.1, h.2]
    | generic kind origin' args =>
      cases kind with
      | typing =>
        simp only [isRigid] at hm'
        simp [pyEq, isSelfAlias_eq_false hm'] at h
      | builtin => simp [pyEq] at h
    | _ => simp [pyEq] at h

/-- So do equal lists of them. -/
theorem eq_of_listEq : ∀ ms ms' : List (TypeExpr C P D), allRigid ms = true → allRigid ms' = true →
    listEq ms ms' = true → ms = ms'
  | [], ms', _, _, h => by
    cases ms' with
    | nil => rfl
    | cons => simp [listEq] at h
  | m :: ms, ms', hms, hms', h => by
    cases ms' with
    | nil => simp [listEq] at h
    | cons m' ms' =>
      simp only [listEq, Bool.and_eq_true] at h
      simp only [allRigid, Bool.and_eq_true] at hms hms'
      rw [eq_of_pyEq m m' hms.1 hms'.1 h.1, eq_of_listEq ms ms' hms.2 hms'.2 h.2]

end

omit [DecidableEq D] in
/-- Two values of such a `Literal` with one `value` are one. -/
theorem literal_value_inj {values : List (LiteralValue C P)}
    (h : isUnambiguous (.literal values : TypeExpr C P D) = true) {v w : LiteralValue C P}
    (hv : v ∈ values) (hw : w ∈ values) (hvw : v.value = w.value) : v = w := by
  simp only [isUnambiguous, List.all_eq_true, Bool.or_eq_true, decide_eq_true_eq] at h
  have htype : v.type = w.type := (h v hv w hw).resolve_left (not_not.mpr hvw)
  cases v
  cases w
  simp only at htype hvw
  rw [htype, hvw]

/-- Two lists of literal values with equal keys, one by one, whose values are in one such `Literal`. -/
theorem values_eq_of_keys {values : List (LiteralValue C P)}
    (hvalues : isUnambiguous (.literal values : TypeExpr C P D) = true) :
    ∀ vs ws : List (LiteralValue C P), (∀ v ∈ vs, v ∈ values) → (∀ w ∈ ws, w ∈ values) →
      Key.listEq (vs.map (Key.value : _ → Key C P D)) (ws.map .value) = true → vs = ws
  | [], [], _, _, _ => rfl
  | [], w :: ws, _, _, h => by simp [Key.listEq] at h
  | v :: vs, [], _, _, h => by simp [Key.listEq] at h
  | v :: vs, w :: ws, hvs, hws, h => by
    simp only [List.map_cons, Key.listEq, Key.pyEq, Bool.and_eq_true, decide_eq_true_eq] at h
    have hhead := literal_value_inj hvalues (hvs v List.mem_cons_self) (hws w List.mem_cons_self) h.1
    have htail := values_eq_of_keys hvalues vs ws (fun x hx => hvs x (List.mem_cons_of_mem _ hx))
      (fun x hx => hws x (List.mem_cons_of_mem _ hx)) h.2
    rw [hhead, htail]

mutual

/-- Equal keys of such models mean the same structure. -/
theorem eq_of_key : ∀ m m' : TypeExpr C P D, isUnambiguous m = true → isUnambiguous m' = true →
    (key m).pyEq (key m') = true → m = m'
  | .cls c, m', _, _, h => by
    cases m' with
    | cls c' => simpa [key, Key.pyEq] using h
    | _ => simp [key, Key.pyEq] at h
  | .union args, m', hm, hm', h => by
    cases m' with
    | union args' =>
      simp only [key, Key.pyEq, Bool.and_eq_true] at h
      simp only [isUnambiguous] at hm hm'
      rw [eq_of_keys args args' hm hm' h.2]
    | _ => simp [key, Key.pyEq, pyEq] at h
  | .generic kind origin args, m', hm, hm', h => by
    cases m' with
    | generic kind' origin' args' =>
      simp only [key, Key.pyEq, pyEq, Bool.and_eq_true, decide_eq_true_eq] at h
      simp only [isUnambiguous, Bool.and_eq_true] at hm hm'
      rw [h.1.1.1, h.1.1.2, eq_of_keys args args' hm.2 hm'.2 h.2]
    | annotated origin' metadata =>
      -- Only an alias of `typing` that is applied to its own class would be equal.
      cases kind with
      | typing =>
        simp only [key, Key.pyEq, pyEq, Bool.and_eq_true] at h
        simp only [isUnambiguous] at hm
        rw [isSelfAlias_eq_false hm] at h
        cases h.1.2
      | builtin => simp [key, Key.pyEq, pyEq] at h
    | _ => simp [key, Key.pyEq, pyEq] at h
  | .parameters args, m', hm, hm', h => by
    cases m' with
    | parameters args' =>
      -- The key is the list itself, so `==` on its members decides.
      simp only [key, Key.pyEq, pyEq, Bool.and_eq_true] at h
      simp only [isUnambiguous] at hm hm'
      rw [eq_of_listEq args args' hm hm' h.1]
    | _ => simp [key, Key.pyEq, pyEq] at h
  | .literal values, m', hm, hm', h => by
    cases m' with
    | literal values' =>
      simp only [key, Key.pyEq, pyEq, Bool.and_eq_true, List.all_eq_true, decide_eq_true_eq] at h
      rw [values_eq_of_keys hm values values' (fun _ hv => hv) h.1.2 h.2]
    | _ => simp [key, Key.pyEq, pyEq] at h
  | .annotated origin metadata, m', hm, hm', h => by
    cases m' with
    | annotated origin' metadata' =>
      simp only [key, Key.pyEq, pyEq, Key.listEq, Bool.and_eq_true, decide_eq_true_eq] at h
      simp only [isUnambiguous] at hm hm'
      rw [eq_of_key origin origin' hm hm' h.2.1, h.1.2]
    | generic kind origin' args =>
      cases kind with
      | typing =>
        simp only [key, Key.pyEq, pyEq, Bool.and_eq_true] at h
        simp only [isUnambiguous] at hm'
        rw [isSelfAlias_eq_false hm'] at h
        cases h.1.2
      | builtin => simp [key, Key.pyEq, pyEq] at h
    | _ => simp [key, Key.pyEq, pyEq] at h

/-- So do equal lists of keys. -/
theorem eq_of_keys : ∀ ms ms' : List (TypeExpr C P D), allUnambiguous ms = true →
    allUnambiguous ms' = true → Key.listEq (keys ms) (keys ms') = true → ms = ms'
  | [], ms', _, _, h => by
    cases ms' with
    | nil => rfl
    | cons => simp [keys, Key.listEq] at h
  | m :: ms, ms', hms, hms', h => by
    cases ms' with
    | nil => simp [keys, Key.listEq] at h
    | cons m' ms' =>
      simp only [keys, Key.listEq, Bool.and_eq_true] at h
      simp only [allUnambiguous, Bool.and_eq_true] at hms hms'
      rw [eq_of_key m m' hms.1 hms'.1 h.1, eq_of_keys ms ms' hms.2 hms'.2 h.2]

end

/-! ## A model equals itself -/

/-- Models that equal themselves are all among those that they belong to. -/
theorem allIn_self : ∀ (ms ms' : List (TypeExpr C P D)), (∀ m ∈ ms, m ∈ ms' ∧ m.pyEq m = true) →
    allIn ms ms' = true
  | [], _, _ => by simp [allIn]
  | m :: ms, ms', h => by
    have hm := h m List.mem_cons_self
    have hrest := allIn_self ms ms' fun m' hm' => h m' (List.mem_cons_of_mem _ hm')
    simp only [allIn, Bool.and_eq_true, List.any_eq_true]
    exact ⟨⟨m, hm⟩, hrest⟩

/-- A model that equals itself is found among those that it belongs to. -/
theorem anyEq_of_mem {m : TypeExpr C P D} : ∀ {ms : List (TypeExpr C P D)}, m ∈ ms →
    m.pyEq m = true → anyEq ms m = true
  | [], hm, _ => absurd hm List.not_mem_nil
  | m' :: ms, hm, h => by
    simp only [anyEq, Bool.or_eq_true]
    rcases List.mem_cons.mp hm with heq | hrest
    · left
      rw [← heq]
      exact h
    · right
      exact anyEq_of_mem hrest h

/-- A list of models that equal themselves equals itself. -/
theorem listEq_self : ∀ ms : List (TypeExpr C P D), (∀ m ∈ ms, m.pyEq m = true) →
    listEq ms ms = true
  | [], _ => by simp [listEq]
  | m :: ms, h => by
    have hrest := listEq_self ms fun m' hm' => h m' (List.mem_cons_of_mem _ hm')
    simp only [listEq, Bool.and_eq_true]
    exact ⟨h m List.mem_cons_self, hrest⟩

mutual

/-- A model equals itself. -/
theorem pyEq_self : ∀ m : TypeExpr C P D, m.pyEq m = true
  | .cls c => by simp [pyEq]
  | .union args => by
    have hall := pyEq_each args
    simp only [pyEq, Bool.and_eq_true]
    constructor
    · exact allIn_self args args fun m hm => ⟨hm, hall m hm⟩
    · rw [List.all_eq_true]
      exact fun m hm => anyEq_of_mem hm (hall m hm)
  | .generic kind origin args => by
    have hlist := listEq_self args (pyEq_each args)
    simp [pyEq, hlist]
  | .parameters args => by
    have hlist := listEq_self args (pyEq_each args)
    simp [pyEq, hlist]
  | .literal values => by simp [pyEq]
  | .annotated origin metadata => by simp [pyEq, pyEq_self origin]

/-- So does each of these. -/
theorem pyEq_each : ∀ ms : List (TypeExpr C P D), ∀ m ∈ ms, m.pyEq m = true
  | [], m, hm => absurd hm List.not_mem_nil
  | m' :: ms, m, hm => by
    rcases List.mem_cons.mp hm with h | h
    · rw [h]
      exact pyEq_self m'
    · exact pyEq_each ms m h

end

mutual

/-- The key of a model equals itself. -/
theorem key_pyEq_self : ∀ m : TypeExpr C P D, (key m).pyEq (key m) = true
  | .cls c => by simp [key, Key.pyEq]
  | .union args => by simp [key, Key.pyEq, pyEq_self, keys_pyEq_self args]
  | .generic kind origin args => by simp [key, Key.pyEq, pyEq_self, keys_pyEq_self args]
  | .parameters args => by simp [key, Key.pyEq, Key.listEq, pyEq_self]
  | .literal values => by
    simp only [key, Key.pyEq, pyEq_self, Bool.true_and]
    induction values with
    | nil => rfl
    | cons v rest ih => simp [Key.listEq, Key.pyEq, ih]
  | .annotated origin metadata => by
    simp [key, Key.pyEq, Key.listEq, pyEq_self, key_pyEq_self origin]

/-- So do the keys of these. -/
theorem keys_pyEq_self : ∀ ms : List (TypeExpr C P D), Key.listEq (keys ms) (keys ms) = true
  | [] => rfl
  | m :: ms => by simp [keys, Key.listEq, key_pyEq_self m, keys_pyEq_self ms]

end

end TypeExpr

end Httpware.Decoding
