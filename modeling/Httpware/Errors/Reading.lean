import Httpware.Errors.Objects

/-!
# What errors show

Reading the `args` of a `StatusError` puts its message in their place, and shows the same from then on
(`readArgs_settled`, `show_settled`). What an error shows is a function of its class, its attributes and
the arguments that are read (`show_eq`), and no new object changes it (`show_kept`), since the errors of
a program hold known values only (`ErrorObject.Known`).
-/

namespace Httpware.Errors

open Python (Error UrlLibrary)
open Redaction

/-! ## Known values -/

/-- An argument is a known value. -/
theorem Value.isKnown_of_isArgument {n : ℕ} (m : ℕ) {v : Value} (h : v.isArgument n) :
    v.isKnown n m := by
  cases v with
  | object id => exact h
  | error i => cases h
  | _ => rfl

/-- Values stay known. -/
theorem Value.isKnown_mono {n n' m m' : ℕ} (hn : n ≤ n') (hm : m ≤ m') {v : Value}
    (hv : v.isKnown n m) : v.isKnown n' m' := by
  cases v with
  | object id => exact decide_eq_true (lt_of_lt_of_le (of_decide_eq_true hv) hn)
  | error i => exact decide_eq_true (lt_of_lt_of_le (of_decide_eq_true hv) hm)
  | _ => rfl

theorem Value.isArgument_mono {n n' : ℕ} (hn : n ≤ n') {v : Value} (hv : v.isArgument n) :
    v.isArgument n' := by
  cases v with
  | object id => exact decide_eq_true (lt_of_lt_of_le (of_decide_eq_true hv) hn)
  | error i => cases hv
  | _ => rfl

/-- The values of an error are known, and its arguments are no errors. -/
structure ErrorObject.Known (n m : ℕ) (e : ErrorObject (List Value)) : Prop where
  args : ∀ v ∈ e.args, v.isArgument n
  dict : ∀ v ∈ e.dict.map Prod.snd, v.isKnown n m
  slots : ∀ v ∈ e.slots.map Prod.snd, v.isKnown n m

theorem ErrorObject.known_iff {n m : ℕ} {e : ErrorObject (List Value)} :
    e.isKnown n m = true ↔ e.Known n m := by
  unfold isKnown
  rw [Bool.and_eq_true, Bool.and_eq_true, List.all_eq_true, List.all_eq_true, List.all_eq_true]
  exact ⟨fun h => ⟨h.1.1, h.1.2, h.2⟩, fun h => ⟨⟨h.args, h.dict⟩, h.slots⟩⟩

theorem ErrorObject.Known.mono {n n' m m' : ℕ} (hn : n ≤ n') (hm : m ≤ m')
    {e : ErrorObject (List Value)} (he : e.Known n m) : e.Known n' m' where
  args v hv := Value.isArgument_mono hn (he.args v hv)
  dict v hv := Value.isKnown_mono hn hm (he.dict v hv)
  slots v hv := Value.isKnown_mono hn hm (he.slots v hv)

/-- What is found under a name is one of the values. -/
theorem mem_of_lookup {dict : List (String × Value)} {name : String} {value : Value}
    (h : dict.lookup name = some value) : value ∈ dict.map Prod.snd := by
  obtain ⟨before, after, hdict, -⟩ := List.lookup_eq_some_iff.mp h
  rw [hdict, List.map_append, List.map_cons]
  exact List.mem_append_right _ List.mem_cons_self

/-! ## Reading the arguments -/

section Reading

variable {lib : UrlLibrary} {old new : List Content} {e : ErrorObject (List Value)} {args : List Value}

theorem ErrorObject.Known.vars {n m : ℕ} (h : e.Known n m) (name : String) :
    (e.vars name).isKnown n m := by
  unfold ErrorObject.vars
  cases hlookup : e.dict.lookup name with
  | none => rfl
  | some value => exact h.dict value (mem_of_lookup hlookup)

/-- Arguments that are not the lone response. -/
theorem readArgs_of_read (h : e.isUnread = false) : readArgs lib old e = (.ok e.args, e.args) := by
  unfold readArgs
  rw [h]
  rfl

/-- Reading arguments that can be read leaves them, and not the lone response. -/
theorem readArgs_ok (h : (readArgs lib old e).1 = .ok args) :
    (readArgs lib old e).2 = args ∧ (e.cls.isStatusError → args ≠ [e.vars "response"]) := by
  by_cases hunread : e.isUnread
  · unfold readArgs at h ⊢
    rw [if_pos hunread] at h ⊢
    cases hsummary : e.summary lib old with
    | error error =>
      rw [hsummary] at h
      cases h
    | ok summary =>
      rw [hsummary] at h
      cases h
      refine ⟨rfl, fun _ hsame => ?_⟩
      -- A message was built, so the response is an object and no text.
      obtain ⟨r, hr, -⟩ := Python.ok_of_bind hsummary
      have hvars : e.vars "response" = .text summary := (List.cons.inj hsame).1.symm
      unfold ErrorObject.response at hr
      unfold ErrorObject.vars at hvars
      cases hlookup : e.dict.lookup "response" with
      | none =>
        rw [hlookup] at hr
        cases hr
      | some value =>
        rw [hlookup] at hr hvars
        rw [Option.getD_some] at hvars
        subst hvars
        cases hr
  · have hread : e.isUnread = false := Bool.not_eq_true _ ▸ hunread
    rw [readArgs_of_read hread] at h ⊢
    cases h
    refine ⟨rfl, fun hstatus hsame => hunread ?_⟩
    unfold ErrorObject.isUnread
    rw [hstatus, hsame, decide_eq_true rfl]
    rfl

/-- Arguments that cannot be read are left. -/
theorem readArgs_error {error : Error} (h : (readArgs lib old e).1 = .error error) :
    (readArgs lib old e).2 = e.args := by
  unfold readArgs at h ⊢
  split_ifs at h ⊢
  cases hsummary : e.summary lib old with
  | error error => rfl
  | ok summary =>
    rw [hsummary] at h
    cases h

/-- The error after its arguments were read. -/
def ErrorObject.settled (lib : UrlLibrary) (objects : List Content) (e : ErrorObject (List Value)) :
    ErrorObject (List Value) :=
  { e with args := (readArgs lib objects e).2 }

/-- Once they were read, reading them again gives the same. -/
theorem readArgs_settled : readArgs lib old (e.settled lib old) = readArgs lib old e := by
  cases hread : (readArgs lib old e).1 with
  | ok args =>
    obtain ⟨hleft, hnot⟩ := readArgs_ok hread
    have hunread : (e.settled lib old).isUnread = false := by
      rw [Bool.eq_false_iff]
      intro h
      obtain ⟨hstatus, hsame⟩ := Bool.and_eq_true_iff.mp h
      have hargs : (readArgs lib old e).2 = [e.vars "response"] := of_decide_eq_true hsame
      exact hnot hstatus (hleft ▸ hargs)
    rw [readArgs_of_read hunread]
    exact Prod.ext ((congrArg Except.ok hleft).trans hread.symm) rfl
  | error error =>
    have hsame : e.settled lib old = e := by
      unfold ErrorObject.settled
      rw [readArgs_error hread]
    rw [hsame]

/-- An error that was read is settled. -/
theorem settled_settled : (e.settled lib old).settled lib old = e.settled lib old := by
  unfold ErrorObject.settled
  dsimp only
  have hread : (readArgs lib old (e.settled lib old)).2 = (readArgs lib old e).2 :=
    congrArg Prod.snd readArgs_settled
  unfold ErrorObject.settled at hread
  rw [hread]

/-- Reading leaves known arguments. -/
theorem ErrorObject.Known.settled {n m : ℕ} (he : e.Known n m) : (e.settled lib old).Known n m := by
  refine ⟨?_, he.dict, he.slots⟩
  unfold ErrorObject.settled readArgs
  dsimp only
  split_ifs
  · cases e.summary lib old with
    | ok summary =>
      intro v hv
      rw [List.mem_singleton.mp hv]
      rfl
    | error error => exact he.args
  · exact he.args

/-- So are the arguments that are read. -/
theorem ErrorObject.Known.read {n m : ℕ} (he : e.Known n m) (h : (readArgs lib old e).1 = .ok args) :
    ∀ v ∈ args, v.isArgument n := by
  have hsettled : (e.settled lib old).Known n m := he.settled
  rw [← (readArgs_ok h).1]
  exact hsettled.args

/-! ## Showing -/

/-- What is shown of an error, by its `repr` as a `StatusError` and its arguments. -/
def shownOf {S : Type} (e : ErrorObject S) (repr : Except Error String)
    (args : Except Error (List Value)) : Read → Shown
  | .args => .ofExcept .values args
  | .str => e.osErrorStr.getD (.ofExcept strOfArgs args)
  | .repr =>
    if e.cls.isStatusError then .ofExcept .text repr else .ofExcept (.reprOf e.cls.name) args
  | .getattr name => e.getattr name

theorem show_eq {S : Type} (rule : ArgsRule S) (objects : List Content) (e : ErrorObject S)
    (what : Read) : (rule.show lib objects e what).1 =
      shownOf e (e.statusRepr lib objects) (rule.read objects e).1 what := by
  cases what with
  | args => rfl
  | str =>
    unfold ArgsRule.show shownOf
    dsimp only
    cases e.osErrorStr with
    | none => rfl
    | some shown => rfl
  | repr =>
    unfold ArgsRule.show shownOf
    dsimp only
    split_ifs
    · rfl
    · rfl
  | getattr name => rfl

/-- A read leaves the error as it was, or with its arguments read. -/
theorem show_leaves (lib : UrlLibrary) (old : List Content) (e : ErrorObject (List Value))
    (what : Read) :
    { e with args := ((lazyArgs lib).show lib old e what).2 } = e ∨
      { e with args := ((lazyArgs lib).show lib old e what).2 } = e.settled lib old := by
  cases what with
  | args => exact .inr rfl
  | str =>
    unfold ArgsRule.show
    dsimp only
    cases e.osErrorStr with
    | none => exact .inr rfl
    | some shown => exact .inl rfl
  | repr =>
    unfold ArgsRule.show
    dsimp only
    split_ifs
    · exact .inl rfl
    · exact .inr rfl
  | getattr name => exact .inl rfl

/-- So an error that was read shows what it showed. -/
theorem show_settled (what : Read) :
    ((lazyArgs lib).show lib old (e.settled lib old) what).1 =
      ((lazyArgs lib).show lib old e what).1 := by
  have hread : (readArgs lib old (e.settled lib old)).1 = (readArgs lib old e).1 :=
    congrArg Prod.fst readArgs_settled
  rw [show_eq, show_eq]
  exact congrArg (fun args => shownOf e (e.statusRepr lib old) args what) hread

section Kept

variable {m : ℕ} (he : e.Known old.length m) (hkept : ∀ id < old.length, new[id]? = old[id]?)
include he hkept

/-- The response stays when only objects have come that the error does not know. -/
theorem response_kept : e.response new = e.response old := by
  unfold ErrorObject.response
  cases hlookup : e.dict.lookup "response" with
  | none => rfl
  | some value =>
    cases value with
    | object id => simp only [hkept id (of_decide_eq_true (he.dict _ (mem_of_lookup hlookup)))]
    | _ => rfl

/-- So do its arguments. -/
theorem readArgs_kept : readArgs lib new e = readArgs lib old e := by
  have hsummary : e.summary lib new = e.summary lib old := by
    unfold ErrorObject.summary
    rw [response_kept he hkept]
  unfold readArgs
  rw [hsummary]

/-- And it shows what it showed. -/
theorem show_kept (what : Read) :
    ((lazyArgs lib).show lib new e what).1 = ((lazyArgs lib).show lib old e what).1 := by
  have hrepr : e.statusRepr lib new = e.statusRepr lib old := by
    unfold ErrorObject.statusRepr
    rw [response_kept he hkept]
  have hread : ((lazyArgs lib).read new e).1 = ((lazyArgs lib).read old e).1 :=
    congrArg Prod.fst (readArgs_kept he hkept)
  rw [show_eq, show_eq, hrepr, hread]

end Kept

end Reading

/-! ## Heaps -/

/-- What a program is shown of an error. -/
def Heap.shows (lib : UrlLibrary) (h : Heap (List Value)) (i : ℕ) (what : Read) : Option Shown :=
  h.errors[i]?.map fun e => ((lazyArgs lib).show lib h.objects e what).1

/-- The errors hold known values only. -/
def Heap.Known (h : Heap (List Value)) : Prop :=
  ∀ e ∈ h.errors, e.Known h.objects.length h.errors.length

/-- An error takes the place of another one. -/
theorem Heap.Known.put {h : Heap (List Value)} (hh : h.Known) {i : ℕ} {e : ErrorObject (List Value)}
    (he : e.Known h.objects.length h.errors.length) : (h.put i e).Known := by
  intro e' he'
  have hlength : (h.put i e).errors.length = h.errors.length := List.length_set
  rw [hlength]
  rcases List.mem_or_eq_of_mem_set he' with hold | rfl
  · exact hh e' hold
  · exact he

/-- Errors are added, with objects that may be new. -/
theorem Heap.Known.add {h : Heap (List Value)} (hh : h.Known) {objects : List Content}
    {errors : List (ErrorObject (List Value))} (hgrown : h.objects.length ≤ objects.length)
    (herrors : ∀ e ∈ errors, e.Known objects.length (h.errors ++ errors).length) :
    Heap.Known ⟨objects, h.errors ++ errors⟩ := by
  have hlength : h.errors.length ≤ (h.errors ++ errors).length := by
    rw [List.length_append]
    omega
  intro e he
  rcases List.mem_append.mp he with hold | hnew
  · exact (hh e hold).mono hgrown hlength
  · exact herrors e hnew

/-- The heap after the arguments of some errors were read. -/
structure Heap.Settles (lib : UrlLibrary) (h h' : Heap (List Value)) : Prop where
  objects : h'.objects = h.objects
  errors : ∀ i : ℕ, h'.errors[i]? = h.errors[i]? ∨
    h'.errors[i]? = h.errors[i]?.map (ErrorObject.settled lib h.objects)

namespace Heap.Settles

variable {lib : UrlLibrary} {h h' h'' : Heap (List Value)}

theorem refl (lib : UrlLibrary) (h : Heap (List Value)) : h.Settles lib h :=
  ⟨rfl, fun _ => .inl rfl⟩

theorem trans (hs : h.Settles lib h') (hs' : h'.Settles lib h'') : h.Settles lib h'' := by
  refine ⟨hs'.objects.trans hs.objects, fun i => ?_⟩
  rcases hs'.errors i with h2 | h2
  · rw [h2]
    exact hs.errors i
  · refine .inr ?_
    rw [h2, hs.objects]
    rcases hs.errors i with h1 | h1
    · rw [h1]
    · rw [h1, Option.map_map]
      exact congrArg (h.errors[i]?.map ·) (funext fun e => settled_settled)

/-- The arguments of one error are read. -/
theorem put {i : ℕ} {e : ErrorObject (List Value)} (he : h.errors[i]? = some e) :
    h.Settles lib (h.put i (e.settled lib h.objects)) := by
  have hi : i < h.errors.length := (List.getElem?_eq_some_iff.mp he).1
  refine ⟨rfl, fun k => ?_⟩
  unfold Heap.put
  dsimp only
  by_cases hk : i = k
  · subst hk
    refine .inr ?_
    rw [List.getElem?_set_self hi, he]
    rfl
  · exact .inl (List.getElem?_set_ne hk)

theorem length (hs : h.Settles lib h') : h'.errors.length = h.errors.length := by
  -- The two lists end at the same place.
  have hnone : ∀ i : ℕ, h'.errors[i]? = none ↔ h.errors[i]? = none := by
    intro i
    rcases hs.errors i with h1 | h1
    · rw [h1]
    · rw [h1, Option.map_eq_none_iff]
  have hle := (hnone h.errors.length).mpr (List.getElem?_eq_none le_rfl)
  have hge := (hnone h'.errors.length).mp (List.getElem?_eq_none le_rfl)
  rw [List.getElem?_eq_none_iff] at hle hge
  omega

/-- An error is as it was, or settled. -/
theorem getElem? (hs : h.Settles lib h') {i : ℕ} {e' : ErrorObject (List Value)}
    (he' : h'.errors[i]? = some e') :
    ∃ e, h.errors[i]? = some e ∧ (e' = e ∨ e' = e.settled lib h.objects) := by
  rcases hs.errors i with h1 | h1
  · exact ⟨e', h1 ▸ he', .inl rfl⟩
  · rw [h1] at he'
    obtain ⟨e, he, hsame⟩ := Option.map_eq_some_iff.mp he'
    exact ⟨e, he, .inr hsame.symm⟩

theorem known (hs : h.Settles lib h') (hh : h.Known) : h'.Known := by
  intro e' he'
  obtain ⟨i, he'⟩ := List.getElem?_of_mem he'
  obtain ⟨e, he, hsame⟩ := hs.getElem? he'
  have hknown := hh e (List.mem_of_getElem? he)
  rw [hs.objects, hs.length]
  rcases hsame with rfl | rfl
  · exact hknown
  · exact hknown.settled

/-- It shows what it showed. -/
theorem shows (hs : h.Settles lib h') (i : ℕ) (what : Read) :
    h'.shows lib i what = h.shows lib i what := by
  unfold Heap.shows
  rw [hs.objects]
  rcases hs.errors i with h1 | h1
  · rw [h1]
  · rw [h1, Option.map_map]
    exact congrArg (h.errors[i]?.map ·) (funext fun e => show_settled what)

end Heap.Settles

/-- What `__reduce__` returns for an error. -/
def Heap.reduced (lib : UrlLibrary) (h : Heap (List Value)) (i : ℕ) : Option (Except Error Reduced) :=
  (h.reduce (lazyArgs lib) i).map Prod.fst

section Reduce

variable {lib : UrlLibrary} {h h' : Heap (List Value)} {i : ℕ} {r : Reduced}

/-- An error is reduced: its arguments are read. -/
theorem reduce_settles {result : Except Error Reduced}
    (hreduce : h.reduce (lazyArgs lib) i = some (result, h')) : h.Settles lib h' := by
  obtain ⟨e, he, hreduce⟩ := Option.map_eq_some_iff.mp hreduce
  cases hreduce
  exact .put he

theorem reduced_eq (i : ℕ) : h.reduced lib i =
    h.errors[i]?.map fun e => (readArgs lib h.objects e).1.map fun args => ⟨e.cls, args, e.dict⟩ := by
  unfold Heap.reduced Heap.reduce
  rw [Option.map_map]
  rfl

/-- What an error is reduced to does not change when arguments are read. -/
theorem Heap.Settles.reduced (hs : h.Settles lib h') (i : ℕ) :
    h'.reduced lib i = h.reduced lib i := by
  rw [reduced_eq, reduced_eq, hs.objects]
  rcases hs.errors i with h1 | h1
  · rw [h1]
  · rw [h1, Option.map_map]
    refine congrArg (h.errors[i]?.map ·) (funext fun e => ?_)
    change (readArgs lib h.objects (e.settled lib h.objects)).1.map _ = _
    rw [readArgs_settled]
    rfl

/-- The error that is reduced. -/
theorem exists_of_reduced_ok (hr : h.reduced lib i = some (.ok r)) :
    ∃ e, h.errors[i]? = some e ∧ (readArgs lib h.objects e).1 = .ok r.args ∧
      r = ⟨e.cls, r.args, e.dict⟩ := by
  rw [reduced_eq] at hr
  obtain ⟨e, he, hr⟩ := Option.map_eq_some_iff.mp hr
  cases hread : (readArgs lib h.objects e).1 with
  | error error =>
    rw [hread] at hr
    cases hr
  | ok args =>
    rw [hread] at hr
    cases hr
    exact ⟨e, he, hread, rfl⟩

/-- What an error is reduced to holds known values. -/
theorem Heap.Known.reduced (hh : h.Known) (hr : h.reduced lib i = some (.ok r)) :
    ∀ v ∈ r.values, v.isKnown h.objects.length h.errors.length := by
  obtain ⟨e, he, hread, hr⟩ := exists_of_reduced_ok hr
  have hknown := hh e (List.mem_of_getElem? he)
  intro v hv
  rcases List.mem_append.mp hv with hv | hv
  · exact Value.isKnown_of_isArgument _ (hknown.read hread v hv)
  · rw [hr] at hv
    exact hknown.dict v hv

end Reduce

end Httpware.Errors
