import Httpware.Errors.Traversal

/-!
# Errors under other names

The copies that are made of a memo have names of their own, so that two values are one object exactly if
their copies are (`restore_renaming`), and an error under other names shows what it showed, with these
names (`Renaming.show`). What is restored of an error is the error as if it were made anew of its
arguments (`restore_eq`): that shows the same, but for the fields of a `TimeoutError` that are not those
of its arguments (`show_anew`).
-/

namespace Httpware.Errors

open Python (Error UrlLibrary)
open Redaction

/-! ## Renaming -/

/-- What is shown, with the copies in the place of what was copied. -/
def Shown.rename (ρ : Names) : Shown → Shown
  | values vs => values (vs.map (Value.rename ρ))
  | value v => value (v.rename ρ)
  | strOf v => strOf (v.rename ρ)
  | strOfTuple vs => strOfTuple (vs.map (Value.rename ρ))
  | strOfErrno errno strerror files =>
    strOfErrno (errno.rename ρ) (strerror.rename ρ) (files.map (Value.rename ρ))
  | reprOf name vs => reprOf name (vs.map (Value.rename ρ))
  | shown => shown

/-- The error, with the copies in the place of what was copied. -/
def ErrorObject.rename (ρ : Names) (e : ErrorObject (List Value)) : ErrorObject (List Value) :=
  ⟨e.cls, renameDict ρ e.dict, renameDict ρ e.slots, e.args.map (Value.rename ρ)⟩

theorem Value.rename_same : Value.rename .same = id := by
  funext v
  cases v with
  | _ => rfl

theorem Shown.rename_same (shown : Shown) : shown.rename .same = shown := by
  cases shown with
  | _ => simp [rename, Value.rename_same]

@[simp] theorem lookup_renameDict (ρ : Names) (dict : List (String × Value)) (name : String) :
    (renameDict ρ dict).lookup name = (dict.lookup name).map (Value.rename ρ) := by
  induction dict with
  | nil => rfl
  | cons x xs ih =>
    unfold renameDict at ih ⊢
    rw [List.map_cons, List.lookup_cons, List.lookup_cons]
    cases name == x.1 with
    | true => rfl
    | false => exact ih

theorem values_renameDict (ρ : Names) (dict : List (String × Value)) :
    (renameDict ρ dict).map Prod.snd = (dict.map Prod.snd).map (Value.rename ρ) := by
  unfold renameDict
  rw [List.map_map, List.map_map]
  rfl

@[simp] theorem Value.rename_eq_none (ρ : Names) (v : Value) : v.rename ρ = .none ↔ v = .none := by
  cases v with
  | none => exact Iff.rfl
  | _ => simp [rename]

/-- `OSError.__new__` takes renamed arguments apart in the same way. -/
theorem osErrorNew_rename (ρ : Names) (args : List Value) :
    osErrorNew (args.map (Value.rename ρ)) =
      ((osErrorNew args).1.map (Value.rename ρ), renameDict ρ (osErrorNew args).2) := by
  have hfiles (args : List Value) (errno strerror filename filename2 : Value) :
      osErrorFiles (args.map (Value.rename ρ)) (errno.rename ρ) (strerror.rename ρ) (filename.rename ρ)
        (filename2.rename ρ) =
        ((osErrorFiles args errno strerror filename filename2).1.map (Value.rename ρ),
          renameDict ρ (osErrorFiles args errno strerror filename filename2).2) := by
    unfold osErrorFiles
    simp only [Value.rename_eq_none]
    split_ifs
    · rfl
    · rfl
    · rfl
  have hnone : Value.rename ρ .none = .none := rfl
  match args with
  | [] => rfl
  | [_] => rfl
  | [_, _] => rfl
  | [errno, strerror, filename] =>
    have h := hfiles [errno, strerror, filename] errno strerror filename .none
    rw [hnone] at h
    exact h
  | [errno, strerror, filename, fourth] =>
    have h := hfiles [errno, strerror, filename, fourth] errno strerror filename .none
    rw [hnone] at h
    exact h
  | [errno, strerror, filename, fourth, filename2] =>
    exact hfiles [errno, strerror, filename, fourth, filename2] errno strerror filename filename2
  | _ :: _ :: _ :: _ :: _ :: _ :: _ => rfl

/-- So does `__new__`. -/
theorem new_rename (ρ : Names) (cls : ErrorClass) (args : List Value) :
    cls.new (args.map (Value.rename ρ)) =
      ((cls.new args).1.map (Value.rename ρ), renameDict ρ (cls.new args).2) := by
  unfold ErrorClass.new
  split_ifs
  · exact osErrorNew_rename ρ args
  · rfl

theorem osErrorStr_rename (ρ : Names) (e : ErrorObject (List Value)) :
    (e.rename ρ).osErrorStr = e.osErrorStr.map (Shown.rename ρ) := by
  have hfield (name : String) :
      (if name ∈ e.cls.slotNames then (renameDict ρ e.slots).lookup name else none) =
        (if name ∈ e.cls.slotNames then e.slots.lookup name else none).map (Value.rename ρ) := by
    rw [lookup_renameDict]
    split_ifs
    · rfl
    · rfl
  unfold ErrorObject.osErrorStr ErrorObject.rename
  simp only [hfield]
  generalize (if "filename" ∈ e.cls.slotNames then e.slots.lookup "filename" else none) = filename
  generalize (if "filename2" ∈ e.cls.slotNames then e.slots.lookup "filename2" else none) = filename2
  generalize (if "errno" ∈ e.cls.slotNames then e.slots.lookup "errno" else none) = errno
  generalize (if "strerror" ∈ e.cls.slotNames then e.slots.lookup "strerror" else none) = strerror
  cases filename with
  | some filename =>
    cases filename2 with
    | _ =>
      cases errno with
      | _ =>
        cases strerror with
        | _ => rfl
  | none =>
    cases errno with
    | none => rfl
    | some errno =>
      cases strerror with
      | _ => rfl

theorem getattr_rename (ρ : Names) (e : ErrorObject (List Value)) (name : String) :
    (e.rename ρ).getattr name = (e.getattr name).rename ρ := by
  unfold ErrorObject.getattr ErrorObject.rename
  dsimp only
  rw [lookup_renameDict, lookup_renameDict]
  split_ifs
  · cases e.slots.lookup name with
    | _ => rfl
  · cases e.dict.lookup name with
    | _ => rfl
  · cases e.dict.lookup name with
    | _ => rfl

/-- `str` of renamed arguments. -/
theorem strOfArgs_rename (ρ : Names) (args : List Value) :
    strOfArgs (args.map (Value.rename ρ)) = (strOfArgs args).rename ρ := by
  match args with
  | [] => rfl
  | [v] =>
    cases v with
    | _ => rfl
  | _ :: _ :: _ => rfl

/-- What is shown of a renamed error. -/
theorem shownOf_rename (ρ : Names) (e : ErrorObject (List Value)) (repr : Except Error String)
    (args : List Value) (what : Read) :
    shownOf (e.rename ρ) repr (.ok (args.map (Value.rename ρ))) what =
      (shownOf e repr (.ok args) what).rename ρ := by
  cases what with
  | args => rfl
  | str =>
    unfold shownOf
    dsimp only
    rw [osErrorStr_rename]
    cases e.osErrorStr with
    | none => exact strOfArgs_rename ρ args
    | some shown => rfl
  | repr =>
    unfold shownOf
    change (if e.cls.isStatusError then Shown.ofExcept .text repr
      else .ofExcept (.reprOf e.cls.name) _) = _
    split_ifs
    · cases repr with
      | ok text => rfl
      | error error => rfl
    · rfl
  | getattr name => exact getattr_rename ρ e name

/-- How copies are named that lead from the heap `old` to `new`. -/
structure Renaming (old new : Heap (List Value)) (ρ : Names) : Prop where
  kept : ∀ id < old.objects.length, new.objects[id]? = old.objects[id]?
  content : ∀ id < old.objects.length, new.objects[ρ.object id]? = old.objects[id]?
  injective : ∀ id < old.objects.length, ∀ id' < old.objects.length,
    ρ.object id = ρ.object id' → id = id'
  errors : ∀ i < old.errors.length, ρ.error i < new.errors.length
  errors_injective : ∀ i < old.errors.length, ∀ j < old.errors.length, ρ.error i = ρ.error j → i = j

section Renamed

variable {old new : Heap (List Value)} {ρ : Names} (hρ : Renaming old new ρ)
include hρ

/-- No object goes. -/
theorem Renaming.object_lt {id : ℕ} (hid : id < old.objects.length) :
    ρ.object id < new.objects.length := by
  have hsome : new.objects[ρ.object id]? = some old.objects[id] :=
    (hρ.content id hid).trans (List.getElem?_eq_getElem hid)
  exact (List.getElem?_eq_some_iff.mp hsome).1

/-- Renamed values are known. -/
theorem Renaming.known {v : Value} (hv : v.isKnown old.objects.length old.errors.length) :
    (v.rename ρ).isKnown new.objects.length new.errors.length := by
  cases v with
  | object id => exact decide_eq_true (hρ.object_lt (of_decide_eq_true hv))
  | error i => exact decide_eq_true (hρ.errors i (of_decide_eq_true hv))
  | _ => rfl

theorem Renaming.argument {v : Value} (hv : v.isArgument old.objects.length) :
    (v.rename ρ).isArgument new.objects.length := by
  cases v with
  | object id => exact decide_eq_true (hρ.object_lt (of_decide_eq_true hv))
  | error i => cases hv
  | _ => rfl

/-- Values with one renaming are one value. -/
theorem Renaming.rename_inj {v w : Value} (hv : v.isKnown old.objects.length old.errors.length)
    (hw : w.isKnown old.objects.length old.errors.length) (h : v.rename ρ = w.rename ρ) : v = w := by
  cases v with
  | object id =>
    cases w with
    | object id' =>
      have hsame : ρ.object id = ρ.object id' := Value.object.inj h
      rw [hρ.injective id (of_decide_eq_true hv) id' (of_decide_eq_true hw) hsame]
    | _ => cases h
  | error i =>
    cases w with
    | error j =>
      have hsame : ρ.error i = ρ.error j := Value.error.inj h
      rw [hρ.errors_injective i (of_decide_eq_true hv) j (of_decide_eq_true hw) hsame]
    | _ => cases h
  | _ =>
    cases w with
    | object id => cases h
    | error i => cases h
    | _ => exact h

variable {e : ErrorObject (List Value)} (he : e.Known old.objects.length old.errors.length)
include he

theorem Renaming.known_rename : (e.rename ρ).Known new.objects.length new.errors.length := by
  refine ⟨fun v hv => ?_, fun v hv => ?_, fun v hv => ?_⟩
  · obtain ⟨w, hw, rfl⟩ := List.mem_map.mp hv
    exact hρ.argument (he.args w hw)
  · unfold ErrorObject.rename at hv
    rw [values_renameDict] at hv
    obtain ⟨w, hw, rfl⟩ := List.mem_map.mp hv
    exact hρ.known (he.dict w hw)
  · unfold ErrorObject.rename at hv
    rw [values_renameDict] at hv
    obtain ⟨w, hw, rfl⟩ := List.mem_map.mp hv
    exact hρ.known (he.slots w hw)

/-- The response of a renamed error is that of the error. -/
theorem Renaming.response : (e.rename ρ).response new.objects = e.response old.objects := by
  unfold ErrorObject.response ErrorObject.rename
  dsimp only
  rw [lookup_renameDict]
  cases hlookup : e.dict.lookup "response" with
  | none => rfl
  | some value =>
    cases value with
    | object id =>
      have hsame := hρ.content id (of_decide_eq_true (he.dict _ (mem_of_lookup hlookup)))
      simp only [Option.map_some, Value.rename, hsame]
    | _ => rfl

/-- An error that was read is so under other names. -/
theorem Renaming.isUnread (hread : e.isUnread = false) : (e.rename ρ).isUnread = false := by
  rw [Bool.eq_false_iff] at hread ⊢
  intro h
  obtain ⟨hstatus, hsame⟩ := Bool.and_eq_true_iff.mp h
  have hvars : (e.rename ρ).vars "response" = (e.vars "response").rename ρ := by
    unfold ErrorObject.vars ErrorObject.rename
    dsimp only
    rw [lookup_renameDict]
    cases e.dict.lookup "response" with
    | none => rfl
    | some value => rfl
  have hmap : e.args.map (Value.rename ρ) = [(e.vars "response").rename ρ] :=
    hvars ▸ of_decide_eq_true hsame
  obtain ⟨v, hargs, hv⟩ := List.map_eq_singleton_iff.mp hmap
  have hknown := Value.isKnown_of_isArgument old.errors.length
    (he.args v (hargs ▸ List.mem_singleton_self v))
  have hresponse := hρ.rename_inj hknown (he.vars "response") hv
  refine hread (Bool.and_eq_true_iff.mpr ⟨hstatus, decide_eq_true ?_⟩)
  rw [hargs, hresponse]

/-- An error that was read shows the same under other names. -/
theorem Renaming.show (lib : UrlLibrary) (hread : e.isUnread = false) (what : Read) :
    ((lazyArgs lib).show lib new.objects (e.rename ρ) what).1 =
      ((lazyArgs lib).show lib old.objects e what).1.rename ρ := by
  have hargs : ((lazyArgs lib).read old.objects e).1 = .ok e.args :=
    congrArg Prod.fst (readArgs_of_read hread)
  have hargs' : ((lazyArgs lib).read new.objects (e.rename ρ)).1 =
      .ok (e.args.map (Value.rename ρ)) :=
    congrArg Prod.fst (readArgs_of_read (hρ.isUnread he hread))
  have hrepr : (e.rename ρ).statusRepr lib new.objects = e.statusRepr lib old.objects := by
    unfold ErrorObject.statusRepr
    rw [hρ.response he]
    rfl
  rw [show_eq, show_eq, hargs, hargs', hrepr]
  exact shownOf_rename ρ e _ e.args what

end Renamed

/-! ## Making anew -/

/-- The error as `__new__` makes it of its arguments. -/
def ErrorObject.anew (lib : UrlLibrary) (objects : List Content) (e : ErrorObject (List Value)) :
    ErrorObject (List Value) :=
  match (readArgs lib objects e).1 with
  | .ok args => ⟨e.cls, e.dict, (e.cls.new args).2, (e.cls.new args).1⟩
  | .error _ => e

/-- The fields of a `TimeoutError` are those that `__new__` sets for its arguments, which it leaves. -/
def ErrorObject.IsAnew (e : ErrorObject (List Value)) : Prop :=
  e.cls = .timeoutError → e.cls.new e.args = (e.args, e.slots)

section Anew

variable {lib : UrlLibrary} {objects : List Content} {e : ErrorObject (List Value)} {args : List Value}

theorem anew_of_read (hread : (readArgs lib objects e).1 = .ok args) :
    e.anew lib objects = ⟨e.cls, e.dict, (e.cls.new args).2, (e.cls.new args).1⟩ := by
  unfold ErrorObject.anew
  rw [hread]

/-- Only a `TimeoutError` has fields. -/
theorem new_of_ne {cls : ErrorClass} (hcls : cls ≠ .timeoutError) (args : List Value) :
    cls.new args = (args, []) := if_neg hcls

/-- It has its message built. -/
theorem isUnread_anew (hread : (readArgs lib objects e).1 = .ok args) :
    (e.anew lib objects).isUnread = false := by
  rw [anew_of_read hread, Bool.eq_false_iff]
  intro h
  obtain ⟨hstatus, hsame⟩ := Bool.and_eq_true_iff.mp h
  have hcls : e.cls ≠ .timeoutError := by
    intro hcls
    dsimp only at hstatus
    rw [hcls] at hstatus
    cases hstatus
  have hargs : (e.cls.new args).1 = [e.vars "response"] := of_decide_eq_true hsame
  rw [new_of_ne hcls] at hargs
  exact (readArgs_ok hread).2 hstatus hargs

/-- The values of `OSError.__new__` are among its arguments. -/
theorem mem_osErrorNew {v : Value}
    (hv : v ∈ (osErrorNew args).1 ∨ v ∈ (osErrorNew args).2.map Prod.snd) : v ∈ args := by
  have hfiles {args : List Value} {errno strerror filename filename2 : Value}
      (hv : v ∈ (osErrorFiles args errno strerror filename filename2).1 ∨
        v ∈ (osErrorFiles args errno strerror filename filename2).2.map Prod.snd) :
      v ∈ args ∨ v ∈ [errno, strerror, filename] ∨ filename2 ≠ .none ∧ v = filename2 := by
    unfold osErrorFiles at hv
    split_ifs at hv with hfilename hfilename2
    all_goals simp at hv ⊢; tauto
  match args with
  | [] => exact hv.elim id fun h => absurd h List.not_mem_nil
  | [_] => exact hv.elim id fun h => absurd h List.not_mem_nil
  | [_, _] => exact hv.elim id id
  | [_, _, _] =>
    have h := hfiles hv
    simp at h ⊢
    tauto
  | [_, _, _, _] =>
    have h := hfiles hv
    simp at h ⊢
    tauto
  | [_, _, _, _, _] =>
    have h := hfiles hv
    simp at h ⊢
    tauto
  | _ :: _ :: _ :: _ :: _ :: _ :: _ => exact hv.elim id fun h => absurd h List.not_mem_nil

/-- Made anew, an error holds known values. -/
theorem ErrorObject.Known.anew {n m : ℕ} (he : e.Known n m)
    (hread : (readArgs lib objects e).1 = .ok args) : (e.anew lib objects).Known n m := by
  have hmem : ∀ v, v ∈ (e.cls.new args).1 ∨ v ∈ (e.cls.new args).2.map Prod.snd → v ∈ args := by
    intro v hv
    unfold ErrorClass.new at hv
    split_ifs at hv
    · exact mem_osErrorNew hv
    · exact hv.elim id fun h => absurd h List.not_mem_nil
  have hargs := he.read hread
  rw [anew_of_read hread]
  exact ⟨fun v hv => hargs v (hmem v (.inl hv)), he.dict,
    fun v hv => Value.isKnown_of_isArgument m (hargs v (hmem v (.inr hv)))⟩

/-- An error that is as `__new__` makes it shows the same. -/
theorem show_anew (hanew : e.IsAnew) (hread : (readArgs lib objects e).1 = .ok args) (what : Read) :
    ((lazyArgs lib).show lib objects (e.anew lib objects) what).1 =
      ((lazyArgs lib).show lib objects e what).1 := by
  have hargs : ((lazyArgs lib).read objects (e.anew lib objects)).1 = .ok (e.cls.new args).1 := by
    have hread' : readArgs lib objects (e.anew lib objects) = _ :=
      readArgs_of_read (isUnread_anew hread)
    rw [anew_of_read hread] at hread' ⊢
    exact congrArg Prod.fst hread'
  have hargs' : ((lazyArgs lib).read objects e).1 = .ok args := hread
  by_cases hcls : e.cls = .timeoutError
  · -- Its arguments are read as they are.
    have hunread : e.isUnread = false := by
      unfold ErrorObject.isUnread
      rw [hcls]
      rfl
    rw [readArgs_of_read hunread] at hread
    cases hread
    have hsame : e.anew lib objects = e := by
      rw [anew_of_read (congrArg Prod.fst (readArgs_of_read hunread)), hanew hcls]
    rw [hsame]
  · rw [show_eq, show_eq, hargs, hargs', anew_of_read hread, new_of_ne hcls]
    have hslots : e.cls.slotNames = [] := by
      cases hname : e.cls with
      | timeoutError => exact absurd hname hcls
      | _ => rfl
    cases what with
    | args => rfl
    | str =>
      unfold shownOf ErrorObject.osErrorStr
      simp [hslots]
    | repr => rfl
    | getattr name =>
      unfold shownOf ErrorObject.getattr
      simp [hslots]

/-- A copy of an error is the error made anew, under the names of the copy. -/
theorem restore_eq {h : Heap (List Value)} {i : ℕ} {r : Reduced} (ρ : Names)
    (hr : h.reduced lib i = some (.ok r)) : ∃ e, h.errors[i]? = some e ∧
      (readArgs lib h.objects e).1 = .ok r.args ∧
      r.restore (lazyArgs lib) ρ = (e.anew lib h.objects).rename ρ := by
  obtain ⟨e, he, hread, hsame⟩ := exists_of_reduced_ok hr
  refine ⟨e, he, hread, ?_⟩
  rw [anew_of_read hread, hsame]
  unfold Reduced.restore
  dsimp only
  rw [new_rename]
  rfl

end Anew

/-! ## The copies of what was met -/

section CopyName

variable {start : ℕ} {met : List ℕ}

/-- What was not met keeps its name. -/
theorem copyName_of_not_mem {id : ℕ} (h : id ∉ met) : copyName start met id = id := if_neg h

theorem copyName_of_mem {id : ℕ} (h : id ∈ met) : copyName start met id = start + met.idxOf id :=
  if_pos h

/-- A copy has a new name. -/
theorem le_copyName {id : ℕ} (h : id ∈ met) : start ≤ copyName start met id := by
  rw [copyName_of_mem h]
  omega

/-- What was known before has one name of its own. -/
theorem copyName_inj {id id' : ℕ} (hid : id < start) (hid' : id' < start)
    (h : copyName start met id = copyName start met id') : id = id' := by
  by_cases hmem : id ∈ met
  · by_cases hmem' : id' ∈ met
    · rw [copyName_of_mem hmem, copyName_of_mem hmem'] at h
      exact (List.idxOf_inj hmem).mp (Nat.add_left_cancel h)
    · have hle : start ≤ copyName start met id := le_copyName hmem
      rw [h, copyName_of_not_mem hmem'] at hle
      omega
  · by_cases hmem' : id' ∈ met
    · have hle : start ≤ copyName start met id' := le_copyName hmem'
      rw [← h, copyName_of_not_mem hmem] at hle
      omega
    · rwa [copyName_of_not_mem hmem, copyName_of_not_mem hmem'] at h

end CopyName

/-- Where a filter keeps all, it keeps their places. -/
theorem getElem?_filterMap_of_isSome {α β : Type} {f : α → Option β} {l : List α}
    (h : ∀ a ∈ l, (f a).isSome) (k : ℕ) : (l.filterMap f)[k]? = l[k]?.bind f := by
  induction l generalizing k with
  | nil => rfl
  | cons a l ih =>
    obtain ⟨b, hb⟩ := Option.isSome_iff_exists.mp (h a List.mem_cons_self)
    rw [List.filterMap_cons_some hb]
    cases k with
    | zero => exact hb.symm
    | succ k => exact ih (fun a' ha' => h a' (List.mem_cons_of_mem a ha')) k

section Restore

variable {lib : UrlLibrary} {h h' : Heap (List Value)} {m : Memo}

/-- The copy of an object has its content. -/
theorem restore_object (hs : h.Settles lib h') (hm : m.Sound lib h) {id : ℕ}
    (hid : id < h.objects.length) :
    (h'.restore (lazyArgs lib) m).objects[(m.names h').object id]? = h.objects[id]? := by
  have hobjects := hs.objects
  unfold Heap.restore Memo.names
  dsimp only
  rw [hobjects]
  by_cases hmem : id ∈ m.objects
  · have hsome : ∀ d ∈ m.objects, (h.objects[d]?).isSome := fun d hd => by
      rw [List.getElem?_eq_getElem (hm.objects d hd)]
      rfl
    have hidx := List.idxOf_lt_length_of_mem hmem
    rw [copyName_of_mem hmem, List.getElem?_append_right (by omega), Nat.add_sub_cancel_left,
      getElem?_filterMap_of_isSome hsome, List.getElem?_eq_getElem hidx, List.getElem_idxOf]
    rfl
  · rw [copyName_of_not_mem hmem, List.getElem?_append_left hid]

/-- The copy of an error is what it is reduced to, restored. -/
theorem restore_error (h' : Heap (List Value)) (hm : m.Sound lib h) {i : ℕ}
    (hi : i ∈ m.errors.map Prod.fst) : ∃ r, h.reduced lib i = some (.ok r) ∧
      (h'.restore (lazyArgs lib) m).errors[(m.names h').error i]? =
        some (r.restore (lazyArgs lib) (m.names h')) := by
  have hidx := List.idxOf_lt_length_of_mem hi
  have hlt : (m.errors.map Prod.fst).idxOf i < m.errors.length := by rwa [List.length_map] at hidx
  have hfst : (m.errors[(m.errors.map Prod.fst).idxOf i]).1 = i := by
    have hget := List.getElem_idxOf hidx
    rwa [List.getElem_map] at hget
  have hreduced := hm.errors _ (List.getElem_mem hlt)
  rw [hfst] at hreduced
  refine ⟨_, hreduced, ?_⟩
  have hname : (m.names h').error i = h'.errors.length + (m.errors.map Prod.fst).idxOf i :=
    copyName_of_mem hi
  rw [hname]
  unfold Heap.restore
  dsimp only
  rw [List.getElem?_append_right (by omega), Nat.add_sub_cancel_left, List.getElem?_map,
    List.getElem?_eq_getElem hlt]
  rfl

/-- The copies have names of their own. -/
theorem restore_renaming (hs : h.Settles lib h') (hm : m.Sound lib h) :
    Renaming h (h'.restore (lazyArgs lib) m) (m.names h') where
  kept id hid := by
    unfold Heap.restore
    dsimp only
    rw [hs.objects, List.getElem?_append_left hid]
  content id hid := restore_object hs hm hid
  injective id hid id' hid' hsame := by
    unfold Memo.names at hsame
    dsimp only at hsame
    rw [hs.objects] at hsame
    exact copyName_inj hid hid' hsame
  errors i hi := by
    by_cases hmem : i ∈ m.errors.map Prod.fst
    · obtain ⟨r, -, hcopy⟩ := restore_error h' hm hmem
      exact (List.getElem?_eq_some_iff.mp hcopy).1
    · unfold Memo.names Heap.restore
      dsimp only
      rw [copyName_of_not_mem hmem, List.length_append, hs.length]
      omega
  errors_injective i hi j hj hsame := by
    unfold Memo.names at hsame
    dsimp only at hsame
    rw [hs.length] at hsame
    exact copyName_inj hi hj hsame

/-- A copy shares everything with the error. -/
theorem renaming_same (hs : h.Settles lib h') (errors : List (ErrorObject (List Value))) :
    Renaming h ⟨h'.objects, h'.errors ++ errors⟩ .same where
  kept id _ := by rw [hs.objects]
  content id _ := by rw [hs.objects]; rfl
  injective _ _ _ _ hsame := hsame
  errors i hi := by
    rw [List.length_append, hs.length]
    exact Nat.lt_add_right _ hi
  errors_injective _ _ _ _ hsame := hsame

end Restore

end Httpware.Errors
