import Httpware.Errors.Copies

/-!
# Messages built on first access

A `StatusError` builds its message when its `args` are read first. A program cannot tell it from one that
builds the message in its constructor (`lazy_refines_eager`): in every state the errors stand for those
of the other program (`Heap.forced`), whose arguments are what reading them would give. The program must
not disturb an error that was not read yet (`Disturbs`): not change its response, not replace it, and not
make the response the lone argument, by which the property tells that the message is not built.

What is read of an error says nothing of the secrets in the URL of its request, in whatever order it is
read, changed and copied (`messages_public`).
-/

namespace Httpware.Errors

open Python (Error UrlLibrary)
open Redaction

/-! ## What the errors stand for -/

/-- The error that has its message built. -/
def ErrorObject.forced (lib : UrlLibrary) (objects : List Content) (e : ErrorObject (List Value)) :
    ErrorObject (Except Error (List Value)) :=
  ⟨e.cls, e.dict, e.slots, (readArgs lib objects e).1⟩

/-- All of them. -/
def Heap.forced (lib : UrlLibrary) (h : Heap (List Value)) : Heap (Except Error (List Value)) :=
  ⟨h.objects, h.errors.map (ErrorObject.forced lib h.objects)⟩

/-- The operation would change what an error stands for that was not read yet. -/
def Disturbs (h : Heap (List Value)) : Action → Prop
  | .change id _ => ∃ e ∈ h.errors, e.isUnread = true ∧ e.vars "response" = .object id
  | .assign i args => ∃ e, h.errors[i]? = some e ∧ e.cls.isStatusError = true ∧
      args = [e.vars "response"]
  | .setattr i name value => name = "response" ∧ ∃ e, h.errors[i]? = some e ∧
      value ≠ e.vars "response" ∧ (e.isUnread = true ∨ e.args = [value])
  | _ => False

/-- No operation of a run disturbs an error. -/
def Undisturbed (lib : UrlLibrary) (limit : ℕ) (run : List (Action × Shown)) : Prop :=
  ∀ before a shown after h, run = before ++ (a, shown) :: after →
    (errorObjects (lazyArgs lib) lib limit).Runs before h → ¬ Disturbs h a

section Forced

variable {lib : UrlLibrary} {limit : ℕ} {h : Heap (List Value)} {e : ErrorObject (List Value)}

/-- An error that was read stands for the same. -/
theorem forced_settled : (e.settled lib h.objects).forced lib h.objects = e.forced lib h.objects := by
  unfold ErrorObject.forced
  rw [readArgs_settled]
  rfl

/-- An error in its place. -/
theorem forced_put (i : ℕ) :
    (h.put i e).forced lib = (h.forced lib).put i (e.forced lib h.objects) := by
  unfold Heap.forced Heap.put
  dsimp only
  rw [List.map_set]

/-- Where an error is. -/
theorem getElem?_forced (i : ℕ) :
    (h.forced lib).errors[i]? = (h.errors[i]?).map (ErrorObject.forced lib h.objects) :=
  List.getElem?_map

/-- New objects change nothing. -/
theorem forced_errors_kept (lib : UrlLibrary) {h : Heap (List Value)} (hh : h.Known)
    {objects : List Content}
    (hkept : ∀ id < h.objects.length, objects[id]? = h.objects[id]?) :
    h.errors.map (ErrorObject.forced lib objects) =
      h.errors.map (ErrorObject.forced lib h.objects) := by
  refine List.map_congr_left fun e he => ?_
  unfold ErrorObject.forced
  rw [readArgs_kept (hh e he) hkept]

/-- The response that an error has is the value of its attribute. -/
theorem response_of_vars {S T : Type} {objects : List Content} {e : ErrorObject S} {e' : ErrorObject T}
    (hsame : e.vars "response" = e'.vars "response") : e.response objects = e'.response objects := by
  have hvars {S : Type} (e : ErrorObject S) : e.response objects =
      ErrorObject.response objects ⟨e.cls, [("response", e.vars "response")], [], ()⟩ := by
    unfold ErrorObject.response ErrorObject.vars
    cases e.dict.lookup "response" with
    | none => rfl
    | some value => rfl
  rw [hvars e, hvars e', hsame]
  rfl

/-- An error with another response object. -/
theorem readArgs_change {objects : List Content} {id : ℕ} {r : ReceivedResponse}
    (hother : ¬ (e.isUnread = true ∧ e.vars "response" = .object id)) :
    readArgs lib (objects.set id (.response r)) e = readArgs lib objects e := by
  by_cases hunread : e.isUnread = true
  · have hne : e.vars "response" ≠ .object id := fun hvars => hother ⟨hunread, hvars⟩
    have hresponse : e.response (objects.set id (.response r)) = e.response objects := by
      unfold ErrorObject.response
      unfold ErrorObject.vars at hne
      cases hlookup : e.dict.lookup "response" with
      | none => rfl
      | some value =>
        cases value with
        | object id' =>
          rw [hlookup, Option.getD_some] at hne
          have hid : id ≠ id' := fun hsame => hne (hsame ▸ rfl)
          simp only [List.getElem?_set_ne hid]
        | _ => rfl
    unfold readArgs ErrorObject.summary
    rw [hresponse]
  · have hread : e.isUnread = false := Bool.not_eq_true _ ▸ hunread
    rw [readArgs_of_read hread, readArgs_of_read hread]

/-! ## Operations -/

/-- What is shown of an error, and what reading it leaves. -/
theorem show_forced (lib : UrlLibrary) (h : Heap (List Value)) (e : ErrorObject (List Value))
    (what : Read) :
    (eagerArgs lib).show lib h.objects (e.forced lib h.objects) what =
      (((lazyArgs lib).show lib h.objects e what).1, (e.forced lib h.objects).args) := by
  refine Prod.ext ?_ ?_
  · rw [show_eq, show_eq]
    rfl
  · unfold ArgsRule.show
    cases what with
    | args => rfl
    | str =>
      have hstr : (e.forced lib h.objects).osErrorStr = e.osErrorStr := rfl
      dsimp only
      rw [hstr]
      cases e.osErrorStr with
      | none => rfl
      | some shown => rfl
    | repr =>
      dsimp only
      split_ifs
      · rfl
      · rfl
    | getattr name => rfl

theorem read_forced (i : ℕ) (what : Read) :
    (h.forced lib).read (eagerArgs lib) lib i what =
      (h.read (lazyArgs lib) lib i what).map fun r => (r.1, r.2.forced lib) := by
  unfold Heap.read
  rw [getElem?_forced]
  cases h.errors[i]? with
  | none => rfl
  | some e =>
    have hcan : (e.forced lib h.objects).canRead what = e.canRead what := by
      cases what with
      | _ => rfl
    rw [Option.map_some, Option.filter_some, Option.filter_some, hcan]
    split_ifs
    swap
    · rfl
    have hshow := show_forced lib h e what
    have hobjects : (h.forced lib).objects = h.objects := rfl
    have hleft : ErrorObject.forced lib h.objects
        { e with args := ((lazyArgs lib).show lib h.objects e what).2 } = e.forced lib h.objects := by
      rcases show_leaves lib h.objects e what with hleft | hleft
      · rw [hleft]
      · rw [hleft, forced_settled]
    simp only [Option.map_some, hobjects, hshow, forced_put, hleft]

/-- The arguments of an error are assigned. -/
theorem forced_assign (lib : UrlLibrary) (h : Heap (List Value)) {args : List Value}
    (hargs : ¬ (e.cls.isStatusError = true ∧ args = [e.vars "response"])) :
    ErrorObject.forced lib h.objects { e with args } = ⟨e.cls, e.dict, e.slots, .ok args⟩ := by
  have hread : ErrorObject.isUnread { e with args } = false := by
    rw [Bool.eq_false_iff]
    intro hunread
    obtain ⟨hstatus, hsame⟩ := Bool.and_eq_true_iff.mp hunread
    exact hargs ⟨hstatus, of_decide_eq_true hsame⟩
  unfold ErrorObject.forced
  rw [readArgs_of_read hread]

theorem assign_forced {i : ℕ} {args : List Value} (hcalm : ¬ Disturbs h (.assign i args)) :
    step (eagerArgs lib) lib limit (h.forced lib) (.assign i args) =
      (step (lazyArgs lib) lib limit h (.assign i args)).map fun r => (r.1, r.2.forced lib) := by
  have hobjects : (h.forced lib).objects = h.objects := rfl
  unfold step
  dsimp only
  rw [getElem?_forced, hobjects]
  split_ifs
  · cases he : h.errors[i]? with
    | none => rfl
    | some e =>
      have hargs : ¬ (e.cls.isStatusError = true ∧ args = [e.vars "response"]) :=
        fun hsame => hcalm ⟨e, he, hsame⟩
      have hforced := forced_assign lib h hargs
      exact congrArg some (Prod.ext rfl ((forced_put i).trans (congrArg _ hforced)).symm)
  · rfl

/-- What is found after an attribute was set. -/
theorem lookup_setattr (name : String) (value : Value) (dict : List (String × Value))
    (name' : String) : (setattr name value dict).lookup name' =
      if name' = name then some value else dict.lookup name' := by
  induction dict with
  | nil =>
    unfold setattr
    rw [List.lookup_cons]
    by_cases hname : name' = name
    · rw [if_pos hname, beq_iff_eq.mpr hname]
    · rw [if_neg hname, beq_eq_false_iff_ne.mpr hname]
  | cons x xs ih =>
    unfold setattr
    by_cases hx : x.1 = name
    · rw [if_pos hx, List.lookup_cons, List.lookup_cons, hx]
      by_cases hname : name' = name
      · rw [if_pos hname, beq_iff_eq.mpr hname]
      · rw [if_neg hname, beq_eq_false_iff_ne.mpr hname]
    · rw [if_neg hx, List.lookup_cons, List.lookup_cons, ih]
      by_cases hname : name' = name
      · have hne : name' ≠ x.1 := fun hsame => hx (hsame.symm.trans hname)
        rw [if_pos hname, if_pos hname, beq_eq_false_iff_ne.mpr hne]
      · rw [if_neg hname, if_neg hname]

/-- An attribute is set that is not the response, or is the response of an error that was read. -/
theorem forced_setattr (lib : UrlLibrary) (h : Heap (List Value)) {name : String} {value : Value}
    (hcalm : ¬ (name = "response" ∧ value ≠ e.vars "response" ∧
      (e.isUnread = true ∨ e.args = [value]))) :
    ErrorObject.forced lib h.objects (e.setattr name value) =
      (e.forced lib h.objects).setattr name value := by
  let e' : ErrorObject (List Value) := e.setattr name value
  have hslot : name ∈ e.cls.slotNames → name ≠ "response" := by
    rintro hname rfl
    cases hcls : e.cls with
    | _ =>
      rw [hcls] at hname
      revert hname
      decide
  have hvars : e'.vars "response" = if "response" = name then value else e.vars "response" := by
    unfold ErrorObject.vars e' ErrorObject.setattr
    split_ifs with hname hsame hsame
    · exact absurd hsame.symm (hslot hname)
    · rfl
    · dsimp only
      rw [lookup_setattr, if_pos hsame]
      rfl
    · dsimp only
      rw [lookup_setattr, if_neg hsame]
  have hcls : e'.cls = e.cls := by
    unfold e' ErrorObject.setattr
    split_ifs
    · rfl
    · rfl
  have hargs : e'.args = e.args := by
    unfold e' ErrorObject.setattr
    split_ifs
    · rfl
    · rfl
  suffices hread : (readArgs lib h.objects e').1 = (readArgs lib h.objects e).1 by
    have hforced : ErrorObject.forced lib h.objects e' =
        ⟨e'.cls, e'.dict, e'.slots, (readArgs lib h.objects e').1⟩ := rfl
    rw [hforced, hread]
    unfold e' ErrorObject.setattr ErrorObject.forced
    dsimp only
    split_ifs
    · rfl
    · rfl
  by_cases hsame : e'.vars "response" = e.vars "response"
  · -- The property sees no difference.
    have hunread : e'.isUnread = e.isUnread := by
      unfold ErrorObject.isUnread
      rw [hsame, hcls, hargs]
    have hsummary : e'.summary lib h.objects = e.summary lib h.objects := by
      unfold ErrorObject.summary
      rw [response_of_vars hsame]
    unfold readArgs
    rw [hunread, hsummary, hargs]
  · -- The response is another one, and the arguments are neither.
    have hname : "response" = name := by
      by_contra hne
      exact hsame (hvars.trans (if_neg hne))
    rw [if_pos hname] at hvars
    have hother : ¬ (e.isUnread = true ∨ e.args = [value]) := fun hor =>
      hcalm ⟨hname.symm, fun hvalue => hsame (hvars.trans hvalue), hor⟩
    have hread : e.isUnread = false := Bool.eq_false_iff.mpr fun hunread => hother (.inl hunread)
    have hread' : e'.isUnread = false := by
      rw [Bool.eq_false_iff]
      intro hunread
      have hlone : e'.args = [e'.vars "response"] :=
        of_decide_eq_true (Bool.and_eq_true_iff.mp hunread).2
      exact hother (.inr (hargs ▸ hvars ▸ hlone))
    rw [readArgs_of_read hread, readArgs_of_read hread', hargs]

theorem setattr_forced {i : ℕ} {name : String} {value : Value}
    (hcalm : ¬ Disturbs h (.setattr i name value)) :
    step (eagerArgs lib) lib limit (h.forced lib) (.setattr i name value) =
      (step (lazyArgs lib) lib limit h (.setattr i name value)).map fun r => (r.1, r.2.forced lib) := by
  have hobjects : (h.forced lib).objects = h.objects := rfl
  have hlength : (h.forced lib).errors.length = h.errors.length := List.length_map _
  unfold step
  dsimp only
  rw [getElem?_forced, hobjects, hlength]
  split_ifs
  · cases he : h.errors[i]? with
    | none => rfl
    | some e =>
      have hcls : (e.forced lib h.objects).cls = e.cls := rfl
      rw [Option.map_some, Option.filter_some, Option.filter_some, hcls]
      split_ifs
      · have hresponse : ¬ (name = "response" ∧ value ≠ e.vars "response" ∧
            (e.isUnread = true ∨ e.args = [value])) :=
          fun hdisturbs => hcalm ⟨hdisturbs.1, e, he, hdisturbs.2⟩
        have hforced := forced_setattr lib h hresponse
        exact congrArg some (Prod.ext rfl ((forced_put i).trans (congrArg _ hforced)).symm)
      · rfl
  · rfl

theorem change_forced {id : ℕ} {r : ReceivedResponse} (hcalm : ¬ Disturbs h (.change id r)) :
    step (eagerArgs lib) lib limit (h.forced lib) (.change id r) =
      (step (lazyArgs lib) lib limit h (.change id r)).map fun r => (r.1, r.2.forced lib) := by
  have hobjects : (h.forced lib).objects = h.objects := rfl
  have herrors : h.errors.map (ErrorObject.forced lib h.objects) =
      h.errors.map (ErrorObject.forced lib (h.objects.set id (.response r))) := by
    refine List.map_congr_left fun e he => ?_
    unfold ErrorObject.forced
    rw [readArgs_change fun hunread => hcalm ⟨e, he, hunread⟩]
  unfold step
  dsimp only
  rw [hobjects]
  split
  · exact congrArg some (Prod.ext rfl (congrArg (Heap.mk _) herrors))
  · rfl

/-- A constructor sees of an error its class and attributes. -/
theorem build_forced (construction : Construction) :
    construction.build (h.forced lib) = construction.build h := by
  have hobjects : (h.forced lib).objects = h.objects := rfl
  have hlength : (h.forced lib).errors.length = h.errors.length := List.length_map _
  have horiginal (v : Value) : (h.forced lib).original v = h.original v := by
    cases v with
    | error i =>
      unfold Heap.original
      dsimp only
      rw [getElem?_forced]
      cases h.errors[i]? with
      | none => rfl
      | some e =>
        have hdict : (e.forced lib h.objects).dict = e.dict := rfl
        rw [Option.map_some, Option.filter_some, Option.filter_some, hdict]
        split_ifs
        · rfl
        · rfl
    | _ => rfl
  have hmake : construction.make (h.forced lib) = construction.make h := by
    cases construction with
    | decode received responseModel original =>
      unfold Construction.make
      dsimp only
      rw [horiginal]
    | _ => rfl
  unfold Construction.build
  rw [hmake, hobjects, hlength]

theorem construct_forced (construction : Construction) :
    step (eagerArgs lib) lib limit (h.forced lib) (.construct construction) =
      (step (lazyArgs lib) lib limit h (.construct construction)).map
        fun r => (r.1, r.2.forced lib) := by
  have hobjects : (h.forced lib).objects = h.objects := rfl
  have hlength : (h.forced lib).errors.length = h.errors.length := List.length_map _
  unfold step
  dsimp only
  rw [build_forced, hobjects, hlength]
  cases construction.build h with
  | none => rfl
  | some e =>
    have hadd : (Heap.forced lib ⟨h.objects, h.errors ++ [e]⟩).errors =
        (h.forced lib).errors ++ [e.forced lib h.objects] := List.map_append
    exact congrArg some (Prod.ext rfl (congrArg (Heap.mk h.objects) hadd.symm))

theorem make_forced (hh : h.Known) (content : Content) :
    step (eagerArgs lib) lib limit (h.forced lib) (.make content) =
      (step (lazyArgs lib) lib limit h (.make content)).map fun r => (r.1, r.2.forced lib) := by
  have hkept : ∀ id < h.objects.length, (h.objects ++ [content])[id]? = h.objects[id]? :=
    fun id hid => List.getElem?_append_left hid
  have herrors := forced_errors_kept lib hh hkept
  exact congrArg some (Prod.ext rfl (congrArg (Heap.mk (h.objects ++ [content])) herrors.symm))

theorem reduce_forced (lib : UrlLibrary) (h : Heap (List Value)) (i : ℕ) :
    (h.forced lib).reduce (eagerArgs lib) i =
      (h.reduce (lazyArgs lib) i).map (Prod.map id (Heap.forced lib)) := by
  unfold Heap.reduce
  rw [getElem?_forced, Option.map_map, Option.map_map]
  refine congrArg (h.errors[i]?.map ·) (funext fun e => Prod.ext rfl ?_)
  have hput : (h.put i (e.settled lib h.objects)).forced lib = _ := forced_put i
  rw [forced_settled] at hput
  exact hput.symm

/-- A copy has its message built. -/
theorem forced_restore {h' : Heap (List Value)} {ρ : Names} (hh : h.Known) (hρ : Renaming h h' ρ)
    {i : ℕ} {r : Reduced} (hr : h.reduced lib i = some (.ok r)) :
    (r.restore (lazyArgs lib) ρ).forced lib h'.objects = r.restore (eagerArgs lib) ρ := by
  obtain ⟨e, he, hread, hrestore⟩ := restore_eq ρ hr
  have hknown := (hh e (List.mem_of_getElem? he)).anew hread
  have hunread := hρ.isUnread hknown (isUnread_anew hread)
  rw [← hrestore] at hunread
  unfold ErrorObject.forced
  rw [readArgs_of_read hunread]
  rfl

/-- Copies are added to a heap in which some arguments were read. -/
theorem forced_add {h1 h' : Heap (List Value)} {ρ : Names} (hh : h.Known) (hs : h.Settles lib h1)
    (hρ : Renaming h h' ρ) {copies : List Reduced}
    (hcopies : ∀ r ∈ copies, ∃ i, h.reduced lib i = some (.ok r))
    (herrors : h'.errors = h1.errors ++ copies.map (Reduced.restore (lazyArgs lib) ρ)) :
    h'.forced lib = ⟨h'.objects,
      (h1.forced lib).errors ++ copies.map (Reduced.restore (eagerArgs lib) ρ)⟩ := by
  have hkept : ∀ id < h1.objects.length, h'.objects[id]? = h1.objects[id]? := by
    rw [hs.objects]
    exact hρ.kept
  have hold := forced_errors_kept lib (hs.known hh) hkept
  unfold Heap.forced
  dsimp only
  rw [herrors, List.map_append, hold, List.map_map]
  refine congrArg (fun errors => Heap.mk h'.objects (_ ++ errors)) (List.map_congr_left fun r hr => ?_)
  obtain ⟨i, hi⟩ := hcopies r hr
  exact forced_restore hh hρ hi

theorem shallowCopy_forced (hh : h.Known) (i : ℕ) :
    (h.forced lib).shallowCopy (eagerArgs lib) i =
      (h.shallowCopy (lazyArgs lib) i).map fun r => (r.1, r.2.forced lib) := by
  unfold Heap.shallowCopy
  rw [reduce_forced, Option.map_map, Option.map_map]
  cases hreduce : h.reduce (lazyArgs lib) i with
  | none => rfl
  | some reduction =>
    obtain ⟨result, h1⟩ := reduction
    have hs := reduce_settles hreduce
    cases result with
    | error error => rfl
    | ok r =>
      have hr : h.reduced lib i = some (.ok r) := by
        unfold Heap.reduced
        rw [hreduce]
        rfl
      have hlength : (h1.forced lib).errors.length = h1.errors.length := List.length_map _
      have hcopies : ∀ r' ∈ [r], ∃ i, h.reduced lib i = some (.ok r') :=
        fun r' hr' => ⟨i, List.mem_singleton.mp hr' ▸ hr⟩
      have hadd := forced_add hh hs (renaming_same hs [r.restore (lazyArgs lib) .same]) hcopies rfl
      refine congrArg some (Prod.ext (congrArg Shown.created hlength) ?_)
      exact hadd.symm

theorem deepCopy_forced (hh : h.Known) (mode : CopyMode) (i : ℕ) :
    (h.forced lib).deepCopy (eagerArgs lib) mode limit i =
      (h.deepCopy (lazyArgs lib) mode limit i).map fun r => (r.1, r.2.forced lib) := by
  have hlength : (h.forced lib).errors.length = h.errors.length := List.length_map _
  have hvisit : (h.forced lib).visit (eagerArgs lib) mode limit {} (.error i) = _ :=
    visit_map (Heap.forced lib) (fun _ _ => rfl) (reduce_forced lib) limit h {} (.error i)
  unfold Heap.deepCopy
  rw [hlength, hvisit]
  split_ifs with hi
  · have hvisited := visit_error_spec lib limit mode hh hi
    cases hresult : h.visit (lazyArgs lib) mode limit {} (.error i) with
    | mk result h1 =>
      rw [hresult] at hvisited
      cases result with
      | error error => rfl
      | ok m =>
        have hmet := hvisited.met m rfl
        have hs : h.Settles lib h1 := hvisited.settles
        have hnames : m.names (h1.forced lib) = m.names h1 := by
          unfold Memo.names Heap.forced
          dsimp only
          rw [List.length_map]
        have hcopies : ∀ r ∈ m.errors.map Prod.snd, ∃ i, h.reduced lib i = some (.ok r) := by
          intro r hr
          obtain ⟨x, hx, rfl⟩ := List.mem_map.mp hr
          exact ⟨x.1, hmet.sound.errors x hx⟩
        have hadd := forced_add hh hs (restore_renaming hs hmet.sound) hcopies
          (by rw [List.map_map]; rfl)
        rw [List.map_map] at hadd
        refine congrArg some (Prod.ext ?_ ?_)
        · exact congrArg (fun ρ : Names => Shown.created (ρ.error i)) hnames
        · dsimp only [Prod.map]
          unfold Heap.restore at hadd ⊢
          rw [hnames, hadd]
          rfl
  · rfl

theorem copy_forced (hh : h.Known) (i : ℕ) (mode : CopyMode) :
    (h.forced lib).copy (eagerArgs lib) limit i mode =
      (h.copy (lazyArgs lib) limit i mode).map fun r => (r.1, r.2.forced lib) := by
  cases mode with
  | shallow => exact shallowCopy_forced hh i
  | deep => exact deepCopy_forced hh .deep i
  | pickled => exact deepCopy_forced hh .pickled i

/-- One operation that disturbs no error does to what the errors stand for what it does to them. -/
theorem step_forced (lib : UrlLibrary) (limit : ℕ) {h : Heap (List Value)} (hh : h.Known) {a : Action}
    (hcalm : ¬ Disturbs h a) :
    step (eagerArgs lib) lib limit (h.forced lib) a =
      (step (lazyArgs lib) lib limit h a).map fun r => (r.1, r.2.forced lib) := by
  cases a with
  | make content => exact make_forced hh content
  | change id r => exact change_forced hcalm
  | construct construction => exact construct_forced construction
  | read i what => exact read_forced i what
  | assign i args => exact assign_forced hcalm
  | setattr i name value => exact setattr_forced hcalm
  | copy i mode => exact copy_forced hh i mode

end Forced

/-- A program that disturbs no error before it is read is shown the same, operation by operation, as if
every constructor had built its message: what raises then raises there, when the message is asked for.
And what it does next, unless that disturbs an error, is done or refused alike. -/
theorem lazy_refines_eager (lib : UrlLibrary) (limit : ℕ) {run : List (Action × Shown)}
    {h : Heap (List Value)} (hrun : (errorObjects (lazyArgs lib) lib limit).Runs run h)
    (hcalm : Undisturbed lib limit run) :
    (errorObjects (eagerArgs lib) lib limit).Runs run (h.forced lib) ∧
      ∀ a, ¬ Disturbs h a → (step (eagerArgs lib) lib limit (h.forced lib) a).map Prod.fst =
        (step (lazyArgs lib) lib limit h a).map Prod.fst := by
  refine ⟨?_, fun a ha => ?_⟩
  · induction hrun with
    | nil => exact .nil
    | @snoc run t t' a shown hrun hstep ih =>
      have hrest : Undisturbed lib limit run := fun before a' shown' after s hsame =>
        hcalm before a' shown' (after ++ [(a, shown)]) s
          (by rw [hsame, List.append_assoc, List.cons_append])
      have hlast : ¬ Disturbs t a := hcalm run a shown [] t rfl hrun
      have hforced := step_forced lib limit (known_of_runs hrun) hlast
      have hstep' : step (lazyArgs lib) lib limit t a = some (shown, t') := hstep
      rw [hstep'] at hforced
      exact (ih hrest).snoc hforced
  · rw [step_forced lib limit (known_of_runs hrun) ha, Option.map_map]
    rfl

/-- A program that raises an error for a response, prints it, and prints a copy of it. -/
def printed (r : ReceivedResponse) : List Action :=
  [.make (.response r), .construct (.response (.ofStatus r.response.statusCode) 0), .read 0 .str,
    .copy 0 .deep, .read 1 .repr]

/-- What a program is shown. -/
def outputs (lib : UrlLibrary) (limit : ℕ) (actions : List Action) : Option (List Shown) :=
  ((errorObjects (lazyArgs lib) lib limit).exec {} actions).map fun r => r.1.map Prod.snd

/-- Its messages. -/
def printedLogin : List Shown :=
  [.created 0, .created 0, .text "404 GET https://h/p?k=REDACTED#f", .created 1,
    .text "<NotFoundError status=404 method=GET url=https://h/p?k=REDACTED#f>"]

/-- It is shown the same by errors that build their messages at once. -/
theorem lazy_refines_eager_printed : ∃ h,
    (errorObjects (eagerArgs UrlLibrary.ascii) UrlLibrary.ascii 100).Runs
      ((printed loginNotFound).zip printedLogin) h := by
  have houtputs : (errorObjects (lazyArgs UrlLibrary.ascii) UrlLibrary.ascii 100).observe (fun _ => ()) {}
      (printed loginNotFound) = some (printedLogin, ()) := by decide +kernel
  obtain ⟨h, hrun, -⟩ := Machine.exists_runsFrom_of_observe houtputs
  refine ⟨_, (lazy_refines_eager UrlLibrary.ascii 100 hrun ?_).1⟩
  -- It only makes, reads and copies.
  intro before a shown after h' hsame _
  have hmem : (a, shown) ∈ (printed loginNotFound).zip printedLogin :=
    hsame ▸ List.mem_append_right _ List.mem_cons_self
  have ha : a ∈ printed loginNotFound := (List.of_mem_zip hmem).1
  simp only [printed, List.mem_cons, List.not_mem_nil, or_false] at ha
  rcases ha with rfl | rfl | rfl | rfl | rfl
  all_goals exact fun h => h

/-! ## Secrets -/

/-- The response with another URL for its request. -/
def ReceivedResponse.withUrl (f : String → String) (r : ReceivedResponse) : ReceivedResponse :=
  { r with request := r.request.withUrl f }

def Content.withUrl (f : String → String) : Content → Content
  | response r => response (r.withUrl f)
  | other object => other object

def Heap.withUrl {S : Type} (f : String → String) (h : Heap S) : Heap S :=
  { h with objects := h.objects.map (Content.withUrl f) }

def Action.withUrl (f : String → String) : Action → Action
  | make content => make (content.withUrl f)
  | change id r => change id (r.withUrl f)
  | a => a

section WithUrl

variable {lib : UrlLibrary} {limit : ℕ} {f : String → String}
  (hf : ∀ url : String, redactUrl lib (f url).toList = redactUrl lib url.toList)
  {objects : List Content}

/-- The response of an error has the other URL. -/
theorem response_withUrl {S : Type} (e : ErrorObject S) :
    e.response (objects.map (Content.withUrl f)) =
      (e.response objects).map (ReceivedResponse.withUrl f) := by
  unfold ErrorObject.response
  cases e.dict.lookup "response" with
  | none => rfl
  | some value =>
    cases value with
    | object id =>
      dsimp only
      rw [List.getElem?_map]
      cases objects[id]? with
      | none => rfl
      | some content =>
        cases content with
        | response r => rfl
        | other object => rfl
    | _ => rfl

include hf

/-- The messages do not. -/
theorem summary_withUrl {S : Type} (e : ErrorObject S) :
    e.summary lib (objects.map (Content.withUrl f)) = e.summary lib objects := by
  unfold ErrorObject.summary
  rw [response_withUrl]
  cases e.response objects with
  | error error => rfl
  | ok r =>
    have hurl : redactUrl lib (r.withUrl f).request.url.text.toList =
        redactUrl lib r.request.url.text.toList := hf r.request.url.text
    change (redactUrl lib (r.withUrl f).request.url.text.toList >>= _) = _
    rw [hurl]
    rfl

theorem statusRepr_withUrl {S : Type} (e : ErrorObject S) :
    e.statusRepr lib (objects.map (Content.withUrl f)) = e.statusRepr lib objects := by
  unfold ErrorObject.statusRepr
  rw [response_withUrl]
  cases e.response objects with
  | error error => rfl
  | ok r =>
    have hurl : redactUrl lib (r.withUrl f).request.url.text.toList =
        redactUrl lib r.request.url.text.toList := hf r.request.url.text
    change (redactUrl lib (r.withUrl f).request.url.text.toList >>= _) = _
    rw [hurl]
    rfl

theorem readArgs_withUrl (e : ErrorObject (List Value)) :
    readArgs lib (objects.map (Content.withUrl f)) e = readArgs lib objects e := by
  unfold readArgs
  rw [summary_withUrl hf]

/-- What is shown of an error, and what reading it leaves. -/
theorem show_withUrl (e : ErrorObject (List Value)) (what : Read) :
    (lazyArgs lib).show lib (objects.map (Content.withUrl f)) e what =
      (lazyArgs lib).show lib objects e what := by
  have hread : (lazyArgs lib).read (objects.map (Content.withUrl f)) e =
      (lazyArgs lib).read objects e := readArgs_withUrl hf e
  unfold ArgsRule.show
  rw [hread, statusRepr_withUrl hf]

theorem reduce_withUrl (h : Heap (List Value)) (i : ℕ) :
    (h.withUrl f).reduce (lazyArgs lib) i =
      (h.reduce (lazyArgs lib) i).map (Prod.map id (Heap.withUrl f)) := by
  unfold Heap.reduce
  rw [Option.map_map]
  refine congrArg (h.errors[i]?.map ·) (funext fun e => ?_)
  have hread : (lazyArgs lib).read (h.withUrl f).objects e = (lazyArgs lib).read h.objects e :=
    readArgs_withUrl hf e
  rw [hread]
  rfl

omit hf

/-- Objects refuse to be copied alike. -/
theorem refusal_withUrl (mode : CopyMode) (h : Heap (List Value)) (v : Value) :
    v.refusal mode (h.withUrl f).objects = v.refusal mode h.objects := by
  have hcontent : ∀ content : Content, (content.withUrl f).refusal mode = content.refusal mode := by
    intro content
    cases content with
    | response r =>
      cases mode with
      | _ => rfl
    | other object => rfl
  cases v with
  | object id =>
    change (h.objects.map (Content.withUrl f))[id]?.bind (·.refusal mode) =
      h.objects[id]?.bind (·.refusal mode)
    rw [List.getElem?_map]
    cases h.objects[id]? with
    | none => rfl
    | some content => exact hcontent content
  | _ => rfl

/-- The copies have the other URLs. -/
theorem restore_withUrl (h : Heap (List Value)) (m : Memo) :
    (h.withUrl f).restore (lazyArgs lib) m = (h.restore (lazyArgs lib) m).withUrl f := by
  have hnames : m.names (h.withUrl f) = m.names h := by
    unfold Memo.names Heap.withUrl
    dsimp only
    rw [List.length_map]
  have hobjects : m.objects.filterMap ((h.objects.map (Content.withUrl f))[·]?) =
      (m.objects.filterMap (h.objects[·]?)).map (Content.withUrl f) := by
    rw [List.map_filterMap]
    exact congrArg (m.objects.filterMap ·) (funext fun id => List.getElem?_map)
  unfold Heap.restore
  rw [hnames]
  unfold Heap.withUrl
  dsimp only
  rw [List.map_append, hobjects]

/-- A constructor sees how many objects there are, and what they are. -/
theorem build_withUrl (h : Heap (List Value)) (construction : Construction) :
    construction.build (h.withUrl f) = construction.build h := by
  have hlength : (h.withUrl f).objects.length = h.objects.length := List.length_map _
  have horiginal (v : Value) : (h.withUrl f).original v = h.original v := by
    cases v with
    | object id =>
      unfold Heap.original Heap.withUrl
      dsimp only
      rw [List.getElem?_map]
      cases h.objects[id]? with
      | none => rfl
      | some content =>
        cases content with
        | _ => rfl
    | _ => rfl
  have hmake : construction.make (h.withUrl f) = construction.make h := by
    cases construction with
    | decode received responseModel original =>
      unfold Construction.make
      dsimp only
      rw [horiginal]
    | _ => rfl
  unfold Construction.build
  rw [hmake, hlength]
  rfl

include hf

/-- A copy is made of the same values. -/
theorem copy_withUrl (h : Heap (List Value)) (i : ℕ) (mode : CopyMode) :
    (h.withUrl f).copy (lazyArgs lib) limit i mode =
      (h.copy (lazyArgs lib) limit i mode).map fun r => (r.1, r.2.withUrl f) := by
  have hdeep (mode : CopyMode) : (h.withUrl f).deepCopy (lazyArgs lib) mode limit i =
      (h.deepCopy (lazyArgs lib) mode limit i).map fun r => (r.1, r.2.withUrl f) := by
    have hvisit : (h.withUrl f).visit (lazyArgs lib) mode limit {} (.error i) = _ :=
      visit_map (Heap.withUrl f) (refusal_withUrl mode) (reduce_withUrl hf) limit h {} (.error i)
    have herrors : (h.withUrl f).errors = h.errors := rfl
    unfold Heap.deepCopy
    rw [herrors, hvisit]
    split_ifs
    · cases h.visit (lazyArgs lib) mode limit {} (.error i) with
      | mk result h1 =>
        cases result with
        | error error => rfl
        | ok m =>
          have hrestore : (h1.withUrl f).restore (lazyArgs lib) m = _ := restore_withUrl h1 m
          have hnames : m.names (h1.withUrl f) = m.names h1 := by
            unfold Memo.names Heap.withUrl
            dsimp only
            rw [List.length_map]
          refine congrArg some (Prod.ext ?_ hrestore)
          exact congrArg (fun ρ : Names => Shown.created (ρ.error i)) hnames
    · rfl
  cases mode with
  | shallow =>
    unfold Heap.copy Heap.shallowCopy
    dsimp only
    rw [reduce_withUrl hf]
    cases h.reduce (lazyArgs lib) i with
    | none => rfl
    | some reduction =>
      obtain ⟨result, h1⟩ := reduction
      cases result with
      | _ => rfl
  | deep => exact hdeep .deep
  | pickled => exact hdeep .pickled

/-- One operation is the same with other URLs that are redacted alike. -/
theorem step_withUrl (h : Heap (List Value)) (a : Action) :
    step (lazyArgs lib) lib limit (h.withUrl f) (a.withUrl f) =
      (step (lazyArgs lib) lib limit h a).map fun r => (r.1, r.2.withUrl f) := by
  have hobjects : (h.withUrl f).objects = h.objects.map (Content.withUrl f) := rfl
  have herrors : (h.withUrl f).errors = h.errors := rfl
  cases a with
  | make content =>
    unfold step Action.withUrl
    dsimp only
    rw [hobjects, List.length_map]
    unfold Heap.withUrl
    simp only [Option.map_some, List.map_append, List.map_singleton]
  | change id r =>
    unfold step Action.withUrl
    dsimp only
    rw [hobjects, List.getElem?_map]
    cases h.objects[id]? with
    | none => rfl
    | some content =>
      cases content with
      | response r' =>
        unfold Heap.withUrl
        simp only [Option.map_some, Content.withUrl, List.map_set]
      | other object => rfl
  | construct construction =>
    unfold step Action.withUrl
    dsimp only
    rw [build_withUrl, herrors]
    cases construction.build h with
    | none => rfl
    | some e => rfl
  | read i what =>
    unfold step Action.withUrl Heap.read
    dsimp only
    rw [hobjects, herrors]
    cases h.errors[i]?.filter fun e => e.canRead what with
    | none => rfl
    | some e =>
      simp only [Option.map_some, show_withUrl hf]
      rfl
  | assign i args =>
    unfold step Action.withUrl
    dsimp only
    rw [hobjects, herrors, List.length_map]
    split_ifs
    · cases h.errors[i]? with
      | none => rfl
      | some e => rfl
    · rfl
  | setattr i name value =>
    unfold step Action.withUrl
    dsimp only
    rw [hobjects, herrors, List.length_map]
    split_ifs
    · cases h.errors[i]?.filter fun e => e.cls.hasName name with
      | none => rfl
      | some e => rfl
    · rfl
  | copy i mode => exact copy_withUrl hf h i mode

end WithUrl

/-- Two operations that differ in the secrets of a URL only. -/
def Action.SameButSecrets (lib : UrlLibrary) (a a' : Action) : Prop :=
  a = a' ∨ ∃ response request request', Httpware.SameButSecrets lib request request' ∧
    (a = .make (.response ⟨response, request⟩) ∧ a' = .make (.response ⟨response, request'⟩) ∨
      ∃ id, a = .change id ⟨response, request⟩ ∧ a' = .change id ⟨response, request'⟩)

/-- With one URL for all that are redacted alike they are one operation. -/
theorem Action.SameButSecrets.withUrl_eq {lib : UrlLibrary} (hlib : lib.KeepsReservedOut)
    {a a' : Action} (h : a.SameButSecrets lib a') :
    a.withUrl (canonicalUrl lib) = a'.withUrl (canonicalUrl lib) := by
  rcases h with rfl | ⟨response, request, request', hsame, hactions⟩
  · rfl
  · have hrequest := hsame.withUrl_eq hlib
    have hreceived : ReceivedResponse.withUrl (canonicalUrl lib) ⟨response, request⟩ =
        ReceivedResponse.withUrl (canonicalUrl lib) ⟨response, request'⟩ :=
      congrArg (ReceivedResponse.mk response) hrequest
    rcases hactions with ⟨rfl, rfl⟩ | ⟨id, rfl, rfl⟩
    · exact congrArg (fun r => Action.make (.response r)) hreceived
    · exact congrArg (Action.change id) hreceived

/-- Whatever a program does with its errors: what it is shown of them, their `args`, messages, `repr`s
and attributes and those of their copies, says nothing of the secrets in the URLs of the requests. With
other userinfo and other values of the parameters every operation is done or refused as before, and
shows the same. -/
theorem messages_public {lib : UrlLibrary} (hlib : lib.KeepsReservedOut) (limit : ℕ)
    {actions actions' : List Action}
    (h : List.Forall₂ (Action.SameButSecrets lib) actions actions') :
    outputs lib limit actions = outputs lib limit actions' := by
  have hcanonical : ∀ actions : List Action,
      outputs lib limit (actions.map (Action.withUrl (canonicalUrl lib))) =
        outputs lib limit actions := by
    intro actions
    have hexec := Machine.exec_map (M := errorObjects (lazyArgs lib) lib limit)
      (N := errorObjects (lazyArgs lib) lib limit) (Heap.withUrl (canonicalUrl lib))
      (Action.withUrl (canonicalUrl lib)) id (step_withUrl (redactUrl_canonicalUrl lib)) {} actions
    have hstart : Heap.withUrl (canonicalUrl lib) ({} : Heap (List Value)) = {} := rfl
    rw [hstart] at hexec
    unfold outputs
    rw [hexec, Option.map_map]
    congr 1
    funext r
    simp only [Function.comp_apply, List.map_map]
    rfl
  have hsame : actions.map (Action.withUrl (canonicalUrl lib)) =
      actions'.map (Action.withUrl (canonicalUrl lib)) := by
    induction h with
    | nil => rfl
    | cons ha _ ih => rw [List.map_cons, List.map_cons, ha.withUrl_eq hlib, ih]
  rw [← hcanonical actions, hsame, hcanonical actions']

/-- The response to a request with other secrets. -/
def otherLoginNotFound : ReceivedResponse :=
  loginNotFound.withUrl fun _ => String.ofList SecretUrl.otherLoginUrl.text

/-- Both programs print the same. -/
theorem messages_public_login : outputs UrlLibrary.ascii 100 (printed loginNotFound) =
    outputs UrlLibrary.ascii 100 (printed otherLoginNotFound) := by
  have hsame : Httpware.SameButSecrets UrlLibrary.ascii loginNotFound.request
      otherLoginNotFound.request :=
    ⟨SecretUrl.loginUrl, SecretUrl.otherLoginUrl, rfl, by decide, rfl, rfl⟩
  exact messages_public UrlLibrary.ascii_keepsReservedOut 100
    (.cons (.inr ⟨_, _, _, hsame, .inl ⟨rfl, rfl⟩⟩)
      (.cons (.inl rfl) (.cons (.inl rfl) (.cons (.inl rfl) (.cons (.inl rfl) .nil)))))

end Httpware.Errors
