import Httpware.Errors.Renaming

/-!
# Copies of errors

A copy of an error, shallow, deep or by way of pickle, has the class of the error and shows what the error
shows, with what was copied renamed (`copy_spec`); and nothing else in the program is shown otherwise than
before, although copying a `StatusError` builds its message in place. It holds of errors of every class,
also of those whose constructor takes keywords only, since `__init__` is not called. Only the fields of
`OSError` are not copied: a `TimeoutError` is copied as if it were made anew of its arguments.
-/

namespace Httpware.Errors

open Python (Error UrlLibrary)
open Redaction

/-! ## Programs -/

/-- The attributes after one is set. -/
theorem mem_setattr {name : String} {value v : Value} {dict : List (String × Value)}
    (hv : v ∈ (setattr name value dict).map Prod.snd) : v = value ∨ v ∈ dict.map Prod.snd := by
  induction dict with
  | nil => exact .inl (List.mem_singleton.mp hv)
  | cons x xs ih =>
    unfold setattr at hv
    split_ifs at hv
    · rcases List.mem_cons.mp hv with rfl | hv
      · exact .inl rfl
      · exact .inr (List.mem_cons_of_mem _ hv)
    · rcases List.mem_cons.mp hv with rfl | hv
      · exact .inr List.mem_cons_self
      · exact (ih hv).imp id (List.mem_cons_of_mem _)

theorem ErrorObject.Known.setattr {n m : ℕ} {e : ErrorObject (List Value)} (he : e.Known n m)
    {name : String} {value : Value} (hvalue : value.isKnown n m) : (e.setattr name value).Known n m := by
  unfold ErrorObject.setattr
  split_ifs
  · refine ⟨he.args, he.dict, fun v hv => ?_⟩
    rcases mem_setattr hv with rfl | hv
    · exact hvalue
    · exact he.slots v hv
  · refine ⟨he.args, fun v hv => ?_, he.slots⟩
    rcases mem_setattr hv with rfl | hv
    · exact hvalue
    · exact he.dict v hv

section Copy

variable {lib : UrlLibrary} {limit : ℕ} {mode : CopyMode} {h h' : Heap (List Value)} {i : ℕ}
  {shown : Shown}

/-- How a copy ends: the arguments of some errors were read, and the copies are restored under their
names, or something obstructs them. -/
inductive Copied (lib : UrlLibrary) (limit : ℕ) (h : Heap (List Value)) (i : ℕ) :
    CopyMode → Shown → Heap (List Value) → Prop
  | unread {h1 : Heap (List Value)} {error : Error} (hs : h.Settles lib h1)
      (hread : h.reduced lib i = some (.error error)) : Copied lib limit h i .shallow (.raised error) h1
  | shallow {h1 : Heap (List Value)} {r : Reduced} (hs : h.Settles lib h1)
      (hread : h.reduced lib i = some (.ok r)) : Copied lib limit h i .shallow (.created h.errors.length)
        ⟨h1.objects, h1.errors ++ [r.restore (lazyArgs lib) .same]⟩
  | obstructed {mode : CopyMode} {h1 : Heap (List Value)} {error : CopyError} (hmode : mode ≠ .shallow)
      (hs : h.Settles lib h1) (hobstructs : h.Obstructs lib limit mode (.error i) error) :
      Copied lib limit h i mode error.shown h1
  | deep {mode : CopyMode} {h1 : Heap (List Value)} {m : Memo} (hmode : mode ≠ .shallow)
      (hs : h.Settles lib h1) (hmet : Met lib h {} m [.error i]) :
      Copied lib limit h i mode (.created ((m.names h1).error i)) (h1.restore (lazyArgs lib) m)

theorem shallowCopy_cases (hcopy : h.shallowCopy (lazyArgs lib) i = some (shown, h')) :
    Copied lib limit h i .shallow shown h' := by
  obtain ⟨⟨result, h1⟩, hreduce, hresult⟩ := Option.map_eq_some_iff.mp hcopy
  have hs := reduce_settles hreduce
  have hread : h.reduced lib i = some result := by
    unfold Heap.reduced
    rw [hreduce]
    rfl
  cases result with
  | error error =>
    cases hresult
    exact .unread hs hread
  | ok r =>
    cases hresult
    rw [hs.length]
    exact .shallow hs hread

theorem deepCopy_cases (hh : h.Known) (hmode : mode ≠ .shallow)
    (hcopy : h.deepCopy (lazyArgs lib) mode limit i = some (shown, h')) :
    Copied lib limit h i mode shown h' := by
  unfold Heap.deepCopy at hcopy
  split_ifs at hcopy with hi
  have hvisited := visit_error_spec lib limit mode hh hi
  cases hresult : h.visit (lazyArgs lib) mode limit {} (.error i) with
  | mk result h1 =>
    rw [hresult] at hcopy hvisited
    cases result with
    | error error =>
      cases hcopy
      obtain ⟨v, hv, hobstructs⟩ := hvisited.obstructed error rfl
      exact .obstructed hmode hvisited.settles (List.mem_singleton.mp hv ▸ hobstructs)
    | ok m =>
      cases hcopy
      exact .deep hmode hvisited.settles (hvisited.met m rfl)

theorem copy_cases (hh : h.Known) (hcopy : h.copy (lazyArgs lib) limit i mode = some (shown, h')) :
    Copied lib limit h i mode shown h' := by
  cases mode with
  | shallow => exact shallowCopy_cases hcopy
  | deep => exact deepCopy_cases hh (by decide) hcopy
  | pickled => exact deepCopy_cases hh (by decide) hcopy

/-- A copy keeps the values known. -/
theorem Copied.known (hh : h.Known) (hcopied : Copied lib limit h i mode shown h') : h'.Known := by
  cases hcopied with
  | unread hs _ => exact hs.known hh
  | obstructed _ hs _ => exact hs.known hh
  | @shallow h1 r hs hread =>
    obtain ⟨e, he, hargs, hrestore⟩ := restore_eq .same hread
    have hρ := renaming_same hs [r.restore (lazyArgs lib) .same]
    refine (hs.known hh).add le_rfl fun e' he' => ?_
    have hknown := hρ.known_rename ((hh e (List.mem_of_getElem? he)).anew hargs)
    rw [← hrestore] at hknown
    rw [List.mem_singleton.mp he']
    exact hknown
  | @deep mode h1 m hmode hs hmet =>
    have hρ := restore_renaming hs hmet.sound
    refine (hs.known hh).add (by rw [List.length_append]; omega) fun e' he' => ?_
    obtain ⟨x, hx, rfl⟩ := List.mem_map.mp he'
    obtain ⟨e, he, hargs, hrestore⟩ := restore_eq (m.names h1) (hmet.sound.errors x hx)
    have hknown := hρ.known_rename ((hh e (List.mem_of_getElem? he)).anew hargs)
    rw [← hrestore] at hknown
    exact hknown

end Copy

/-- One operation keeps the values known. -/
theorem step_known (lib : UrlLibrary) (limit : ℕ) {h h' : Heap (List Value)} {a : Action} {shown : Shown}
    (hh : h.Known) (hstep : step (lazyArgs lib) lib limit h a = some (shown, h')) : h'.Known := by
  cases a with
  | make content =>
    cases hstep
    intro e he
    exact (hh e he).mono (by simp) le_rfl
  | change id r =>
    unfold step at hstep
    dsimp only at hstep
    split at hstep
    · cases hstep
      intro e he
      exact (hh e he).mono List.length_set.ge le_rfl
    · cases hstep
  | construct construction =>
    obtain ⟨e, he, hmade⟩ := Option.map_eq_some_iff.mp hstep
    cases hmade
    have hknown := ErrorObject.known_iff.mp (Option.filter_eq_some_iff.mp he).2
    refine hh.add le_rfl fun e' he' => ?_
    rw [List.mem_singleton.mp he']
    exact hknown.mono le_rfl (by rw [List.length_append]; omega)
  | read i what =>
    obtain ⟨e, he, hread⟩ := Option.map_eq_some_iff.mp hstep
    cases hread
    have hknown := hh e (List.mem_of_getElem? (Option.filter_eq_some_iff.mp he).1)
    rcases show_leaves lib h.objects e what with hleft | hleft
    · exact hh.put (hleft.symm ▸ hknown)
    · exact hh.put (hleft.symm ▸ hknown.settled)
  | assign i args =>
    unfold step at hstep
    dsimp only at hstep
    split_ifs at hstep with hargs
    obtain ⟨e, he, hassign⟩ := Option.map_eq_some_iff.mp hstep
    cases hassign
    have hknown := hh e (List.mem_of_getElem? he)
    exact hh.put ⟨List.all_eq_true.mp hargs, hknown.dict, hknown.slots⟩
  | setattr i name value =>
    unfold step at hstep
    dsimp only at hstep
    split_ifs at hstep with hvalue
    obtain ⟨e, he, hset⟩ := Option.map_eq_some_iff.mp hstep
    cases hset
    have hknown := hh e (List.mem_of_getElem? (Option.filter_eq_some_iff.mp he).1)
    exact hh.put (hknown.setattr hvalue)
  | copy i mode => exact (copy_cases hh hstep).known hh

/-- In every state that a program reaches the values are known. -/
theorem known_of_runs {lib : UrlLibrary} {limit : ℕ} {run : List (Action × Shown)}
    {h : Heap (List Value)} (hrun : (errorObjects (lazyArgs lib) lib limit).Runs run h) : h.Known :=
  hrun.state_invariant (I := Heap.Known) (fun _ he => absurd he List.not_mem_nil)
    fun _ _ _ _ hh hstep => step_known lib limit hh hstep

/-- The error `copy` of the heap `h'` is a copy of `i`: it has its class, and shows what `i` made anew
shows, which is what `i` shows unless it is a `TimeoutError` whose fields are not those of its arguments. -/
structure CopyOf (lib : UrlLibrary) (h h' : Heap (List Value)) (ρ : Names) (i copy : ℕ) : Prop where
  cls : ∃ e e', h.errors[i]? = some e ∧ h'.errors[copy]? = some e' ∧ e'.cls = e.cls
  anew : ∀ what, h'.shows lib copy what = h.errors[i]?.map fun e =>
    ((lazyArgs lib).show lib h.objects (e.anew lib h.objects) what).1.rename ρ
  same : (∀ e, h.errors[i]? = some e → e.IsAnew) →
    ∀ what, h'.shows lib copy what = (h.shows lib i what).map (Shown.rename ρ)

section CopyOf

variable {lib : UrlLibrary} {h h' : Heap (List Value)} {ρ : Names} {i copy : ℕ} {m : Memo}

/-- An error that is restored is a copy. -/
theorem copyOf_of_restored (hh : h.Known) (hρ : Renaming h h' ρ) {r : Reduced}
    (hr : h.reduced lib i = some (.ok r))
    (hcopy : h'.errors[copy]? = some (r.restore (lazyArgs lib) ρ)) : CopyOf lib h h' ρ i copy := by
  obtain ⟨e, he, hread, hrestore⟩ := restore_eq ρ hr
  rw [hrestore] at hcopy
  have hknown := (hh e (List.mem_of_getElem? he)).anew hread
  have hshow := hρ.show hknown lib (isUnread_anew hread)
  refine ⟨⟨e, _, he, hcopy, ?_⟩, fun what => ?_, fun hanew what => ?_⟩
  · rw [anew_of_read hread]
    rfl
  · unfold Heap.shows
    rw [hcopy, he]
    exact congrArg some (hshow what)
  · unfold Heap.shows
    rw [hcopy, he]
    exact congrArg some ((hshow what).trans (congrArg _ (show_anew (hanew e he) hread what)))

/-- A traversal that ends has met all that is within the error. -/
theorem Met.has_within (hmet : Met lib h {} m [.error i]) {w : Value}
    (hw : h.Within lib (.error i) w) : m.Has w := by
  induction hw with
  | refl => exact hmet.has _ (List.mem_singleton_self _)
  | tail _ hholds ih =>
    obtain ⟨j, r, rfl, hr, hvalue⟩ := hholds
    obtain ⟨x, hx, hj⟩ := List.mem_map.mp ih
    have hreduced := hmet.sound.errors x hx
    rw [hj, hr] at hreduced
    cases hreduced
    exact hmet.closed x hx List.not_mem_nil _ hvalue

/-- New objects and errors do not change what the errors show. -/
theorem shows_added (hh : h.Known) {objects : List Content}
    (hkept : ∀ id < h.objects.length, objects[id]? = h.objects[id]?)
    (errors : List (ErrorObject (List Value))) {k : ℕ} (hk : k < h.errors.length) (what : Read) :
    Heap.shows lib ⟨objects, h.errors ++ errors⟩ k what = h.shows lib k what := by
  unfold Heap.shows
  dsimp only
  rw [List.getElem?_append_left hk, List.getElem?_eq_getElem hk]
  exact congrArg some (show_kept (hh _ (List.getElem_mem hk)) hkept what)

end CopyOf

/-- In every state that a program reaches, a copy of an error raises what reading its arguments raises,
or what obstructs a deep copy, or makes a copy under other names: a shallow copy holds what the error
holds, and a deep one has copies of all errors and objects within it. All errors of before, the copied
ones among them, show what they did. -/
theorem copy_spec (lib : UrlLibrary) (limit : ℕ) {run : List (Action × Shown)}
    {h h' : Heap (List Value)} {i : ℕ} {mode : CopyMode} {shown : Shown}
    (hrun : (errorObjects (lazyArgs lib) lib limit).Runs run h)
    (hcopy : step (lazyArgs lib) lib limit h (.copy i mode) = some (shown, h')) :
    (∀ k < h.errors.length, ∀ what, h'.shows lib k what = h.shows lib k what) ∧
    ((mode = .shallow ∧ ∃ error, h.reduced lib i = some (.error error) ∧ shown = .raised error) ∨
    (mode ≠ .shallow ∧ ∃ error,
      h.Obstructs lib limit mode (.error i) error ∧ shown = error.shown) ∨
    ∃ ρ copy, shown = .created copy ∧ h.errors.length ≤ copy ∧ Renaming h h' ρ ∧
      CopyOf lib h h' ρ i copy ∧
      (mode = .shallow → ρ = .same) ∧
      (mode ≠ .shallow → copy = ρ.error i ∧
        (∀ j, h.Within lib (.error i) (.error j) →
          h.errors.length ≤ ρ.error j ∧ CopyOf lib h h' ρ j (ρ.error j)) ∧
        ∀ id, h.Within lib (.error i) (.object id) → h.objects.length ≤ ρ.object id)) := by
  have hh := known_of_runs hrun
  have hcopied : Copied lib limit h i mode shown h' := copy_cases hh hcopy
  cases hcopied with
  | unread hs hread =>
    exact ⟨fun k _ what => hs.shows k what, .inl ⟨rfl, _, hread, rfl⟩⟩
  | obstructed hmode hs hobstructs =>
    exact ⟨fun k _ what => hs.shows k what, .inr (.inl ⟨hmode, _, hobstructs, rfl⟩)⟩
  | @shallow h1 r hs hread =>
    have hρ := renaming_same hs [r.restore (lazyArgs lib) .same]
    have hadded : (h1.errors ++ [r.restore (lazyArgs lib) .same])[h.errors.length]? =
        some (r.restore (lazyArgs lib) .same) := by
      rw [← hs.length, List.getElem?_concat_length]
    refine ⟨fun k hk what => ?_, .inr (.inr ⟨.same, _, rfl, le_rfl, hρ, ?_, fun _ => rfl,
      fun h => absurd rfl h⟩)⟩
    · rw [shows_added (hs.known hh) (fun _ _ => rfl) _ (hs.length.symm ▸ hk), hs.shows]
    · exact copyOf_of_restored hh hρ hread hadded
  | @deep mode h1 m hmode hs hmet =>
    have hρ := restore_renaming hs hmet.sound
    -- What is within the error has a copy of its own.
    have hcopyOf : ∀ j, h.Within lib (.error i) (.error j) →
        h.errors.length ≤ (m.names h1).error j ∧
          CopyOf lib h (h1.restore (lazyArgs lib) m) (m.names h1) j ((m.names h1).error j) := by
      intro j hj
      have hmem : j ∈ m.errors.map Prod.fst := hmet.has_within hj
      obtain ⟨r, hr, hrestored⟩ := restore_error h1 hmet.sound hmem
      have hle : h1.errors.length ≤ (m.names h1).error j := le_copyName hmem
      exact ⟨hs.length ▸ hle, copyOf_of_restored hh hρ hr hrestored⟩
    obtain ⟨hnew, hself⟩ := hcopyOf i .refl
    refine ⟨fun k hk what => ?_, .inr (.inr ⟨m.names h1, _, rfl, hnew, hρ, hself,
      fun h => absurd h hmode, fun _ => ⟨rfl, hcopyOf, fun id hid => ?_⟩⟩)⟩
    · have hkept : ∀ id < h1.objects.length,
          (h1.restore (lazyArgs lib) m).objects[id]? = h1.objects[id]? :=
        fun id hid => List.getElem?_append_left hid
      exact (shows_added (hs.known hh) hkept _ (hs.length.symm ▸ hk) what).trans (hs.shows k what)
    · have hle : h1.objects.length ≤ (m.names h1).object id := le_copyName (hmet.has_within hid)
      exact hs.objects ▸ hle

/-- A response to a request with a user, a password and a parameter. -/
def loginNotFound : ReceivedResponse where
  response := { statusCode := 404 }
  request :=
    { method := "GET"
      url := ⟨"https", "h", none, "h", String.ofList SecretUrl.loginUrl.text⟩ }

/-- The state of a program that has raised its error, and given up. -/
def exhausted : Heap (List Value) where
  objects := [.response loginNotFound]
  errors :=
    [⟨.ofStatus 404, [("response", .object 0)], [], [.object 0]⟩,
      ⟨.retryBudgetExhaustedError,
        [("last_response", .none), ("last_exception", .error 0), ("attempts", .int 3)], [],
        [.text "retry budget exhausted after 3 attempt(s)"]⟩]

/-- The deep copy of a `RetryBudgetExhaustedError` whose last error was not read yet: each shows the same
as its copy. -/
theorem copy_spec_exhausted : ∃ h' ρ copy,
    step (lazyArgs UrlLibrary.ascii) UrlLibrary.ascii 100 exhausted (.copy 1 .deep) =
        some (.created copy, h') ∧
      (∀ what, h'.shows UrlLibrary.ascii copy what =
        (exhausted.shows UrlLibrary.ascii 1 what).map (Shown.rename ρ)) ∧
      ∀ what, h'.shows UrlLibrary.ascii (ρ.error 0) what =
        (exhausted.shows UrlLibrary.ascii 0 what).map (Shown.rename ρ) := by
  have hcreated : (step (lazyArgs UrlLibrary.ascii) UrlLibrary.ascii 100 exhausted (.copy 1 .deep)).map
      Prod.fst = some (.created 2) := by decide +kernel
  obtain ⟨⟨shown, h'⟩, hstep, rfl⟩ := Option.map_eq_some_iff.mp hcreated
  have hmake : (errorObjects (lazyArgs UrlLibrary.ascii) UrlLibrary.ascii 100).step {}
      (.make (.response loginNotFound)) = some (.created 0, ⟨[.response loginNotFound], []⟩) := rfl
  have hraise : (errorObjects (lazyArgs UrlLibrary.ascii) UrlLibrary.ascii 100).step
      ⟨[.response loginNotFound], []⟩ (.construct (.response (.ofStatus 404) 0)) =
        some (.created 0, ⟨exhausted.objects, exhausted.errors.take 1⟩) := rfl
  have hgiveUp : (errorObjects (lazyArgs UrlLibrary.ascii) UrlLibrary.ascii 100).step
      ⟨exhausted.objects, exhausted.errors.take 1⟩
      (.construct (.retryBudgetExhausted .none (.error 0) 3)) = some (.created 1, exhausted) := rfl
  have hrun := ((Machine.RunsFrom.nil.snoc hmake).snoc hraise).snoc hgiveUp
  have hwithin : exhausted.Within UrlLibrary.ascii (.error 1) (.error 0) :=
    .single ⟨1, _, rfl, rfl, by decide⟩
  have hanew : ∀ e ∈ exhausted.errors, e.IsAnew := by
    intro e he hcls
    rcases List.mem_cons.mp he with rfl | he
    · cases hcls
    · rw [List.mem_singleton.mp he] at hcls
      cases hcls
  obtain ⟨-, hcases⟩ := copy_spec UrlLibrary.ascii 100 hrun hstep
  rcases hcases with ⟨hmode, -⟩ | ⟨-, error, -, herror⟩ |
    ⟨ρ, copy, hshown, -, -, hcopy, -, hdeep⟩
  · cases hmode
  · cases error with
    | _ => cases herror
  · cases hshown
    obtain ⟨-, hothers, -⟩ := hdeep (by decide)
    exact ⟨h', ρ, 2, hstep, hcopy.same fun e he => hanew e (List.mem_of_getElem? he),
      (hothers 0 hwithin).2.same fun e he => hanew e (List.mem_of_getElem? he)⟩

end Httpware.Errors
