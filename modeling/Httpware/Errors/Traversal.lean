import Httpware.Errors.Reading
import Mathlib.Data.List.Nodup
import Mathlib.Logic.Relation

/-!
# The traversal of a deep copy

A deep copy copies all that an error holds, other errors with what they hold included (`Heap.Within`). It
is a traversal with a memo: what it meets is in the memo when it ends, and so is what the errors of the
memo hold (`visit_spec`). If it ends otherwise, then because an error that it meets cannot be read,
because a value refuses to be copied, or because the stack is too small (`Heap.Obstructs`).
-/

namespace Httpware.Errors

open Python (Error UrlLibrary)
open Redaction

/-! ## What a copy meets -/

/-- A value is held by an error, as `__reduce__` returns it. -/
def Heap.Holds (lib : UrlLibrary) (h : Heap (List Value)) (v w : Value) : Prop :=
  ∃ i r, v = .error i ∧ h.reduced lib i = some (.ok r) ∧ w ∈ r.values

/-- A value is held by an error, by what it holds, and so on. -/
def Heap.Within (lib : UrlLibrary) (h : Heap (List Value)) : Value → Value → Prop :=
  Relation.ReflTransGen (h.Holds lib)

/-- Why the copy of a value fails: something within it has arguments that cannot be read, or refuses to
be copied, or the program has more errors than the stack takes. -/
def Heap.Obstructs (lib : UrlLibrary) (limit : ℕ) (mode : CopyMode) (h : Heap (List Value)) (v : Value) :
    CopyError → Prop
  | .raised error => ∃ i, h.Within lib v (.error i) ∧ h.reduced lib i = some (.error error)
  | .refused qualname => (∃ w, h.Within lib v w ∧ w.refusal mode h.objects = some qualname) ∨
      qualname = "RecursionError" ∧ limit < h.errors.length

/-- A value within another one obstructs its copy too. -/
theorem Heap.Obstructs.of_holds {lib : UrlLibrary} {limit : ℕ} {mode : CopyMode}
    {h : Heap (List Value)} {v w : Value} {error : CopyError} (hvw : h.Holds lib v w)
    (hw : h.Obstructs lib limit mode w error) : h.Obstructs lib limit mode v error := by
  cases error with
  | raised error =>
    obtain ⟨i, hi, hraised⟩ := hw
    exact ⟨i, .head hvw hi, hraised⟩
  | refused qualname =>
    rcases hw with ⟨u, hu, hrefused⟩ | hlimit
    · exact .inl ⟨u, .head hvw hu, hrefused⟩
    · exact .inr hlimit

namespace Memo

/-- What the memo has met is in the heap, and an error as `__reduce__` returns it. -/
structure Sound (lib : UrlLibrary) (h : Heap (List Value)) (m : Memo) : Prop where
  objects : ∀ id ∈ m.objects, id < h.objects.length
  errors : ∀ x ∈ m.errors, h.reduced lib x.1 = some (.ok x.2)
  nodup : (m.errors.map Prod.fst).Nodup

/-- The memo has met the value. -/
def Has (m : Memo) : Value → Prop
  | .object id => id ∈ m.objects
  | .error i => i ∈ m.errors.map Prod.fst
  | _ => True

/-- A memo has met what another one has, in the same order. -/
def Extends (m m' : Memo) : Prop :=
  ∃ objects errors, m' = ⟨m.objects ++ objects, m.errors ++ errors⟩

variable {m m' m'' : Memo}

theorem Extends.refl (m : Memo) : m.Extends m := ⟨[], [], by rw [List.append_nil, List.append_nil]⟩

theorem Extends.trans (h : m.Extends m') (h' : m'.Extends m'') : m.Extends m'' := by
  obtain ⟨objects, errors, rfl⟩ := h
  obtain ⟨objects', errors', rfl⟩ := h'
  exact ⟨objects ++ objects', errors ++ errors', by simp only [List.append_assoc]⟩

theorem Extends.mem_errors (h : m.Extends m') {x : ℕ × Reduced} (hx : x ∈ m.errors) :
    x ∈ m'.errors := by
  obtain ⟨objects, errors, rfl⟩ := h
  exact List.mem_append_left _ hx

theorem Extends.length_le (h : m.Extends m') : m.errors.length ≤ m'.errors.length := by
  obtain ⟨objects, errors, rfl⟩ := h
  rw [List.length_append]
  omega

theorem Has.mono (h : m.Extends m') {v : Value} (hv : m.Has v) : m'.Has v := by
  cases v with
  | object id =>
    obtain ⟨objects, errors, rfl⟩ := h
    exact List.mem_append_left _ hv
  | error i =>
    obtain ⟨x, hx, rfl⟩ := List.mem_map.mp hv
    exact List.mem_map_of_mem (h.mem_errors hx)
  | _ => exact trivial

/-- The empty memo. -/
theorem sound_empty (lib : UrlLibrary) (h : Heap (List Value)) : Sound lib h {} :=
  ⟨fun _ hid => absurd hid List.not_mem_nil, fun _ hx => absurd hx List.not_mem_nil, List.nodup_nil⟩

/-- No more errors are met than there are. -/
theorem Sound.length_lt {lib : UrlLibrary} {h : Heap (List Value)} (hm : m.Sound lib h) {i : ℕ}
    (hi : i < h.errors.length) (hnew : i ∉ m.errors.map Prod.fst) :
    m.errors.length < h.errors.length := by
  have hnodup : (i :: m.errors.map Prod.fst).Nodup := List.nodup_cons.mpr ⟨hnew, hm.nodup⟩
  have hsubset : i :: m.errors.map Prod.fst ⊆ List.range h.errors.length := by
    intro j hj
    rw [List.mem_range]
    rcases List.mem_cons.mp hj with rfl | hj
    · exact hi
    · obtain ⟨x, hx, rfl⟩ := List.mem_map.mp hj
      obtain ⟨e, he, -⟩ := exists_of_reduced_ok (hm.errors x hx)
      exact (List.getElem?_eq_some_iff.mp he).1
  have hle := (hnodup.subperm hsubset).length_le
  rw [List.length_cons, List.length_map, List.length_range] at hle
  omega

/-- The memo with an error that it did not have, and what the error is reduced to. -/
theorem Sound.note {lib : UrlLibrary} {h : Heap (List Value)} (hm : m.Sound lib h) {i : ℕ}
    (hnew : i ∉ m.errors.map Prod.fst) {r : Reduced} (hreduced : h.reduced lib i = some (.ok r)) :
    Sound lib h { m with errors := m.errors ++ [(i, r)] } := by
  refine ⟨hm.objects, fun x hx => ?_, ?_⟩
  · rcases List.mem_append.mp hx with hx | hx
    · exact hm.errors x hx
    · rw [List.mem_singleton.mp hx]
      exact hreduced
  · have hdisjoint : ∀ a ∈ m.errors.map Prod.fst, ∀ b ∈ [i], a ≠ b := by
      intro a ha b hb hab
      rw [hab, List.mem_singleton.mp hb] at ha
      exact hnew ha
    rw [List.map_append, List.map_singleton]
    exact List.nodup_append.mpr ⟨hm.nodup, List.nodup_singleton i, hdisjoint⟩

end Memo

/-- The traversal has met values: the memo has them, and what the errors that are new in it hold. -/
structure Met (lib : UrlLibrary) (h : Heap (List Value)) (m m' : Memo) (values : List Value) : Prop where
  sound : m'.Sound lib h
  grows : m.Extends m'
  has : ∀ v ∈ values, m'.Has v
  closed : ∀ x ∈ m'.errors, x ∉ m.errors → ∀ v ∈ x.2.values, m'.Has v

/-- How the traversal of values ends: the arguments of some errors were read, and all was met or
something obstructs the copy of a value. -/
structure Visited (lib : UrlLibrary) (limit : ℕ) (mode : CopyMode) (h : Heap (List Value)) (m : Memo)
    (values : List Value) (result : Except CopyError Memo × Heap (List Value)) : Prop where
  settles : h.Settles lib result.2
  met : ∀ m', result.1 = .ok m' → Met lib h m m' values
  obstructed : ∀ error, result.1 = .error error → ∃ v ∈ values, h.Obstructs lib limit mode v error

section Visit

variable {lib : UrlLibrary} {limit : ℕ} {mode : CopyMode} {h h' : Heap (List Value)} {m m' : Memo}
  {values : List Value}

/-- All was met. -/
theorem Visited.ok (hs : h.Settles lib h') (hmet : Met lib h m m' values) :
    Visited lib limit mode h m values (.ok m', h') := by
  refine ⟨hs, fun m2 hresult => ?_, fun error hresult => ?_⟩
  · cases hresult
    exact hmet
  · cases hresult

/-- A value obstructs the copy. -/
theorem Visited.error (hs : h.Settles lib h') {v : Value} (hv : v ∈ values) {error : CopyError}
    (hobstructs : h.Obstructs lib limit mode v error) :
    Visited lib limit mode h m values (.error error, h') := by
  refine ⟨hs, fun m2 hresult => ?_, fun error' hresult => ?_⟩
  · cases hresult
  · cases hresult
    exact ⟨v, hv, hobstructs⟩

/-- An error is met if it is in the memo while what it holds is met. -/
theorem Visited.of_held {i : ℕ} {r : Reduced} (hreduced : h.reduced lib i = some (.ok r))
    {result : Except CopyError Memo × Heap (List Value)}
    (hheld : Visited lib limit mode h { m with errors := m.errors ++ [(i, r)] } r.values result) :
    Visited lib limit mode h m [.error i] result := by
  have hgrows : m.Extends { m with errors := m.errors ++ [(i, r)] } :=
    ⟨[], [(i, r)], by rw [List.append_nil]⟩
  refine ⟨hheld.settles, fun m' hm' => ?_, fun error herror => ?_⟩
  · have hmet := hheld.met m' hm'
    have hself : m'.Has (.error i) := List.mem_map_of_mem
      (hmet.grows.mem_errors (List.mem_append_right _ (List.mem_singleton_self (i, r))))
    refine ⟨hmet.sound, hgrows.trans hmet.grows, fun w hw => ?_, fun x hx hnew => ?_⟩
    · rw [List.mem_singleton.mp hw]
      exact hself
    · by_cases hx1 : x ∈ m.errors ++ [(i, r)]
      · rcases List.mem_append.mp hx1 with hold | hx1
        · exact absurd hold hnew
        · rw [List.mem_singleton.mp hx1]
          exact hmet.has
      · exact hmet.closed x hx hx1
  · obtain ⟨w, hw, hobstructs⟩ := hheld.obstructed error herror
    exact ⟨.error i, List.mem_singleton_self _, hobstructs.of_holds ⟨i, r, rfl, hreduced, hw⟩⟩

/-- Nothing is new. -/
theorem met_of_has (hm : m.Sound lib h) {v : Value} (hv : m.Has v) : Met lib h m m [v] := by
  refine ⟨hm, .refl m, fun w hw => ?_, fun x hx hnew => absurd hx hnew⟩
  rw [List.mem_singleton.mp hw]
  exact hv

/-- A value that is no error. -/
theorem visitValue_spec (hs : h.Settles lib h') (hm : m.Sound lib h) {v : Value}
    (hv : v.isArgument h.objects.length) :
    Visited lib limit mode h m [v] (h'.visitValue mode m v, h') := by
  unfold Heap.visitValue
  cases hrefusal : v.refusal mode h'.objects with
  | some qualname =>
    have hobstructs : h.Obstructs lib limit mode v (.refused qualname) :=
      .inl ⟨v, .refl, hs.objects ▸ hrefusal⟩
    cases v with
    | _ => exact .error hs (List.mem_singleton_self _) hobstructs
  | none =>
    cases v with
    | object id =>
      have hid : id < h.objects.length := of_decide_eq_true hv
      dsimp only
      split_ifs with hmem
      · exact .ok hs (met_of_has hm hmem)
      · -- The object is new.
        have hgrows : m.Extends { m with objects := m.objects ++ [id] } :=
          ⟨[id], [], by rw [List.append_nil]⟩
        refine .ok hs ⟨⟨fun d hd => ?_, hm.errors, hm.nodup⟩, hgrows, fun w hw => ?_,
          fun x hx hnew => absurd hx hnew⟩
        · rcases List.mem_append.mp hd with hd | hd
          · exact hm.objects d hd
          · exact List.mem_singleton.mp hd ▸ hid
        · rw [List.mem_singleton.mp hw]
          exact List.mem_append_right _ (List.mem_singleton_self id)
    | error i => cases hv
    | _ => exact .ok hs (met_of_has hm trivial)

/-- Values are met one after another. -/
theorem visitAll_spec
    {visit : Heap (List Value) → Memo → Value → Except CopyError Memo × Heap (List Value)}
    {depth : ℕ} (hdepth : depth ≤ m.errors.length)
    (hvisit : ∀ v ∈ values, ∀ h' m, h.Settles lib h' → m.Sound lib h → depth ≤ m.errors.length →
      Visited lib limit mode h m [v] (visit h' m v))
    (hs : h.Settles lib h') (hm : m.Sound lib h) :
    Visited lib limit mode h m values (visitAll visit h' m values) := by
  induction values generalizing h' m with
  | nil =>
    exact .ok hs
      ⟨hm, .refl m, fun _ hv => absurd hv List.not_mem_nil, fun x hx hnew => absurd hx hnew⟩
  | cons v values ih =>
    have hfirst := hvisit v List.mem_cons_self h' m hs hm hdepth
    unfold visitAll
    cases hresult : visit h' m v with
    | mk result h1 =>
      rw [hresult] at hfirst
      cases result with
      | error error =>
        obtain ⟨w, hw, hobstructs⟩ := hfirst.obstructed error rfl
        rw [List.mem_singleton.mp hw] at hobstructs
        exact .error hfirst.settles List.mem_cons_self hobstructs
      | ok m1 =>
        have hmet := hfirst.met m1 rfl
        have hrest := ih (hdepth.trans hmet.grows.length_le)
          (fun w hw => hvisit w (List.mem_cons_of_mem v hw)) hfirst.settles hmet.sound
        refine ⟨hrest.settles, fun m' hm' => ?_, fun error herror => ?_⟩
        · have hmet' := hrest.met m' hm'
          refine ⟨hmet'.sound, hmet.grows.trans hmet'.grows, fun w hw => ?_, fun x hx hnew => ?_⟩
          · rcases List.mem_cons.mp hw with rfl | hw
            · exact (hmet.has w (List.mem_singleton_self w)).mono hmet'.grows
            · exact hmet'.has w hw
          · by_cases hx1 : x ∈ m1.errors
            · exact fun w hw => (hmet.closed x hx1 hnew w hw).mono hmet'.grows
            · exact hmet'.closed x hx hx1
        · obtain ⟨w, hw, hobstructs⟩ := hrest.obstructed error herror
          exact ⟨w, List.mem_cons_of_mem v hw, hobstructs⟩

/-- A value that is no error takes no stack. -/
theorem visit_value {S : Type} (rule : ArgsRule S) (mode : CopyMode) (left : ℕ) (h : Heap S) (m : Memo)
    {v : Value} (hv : ∀ i, v ≠ .error i) :
    h.visit rule mode left m v = (h.visitValue mode m v, h) := by
  cases v with
  | error i => exact absurd rfl (hv i)
  | _ =>
    cases left with
    | _ => rfl

/-- The traversal of a value, by induction on the stack that is left. The errors that are being met are
in the memo, so that the stack ends only if there are more of them than it takes. -/
theorem visit_spec (hh : h.Known) (hs : h.Settles lib h') (hm : m.Sound lib h) {v : Value}
    (hv : v.isKnown h.objects.length h.errors.length) {left : ℕ}
    (hleft : limit ≤ left + m.errors.length) :
    Visited lib limit mode h m [v] (h'.visit (lazyArgs lib) mode left m v) := by
  induction left generalizing h' m v with
  | zero =>
    cases v with
    | error i =>
      unfold Heap.visit
      dsimp only
      split_ifs with hmem
      · exact .ok hs (met_of_has hm hmem)
      · have hlt := hm.length_lt (of_decide_eq_true hv) hmem
        exact .error hs (List.mem_singleton_self _) (.inr ⟨rfl, by omega⟩)
    | _ => exact visitValue_spec hs hm hv
  | succ left ih =>
    cases v with
    | error i =>
      unfold Heap.visit
      split_ifs with hmem
      · exact .ok hs (met_of_has hm hmem)
      · have hreduced := hs.reduced i
        cases hreduce : h'.reduce (lazyArgs lib) i with
        | none =>
          -- A known error is reduced.
          have hi : i < h'.errors.length := hs.length.symm ▸ of_decide_eq_true hv
          unfold Heap.reduce at hreduce
          rw [List.getElem?_eq_getElem hi] at hreduce
          cases hreduce
        | some reduction =>
          obtain ⟨result, h1⟩ := reduction
          have hs1 := hs.trans (reduce_settles hreduce)
          have hresult : h.reduced lib i = some result := by
            rw [← hreduced]
            unfold Heap.reduced
            rw [hreduce]
            rfl
          cases result with
          | error error => exact .error hs1 (List.mem_singleton_self _) ⟨i, .refl, hresult⟩
          | ok r =>
            have hlength : (m.errors ++ [(i, r)]).length = m.errors.length + 1 := List.length_append
            have hknown := hh.reduced hresult
            have hheld : Visited lib limit mode h { m with errors := m.errors ++ [(i, r)] } r.values
                (visitAll (Heap.visit (lazyArgs lib) mode left) h1 _ r.values) :=
              visitAll_spec hlength.ge (fun w hw h2 m2 hs2 hm2 hdepth =>
                ih hs2 hm2 (hknown w hw) (by omega)) hs1 (hm.note hmem hresult)
            exact .of_held hresult hheld
    | _ => exact visitValue_spec hs hm hv

/-- The traversal of an error, from the empty memo. -/
theorem visit_error_spec (lib : UrlLibrary) (limit : ℕ) (mode : CopyMode) (hh : h.Known) {i : ℕ}
    (hi : i < h.errors.length) :
    Visited lib limit mode h {} [.error i] (h.visit (lazyArgs lib) mode limit {} (.error i)) := by
  have hknown : (Value.error i).isKnown h.objects.length h.errors.length := decide_eq_true hi
  exact visit_spec hh (.refl lib h) (Memo.sound_empty lib h) hknown (Nat.le_add_right _ _)

end Visit

/-! ## Traversals that correspond -/

/-- Values are met alike in heaps that correspond. -/
theorem visitAll_map {S T : Type} (F : Heap S → Heap T)
    {visit : Heap S → Memo → Value → Except CopyError Memo × Heap S}
    {visit' : Heap T → Memo → Value → Except CopyError Memo × Heap T}
    (h : ∀ h m v, visit' (F h) m v = Prod.map id F (visit h m v)) (heap : Heap S) (m : Memo)
    (values : List Value) :
    visitAll visit' (F heap) m values = Prod.map id F (visitAll visit heap m values) := by
  induction values generalizing heap m with
  | nil => rfl
  | cons v values ih =>
    unfold visitAll
    rw [h]
    cases visit heap m v with
    | mk result heap' =>
      cases result with
      | ok m' => exact ih heap' m'
      | error error => rfl

/-- If errors are reduced alike, and objects refuse alike, then the traversals are alike. -/
theorem visit_map {S T : Type} {rule : ArgsRule S} {rule' : ArgsRule T} {mode : CopyMode}
    (F : Heap S → Heap T)
    (hrefusal : ∀ (h : Heap S) (v : Value), v.refusal mode (F h).objects = v.refusal mode h.objects)
    (hreduce : ∀ (h : Heap S) i, (F h).reduce rule' i = (h.reduce rule i).map (Prod.map id F))
    (limit : ℕ) (h : Heap S) (m : Memo) (v : Value) :
    (F h).visit rule' mode limit m v = Prod.map id F (h.visit rule mode limit m v) := by
  have hvalue (h : Heap S) (m : Memo) (v : Value) :
      (F h).visitValue mode m v = h.visitValue mode m v := by
    unfold Heap.visitValue
    rw [hrefusal]
  induction limit generalizing h m v with
  | zero =>
    by_cases hv : ∃ i, v = .error i
    · obtain ⟨i, rfl⟩ := hv
      unfold Heap.visit
      dsimp only
      split_ifs
      · rfl
      · rfl
    · have hne : ∀ i, v ≠ .error i := fun i hi => hv ⟨i, hi⟩
      rw [visit_value rule' mode 0 (F h) m hne, visit_value rule mode 0 h m hne, hvalue]
      rfl
  | succ limit ih =>
    by_cases hv : ∃ i, v = .error i
    · obtain ⟨i, rfl⟩ := hv
      unfold Heap.visit
      rw [hreduce]
      split_ifs
      · rfl
      · cases h.reduce rule i with
        | none => rfl
        | some reduction =>
          obtain ⟨result, h'⟩ := reduction
          cases result with
          | error error => rfl
          | ok r => exact visitAll_map F (fun h m v => ih h m v) h' _ r.values
    · have hne : ∀ i, v ≠ .error i := fun i hi => hv ⟨i, hi⟩
      rw [visit_value rule' mode _ (F h) m hne, visit_value rule mode _ h m hne, hvalue]
      rfl

end Httpware.Errors
