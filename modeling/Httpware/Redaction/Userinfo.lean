import Httpware.Redaction.Redact

/-!
# What `redact_url` returns

`strippedBase` is what `_reassemble` writes before the query and the fragment, and `stripped` the whole of
it by sections. The three theorems of `redactUrl` say what it returns for every URL that `urlsplit`
accepts: the sections with their values masked, after the reassembly if the authority has an `@` and the
URL has a `://`.

The reassembled URL is split again in `netlocOf_stripped`. Its authority is what was after the last `@`.
Where nothing was, the authority is what `urlsplit` reads at the start of the path.
-/

namespace Httpware.Redaction

open Python

/-- What is after the last `@` of the authority. -/
def hostOf (base : List Char) : List Char := (rpartition '@' (netlocOf base)).2.2

/-- The authority, if any, and the path, as `_reassemble` writes them. -/
def strippedRest (base : List Char) : List Char :=
  if hostOf base ≠ [] then '/' :: '/' :: (hostOf base ++ pathOf base) else pathOf base

/-- What `_reassemble` writes before the query and the fragment. -/
def strippedBase (base : List Char) : List Char :=
  if schemeOf base ≠ [] then schemeOf base ++ ':' :: strippedRest base else strippedRest base

/-- The host is in the authority. -/
theorem mem_netlocOf_of_mem_hostOf {x : Char} {base : List Char} (h : x ∈ hostOf base) :
    x ∈ netlocOf base := by
  rw [← List.mem_reverse] at h ⊢
  unfold hostOf rpartition at h
  rw [List.reverse_reverse] at h
  exact (List.takeWhile_sublist _).subset h

/-- A scheme that was read is one, in lower case. -/
theorem isScheme_schemeOf {base : List Char} (h : schemeOf base ≠ []) :
    isScheme (schemeOf base) = true ∧ (schemeOf base).map Char.toLower = schemeOf base := by
  obtain hnil | ⟨s, hs, hlower⟩ := splitScheme_fst (cleanUrl base)
  · exact absurd hnil h
  · unfold schemeOf
    rw [hlower]
    exact ⟨isScheme_lower hs, lower_lower s⟩

/-- After an authority comes nothing, or what ends it. -/
theorem pathOf_head {base : List Char} (h : '@' ∈ netlocOf base) :
    (pathOf base).head?.all endsNetloc = true := splitNetloc_snd (List.ne_nil_of_mem h)

/-- What `_reassemble` writes after the scheme is of the clean base, but for slashes. -/
theorem mem_strippedRest {x : Char} {base : List Char} (h : x ∈ strippedRest base) :
    x = '/' ∨ x ∈ cleanUrl base := by
  unfold strippedRest at h
  split_ifs at h
  · simp only [List.mem_cons, List.mem_append] at h
    obtain rfl | rfl | hhost | hpath := h
    · exact Or.inl rfl
    · exact Or.inl rfl
    · exact Or.inr (mem_cleanUrl_of_mem (Or.inl (mem_netlocOf_of_mem_hostOf hhost)))
    · exact Or.inr (mem_cleanUrl_of_mem (Or.inr hpath))
  · exact Or.inr (mem_cleanUrl_of_mem (Or.inr h))

/-- What `_reassemble` writes is of the clean base, or belongs to a scheme or an authority. -/
theorem mem_strippedBase {x : Char} {base : List Char} (h : x ∈ strippedBase base) :
    isSchemeChar x = true ∨ x = ':' ∨ x = '/' ∨ x ∈ cleanUrl base := by
  unfold strippedBase at h
  split_ifs at h with hscheme
  · rw [List.mem_append, List.mem_cons] at h
    obtain hx | rfl | hx := h
    · exact Or.inl (isScheme_mem (isScheme_schemeOf hscheme).1 hx)
    · exact Or.inr (Or.inl rfl)
    · exact Or.inr (Or.inr (mem_strippedRest hx))
  · exact Or.inr (Or.inr (mem_strippedRest h))

/-- What `_reassemble` writes after the scheme starts with no letter and no white space. -/
theorem strippedRest_head {base : List Char} (h : '@' ∈ netlocOf base) {test : Char → Bool}
    (htest : ∀ c, endsNetloc c = true → test c = false) :
    (strippedRest base).head?.any test = false := by
  unfold strippedRest
  split_ifs
  · exact htest '/' (by decide)
  · have hhead := pathOf_head h
    cases hpath : pathOf base with
    | nil => rfl
    | cons c rest =>
      rw [hpath] at hhead
      exact htest c hhead

/-- `urlsplit` leaves the reassembled text as it is. -/
theorem cleanUrl_strippedBase {base : List Char} (h : '@' ∈ netlocOf base) :
    cleanUrl (strippedBase base) = strippedBase base := by
  have hkept : (strippedRest base).filter isKept = strippedRest base := by
    rw [List.filter_eq_self]
    intro x hx
    obtain rfl | hclean := mem_strippedRest hx
    · decide
    · exact (List.mem_filter.mp hclean).2
  unfold strippedBase
  split_ifs with hscheme
  · rw [cleanUrl_of_isScheme (isScheme_schemeOf hscheme).1, hkept]
  · have hhead := strippedRest_head h fun c hc => (endsNetloc_plain hc).2
    unfold cleanUrl
    rw [dropWhile_of_head hhead, hkept]

/-- The scheme is read again, and what was written after it is left. -/
theorem splitScheme_strippedBase {base : List Char} (h : '@' ∈ netlocOf base) :
    splitScheme (cleanUrl (strippedBase base)) = (schemeOf base, strippedRest base) := by
  rw [cleanUrl_strippedBase h]
  unfold strippedBase
  split_ifs with hscheme
  · obtain ⟨hvalid, hlower⟩ := isScheme_schemeOf hscheme
    rw [splitScheme_of_isScheme hvalid, hlower]
  · have hnone : schemeOf base = [] := not_not.mp hscheme
    rw [splitScheme_of_head (strippedRest_head h fun c hc => (endsNetloc_plain hc).1), hnone]

/-- The authority of the reassembled URL, and the path after it. -/
def splitStripped (base : List Char) : List Char × List Char :=
  if hostOf base ≠ [] then (hostOf base, pathOf base) else splitNetloc (pathOf base)

/-- A host is read again as the authority; without one, the path is read. -/
theorem splitNetloc_strippedRest {base : List Char} (h : '@' ∈ netlocOf base) :
    splitNetloc (strippedRest base) = splitStripped base := by
  unfold strippedRest splitStripped
  split_ifs
  · apply splitNetloc_of_slashes
    · rw [List.any_eq_false]
      intro c hc
      exact (List.any_eq_false.mp (splitNetloc_fst _)) c (mem_netlocOf_of_mem_hostOf hc)
    · exact pathOf_head h
  · rfl

/-! ## The reassembled URL -/

/-- A section, unless it is empty. -/
def nonempty (c : List Char) : Option (List Char) := if c = [] then none else some c

/-- A section that is written only if it is not empty. -/
theorem append_nonempty (mark : Char) (t c : List Char) :
    (if c ≠ [] then t ++ mark :: c else t) = t ++ marked mark (nonempty c) := by
  unfold nonempty
  by_cases h : c = []
  · rw [if_neg (not_not.mpr h), if_pos h]
    exact (List.append_nil t).symm
  · rw [if_pos h, if_neg h]
    rfl

@[simp] theorem nonempty_getD (c : List Char) : (nonempty c).getD [] = c := by
  unfold nonempty
  split_ifs with h
  · exact h.symm
  · rfl

/-- Masking commutes with leaving an empty section out. -/
theorem nonempty_maskComponent (c : List Char) :
    (nonempty c).map maskComponent = nonempty (maskComponent c) := by
  unfold nonempty
  by_cases h : c = []
  · rw [if_pos h, if_pos ((maskComponent_eq_nil c).mpr h)]
    rfl
  · rw [if_neg h, if_neg (fun h' => h ((maskComponent_eq_nil c).mp h'))]
    rfl

/-- A mark that is in no base stays out of the reassembled one. -/
theorem notMem_strippedBase {mark : Char} {base : List Char} (h : mark ∉ base)
    (hmark : isSchemeChar mark = false ∧ mark ≠ ':' ∧ mark ≠ '/') : mark ∉ strippedBase base := by
  intro hmem
  obtain hscheme | hcolon | hslash | hclean := mem_strippedBase hmem
  · rw [hmark.1] at hscheme
    exact absurd hscheme Bool.false_ne_true
  · exact hmark.2.1 hcolon
  · exact hmark.2.2 hslash
  · exact h (Sections.mem_of_mem_cleanUrl hclean)

/-- The sections of the reassembled URL. -/
def stripped (s : Sections) : Sections where
  base := strippedBase s.base
  query := nonempty (s.clean.query.getD [])
  fragment := nonempty (s.clean.fragment.getD [])
  question_notMem_base := notMem_strippedBase s.question_notMem_base (by decide)
  hash_notMem_base := notMem_strippedBase s.hash_notMem_base (by decide)
  hash_notMem_query := by
    intro q hq
    have hclean := s.clean.hash_notMem_query
    unfold nonempty at hq
    split_ifs at hq
    · exact absurd hq (Option.not_mem_none q)
    · obtain rfl := Option.mem_some.mp hq
      cases hquery : s.clean.query with
      | none => exact List.not_mem_nil
      | some q => exact hclean q hquery

/-- `_reassemble` writes the sections. -/
theorem reassemble_eq_text (lib : UrlLibrary) (s : Sections) (h : '@' ∈ netlocOf s.base) :
    reassemble lib (schemeOf s.base) (hostOf s.base) (pathOf s.base) (s.clean.query.getD [])
      (s.clean.fragment.getD []) = (stripped s).text := by
  -- After an authority the path is empty or starts with a slash, so `urlunsplit` adds none.
  have hpath : ¬ (pathOf s.base ≠ [] ∧ (pathOf s.base).head? ≠ some '/') := by
    rintro ⟨hne, hslash⟩
    have hhead := pathOf_head h
    cases hp : pathOf s.base with
    | nil => exact hne hp
    | cons c rest =>
      have hc : c ∈ s.base := by
        apply Sections.mem_of_mem_cleanUrl
        apply mem_cleanUrl_of_mem
        right
        rw [hp]
        exact List.mem_cons_self
      rw [hp] at hhead hslash
      have : c = '/' ∨ c = '?' ∨ c = '#' := by simpa [endsNetloc] using hhead
      obtain rfl | rfl | rfl := this
      · exact hslash rfl
      · exact s.question_notMem_base hc
      · exact s.hash_notMem_base hc
  unfold reassemble UrlLibrary.urlunsplit
  simp only [append_nonempty]
  unfold stripped Sections.text Sections.tail strippedBase strippedRest
  by_cases hhost : hostOf s.base = []
  · by_cases hscheme : schemeOf s.base = []
    · simp [hhost, hscheme]
    · simp [hhost, hscheme]
  · by_cases hscheme : schemeOf s.base = []
    · simp [hhost, hscheme, hpath]
    · simp [hhost, hscheme, hpath]

/-- The authority of the reassembled URL is read again. -/
theorem netlocOf_stripped (s : Sections) (h : '@' ∈ netlocOf s.base) :
    netlocOf (stripped s).base = (splitStripped s.base).1 := by
  have hbase : (stripped s).base = strippedBase s.base := rfl
  unfold netlocOf
  rw [hbase, splitScheme_strippedBase h, splitNetloc_strippedRest h]

/-! ## `redact_url` by cases -/

section Cases

variable {lib : UrlLibrary} {s : Sections}

/-- The authority is of the URL. -/
theorem mem_text_of_mem_netlocOf {x : Char} (h : x ∈ netlocOf s.base) : x ∈ s.text :=
  List.mem_append_left _ (Sections.mem_of_mem_cleanUrl (mem_cleanUrl_of_mem (Or.inl h)))

/-- A URL without an `@` in its authority is only masked. -/
theorem redactUrl_of_no_userinfo (haccept : lib.acceptsNetloc (netlocOf s.base) = true)
    (hat : '@' ∉ netlocOf s.base) : redactUrl lib s.text = .ok (maskSections s).text := by
  have hstrip : stripUserinfo lib s.text = .ok s.text := by
    unfold stripUserinfo
    split_ifs with hexit
    · rfl
    · rw [UrlLibrary.urlsplit_of_accepts haccept]
      show (if _ then _ else _) = _
      rw [if_pos ((SplitResult.no_userinfo_iff _).mpr hat)]
      rfl
  unfold redactUrl
  rw [hstrip, ← maskQuery_text]
  rfl

/-- A URL without `://` is only masked, even with an `@` in its authority. -/
theorem redactUrl_of_no_slashes (hslashes : ¬ [':', '/', '/'] <:+: s.text) :
    redactUrl lib s.text = .ok (maskSections s).text := by
  have hstrip : stripUserinfo lib s.text = .ok s.text := if_pos (Or.inr hslashes)
  unfold redactUrl
  rw [hstrip, ← maskQuery_text]
  rfl

/-- A URL with an `@` in its authority is reassembled, and then masked. -/
theorem redactUrl_of_userinfo (haccept : lib.acceptsNetloc (netlocOf s.base) = true)
    (hat : '@' ∈ netlocOf s.base) (hslashes : [':', '/', '/'] <:+: s.text) :
    redactUrl lib s.text = .ok (maskSections (stripped s)).text := by
  have hexit : ¬ ('@' ∉ s.text ∨ ¬ [':', '/', '/'] <:+: s.text) := by
    rintro (h | h)
    · exact h (mem_text_of_mem_netlocOf hat)
    · exact h hslashes
  have hstrip : stripUserinfo lib s.text = .ok (stripped s).text := by
    unfold stripUserinfo
    rw [if_neg hexit, UrlLibrary.urlsplit_of_accepts haccept]
    show (if _ then _ else _) = _
    rw [if_neg (fun h => (SplitResult.no_userinfo_iff _).mp h hat)]
    exact congrArg Except.ok (reassemble_eq_text lib s hat)
  unfold redactUrl
  rw [hstrip, ← maskQuery_text]
  rfl

end Cases

end Httpware.Redaction
