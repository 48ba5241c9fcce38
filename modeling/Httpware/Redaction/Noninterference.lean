import Httpware.Redaction.Userinfo

/-!
# Two URLs that differ in their secrets only

`SecretUrl` is a URL with an authority, by its parts. `publicPart` is what may be logged of it: everything but
the userinfo and the values of the parameters, with whether there is a userinfo and which parameters
have a value. `redact_url` returns the same string for two URLs with one public part, whatever the
secrets are.

The secrets can hold `@`, `=`, `?` and `://`. Both URLs have an authority after `://`, so `_strip_userinfo`
reassembles both or neither, and what it writes depends on the public part alone.
-/

namespace Httpware.Redaction

open Python

/-- A URL with an authority. The host and the port have no `@`, which would end a userinfo. -/
structure SecretUrl where
  scheme : List Char
  userinfo : Option (List Char)
  host : List Char
  port : Option (List Char)
  path : List Char
  query : Option (List Param)
  fragment : Option (List Param)
  isScheme_scheme : isScheme scheme = true
  ascii_userinfo : ∀ u ∈ userinfo, u.all (·.toNat < 128) = true
  userinfo_plain : ∀ u ∈ userinfo, ∀ c ∈ ['/', '?', '#', '[', ']'], c ∉ u
  host_plain : ∀ c ∈ ['/', '?', '#', '@'], c ∉ host ++ marked ':' port
  path_plain : ∀ c ∈ ['?', '#'], c ∉ path
  path_slash : path = [] ∨ path.head? = some '/'
  query_plain : ∀ ps ∈ query, '#' ∉ componentText ps

/-- What may be logged of a parameter: its key, and whether it has a value. -/
def Param.shape (p : Param) : List Char × Bool := (p.key, p.value.isSome)

/-- What is written for a parameter of a shape. -/
def shapeText (shape : List Char × Bool) : List Char :=
  shape.1 ++ if shape.2 then '=' :: redacted else []

/-- A parameter is masked by its shape. -/
theorem Param.masked_text_eq (p : Param) : p.masked.text = shapeText p.shape := by
  rw [Param.masked_text]
  unfold shapeText shape
  cases p.value with
  | none => rfl
  | some v => rfl

/-- The public part of a URL. -/
structure PublicPart where
  scheme : List Char
  hasUserinfo : Bool
  host : List Char
  port : Option (List Char)
  path : List Char
  query : Option (List (List Char × Bool))
  fragment : Option (List (List Char × Bool))

namespace SecretUrl

/-- The authority without the userinfo. -/
def authority (u : SecretUrl) : List Char := u.host ++ marked ':' u.port

/-- The whole authority. -/
def netloc (u : SecretUrl) : List Char := (u.userinfo.elim [] (· ++ ['@'])) ++ u.authority

/-- The string. -/
def text (u : SecretUrl) : List Char :=
  u.scheme ++ [':', '/', '/'] ++ u.netloc ++ u.path ++
    marked '?' (u.query.map componentText) ++ marked '#' (u.fragment.map componentText)

/-- What may be logged. -/
def publicPart (u : SecretUrl) : PublicPart where
  scheme := u.scheme
  hasUserinfo := u.userinfo.isSome
  host := u.host
  port := u.port
  path := u.path
  query := u.query.map (List.map Param.shape)
  fragment := u.fragment.map (List.map Param.shape)

/-- The authority has no mark. -/
theorem netloc_plain (u : SecretUrl) {c : Char} (hc : c ∈ ['/', '?', '#']) : c ∉ u.netloc := by
  have hhost := u.host_plain c (by simp at hc ⊢; tauto)
  have huser := u.userinfo_plain
  have hne : c ≠ '@' := by
    rintro rfl
    exact absurd hc (by decide)
  unfold netloc authority
  -- With userinfo the authority has its characters and one `@` more.
  cases h : u.userinfo with
  | none => simpa using hhost
  | some a =>
    have ha := huser a h c (by simp at hc ⊢; tauto)
    simp only [Option.elim_some, List.mem_append, List.mem_singleton] at hhost ⊢
    tauto

/-- What comes before the query and the fragment. -/
def base (u : SecretUrl) : List Char := u.scheme ++ ':' :: '/' :: '/' :: (u.netloc ++ u.path)

theorem base_plain (u : SecretUrl) {c : Char} (hc : c ∈ ['?', '#']) : c ∉ u.base := by
  have hnetloc := u.netloc_plain (List.mem_cons_of_mem '/' hc)
  have hpath := u.path_plain c hc
  -- A scheme is of letters, digits and three signs.
  have hscheme : c ∉ u.scheme := by
    intro hmem
    have hplain := isSchemeChar_plain (isScheme_mem u.isScheme_scheme hmem)
    simp at hc
    tauto
  have hslash : c ≠ ':' ∧ c ≠ '/' := by
    simp at hc
    obtain rfl | rfl := hc
    · exact ⟨by decide, by decide⟩
    · exact ⟨by decide, by decide⟩
  unfold base
  simp only [List.mem_append, List.mem_cons]
  tauto

/-- The sections of the string. -/
def sections (u : SecretUrl) : Sections where
  base := u.base
  query := u.query.map componentText
  fragment := u.fragment.map componentText
  question_notMem_base := u.base_plain (by decide)
  hash_notMem_base := u.base_plain (by decide)
  hash_notMem_query := by
    intro q hq
    obtain ⟨ps, hps, rfl⟩ := Option.mem_map.mp hq
    exact u.query_plain ps hps

theorem text_eq (u : SecretUrl) : u.text = u.sections.text := by
  simp [text, sections, Sections.text, Sections.tail, base]

/-- `urlsplit` reads the parts, without the characters that it removes. -/
theorem clean_base (u : SecretUrl) :
    cleanUrl u.base = u.scheme ++ ':' :: '/' :: '/' ::
      (u.netloc.filter isKept ++ u.path.filter isKept) := by
  unfold base
  rw [cleanUrl_of_isScheme u.isScheme_scheme, List.filter_cons_of_pos (by decide),
    List.filter_cons_of_pos (by decide), List.filter_append]

theorem splitScheme_base (u : SecretUrl) :
    splitScheme (cleanUrl u.base) = (u.scheme.map Char.toLower,
      '/' :: '/' :: (u.netloc.filter isKept ++ u.path.filter isKept)) := by
  rw [u.clean_base]
  exact splitScheme_of_isScheme u.isScheme_scheme

theorem splitNetloc_base (u : SecretUrl) :
    splitNetloc (splitScheme (cleanUrl u.base)).2
      = (u.netloc.filter isKept, u.path.filter isKept) := by
  rw [u.splitScheme_base]
  apply splitNetloc_of_slashes
  · -- The authority has no character that ends it.
    rw [List.any_eq_false]
    intro c hc hends
    apply u.netloc_plain _ (List.mem_of_mem_filter hc)
    simpa [endsNetloc] using hends
  · -- The path is empty, or its `/` ends the authority.
    obtain hnil | hslash := u.path_slash
    · rw [hnil]
      rfl
    · obtain ⟨rest, hpath⟩ := List.head?_eq_some_iff.mp hslash
      rw [hpath, List.filter_cons_of_pos (by decide)]
      exact (by decide : endsNetloc '/' = true)

@[simp] theorem schemeOf_base (u : SecretUrl) : schemeOf u.base = u.scheme.map Char.toLower := by
  unfold schemeOf
  rw [u.splitScheme_base]

@[simp] theorem netlocOf_base (u : SecretUrl) : netlocOf u.base = u.netloc.filter isKept := by
  unfold netlocOf
  rw [u.splitNetloc_base]

@[simp] theorem pathOf_base (u : SecretUrl) : pathOf u.base = u.path.filter isKept := by
  unfold pathOf
  rw [u.splitNetloc_base]

/-- There is no `@` after the userinfo. -/
theorem at_notMem_authority (u : SecretUrl) : '@' ∉ u.authority.filter isKept := fun h =>
  u.host_plain '@' (by decide) (List.mem_of_mem_filter h)

/-- The authority with its userinfo, as `urlsplit` reads it. -/
theorem netloc_of_userinfo (u : SecretUrl) {a : List Char} (h : u.userinfo = some a) :
    u.netloc.filter isKept = a.filter isKept ++ '@' :: u.authority.filter isKept := by
  unfold netloc
  rw [h, Option.elim_some, List.append_assoc, List.filter_append]
  rfl

theorem netloc_of_no_userinfo (u : SecretUrl) (h : u.userinfo = none) :
    u.netloc.filter isKept = u.authority.filter isKept := by
  unfold netloc
  rw [h]
  rfl

/-- What is kept of the authority is what comes after the userinfo. -/
theorem hostOf_base (u : SecretUrl) {a : List Char} (h : u.userinfo = some a) :
    hostOf u.base = u.authority.filter isKept := by
  unfold hostOf
  rw [u.netlocOf_base, u.netloc_of_userinfo h, rpartition_append_cons u.at_notMem_authority]

/-- `urlsplit` accepts the URL with its userinfo when it accepts the host and the port. -/
theorem accepts_netloc (u : SecretUrl) {lib : UrlLibrary} (hlib : lib.KeepsReservedOut)
    (h : lib.acceptsNetloc (u.authority.filter isKept) = true) :
    lib.acceptsNetloc (netlocOf u.base) = true := by
  rw [u.netlocOf_base]
  cases huser : u.userinfo with
  | none => rwa [u.netloc_of_no_userinfo huser]
  | some a =>
    rw [u.netloc_of_userinfo huser]
    -- The characters that NFKC or the brackets reject are not in the userinfo.
    have hplain {c : Char} (hc : c ∈ ['/', '?', '#', '[', ']']) : c ∉ a.filter isKept := fun hmem =>
      u.userinfo_plain a huser c hc (List.mem_of_mem_filter hmem)
    have hslash : '/' ∉ u.authority.filter isKept := fun hmem =>
      u.host_plain '/' (by decide) (List.mem_of_mem_filter hmem)
    apply acceptsNetloc_userinfo lib hlib hslash u.at_notMem_authority _ (hplain (by decide))
      (hplain (by decide)) (hplain (by decide)) h
    rw [List.all_eq_true]
    intro c hc
    exact List.all_eq_true.mp (u.ascii_userinfo a huser) c (List.mem_of_mem_filter hc)

/-- The string has a `://`. -/
theorem slashes_infix_text (u : SecretUrl) : [':', '/', '/'] <:+: u.text := by
  unfold text
  simp only [List.append_assoc]
  exact ⟨u.scheme, _, by rw [List.append_assoc]⟩

end SecretUrl

/-! ## The masked sections -/

/-- A component is masked by the shapes of its parameters. -/
theorem maskComponent_eq (ps : List Param) : maskComponent (componentText ps)
    = ['&'].intercalate ((ps.map Param.shape).map shapeText) := by
  rw [maskComponent_componentText, componentText, List.map_map, List.map_map]
  congr 1
  apply List.map_congr_left
  intro p _
  exact p.masked_text_eq

/-- Sections with one public part have one mask. -/
theorem maskComponent_section_eq {c d : Option (List Param)}
    (h : c.map (List.map Param.shape) = d.map (List.map Param.shape)) :
    (c.map componentText).map maskComponent = (d.map componentText).map maskComponent := by
  have hmask (e : Option (List Param)) : (e.map componentText).map maskComponent
      = (e.map (List.map Param.shape)).map fun shapes => ['&'].intercalate (shapes.map shapeText) := by
    cases e with
    | none => rfl
    | some ps => exact congrArg some (maskComponent_eq ps)
  rw [hmask, hmask, h]

/-- Sections with one mask still have one after the reassembly. -/
theorem maskComponent_stripped_eq {c d : Option (List Char)}
    (h : c.map maskComponent = d.map maskComponent) :
    (nonempty ((c.map (List.filter isKept)).getD [])).map maskComponent
      = (nonempty ((d.map (List.filter isKept)).getD [])).map maskComponent := by
  -- Masking commutes with the removal of characters.
  have hmask (e : Option (List Char)) : maskComponent ((e.map (List.filter isKept)).getD [])
      = ((e.map maskComponent).map (List.filter isKept)).getD [] := by
    cases e with
    | none => exact maskComponent_nil
    | some t => exact maskComponent_filter t
  rw [nonempty_maskComponent, nonempty_maskComponent, hmask, hmask, h]

namespace SecretUrl

/-- Without userinfo, the masked sections come from the public part. -/
theorem maskSections_eq {u v : SecretUrl} (h : u.publicPart = v.publicPart) (hu : u.userinfo = none)
    (hv : v.userinfo = none) : maskSections u.sections = maskSections v.sections := by
  simp only [publicPart, PublicPart.mk.injEq] at h
  obtain ⟨hscheme, _, hhost, hport, hpath, hquery, hfragment⟩ := h
  apply Sections.ext
  · show u.base = v.base
    unfold base netloc authority
    rw [hscheme, hhost, hport, hpath, hu, hv]
  · exact maskComponent_section_eq hquery
  · exact maskComponent_section_eq hfragment

/-- With userinfo, the masked sections after the reassembly come from the public part. -/
theorem maskSections_stripped_eq {u v : SecretUrl} (h : u.publicPart = v.publicPart) {a b : List Char}
    (hu : u.userinfo = some a) (hv : v.userinfo = some b) :
    maskSections (stripped u.sections) = maskSections (stripped v.sections) := by
  simp only [publicPart, PublicPart.mk.injEq] at h
  obtain ⟨hscheme, _, hhost, hport, hpath, hquery, hfragment⟩ := h
  apply Sections.ext
  · -- The reassembled base has the lowered scheme, the host, the port and the path only.
    show strippedBase u.base = strippedBase v.base
    unfold strippedBase strippedRest
    rw [u.schemeOf_base, v.schemeOf_base, u.hostOf_base hu, v.hostOf_base hv, u.pathOf_base,
      v.pathOf_base]
    unfold authority
    rw [hscheme, hhost, hport, hpath]
  · exact maskComponent_stripped_eq (maskComponent_section_eq hquery)
  · exact maskComponent_stripped_eq (maskComponent_section_eq hfragment)

/-- A URL without userinfo is masked. -/
theorem redactUrl_text_of_none {lib : UrlLibrary} (u : SecretUrl)
    (haccept : lib.acceptsNetloc (netlocOf u.base) = true) (hu : u.userinfo = none) :
    redactUrl lib u.text = .ok (maskSections u.sections).text := by
  have hat : '@' ∉ netlocOf u.base := by
    rw [u.netlocOf_base, u.netloc_of_no_userinfo hu]
    exact u.at_notMem_authority
  rw [u.text_eq]
  exact redactUrl_of_no_userinfo (s := u.sections) haccept hat

/-- A URL with userinfo is reassembled and masked. -/
theorem redactUrl_text_of_some {lib : UrlLibrary} (u : SecretUrl)
    (haccept : lib.acceptsNetloc (netlocOf u.base) = true) {a : List Char} (hu : u.userinfo = some a) :
    redactUrl lib u.text = .ok (maskSections (stripped u.sections)).text := by
  have hat : '@' ∈ netlocOf u.base := by
    rw [u.netlocOf_base, u.netloc_of_userinfo hu]
    exact List.mem_append_right _ List.mem_cons_self
  have hslashes := u.slashes_infix_text
  rw [u.text_eq] at hslashes ⊢
  exact redactUrl_of_userinfo (s := u.sections) haccept hat hslashes

/-- `redact_url` returns one string for all URLs with one public part, whatever the userinfo and the
values of the parameters are. -/
theorem redactUrl_noninterference {lib : UrlLibrary} (hlib : lib.KeepsReservedOut) {u v : SecretUrl}
    (hpublic : u.publicPart = v.publicPart)
    (haccept : lib.acceptsNetloc (u.authority.filter isKept) = true) :
    ∃ r, redactUrl lib u.text = .ok r ∧ redactUrl lib v.text = .ok r := by
  have hauthority : u.authority = v.authority := by
    unfold authority
    rw [show u.host = v.host from congrArg PublicPart.host hpublic,
      show u.port = v.port from congrArg PublicPart.port hpublic]
  -- Both authorities are accepted, since both end in the accepted host and port.
  have hacceptU := u.accepts_netloc hlib haccept
  have hacceptV := v.accepts_netloc hlib (hauthority ▸ haccept)
  have huserinfo : u.userinfo.isSome = v.userinfo.isSome := congrArg PublicPart.hasUserinfo hpublic
  cases hu : u.userinfo with
  | none =>
    rw [hu] at huserinfo
    have hv : v.userinfo = none := Option.isSome_eq_false_iff.mp huserinfo.symm |>
      Option.isNone_iff_eq_none.mp
    refine ⟨_, u.redactUrl_text_of_none hacceptU hu, ?_⟩
    rw [maskSections_eq hpublic hu hv]
    exact v.redactUrl_text_of_none hacceptV hv
  | some a =>
    rw [hu] at huserinfo
    obtain ⟨b, hv⟩ := Option.isSome_iff_exists.mp huserinfo.symm
    refine ⟨_, u.redactUrl_text_of_some hacceptU hu, ?_⟩
    rw [maskSections_stripped_eq hpublic hu hv]
    exact v.redactUrl_text_of_some hacceptV hv

/-- `https://u:p@h/p?k=@x#f`. -/
def loginUrl : SecretUrl where
  scheme := ['h', 't', 't', 'p', 's']
  userinfo := some ['u', ':', 'p']
  host := ['h']
  port := none
  path := ['/', 'p']
  query := some [⟨['k'], some ['@', 'x'], by decide, by decide, by decide⟩]
  fragment := some [⟨['f'], none, by decide, by decide, by decide⟩]
  isScheme_scheme := by decide
  ascii_userinfo := by decide
  userinfo_plain := by simp
  host_plain := by simp [marked]
  path_plain := by simp
  path_slash := by decide
  query_plain := by decide

/-- `https://@h/p?k==://#f`. -/
def otherLoginUrl : SecretUrl where
  scheme := ['h', 't', 't', 'p', 's']
  userinfo := some []
  host := ['h']
  port := none
  path := ['/', 'p']
  query := some [⟨['k'], some ['=', ':', '/', '/'], by decide, by decide, by decide⟩]
  fragment := some [⟨['f'], none, by decide, by decide, by decide⟩]
  isScheme_scheme := by decide
  ascii_userinfo := by decide
  userinfo_plain := by simp
  host_plain := by simp [marked]
  path_plain := by simp
  path_slash := by decide
  query_plain := by decide

/-- Two URLs with one public part are logged as one string. -/
theorem redactUrl_noninterference_secrets : ∃ r, redactUrl UrlLibrary.ascii loginUrl.text = .ok r ∧
    redactUrl UrlLibrary.ascii otherLoginUrl.text = .ok r :=
  redactUrl_noninterference UrlLibrary.ascii_keepsReservedOut rfl (by decide)

end SecretUrl

end Httpware.Redaction
