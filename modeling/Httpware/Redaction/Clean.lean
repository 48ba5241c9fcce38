import Httpware.Redaction.Userinfo

/-!
# What `redact_url` returns is split again

`Clean` is what a redacted URL should be: `urlsplit` accepts it and finds no userinfo, every value of its
query and its fragment is masked, and `redact_url` leaves it as it is. The values are always masked, and
`redactUrl_clean_iff` says when the rest holds.

It fails in two ways. Without `://` in the string, `_strip_userinfo` returns early, so the userinfo of
`//user:pass@host/path` stays. And where nothing comes after the last `@`, `_reassemble` writes the path
after the scheme, so a path that starts with two slashes is read as an authority.
-/

namespace Httpware.Redaction

open Python

/-- A redacted URL as it should be. -/
structure Clean (lib : UrlLibrary) (url : List Char) : Prop where
  no_userinfo : ∃ parts, lib.urlsplit url = .ok parts ∧ parts.username = none ∧
    parts.password = none ∧ Masked parts.query ∧ Masked parts.fragment
  stable : redactUrl lib url = .ok url

/-- The values of a section are masked, also without the characters that `urlsplit` removes. -/
theorem masked_section (c : Option (List Char)) :
    Masked (((c.map maskComponent).map (List.filter isKept)).getD []) := by
  cases c with
  | none =>
    rw [← maskComponent_nil]
    exact masked_maskComponent []
  | some t =>
    show Masked ((maskComponent t).filter isKept)
    rw [← maskComponent_filter]
    exact masked_maskComponent _

/-- Masked sections stay as they are. -/
theorem maskSections_maskSections (s : Sections) :
    maskSections (maskSections s) = maskSections s := by
  have hmask (c : Option (List Char)) :
      (c.map maskComponent).map maskComponent = c.map maskComponent := by
    cases c with
    | none => rfl
    | some t => exact congrArg some (maskComponent_maskComponent t)
  apply Sections.ext
  · rfl
  · exact hmask s.query
  · exact hmask s.fragment

/-- A masked URL is clean exactly when its authority is accepted and has no `@`. -/
theorem clean_maskSections_iff (lib : UrlLibrary) (s : Sections) :
    Clean lib (maskSections s).text ↔
      lib.acceptsNetloc (netlocOf s.base) = true ∧ '@' ∉ netlocOf s.base := by
  constructor
  · intro h
    obtain ⟨parts, hparts, huser, hpassword, _, _⟩ := h.no_userinfo
    obtain ⟨haccept, rfl⟩ := UrlLibrary.accepts_of_urlsplit hparts
    exact ⟨haccept, (SplitResult.no_userinfo_iff _).mp ⟨huser, hpassword⟩⟩
  · rintro ⟨haccept, hat⟩
    have hsplit := UrlLibrary.urlsplit_of_accepts (s := maskSections s) haccept
    obtain ⟨huser, hpassword⟩ := (SplitResult.no_userinfo_iff (partsOf (maskSections s))).mpr hat
    constructor
    · exact ⟨_, hsplit, huser, hpassword, masked_section s.query, masked_section s.fragment⟩
    · rw [redactUrl_of_no_userinfo (s := maskSections s) haccept hat, maskSections_maskSections]

/-- The authority that is left after the last `@`, or that is read in the path if nothing is left. -/
def authorityLeft (parts : SplitResult) : List Char :=
  if (rpartition '@' parts.netloc).2.2 ≠ [] then (rpartition '@' parts.netloc).2.2
  else (splitNetloc parts.path).1

/-- What `redact_url` returns for a URL that `urlsplit` accepts is clean exactly when the authority of the
URL has no `@`, or the URL has a `://` and the authority that is left is accepted and has no `@`. -/
theorem redactUrl_clean_iff (lib : UrlLibrary) {url : List Char} {parts : SplitResult}
    (hparts : lib.urlsplit url = .ok parts) :
    (∃ r, redactUrl lib url = .ok r ∧ Clean lib r) ↔
      '@' ∉ parts.netloc ∨ ([':', '/', '/'] <:+: url ∧
        lib.acceptsNetloc (authorityLeft parts) = true ∧ '@' ∉ authorityLeft parts) := by
  obtain ⟨s, rfl⟩ := Sections.exists_text url
  obtain ⟨haccept, rfl⟩ := UrlLibrary.accepts_of_urlsplit hparts
  have hnetloc : (partsOf s).netloc = netlocOf s.base := rfl
  have hleft : authorityLeft (partsOf s) = (splitStripped s.base).1 := by
    unfold authorityLeft splitStripped hostOf
    rw [hnetloc]
    split_ifs
    · rfl
    · rfl
  rw [hnetloc, hleft]
  have hclean {r : List Char} (hr : redactUrl lib s.text = .ok r) :
      (∃ r, redactUrl lib s.text = .ok r ∧ Clean lib r) ↔ Clean lib r := by
    rw [hr]
    constructor
    · rintro ⟨_, ⟨⟩, h⟩
      exact h
    · exact fun h => ⟨r, rfl, h⟩
  by_cases hat : '@' ∈ netlocOf s.base
  · by_cases hslashes : [':', '/', '/'] <:+: s.text
    · -- The reassembled URL has the authority that is left.
      rw [hclean (redactUrl_of_userinfo haccept hat hslashes), clean_maskSections_iff,
        netlocOf_stripped s hat]
      simp [hat, hslashes]
    · -- The early exit keeps the `@`.
      rw [hclean (redactUrl_of_no_slashes hslashes), clean_maskSections_iff]
      simp [hat, hslashes]
  · rw [hclean (redactUrl_of_no_userinfo haccept hat), clean_maskSections_iff]
    simp [hat, haccept]

/-- `http://u:p@h/p?k=v`. -/
def absoluteUrl : List Char :=
  ['h', 't', 't', 'p', ':', '/', '/', 'u', ':', 'p', '@', 'h', '/', 'p', '?', 'k', '=', 'v']

/-- The userinfo of an absolute URL is stripped, and the result is clean. -/
theorem redactUrl_clean_iff_absolute :
    ∃ r, redactUrl UrlLibrary.ascii absoluteUrl = .ok r ∧ Clean UrlLibrary.ascii r := by
  have hsplit : UrlLibrary.ascii.urlsplit absoluteUrl
      = .ok ⟨['h', 't', 't', 'p'], ['u', ':', 'p', '@', 'h'], ['/', 'p'], ['k', '=', 'v'], []⟩ := by
    decide +kernel
  exact (redactUrl_clean_iff UrlLibrary.ascii hsplit).mpr
    (Or.inr ⟨by decide +kernel, by decide +kernel, by decide +kernel⟩)

/-- `//user:pass@h/p`. -/
def relativeUrl : List Char :=
  ['/', '/', 'u', 's', 'e', 'r', ':', 'p', 'a', 's', 's', '@', 'h', '/', 'p']

/-- `urlsplit` finds a username in a URL without a scheme, and `redact_url` returns it as it is. -/
theorem redactUrl_keeps_relative_userinfo :
    (∃ parts, UrlLibrary.ascii.urlsplit relativeUrl = .ok parts ∧
      parts.username = some ['u', 's', 'e', 'r'] ∧ parts.password = some ['p', 'a', 's', 's']) ∧
    redactUrl UrlLibrary.ascii relativeUrl = .ok relativeUrl ∧
    ¬ ∃ r, redactUrl UrlLibrary.ascii relativeUrl = .ok r ∧ Clean UrlLibrary.ascii r := by
  have hsplit : UrlLibrary.ascii.urlsplit relativeUrl
      = .ok ⟨[], ['u', 's', 'e', 'r', ':', 'p', 'a', 's', 's', '@', 'h'], ['/', 'p'], [], []⟩ := by
    decide +kernel
  have hredact : redactUrl UrlLibrary.ascii relativeUrl = .ok relativeUrl := by decide +kernel
  refine ⟨⟨_, hsplit, by decide, by decide⟩, hredact, ?_⟩
  rintro ⟨r, hr, hclean⟩
  rw [hredact, Except.ok.injEq] at hr
  obtain ⟨parts, hparts, huser, _⟩ := hclean.no_userinfo
  rw [← hr, hsplit, Except.ok.injEq] at hparts
  rw [← hparts] at huser
  exact absurd huser (by decide)

/-- Without a host after the last `@`, the path of `http://u@//a@h` becomes an authority. -/
example : redactUrl UrlLibrary.ascii
    ['h', 't', 't', 'p', ':', '/', '/', 'u', '@', '/', '/', 'a', '@', 'h']
      = .ok ['h', 't', 't', 'p', ':', '/', '/', 'a', '@', 'h'] := by decide +kernel

end Httpware.Redaction
