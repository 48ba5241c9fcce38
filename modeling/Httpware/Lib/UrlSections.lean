import Httpware.Lib.Urlsplit

/-!
# The sections of a URL

A URL has three sections: what comes before its query and fragment, and these two. `urlsplit_text` says
that the scheme, the authority and the path depend on the first section only, and so does whether
`urlsplit` raises.
-/

namespace Python

section Stop

variable {α : Type*} {test : α → Bool} {b : List α}

/-- What starts with a character that fails the test keeps all its characters. -/
theorem dropWhile_of_head (h : b.head?.any test = false) : b.dropWhile test = b := by
  cases b with
  | nil => rfl
  | cons x b => exact List.dropWhile_cons_of_neg (by simpa using h)

/-- What starts with a character that fails the test gives none of its characters. -/
theorem takeWhile_of_head (h : b.head?.any test = false) : b.takeWhile test = [] := by
  cases b with
  | nil => rfl
  | cons x b => exact List.takeWhile_cons_of_neg (by simpa using h)

/-- What starts with a character that fails the test is not dropped from. -/
theorem dropWhile_append_of_head (h : b.head?.any test = false) (a : List α) :
    (a ++ b).dropWhile test = a.dropWhile test ++ b := by
  rw [List.dropWhile_append, dropWhile_of_head h]
  split_ifs with hempty
  · rw [List.isEmpty_iff.mp hempty]
    rfl
  · rfl

/-- What starts with a character that fails the test is not taken from. -/
theorem takeWhile_append_of_head (h : b.head?.any test = false) (a : List α) :
    (a ++ b).takeWhile test = a.takeWhile test := by
  rw [List.takeWhile_append, takeWhile_of_head h, List.append_nil]
  split_ifs with hall
  · exact ((List.takeWhile_sublist test).eq_of_length hall).symm
  · rfl

end Stop

/-- A text that starts with a scheme is not stripped. -/
theorem cleanUrl_of_isScheme {s : List Char} (h : isScheme s = true) (rest : List Char) :
    cleanUrl (s ++ ':' :: rest) = s ++ ':' :: rest.filter isKept := by
  have hletter := isScheme_head h
  have hhead : (s ++ ':' :: rest).head?.any isControlOrSpace = false := by
    cases s with
    | nil => exact absurd hletter Bool.false_ne_true
    | cons c s => exact isAlpha_plain hletter
  have hkept : s.filter isKept = s := by
    rw [List.filter_eq_self]
    intro c hc
    exact (isSchemeChar_plain (isScheme_mem h hc)).1
  unfold cleanUrl
  rw [dropWhile_of_head hhead, List.filter_append, hkept, List.filter_cons_of_pos (by decide)]

/-- A section after its mark, or nothing. -/
def marked (mark : Char) : Option (List Char) → List Char
  | none => []
  | some c => mark :: c

/-- A URL is split at the mark of a section that what is before does not have. -/
theorem partition_marked {mark : Char} {a : List Char} (h : mark ∉ a) (c : Option (List Char)) :
    partition mark (a ++ marked mark c) = (a, c.elim [] fun _ => [mark], c.getD []) := by
  cases c with
  | none =>
    rw [marked, List.append_nil]
    exact partition_of_notMem h
  | some c => exact partition_append_cons h

/-- A mark that is kept stays. -/
theorem filter_marked {mark : Char} (h : isKept mark = true) (c : Option (List Char)) :
    (marked mark c).filter isKept = marked mark (c.map (List.filter isKept)) := by
  cases c with
  | none => rfl
  | some c => exact List.filter_cons_of_pos h

/-- What comes before the query and the fragment, and these two. -/
@[ext] structure Sections where
  base : List Char
  query : Option (List Char)
  fragment : Option (List Char)
  question_notMem_base : '?' ∉ base
  hash_notMem_base : '#' ∉ base
  hash_notMem_query : ∀ q ∈ query, '#' ∉ q

namespace Sections

/-- The query and the fragment, with their marks. -/
def tail (s : Sections) : List Char := marked '?' s.query ++ marked '#' s.fragment

/-- The URL. -/
def text (s : Sections) : List Char := s.base ++ s.tail

/-- The query ends where the fragment starts. -/
theorem hash_notMem_front (s : Sections) {a : List Char} (h : '#' ∉ a) :
    '#' ∉ a ++ marked '?' s.query := by
  have hquery := s.hash_notMem_query
  cases hq : s.query with
  | none => simpa [marked] using h
  | some q => simpa [marked, h] using hquery q hq

/-- A URL without its fragment. -/
theorem partition_hash (s : Sections) {a : List Char} (h : '#' ∉ a) :
    partition '#' (a ++ s.tail)
      = (a ++ marked '?' s.query, s.fragment.elim [] fun _ => ['#'], s.fragment.getD []) := by
  unfold tail
  rw [← List.append_assoc]
  exact partition_marked (s.hash_notMem_front h) s.fragment

/-- Every URL has sections. -/
theorem exists_text (url : List Char) : ∃ s : Sections, s.text = url := by
  have hsplit (mark : Char) (t : List Char) :
      ∃ a c, t = a ++ marked mark c ∧ mark ∉ a ∧ ∀ x ∈ a, x ∈ t := by
    by_cases h : mark ∈ t
    · obtain ⟨a, b, hab, ha⟩ := List.eq_append_cons_of_mem h
      exact ⟨a, some b, hab, ha, fun x hx => hab ▸ List.mem_append_left _ hx⟩
    · exact ⟨t, none, (List.append_nil t).symm, h, fun x hx => hx⟩
  -- The fragment starts at the first `#`, and the query at the first `?` before it.
  obtain ⟨front, fragment, hurl, hfront, _⟩ := hsplit '#' url
  obtain ⟨base, query, hquery, hbase, hsub⟩ := hsplit '?' front
  have hhash : ∀ q ∈ query, '#' ∉ q := by
    intro q hq hmem
    apply hfront
    rw [hquery, Option.mem_def.mp hq, marked]
    exact List.mem_append_right _ (List.mem_cons_of_mem _ hmem)
  refine ⟨⟨base, query, fragment, hbase, fun h => hfront (hsub _ h), hhash⟩, ?_⟩
  calc base ++ (marked '?' query ++ marked '#' fragment)
      = (base ++ marked '?' query) ++ marked '#' fragment := (List.append_assoc _ _ _).symm
    _ = front ++ marked '#' fragment := by rw [hquery]
    _ = url := hurl.symm

/-- What follows the base starts with a mark, or there is nothing. -/
theorem tail_cases (s : Sections) :
    s.tail = [] ∨ (∃ rest, s.tail = '?' :: rest) ∨ ∃ rest, s.tail = '#' :: rest := by
  unfold tail marked
  cases s.query with
  | some q => exact Or.inr (Or.inl ⟨_, rfl⟩)
  | none =>
    cases s.fragment with
    | some f => exact Or.inr (Or.inr ⟨f, rfl⟩)
    | none => exact Or.inl rfl

/-- A test that neither mark meets fails at the start of what follows the base. -/
theorem tail_head (s : Sections) (test : Char → Bool) (hquestion : test '?' = false)
    (hhash : test '#' = false) : s.tail.head?.any test = false := by
  obtain h | ⟨rest, h⟩ | ⟨rest, h⟩ := s.tail_cases
  · rw [h]
    rfl
  · rw [h]
    exact hquestion
  · rw [h]
    exact hhash

/-- Cleaning only drops characters. -/
theorem mem_of_mem_cleanUrl {x : Char} {t : List Char} (h : x ∈ cleanUrl t) : x ∈ t :=
  (List.dropWhile_sublist _).subset (List.mem_of_mem_filter h)

/-- The sections of the URL that `urlsplit` splits. -/
def clean (s : Sections) : Sections where
  base := cleanUrl s.base
  query := s.query.map (List.filter isKept)
  fragment := s.fragment.map (List.filter isKept)
  question_notMem_base h := s.question_notMem_base (mem_of_mem_cleanUrl h)
  hash_notMem_base h := s.hash_notMem_base (mem_of_mem_cleanUrl h)
  hash_notMem_query := by
    intro q hq hmem
    obtain ⟨p, hp, rfl⟩ := Option.mem_map.mp hq
    exact s.hash_notMem_query p hp (List.mem_of_mem_filter hmem)

/-- Each section is cleaned alone. -/
theorem cleanUrl_text (s : Sections) : cleanUrl s.text = s.clean.text := by
  have htail : s.tail.filter isKept = s.clean.tail := by
    unfold tail
    rw [List.filter_append, filter_marked (by decide), filter_marked (by decide)]
    rfl
  have hhead := s.tail_head isControlOrSpace (by decide) (by decide)
  unfold cleanUrl text
  rw [dropWhile_append_of_head hhead, List.filter_append, htail]
  rfl

/-- The scheme is in the base. -/
theorem splitScheme_append (s : Sections) (a : List Char) :
    splitScheme (a ++ s.tail) = ((splitScheme a).1, (splitScheme a).2 ++ s.tail) := by
  by_cases hcolon : ':' ∈ a
  · obtain ⟨front, rest, ha, hfront⟩ := List.eq_append_cons_of_mem hcolon
    unfold splitScheme
    rw [ha, List.append_assoc, List.cons_append, partition_append_cons hfront,
      partition_append_cons hfront]
    simp only
    split_ifs
    · rfl
    · simp
  · have hnone : splitScheme a = ([], a) := by
      unfold splitScheme
      rw [partition_of_notMem hcolon]
      simp
    -- Up to a colon after a mark, there is the mark, which is no character of a scheme.
    have hmark {mark : Char} {rest : List Char} (hne : mark ≠ ':')
        (hscheme : isSchemeChar mark = false) : splitScheme (a ++ mark :: rest) = ([], a ++ mark :: rest) := by
      have hmem : mark ∈ (partition ':' (a ++ mark :: rest)).1 := by
        unfold partition
        rw [takeWhile_ne_append hcolon]
        simp [hne]
      unfold splitScheme
      apply if_neg
      rintro ⟨_, hall⟩
      rw [isScheme_mem hall hmem] at hscheme
      cases hscheme
    obtain h | ⟨rest, h⟩ | ⟨rest, h⟩ := s.tail_cases
    · rw [h, hnone, List.append_nil]
      exact hnone
    · rw [h, hnone]
      exact hmark (by decide) (by decide)
    · rw [h, hnone]
      exact hmark (by decide) (by decide)

/-- The authority is in the base. -/
theorem splitNetloc_append (s : Sections) (a : List Char) :
    splitNetloc (a ++ s.tail) = ((splitNetloc a).1, (splitNetloc a).2 ++ s.tail) := by
  have hslash := s.tail_head (· = '/') (by decide) (by decide)
  have hends := s.tail_head (!endsNetloc ·) (by decide) (by decide)
  have htake : (a ++ s.tail).take 2 = ['/', '/'] ↔ a.take 2 = ['/', '/'] := by
    -- The slashes cannot be in what follows the base.
    cases htail : s.tail with
    | nil => rw [List.append_nil]
    | cons c rest =>
      have hc : c ≠ '/' := by simpa [htail] using hslash
      rcases a with _ | ⟨x, _ | ⟨y, a⟩⟩
      · simp [hc]
      · simp [hc]
      · simp
  unfold splitNetloc
  by_cases h : a.take 2 = ['/', '/']
  · rw [if_pos h, if_pos (htake.mpr h)]
    have hlen : 2 ≤ a.length := by
      have := congrArg List.length h
      simp at this
      omega
    rw [List.drop_append_of_le_length hlen, takeWhile_append_of_head hends,
      dropWhile_append_of_head hends]
  · rw [if_neg h, if_neg (fun h' => h (htake.mp h'))]

end Sections

/-- The scheme of a URL with this base. -/
def schemeOf (base : List Char) : List Char := (splitScheme (cleanUrl base)).1

/-- The authority of a URL with this base. -/
def netlocOf (base : List Char) : List Char := (splitNetloc (splitScheme (cleanUrl base)).2).1

/-- The path of a URL with this base. -/
def pathOf (base : List Char) : List Char := (splitNetloc (splitScheme (cleanUrl base)).2).2

/-- What is after the scheme is of the URL. -/
theorem mem_of_mem_splitScheme {x : Char} {url : List Char} (h : x ∈ (splitScheme url).2) :
    x ∈ url := by
  unfold splitScheme at h
  simp only at h
  split_ifs at h
  · exact (List.dropWhile_sublist _).subset (List.mem_of_mem_drop h)
  · exact h

/-- What is split at the authority is of the URL. -/
theorem mem_of_mem_splitNetloc {x : Char} {url : List Char}
    (h : x ∈ (splitNetloc url).1 ∨ x ∈ (splitNetloc url).2) : x ∈ url := by
  unfold splitNetloc at h
  split_ifs at h
  · obtain h | h := h
    · exact List.mem_of_mem_drop ((List.takeWhile_sublist _).subset h)
    · exact List.mem_of_mem_drop ((List.dropWhile_sublist _).subset h)
  · obtain h | h := h
    · exact absurd h List.not_mem_nil
    · exact h

/-- The authority and the path are of the clean base. -/
theorem mem_cleanUrl_of_mem {x : Char} {base : List Char}
    (h : x ∈ netlocOf base ∨ x ∈ pathOf base) : x ∈ cleanUrl base :=
  mem_of_mem_splitScheme (mem_of_mem_splitNetloc h)

/-- The parts of a URL by sections: only the base decides the scheme, the authority and the path. -/
def partsOf (s : Sections) : SplitResult where
  scheme := schemeOf s.base
  netloc := netlocOf s.base
  path := pathOf s.base
  query := s.clean.query.getD []
  fragment := s.clean.fragment.getD []

/-- `urlsplit` of a URL by sections: only the base decides whether it raises. -/
theorem UrlLibrary.urlsplit_text (lib : UrlLibrary) (s : Sections) :
    lib.urlsplit s.text =
      if lib.acceptsNetloc (netlocOf s.base) then .ok (partsOf s) else .error .valueError := by
  -- The path has no mark, as the base has none.
  have hpath {mark : Char} (h : mark ∉ s.clean.base) : mark ∉ pathOf s.base := by
    intro hmem
    exact h (mem_cleanUrl_of_mem (Or.inr hmem))
  have hscheme := s.clean.splitScheme_append s.clean.base
  have hnetloc := s.clean.splitNetloc_append (splitScheme s.clean.base).2
  have hhash := s.clean.partition_hash (hpath s.clean.hash_notMem_base)
  have hquestion := partition_marked (hpath s.clean.question_notMem_base) s.clean.query
  have hrest : (splitNetloc (splitScheme s.clean.base).2).2 = pathOf s.base := rfl
  rw [hrest] at hnetloc
  unfold UrlLibrary.urlsplit
  rw [s.cleanUrl_text, Sections.text]
  simp only [hscheme, hnetloc, hhash, hquestion]
  rfl

/-- `urlsplit` of a URL with an authority that is accepted. -/
theorem UrlLibrary.urlsplit_of_accepts {lib : UrlLibrary} {s : Sections}
    (h : lib.acceptsNetloc (netlocOf s.base) = true) : lib.urlsplit s.text = .ok (partsOf s) := by
  rw [lib.urlsplit_text]
  exact if_pos h

/-- What `urlsplit` returns, and that it was accepted. -/
theorem UrlLibrary.accepts_of_urlsplit {lib : UrlLibrary} {s : Sections} {parts : SplitResult}
    (h : lib.urlsplit s.text = .ok parts) :
    lib.acceptsNetloc (netlocOf s.base) = true ∧ parts = partsOf s := by
  rw [lib.urlsplit_text] at h
  split_ifs at h with haccept
  exact ⟨haccept, (Except.ok.inj h).symm⟩

end Python
