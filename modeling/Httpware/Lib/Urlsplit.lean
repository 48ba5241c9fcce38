import Mathlib
import Httpware.Lib.Python

/-!
# `urllib.parse` on strings as lists of characters

`partition` and `rpartition` of `str` for a separator of one character, and `urlsplit` with the checks
that make it raise. Two parts of the library are parameters (`UrlLibrary`): the NFKC normalization and
the parser of IPv6 addresses. Older releases look for the bracketed host in the whole authority, newer
ones after the userinfo, and the model has both.
-/

namespace Python

/-! ## `partition` -/

section Partition

variable {α : Type*} [DecidableEq α]

/-- `s.partition(sep)`. -/
def partition (sep : α) (s : List α) : List α × List α × List α :=
  (s.takeWhile (· ≠ sep), (s.dropWhile (· ≠ sep)).take 1, (s.dropWhile (· ≠ sep)).drop 1)

/-- `s.rpartition(sep)`. -/
def rpartition (sep : α) (s : List α) : List α × List α × List α :=
  (((s.reverse.dropWhile (· ≠ sep)).drop 1).reverse, (s.reverse.dropWhile (· ≠ sep)).take 1,
    (s.reverse.takeWhile (· ≠ sep)).reverse)

variable {sep : α} {a b s : List α}

/-- Nothing before the separator is the separator. -/
theorem takeWhile_ne_append (h : sep ∉ a) :
    (a ++ b).takeWhile (· ≠ sep) = a ++ b.takeWhile (· ≠ sep) := by
  apply List.takeWhile_append_of_pos
  intro x hx
  simp only [decide_eq_true_eq]
  rintro rfl
  exact h hx

theorem dropWhile_ne_append (h : sep ∉ a) :
    (a ++ b).dropWhile (· ≠ sep) = b.dropWhile (· ≠ sep) := by
  apply List.dropWhile_append_of_pos
  intro x hx
  simp only [decide_eq_true_eq]
  rintro rfl
  exact h hx

/-- A string with the separator splits at its first occurrence. -/
theorem partition_append_cons (h : sep ∉ a) : partition sep (a ++ sep :: b) = (a, [sep], b) := by
  unfold partition
  rw [takeWhile_ne_append h, dropWhile_ne_append h]
  simp

/-- A string without the separator stays whole. -/
theorem partition_of_notMem (h : sep ∉ s) : partition sep s = (s, [], []) := by
  have htake := takeWhile_ne_append (b := []) h
  have hdrop := dropWhile_ne_append (b := []) h
  rw [List.append_nil] at htake hdrop
  unfold partition
  rw [htake, hdrop]
  simp

/-- A string with the separator splits at its last occurrence. -/
theorem rpartition_append_cons (h : sep ∉ b) : rpartition sep (a ++ sep :: b) = (a, [sep], b) := by
  have hrev : sep ∉ b.reverse := by rwa [List.mem_reverse]
  unfold rpartition
  rw [List.reverse_append, List.reverse_cons, List.append_assoc, takeWhile_ne_append hrev,
    dropWhile_ne_append hrev]
  simp

/-- A string without the separator is its own last part. -/
theorem rpartition_of_notMem (h : sep ∉ s) : rpartition sep s = ([], [], s) := by
  have hrev : sep ∉ s.reverse := by rwa [List.mem_reverse]
  have htake := takeWhile_ne_append (b := []) hrev
  have hdrop := dropWhile_ne_append (b := []) hrev
  rw [List.append_nil] at htake hdrop
  unfold rpartition
  rw [htake, hdrop]
  simp

omit [DecidableEq α] in
/-- The last occurrence of the separator. -/
theorem exists_last_of_mem (h : sep ∈ s) : ∃ a b, s = a ++ sep :: b ∧ sep ∉ b := by
  obtain ⟨b, a, hs, hb⟩ := List.eq_append_cons_of_mem (List.mem_reverse.mpr h)
  refine ⟨a.reverse, b.reverse, ?_, by rwa [List.mem_reverse]⟩
  rw [← List.reverse_reverse s, hs]
  simp

end Partition

/-! ## `urlsplit` -/

/-- The parts of a URL. -/
structure SplitResult where
  scheme : List Char
  netloc : List Char
  path : List Char
  query : List Char
  fragment : List Char
deriving DecidableEq, Repr

namespace SplitResult

/-- `SplitResult.username`. -/
def username (parts : SplitResult) : Option (List Char) :=
  let (userinfo, haveInfo, _) := rpartition '@' parts.netloc
  if haveInfo ≠ [] then some (partition ':' userinfo).1 else none

/-- `SplitResult.password`. -/
def password (parts : SplitResult) : Option (List Char) :=
  let (userinfo, haveInfo, _) := rpartition '@' parts.netloc
  let (_, havePassword, password) := partition ':' userinfo
  if haveInfo ≠ [] ∧ havePassword ≠ [] then some password else none

/-- A URL has a username or a password exactly when its authority has an `@`. -/
theorem no_userinfo_iff (parts : SplitResult) :
    (parts.username = none ∧ parts.password = none) ↔ '@' ∉ parts.netloc := by
  constructor
  · intro h hmem
    -- With an `@`, even an empty username is a username.
    obtain ⟨a, b, hab, hb⟩ := exists_last_of_mem hmem
    have huser := h.1
    unfold username at huser
    rw [hab, rpartition_append_cons hb] at huser
    simp at huser
  · intro h
    unfold username password
    rw [rpartition_of_notMem h]
    simp

end SplitResult

/-- The white space and control characters that `urlsplit` strips on the left. -/
def isControlOrSpace (c : Char) : Bool := c.toNat ≤ 0x20

/-- What `urlsplit` does not remove. -/
def isKept (c : Char) : Bool := c ∉ ['\t', '\r', '\n']

/-- The URL that `urlsplit` splits. -/
def cleanUrl (url : List Char) : List Char := (url.dropWhile isControlOrSpace).filter isKept

/-- The characters of a scheme. -/
def isSchemeChar (c : Char) : Bool := c.isAlphanum || ['+', '-', '.'].contains c

/-- A scheme: a letter, then letters, digits, `+`, `-` and `.`. -/
def isScheme (s : List Char) : Bool := s.head?.any Char.isAlpha && s.all isSchemeChar

/-- The scheme in lower case, and the rest of the URL. -/
def splitScheme (url : List Char) : List Char × List Char :=
  let (front, colon, rest) := partition ':' url
  if colon ≠ [] ∧ isScheme front then (front.map Char.toLower, rest) else ([], url)

/-- What ends the authority. -/
def endsNetloc (c : Char) : Bool := ['/', '?', '#'].contains c

/-- The authority, and the rest of the URL. -/
def splitNetloc (url : List Char) : List Char × List Char :=
  if url.take 2 = ['/', '/'] then
    ((url.drop 2).takeWhile (!endsNetloc ·), (url.drop 2).dropWhile (!endsNetloc ·))
  else ([], url)

/-- A hexadecimal digit. -/
def isHexDigit (c : Char) : Bool :=
  c.isDigit || ('a' ≤ c && c ≤ 'f') || ('A' ≤ c && c ≤ 'F')

/-- `v`, hexadecimal digits, a dot, and one character or more. -/
def isIPvFuture (hostname : List Char) : Bool :=
  let rest := (hostname.drop 1).dropWhile isHexDigit
  hostname.head? = some 'v' && (hostname.drop 1).takeWhile isHexDigit ≠ [] &&
    rest.head? = some '.' && rest.drop 1 ≠ [] && !rest.contains '\n'

/-- The characters that may not come out of a normalization. -/
def isReserved (c : Char) : Bool := ['/', '?', '#', '@', ':'].contains c

/-- The authority as `_checknetloc` normalizes it. -/
def normalizedPart (netloc : List Char) : List Char := netloc.filter (· ∉ ['@', ':', '#', '?'])

/-- What `urllib.parse` takes from elsewhere, and where its release looks for a bracketed host. -/
structure UrlLibrary where
  /-- `unicodedata.normalize` with `NFKC`. -/
  nfkc : List Char → List Char
  /-- Whether `ipaddress.ip_address` reads an IPv6 address. -/
  isIPv6Address : List Char → Bool
  /-- Whether the bracketed host is looked for after the userinfo. -/
  bracketsAfterUserinfo : Bool
  /-- The schemes of `uses_netloc`. -/
  usesNetloc : List Char → Bool

namespace UrlLibrary

variable (lib : UrlLibrary)

/-- `_check_bracketed_host`. -/
def checkBracketedHost (hostname : List Char) : Bool :=
  if hostname.head? = some 'v' then isIPvFuture hostname else lib.isIPv6Address hostname

/-- `_check_bracketed_netloc`, or its form in the releases before it. -/
def checkBracketedNetloc (netloc : List Char) : Bool :=
  if lib.bracketsAfterUserinfo then
    let hostnameAndPort := (rpartition '@' netloc).2.2
    let (beforeBracket, haveOpenBracket, bracketed) := partition '[' hostnameAndPort
    if haveOpenBracket ≠ [] then
      let (hostname, _, port) := partition ']' bracketed
      beforeBracket = [] && (port = [] || port.head? = some ':') && lib.checkBracketedHost hostname
    else lib.checkBracketedHost (partition ':' hostnameAndPort).1
  else lib.checkBracketedHost (partition ']' (partition '[' netloc).2.2).1

/-- `_checknetloc`. -/
def checkNetloc (netloc : List Char) : Bool :=
  netloc.all (·.toNat < 128) || normalizedPart netloc = lib.nfkc (normalizedPart netloc) ||
    !(lib.nfkc (normalizedPart netloc)).any isReserved

/-- The authorities for which `urlsplit` does not raise. -/
def acceptsNetloc (netloc : List Char) : Bool :=
  netloc.contains '[' == netloc.contains ']' &&
    (!netloc.contains '[' || lib.checkBracketedNetloc netloc) && lib.checkNetloc netloc

/-- `urlsplit(url)`. -/
def urlsplit (url : List Char) : Except Error SplitResult :=
  let (scheme, rest) := splitScheme (cleanUrl url)
  let (netloc, rest) := splitNetloc rest
  let (rest, _, fragment) := partition '#' rest
  let (path, _, query) := partition '?' rest
  if lib.acceptsNetloc netloc then .ok ⟨scheme, netloc, path, query, fragment⟩
  else .error .valueError

/-- `urlunsplit(parts)`. -/
def urlunsplit (parts : SplitResult) : List Char :=
  let url :=
    if parts.netloc ≠ [] then
      ['/', '/'] ++ parts.netloc ++
        if parts.path ≠ [] ∧ parts.path.head? ≠ some '/' then '/' :: parts.path else parts.path
    else if parts.path.take 2 = ['/', '/'] then ['/', '/'] ++ parts.path
    else if parts.scheme ≠ [] ∧ lib.usesNetloc parts.scheme ∧
        (parts.path = [] ∨ parts.path.head? = some '/') then ['/', '/'] ++ parts.path
    else parts.path
  let url := if parts.scheme ≠ [] then parts.scheme ++ ':' :: url else url
  let url := if parts.query ≠ [] then url ++ '?' :: parts.query else url
  if parts.fragment ≠ [] then url ++ '#' :: parts.fragment else url

end UrlLibrary

/-! ## The parts of an authority -/

section Netloc

variable (lib : UrlLibrary) {host userinfo : List Char}

/-- The empty authority is accepted. -/
@[simp] theorem UrlLibrary.acceptsNetloc_nil : lib.acceptsNetloc [] = true := by
  simp [UrlLibrary.acceptsNetloc, UrlLibrary.checkNetloc]

/-- NFKC composes across the end of an ASCII text, but brings none of the reserved characters in. -/
def UrlLibrary.KeepsReservedOut : Prop :=
  ∀ front rest : List Char, front.all (fun c => c.toNat < 128 && !isReserved c) →
    (lib.nfkc rest).any isReserved = false →
    (lib.nfkc (front ++ rest)).any isReserved = false

/-- A library whose normalization is the one of ASCII texts, and which reads no IPv6 address. -/
def UrlLibrary.ascii : UrlLibrary := ⟨id, fun _ => false, true, fun _ => true⟩

theorem UrlLibrary.ascii_keepsReservedOut : UrlLibrary.ascii.KeepsReservedOut := by
  intro front rest hfront hrest
  show (front ++ rest).any isReserved = false
  rw [List.any_append, Bool.or_eq_false_iff]
  refine ⟨?_, hrest⟩
  rw [List.any_eq_false]
  intro c hc
  have hboth := List.all_eq_true.mp hfront c hc
  simp only [Bool.and_eq_true, Bool.not_eq_true'] at hboth
  rw [hboth.2]
  exact Bool.false_ne_true

/-- A part without `/` that is its own normalization has no reserved character. -/
theorem normalizedPart_plain (h : '/' ∉ host) :
    (normalizedPart host).any isReserved = false := by
  simp only [normalizedPart, List.any_eq_false, List.mem_filter]
  intro c hc
  obtain ⟨hmem, hdrop⟩ := hc
  have hslash : c ≠ '/' := by
    intro hc
    exact h (hc ▸ hmem)
  simp [isReserved] at hdrop ⊢
  tauto

/-- A part that passes is ASCII, or has a normalization without reserved characters. -/
theorem checkNetloc_cases (hhost : '/' ∉ host) (h : lib.checkNetloc host = true) :
    host.all (·.toNat < 128) = true ∨
      (lib.nfkc (normalizedPart host)).any isReserved = false := by
  unfold UrlLibrary.checkNetloc at h
  rw [Bool.or_eq_true, Bool.or_eq_true] at h
  obtain (hall | hsame) | hout := h
  · left
    exact hall
  · right
    rw [← of_decide_eq_true hsame]
    exact normalizedPart_plain hhost
  · right
    exact (Bool.not_eq_true' _).mp hout

/-- A userinfo before an accepted host keeps the normalization check. -/
theorem checkNetloc_userinfo (hlib : lib.KeepsReservedOut) (hhost : '/' ∉ host)
    (hascii : userinfo.all (·.toNat < 128)) (huser : '/' ∉ userinfo)
    (h : lib.checkNetloc host = true) : lib.checkNetloc (userinfo ++ '@' :: host) = true := by
  have hsplit : normalizedPart (userinfo ++ '@' :: host)
      = normalizedPart userinfo ++ normalizedPart host := by
    simp [normalizedPart]
  unfold UrlLibrary.checkNetloc
  rw [Bool.or_eq_true, Bool.or_eq_true]
  obtain hall | hplain := checkNetloc_cases lib hhost h
  · left; left
    rw [List.all_append, hascii, List.all_cons, hall]
    decide
  · right
    rw [hsplit, Bool.not_eq_true']
    apply hlib _ _ _ hplain
    -- What is left of the userinfo is ASCII and has nothing reserved.
    rw [List.all_eq_true]
    intro c hc
    have hreserved := (List.any_eq_false.mp (normalizedPart_plain huser)) c hc
    have hlt := (List.all_eq_true.mp hascii) c (List.mem_of_mem_filter hc)
    simpa using And.intro (of_decide_eq_true hlt) (Bool.eq_false_iff.mpr hreserved)

/-- A bracketed host is the same one after a userinfo without brackets. -/
theorem checkBracketedNetloc_userinfo (hat : '@' ∉ host) (huser : '[' ∉ userinfo)
    (hopen : '[' ∈ host) :
    lib.checkBracketedNetloc (userinfo ++ '@' :: host) = lib.checkBracketedNetloc host := by
  have hskip : (partition '[' (userinfo ++ '@' :: host)).2.2 = (partition '[' host).2.2 := by
    -- The first bracket is in the host.
    obtain ⟨a, b, hab, ha⟩ := List.eq_append_cons_of_mem hopen
    have hfront : '[' ∉ userinfo ++ '@' :: a := by simp [huser, ha]
    rw [hab, partition_append_cons ha]
    have hassoc : userinfo ++ '@' :: (a ++ '[' :: b) = (userinfo ++ '@' :: a) ++ '[' :: b := by simp
    rw [hassoc, partition_append_cons hfront]
  unfold UrlLibrary.checkBracketedNetloc
  rw [rpartition_append_cons hat, rpartition_of_notMem hat, hskip]

/-- A userinfo of ASCII characters, without `/` and brackets, does not change what is accepted. -/
theorem acceptsNetloc_userinfo (hlib : lib.KeepsReservedOut) (hhost : '/' ∉ host)
    (hat : '@' ∉ host) (hascii : userinfo.all (·.toNat < 128)) (huser : '/' ∉ userinfo)
    (hopen : '[' ∉ userinfo) (hclose : ']' ∉ userinfo) (h : lib.acceptsNetloc host = true) :
    lib.acceptsNetloc (userinfo ++ '@' :: host) = true := by
  unfold UrlLibrary.acceptsNetloc at h ⊢
  simp only [Bool.and_eq_true] at h ⊢
  obtain ⟨⟨hpair, hbracket⟩, hcheck⟩ := h
  refine ⟨⟨?_, ?_⟩, checkNetloc_userinfo lib hlib hhost hascii huser hcheck⟩
  · simpa [hopen, hclose] using hpair
  · by_cases hmem : '[' ∈ host
    · rw [checkBracketedNetloc_userinfo lib hat hopen hmem]
      simpa [hmem] using hbracket
    · simp [hopen, hmem]

end Netloc

/-! ## The scheme and the authority of a text -/

/-- A scheme starts with a letter. -/
theorem isScheme_head {s : List Char} (h : isScheme s = true) : s.head?.any Char.isAlpha = true := by
  unfold isScheme at h
  rw [Bool.and_eq_true] at h
  exact h.1

/-- A scheme has the characters of one. -/
theorem isScheme_mem {s : List Char} (h : isScheme s = true) {c : Char} (hc : c ∈ s) :
    isSchemeChar c = true := by
  unfold isScheme at h
  rw [Bool.and_eq_true, List.all_eq_true] at h
  exact h.2 c hc

/-- A scheme before a colon. -/
theorem splitScheme_of_isScheme {s rest : List Char} (h : isScheme s = true) :
    splitScheme (s ++ ':' :: rest) = (s.map Char.toLower, rest) := by
  have hcolon : ':' ∉ s := fun hmem => absurd (isScheme_mem h hmem) (by decide)
  unfold splitScheme
  rw [partition_append_cons hcolon]
  simp [h]

/-- Without a letter at its start a text has no scheme. -/
theorem splitScheme_of_head {s : List Char} (h : s.head?.any Char.isAlpha = false) :
    splitScheme s = ([], s) := by
  unfold splitScheme
  apply if_neg
  rintro ⟨_, hscheme⟩
  have hfront := isScheme_head hscheme
  cases s with
  | nil => simp at hfront
  | cons c rest =>
    by_cases hc : c = ':'
    · simp [hc] at hfront
    · simp [hc] at hfront h
      rw [h] at hfront
      exact absurd hfront Bool.false_ne_true

/-- A scheme that was split off is one, in lower case. -/
theorem splitScheme_fst (url : List Char) :
    (splitScheme url).1 = [] ∨ ∃ s, isScheme s = true ∧ (splitScheme url).1 = s.map Char.toLower := by
  unfold splitScheme
  simp only
  split_ifs with h
  · right
    exact ⟨_, h.2, rfl⟩
  · left
    rfl

/-- Lower case keeps the characters of a scheme. -/
theorem isSchemeChar_toLower {c : Char} (h : isSchemeChar c = true) :
    isSchemeChar c.toLower = true := by
  by_cases hupper : c.isUpper
  · have halpha : c.isAlpha = true := by simp [Char.isAlpha, hupper]
    unfold isSchemeChar Char.isAlphanum
    rw [Char.isAlpha_toLower_eq_isAlpha, halpha]
    rfl
  · rwa [Char.toLower_eq_of_not_isUpper hupper]

/-- A scheme in lower case is a scheme. -/
theorem isScheme_lower {s : List Char} (h : isScheme s = true) :
    isScheme (s.map Char.toLower) = true := by
  unfold isScheme
  rw [Bool.and_eq_true, List.all_eq_true]
  constructor
  · have hhead := isScheme_head h
    cases s with
    | nil => exact hhead
    | cons c rest => simpa using hhead
  · intro c hc
    obtain ⟨d, hd, rfl⟩ := List.mem_map.mp hc
    exact isSchemeChar_toLower (isScheme_mem h hd)

/-- A scheme in lower case stays as it is. -/
theorem lower_lower (s : List Char) : (s.map Char.toLower).map Char.toLower = s.map Char.toLower := by
  rw [List.map_map]
  apply List.map_congr_left
  intro c _
  exact Char.toLower_toLower_eq_toLower c

/-- A character of a scheme is kept, and ends nothing. -/
theorem isSchemeChar_plain {c : Char} (h : isSchemeChar c = true) :
    isKept c = true ∧ c ≠ '?' ∧ c ≠ '#' ∧ c ≠ ':' := by
  refine ⟨?_, ?_, ?_, ?_⟩
  · by_contra hc
    simp [isKept] at hc
    obtain rfl | rfl | rfl : c = '\t' ∨ c = '\r' ∨ c = '\n' := by tauto
    all_goals exact absurd h (by decide)
  all_goals
    rintro rfl
    exact absurd h (by decide)

/-- What starts an authority or a path is no letter and no white space. -/
theorem endsNetloc_plain {c : Char} (h : endsNetloc c = true) :
    c.isAlpha = false ∧ isControlOrSpace c = false := by
  have : c = '/' ∨ c = '?' ∨ c = '#' := by simpa [endsNetloc] using h
  obtain rfl | rfl | rfl := this
  all_goals exact ⟨by decide, by decide⟩

/-- A letter is no white space. -/
theorem isAlpha_plain {c : Char} (h : c.isAlpha = true) : isControlOrSpace c = false := by
  simp only [Char.isAlpha, Char.isUpper, Char.isLower, Bool.or_eq_true, Bool.and_eq_true,
    decide_eq_true_eq, ge_iff_le, UInt32.le_iff_toNat_le] at h
  simp only [isControlOrSpace, decide_eq_false_iff_not, Char.toNat, not_le]
  obtain ⟨hlow, _⟩ | ⟨hlow, _⟩ := h
  · exact lt_of_lt_of_le (by decide) hlow
  · exact lt_of_lt_of_le (by decide) hlow

/-- An authority after its slashes, before a path. -/
theorem splitNetloc_of_slashes {netloc rest : List Char} (hnetloc : netloc.any endsNetloc = false)
    (hrest : rest.head?.all endsNetloc = true) :
    splitNetloc ('/' :: '/' :: (netloc ++ rest)) = (netloc, rest) := by
  have hall : ∀ c ∈ netloc, (!endsNetloc c) = true := by
    intro c hc
    rw [Bool.not_eq_true']
    exact Bool.eq_false_iff.mpr (List.any_eq_false.mp hnetloc c hc)
  unfold splitNetloc
  rw [if_pos (by simp)]
  simp only [List.drop_succ_cons, List.drop_zero]
  rw [List.takeWhile_append_of_pos hall, List.dropWhile_append_of_pos hall]
  cases rest with
  | nil => simp
  | cons c rest =>
    have hc : endsNetloc c = true := by simpa using hrest
    simp [hc]

/-- What is split off as the authority ends where a path, a query or a fragment starts. -/
theorem splitNetloc_fst (url : List Char) : (splitNetloc url).1.any endsNetloc = false := by
  unfold splitNetloc
  split_ifs with h
  · rw [List.any_eq_false]
    intro c hc
    have := List.mem_takeWhile_imp hc
    simpa using this
  · rfl

/-- After an authority comes nothing, or what ends it. -/
theorem splitNetloc_snd {url : List Char} (h : (splitNetloc url).1 ≠ []) :
    (splitNetloc url).2.head?.all endsNetloc = true := by
  unfold splitNetloc at h ⊢
  split_ifs with hslash
  · rw [Option.all_eq_true]
    intro c hc
    have hfirst := List.head?_dropWhile_not (!endsNetloc ·) (url.drop 2)
    have hhead : ((url.drop 2).dropWhile (!endsNetloc ·)).head? = some c := hc
    rw [hhead] at hfirst
    simpa using hfirst
  · rw [if_neg hslash] at h
    exact absurd rfl h

end Python
