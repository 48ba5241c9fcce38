import Httpware.Errors
import Httpware.Lib.Urlsplit

/-!
# Building a request

`_build_request` and `_reject_base_url_query` of `client.py`. httpx2 is a parameter: `Httpx2` has the
functions that the code calls, and `Httpx2.Spec` says what they do, in the terms of a `Reference`: how a
relative path joins `base_url`, what the params of the client and of the request encode to, and what else
is in a request.

`buildRequest_eq_reference` says that a request has the query of its URL, and then the params, on every
path, and that no other exception leaves but those of a `copy_with` for which a part of the URL is too
long. The parts of a URL are what the code reads of it, so its query is empty too where the URL has none.
-/

namespace Httpware.BuildRequest

open Python (partition partition_of_notMem)

/-! ## httpx2 -/

/-- `b"&"`. -/
def ampersand : UInt8 := 38

/-- Where a URL points. A relative URL has no origin. -/
structure Location where
  origin : Option String
  path : String
deriving DecidableEq, Repr

/-- The `url` of a call. -/
inductive UrlArg (U : Type)
  | str (s : String)
  | url (u : U)

/-- The keyword arguments of a call, by the one that the code looks at. -/
structure Kwargs (Q K : Type) where
  params : Option Q
  others : K

/-- An httpx2 client. -/
structure Httpx2Client (U Q : Type) where
  baseUrl : U
  params : Q

/-- A request that is built: its URL, and what else is in it. -/
structure BuiltRequest (U R : Type) where
  url : U
  rest : R

/-- The parts of a request. -/
structure Parts (R : Type) where
  location : Location
  query : Bytes
  fragment : String
  rest : R
deriving DecidableEq, Repr

/-- httpx2, over its URLs `U`, its `QueryParams` `Q`, the other arguments `K` of a request, and what else
is in one, `R`. -/
structure Httpx2 (U Q K R : Type) where
  /-- `URL` of a string. -/
  parse : String → Except Exc U
  location : U → Location
  /-- `url.query`. -/
  query : U → Bytes
  fragment : U → String
  /-- `url.copy_with(query=...)`, which raises for a part that is too long. -/
  copyWith : U → Option Bytes → Except Exc U
  /-- `bool(params)`. -/
  truthy : Q → Bool
  /-- `client.build_request`. -/
  buildRequest : Httpx2Client U Q → String → UrlArg U → Kwargs Q K → Except Exc (BuiltRequest U R)

variable {U Q K R : Type}

/-- `URL`. -/
def Httpx2.URL (lib : Httpx2 U Q K R) : UrlArg U → Except Exc U
  | .str s => lib.parse s
  | .url u => .ok u

/-- The parts of a request. -/
def Httpx2.parts (lib : Httpx2 U Q K R) (request : BuiltRequest U R) : Parts R where
  location := lib.location request.url
  query := lib.query request.url
  fragment := lib.fragment request.url
  rest := request.rest

/-! ## The code -/

/-- `_reject_base_url_query`. -/
def rejectBaseUrlQuery (lib : Httpx2 U Q K R) (baseUrl : UrlArg U) : Except Exc Unit := do
  let url ← lib.URL baseUrl
  if lib.query url ≠ [] then throw (.other "ValueError")

/-- The httpx2 client of a client, whose `__init__` has looked at its `base_url`. -/
structure Client (lib : Httpx2 U Q K R) extends Httpx2Client U Q where
  accepted : rejectBaseUrlQuery lib (.url baseUrl) = .ok ()

/-- `isinstance(url, str) and "?" not in url`. -/
def UrlArg.lacksQuery : UrlArg U → Bool
  | .str s => '?' ∉ s.toList
  | .url _ => false

/-- `except httpx2.InvalidURL`. -/
def mapInvalidURL {α : Type} : Except Exc α → Except Exc α
  | .error (.httpx2 .invalidURL) => .error .transportError
  | r => r

/-- What the `try` of `_build_request` ends with: the request, or the one without the query of its URL,
with the URL that has it. -/
inductive Tried (U R : Type)
  | built (request : BuiltRequest U R)
  | bare (parsed : U) (request : BuiltRequest U R)

/-- The `try` after its first exit. -/
def tryMerge (lib : Httpx2 U Q K R) (client : Httpx2Client U Q) (method : String) (url : UrlArg U)
    (kwargs : Kwargs Q K) : Except Exc (Tried U R) := do
  let parsed ← lib.URL url
  if lib.query parsed = [] then
    let request ← lib.buildRequest client method url kwargs
    return .built request
  else
    let bare ← lib.copyWith parsed none
    let request ← lib.buildRequest client method (.url bare) kwargs
    return .bare parsed request

/-- The test of the first exit. -/
def exitsFirst (lib : Httpx2 U Q K R) (client : Httpx2Client U Q) (url : UrlArg U) (kwargs : Kwargs Q K) :
    Bool := url.lacksQuery || (kwargs.params.isNone && !lib.truthy client.params)

/-- The `try`. -/
def tryBuild (lib : Httpx2 U Q K R) (client : Httpx2Client U Q) (method : String) (url : UrlArg U)
    (kwargs : Kwargs Q K) : Except Exc (Tried U R) :=
  if exitsFirst lib client url kwargs then (lib.buildRequest client method url kwargs).map .built
  else tryMerge lib client method url kwargs

/-- The query of a URL before that of a request. -/
def restoredQuery (lib : Httpx2 U Q K R) (parsed : U) (request : BuiltRequest U R) : Bytes :=
  let builtQuery := lib.query request.url
  if builtQuery ≠ [] then lib.query parsed ++ ampersand :: builtQuery else lib.query parsed

/-- The query is put back, outside of the `try`. -/
def restoreQuery (lib : Httpx2 U Q K R) : Tried U R → Except Exc (BuiltRequest U R)
  | .built request => .ok request
  | .bare parsed request => do
    let url ← lib.copyWith request.url (some (restoredQuery lib parsed request))
    return { request with url }

/-- `_build_request`. -/
def buildRequest (lib : Httpx2 U Q K R) (client : Httpx2Client U Q) (method : String) (url : UrlArg U)
    (kwargs : Kwargs Q K) : Except Exc (BuiltRequest U R) :=
  mapInvalidURL (tryBuild lib client method url kwargs) >>= restoreQuery lib

/-- `_build_request` without its first exit. -/
def slowPath (lib : Httpx2 U Q K R) (client : Httpx2Client U Q) (method : String) (url : UrlArg U)
    (kwargs : Kwargs Q K) : Except Exc (BuiltRequest U R) :=
  mapInvalidURL (tryMerge lib client method url kwargs) >>= restoreQuery lib

/-- The exception `e` is that of a `copy_with`: as mapped, where the query is taken off, and as it is, where
the query is put back. -/
def CopyRaises (lib : Httpx2 U Q K R) (client : Httpx2Client U Q) (method : String) (url : UrlArg U)
    (kwargs : Kwargs Q K) (e : Exc) : Prop :=
  ∃ parsed, lib.URL url = .ok parsed ∧ lib.query parsed ≠ [] ∧
    ((∃ raised, lib.copyWith parsed none = .error raised ∧
      mapInvalidURL (.error raised : Except Exc Unit) = .error e) ∨
    ∃ bare request, lib.copyWith parsed none = .ok bare ∧
      lib.buildRequest client method (.url bare) kwargs = .ok request ∧
      lib.copyWith request.url (some (restoredQuery lib parsed request)) = .error e)

/-! ## What it is for -/

/-- What a request is made of. -/
structure Reference (U Q K R : Type) where
  /-- A path after that of `base_url`. -/
  joinPath : String → String → String
  /-- What the params of the client encode to, merged with those of the request. -/
  merged : Q → Option Q → Bytes
  /-- What else is in a request to the location. This can raise. -/
  rest : Httpx2Client U Q → String → Location → Kwargs Q K → Except Exc R

namespace Reference

/-- A relative location joins `base_url`, and another stays. -/
def joined (ref : Reference U Q K R) (base location : Location) : Location :=
  if location.origin.isSome then location
  else ⟨base.origin, ref.joinPath base.path location.path⟩

/-- A query, and then the encoded params. -/
def joinQuery (query encoded : Bytes) : Bytes :=
  if encoded = [] then query
  else if query = [] then encoded
  else query ++ ampersand :: encoded

/-- The request: the query of the URL and then the params of both, at the location of the URL and
with its fragment. -/
def build (ref : Reference U Q K R) (lib : Httpx2 U Q K R) (client : Httpx2Client U Q) (method : String)
    (url : UrlArg U) (kwargs : Kwargs Q K) : Except Exc (Parts R) := do
  let u ← lib.URL url
  let location := ref.joined (lib.location client.baseUrl) (lib.location u)
  let rest ← ref.rest client method location kwargs
  let query := joinQuery (lib.query u) (ref.merged client.params kwargs.params)
  return ⟨location, query, lib.fragment u, rest⟩

end Reference

/-- What httpx2 documents. -/
structure Httpx2.Spec (lib : Httpx2 U Q K R) (ref : Reference U Q K R) : Prop where
  /-- A string without a question mark has no query. -/
  parse_query : ∀ s u, '?' ∉ s.toList → lib.parse s = .ok u → lib.query u = []
  /-- `copy_with(query=...)` leaves the location and the fragment. -/
  copyWith_location : ∀ u query u', lib.copyWith u query = .ok u' → lib.location u' = lib.location u
  copyWith_fragment : ∀ u query u', lib.copyWith u query = .ok u' → lib.fragment u' = lib.fragment u
  copyWith_none : ∀ u u', lib.copyWith u none = .ok u' → lib.query u' = []
  /-- The query of a URL is taken as it is, and so are two with an ampersand between them. -/
  copyWith_query : ∀ u v u', lib.copyWith u (some (lib.query v)) = .ok u' → lib.query u' = lib.query v
  copyWith_joined : ∀ u v w u',
    lib.copyWith u (some (lib.query v ++ ampersand :: lib.query w)) = .ok u' →
      lib.query u' = lib.query v ++ ampersand :: lib.query w
  /-- No params encode to nothing. -/
  merged_none : ∀ params, lib.truthy params = false → ref.merged params none = []
  /-- `build_request` joins a `base_url` without a query, and replaces the query of the URL whenever there
  are params, if only empty ones. -/
  build : ∀ client method url kwargs, lib.query client.baseUrl = [] →
    (lib.buildRequest client method url kwargs).map lib.parts = do
      let u ← lib.URL url
      let location := ref.joined (lib.location client.baseUrl) (lib.location u)
      let rest ← ref.rest client method location kwargs
      let query :=
        if kwargs.params.isSome || lib.truthy client.params then
          ref.merged client.params kwargs.params
        else lib.query u
      return ⟨location, query, lib.fragment u, rest⟩

/-! ## The reference -/

namespace Reference

/-- With no query, the params are all of it. -/
theorem joinQuery_nil_left (encoded : Bytes) : joinQuery [] encoded = encoded := by
  unfold joinQuery
  rw [if_pos rfl]
  split_ifs with h
  · exact h.symm
  · rfl

/-- Without params, a query stays. -/
theorem joinQuery_nil_right (query : Bytes) : joinQuery query [] = query := if_pos rfl

end Reference

variable {lib : Httpx2 U Q K R} {ref : Reference U Q K R} {client : Client lib} {method : String}
  {url : UrlArg U} {kwargs : Kwargs Q K}

/-- The `base_url` of a client has no query. -/
theorem Client.query_baseUrl (client : Client lib) : lib.query client.baseUrl = [] := by
  by_contra hquery
  have haccepted := client.accepted
  simp only [rejectBaseUrlQuery, Httpx2.URL, bind, Except.bind, if_pos hquery] at haccepted
  cases haccepted

/-- No other exception is mapped. -/
theorem mapInvalidURL_error {α : Type} {e : Exc} (he : e ≠ .httpx2 .invalidURL) :
    mapInvalidURL (.error e : Except Exc α) = .error e := by
  unfold mapInvalidURL
  split
  · next h => exact absurd (Except.error.inj h) he
  · rfl

/-- An exception leaves as one, whatever was to be returned. -/
theorem exists_mapInvalidURL_error (raised : Exc) :
    ∃ e, ∀ α : Type, mapInvalidURL (.error raised : Except Exc α) = .error e := by
  by_cases h : raised = .httpx2 .invalidURL
  · exact ⟨.transportError, fun α => h ▸ rfl⟩
  · exact ⟨raised, fun α => mapInvalidURL_error h⟩

/-- What is made of the result of a call that maps its error can be made before that. -/
theorem map_mapInvalidURL {α β : Type} (f : α → β) (r : Except Exc α) :
    (mapInvalidURL r).map f = mapInvalidURL (r.map f) := by
  cases r with
  | ok a => rfl
  | error e =>
    by_cases he : e = .httpx2 .invalidURL
    · rw [he]
      rfl
    · rw [mapInvalidURL_error he]
      exact (mapInvalidURL_error he).symm

/-! ## The exits -/

/-- Where the URL has no query or there are no params, `build_request` puts one behind the other. -/
theorem Httpx2.Spec.query_eq_joinQuery (hspec : lib.Spec ref) {query : Bytes}
    {clientParams : Q} {params : Option Q}
    (h : query = [] ∨ (params = none ∧ lib.truthy clientParams = false)) :
    (if params.isSome || lib.truthy clientParams then ref.merged clientParams params else query) =
      Reference.joinQuery query (ref.merged clientParams params) := by
  split_ifs with hparams
  · have hquery : query = [] := by
      rcases h with hquery | ⟨hnone, htruthy⟩
      · exact hquery
      · rw [hnone, htruthy] at hparams
        cases hparams
    rw [hquery, Reference.joinQuery_nil_left]
  · -- There are none.
    obtain ⟨hnone, htruthy⟩ : params = none ∧ lib.truthy clientParams = false := by
      simpa using hparams
    rw [hnone, hspec.merged_none clientParams htruthy, Reference.joinQuery_nil_right]

/-- There, the request that httpx2 builds for the URL is the one of the reference. -/
theorem Httpx2.Spec.build_eq (hspec : lib.Spec ref)
    (h : ∀ u, lib.URL url = .ok u →
      lib.query u = [] ∨ (kwargs.params = none ∧ lib.truthy client.params = false)) :
    (lib.buildRequest client.toHttpx2Client method url kwargs).map lib.parts =
      ref.build lib client.toHttpx2Client method url kwargs := by
  rw [hspec.build _ _ _ _ client.query_baseUrl]
  unfold Reference.build
  cases hurl : lib.URL url with
  | error e => rfl
  | ok u =>
    have hquery := hspec.query_eq_joinQuery (h u hurl)
    simp only [bind, Except.bind, hquery]

/-- A URL that lacks a question mark has no query. -/
theorem Httpx2.Spec.query_of_lacksQuery (hspec : lib.Spec ref) (h : url.lacksQuery = true) {u : U}
    (hurl : lib.URL url = .ok u) : lib.query u = [] := by
  cases url with
  | str s => exact hspec.parse_query s u (of_decide_eq_true h) hurl
  | url u => cases h

/-- There, the request that is returned is the one of the reference. -/
theorem Httpx2.Spec.built_eq (hspec : lib.Spec ref)
    (h : ∀ u, lib.URL url = .ok u →
      lib.query u = [] ∨ (kwargs.params = none ∧ lib.truthy client.params = false)) :
    (mapInvalidURL ((lib.buildRequest client.toHttpx2Client method url kwargs).map Tried.built) >>=
        restoreQuery lib).map lib.parts =
      mapInvalidURL (ref.build lib client.toHttpx2Client method url kwargs) := by
  rw [← hspec.build_eq h, ← map_mapInvalidURL, ← map_mapInvalidURL]
  cases mapInvalidURL (lib.buildRequest client.toHttpx2Client method url kwargs) with
  | error e => rfl
  | ok request => rfl

/-- The first exit. -/
theorem firstExit_eq (hspec : lib.Spec ref)
    (hexits : exitsFirst lib client.toHttpx2Client url kwargs = true) :
    (buildRequest lib client.toHttpx2Client method url kwargs).map lib.parts =
      mapInvalidURL (ref.build lib client.toHttpx2Client method url kwargs) := by
  unfold buildRequest tryBuild
  rw [if_pos hexits]
  apply hspec.built_eq
  intro u hurl
  rcases Bool.or_eq_true_iff.mp hexits with hlacks | hnone
  · exact .inl (hspec.query_of_lacksQuery hlacks hurl)
  · exact .inr (by simpa using hnone)

/-! ## The slow path -/

/-- The end of the path: only a copy of the URL can raise. -/
theorem restoreQuery_bare (lib : Httpx2 U Q K R) (parsed : U) (request : BuiltRequest U R) :
    restoreQuery lib (.bare parsed request) =
      (lib.copyWith request.url (some (restoredQuery lib parsed request))).map
        fun url => { request with url } := by
  unfold restoreQuery
  dsimp only
  cases lib.copyWith request.url (some (restoredQuery lib parsed request)) with
  | _ => rfl

/-- The parts with a query before their own. -/
def Parts.prepend (query : Bytes) (parts : Parts R) : Parts R :=
  { parts with query := Reference.joinQuery query parts.query }

/-- A query that is put back stands before that of the request, which keeps its other parts. -/
theorem Httpx2.Spec.parts_restoreQuery (hspec : lib.Spec ref) {parsed : U}
    (hquery : lib.query parsed ≠ []) (request : BuiltRequest U R) {u : U}
    (hcopy : lib.copyWith request.url (some (restoredQuery lib parsed request)) = .ok u) :
    lib.parts { request with url := u } = (lib.parts request).prepend (lib.query parsed) := by
  have hrestored : lib.query u = Reference.joinQuery (lib.query parsed) (lib.query request.url) := by
    unfold restoredQuery at hcopy
    unfold Reference.joinQuery
    dsimp only at hcopy
    by_cases hbuilt : lib.query request.url = []
    · rw [if_neg (not_not.mpr hbuilt)] at hcopy
      rw [if_pos hbuilt]
      exact hspec.copyWith_query _ _ _ hcopy
    · rw [if_pos hbuilt] at hcopy
      rw [if_neg hbuilt, if_neg hquery]
      exact hspec.copyWith_joined _ _ _ _ hcopy
  unfold Httpx2.parts
  dsimp only
  rw [hrestored, hspec.copyWith_location _ _ _ hcopy, hspec.copyWith_fragment _ _ _ hcopy]
  rfl

/-- The request for a URL is the one for the URL without its query, with the query before its own. -/
theorem Httpx2.Spec.build_prepend (hspec : lib.Spec ref) {parsed bare : U}
    (hurl : lib.URL url = .ok parsed) (hbare : lib.copyWith parsed none = .ok bare) :
    (ref.build lib client.toHttpx2Client method (.url bare) kwargs).map
        (Parts.prepend (lib.query parsed)) =
      ref.build lib client.toHttpx2Client method url kwargs := by
  have hparsed : lib.URL (.url bare) = .ok bare := rfl
  unfold Reference.build
  rw [hparsed, hurl]
  simp only [bind, Except.bind]
  rw [hspec.copyWith_location _ _ _ hbare, hspec.copyWith_fragment _ _ _ hbare,
    hspec.copyWith_none _ _ hbare, Reference.joinQuery_nil_left]
  cases ref.rest client.toHttpx2Client method _ kwargs with
  | error e => rfl
  | ok rest => rfl

/-- The path after the first exit, where the URL has no query: it takes the second exit. -/
theorem secondExit_eq (hspec : lib.Spec ref) {parsed : U} (hurl : lib.URL url = .ok parsed)
    (hquery : lib.query parsed = []) :
    (slowPath lib client.toHttpx2Client method url kwargs).map lib.parts =
      mapInvalidURL (ref.build lib client.toHttpx2Client method url kwargs) := by
  have htried : tryMerge lib client.toHttpx2Client method url kwargs =
      (lib.buildRequest client.toHttpx2Client method url kwargs).map .built := by
    unfold tryMerge
    rw [hurl]
    simp only [bind, Except.bind, if_pos hquery]
    cases lib.buildRequest client.toHttpx2Client method url kwargs with
    | _ => rfl
  unfold slowPath
  rw [htried]
  apply hspec.built_eq
  intro u hu
  rw [← Except.ok.inj (hurl.symm.trans hu)]
  exact .inl hquery

/-- The path after the first exit: the request is the one of the reference, or a copy of its URL
raises. -/
theorem slowPath_eq (hspec : lib.Spec ref) :
    (slowPath lib client.toHttpx2Client method url kwargs).map lib.parts =
        mapInvalidURL (ref.build lib client.toHttpx2Client method url kwargs) ∨
      ∃ e, slowPath lib client.toHttpx2Client method url kwargs = .error e ∧
        CopyRaises lib client.toHttpx2Client method url kwargs e := by
  cases hurl : lib.URL url with
  | error raised =>
    -- The reference raises it too.
    obtain ⟨e, he⟩ := exists_mapInvalidURL_error raised
    refine .inl ?_
    unfold slowPath tryMerge Reference.build
    rw [hurl]
    simp only [bind, Except.bind, he]
    rfl
  | ok parsed =>
    by_cases hquery : lib.query parsed = []
    · exact .inl (secondExit_eq hspec hurl hquery)
    cases hbare : lib.copyWith parsed none with
    | error raised =>
      obtain ⟨e, he⟩ := exists_mapInvalidURL_error raised
      refine .inr ⟨e, ?_, parsed, hurl, hquery, .inl ⟨raised, hbare, he Unit⟩⟩
      unfold slowPath tryMerge
      rw [hurl]
      simp only [bind, Except.bind, if_neg hquery, hbare, he]
    | ok bare =>
      -- The query is taken off, so that only the params are in the request that is built.
      have hreference : _ = ref.build lib client.toHttpx2Client method url kwargs :=
        hspec.build_prepend hurl hbare
      rw [← hspec.build_eq fun u hu => by
        rw [← Except.ok.inj hu]
        exact .inl (hspec.copyWith_none _ _ hbare)] at hreference
      cases hrequest : lib.buildRequest client.toHttpx2Client method (.url bare) kwargs with
      | error raised =>
        obtain ⟨e, he⟩ := exists_mapInvalidURL_error raised
        refine .inl ?_
        rw [← hreference, hrequest]
        unfold slowPath tryMerge
        rw [hurl]
        simp only [bind, Except.bind, if_neg hquery, hbare, hrequest, he]
        exact (he _).symm
      | ok request =>
        have hpath : slowPath lib client.toHttpx2Client method url kwargs =
            (lib.copyWith request.url (some (restoredQuery lib parsed request))).map
              fun url => { request with url } := by
          unfold slowPath tryMerge
          rw [hurl]
          simp only [bind, Except.bind, if_neg hquery, hbare, hrequest]
          exact restoreQuery_bare lib parsed request
        rw [hpath]
        cases hcopy : lib.copyWith request.url (some (restoredQuery lib parsed request)) with
        | error e =>
          exact .inr ⟨e, rfl, parsed, hurl, hquery, .inr ⟨bare, request, hbare, hrequest, hcopy⟩⟩
        | ok u =>
          refine .inl ?_
          rw [← hreference, hrequest]
          exact congrArg Except.ok (hspec.parts_restoreQuery hquery request hcopy)

/-- A request has the query of its URL and then the encoded params, at the location of the URL and
with its fragment; and both exits give what the path after them gives. Only a `copy_with` can keep that
path from it, and what this raises is what leaves. -/
theorem buildRequest_eq_reference (hspec : lib.Spec ref) (client : Client lib) (method : String)
    (url : UrlArg U) (kwargs : Kwargs Q K) :
    (exitsFirst lib client.toHttpx2Client url kwargs = true →
      (buildRequest lib client.toHttpx2Client method url kwargs).map lib.parts =
        mapInvalidURL (ref.build lib client.toHttpx2Client method url kwargs)) ∧
    ((buildRequest lib client.toHttpx2Client method url kwargs).map lib.parts =
        mapInvalidURL (ref.build lib client.toHttpx2Client method url kwargs) ∨
      ∃ e, buildRequest lib client.toHttpx2Client method url kwargs = .error e ∧
        CopyRaises lib client.toHttpx2Client method url kwargs e) ∧
    ((slowPath lib client.toHttpx2Client method url kwargs).map lib.parts =
        mapInvalidURL (ref.build lib client.toHttpx2Client method url kwargs) ∨
      ∃ e, slowPath lib client.toHttpx2Client method url kwargs = .error e ∧
        CopyRaises lib client.toHttpx2Client method url kwargs e) := by
  refine ⟨fun hexits => firstExit_eq hspec hexits, ?_, slowPath_eq hspec⟩
  by_cases hexits : exitsFirst lib client.toHttpx2Client url kwargs = true
  · exact .inl (firstExit_eq hspec hexits)
  · have hslow : buildRequest lib client.toHttpx2Client method url kwargs =
        slowPath lib client.toHttpx2Client method url kwargs := by
      unfold buildRequest tryBuild slowPath
      rw [if_neg hexits]
    rw [hslow]
    exact slowPath_eq hspec

/-! ## A relative URL -/

/-- The parts of a URL, kept apart. -/
structure PlainUrl where
  location : Location
  query : Option Bytes
  fragment : String
deriving DecidableEq

/-- ASCII. -/
def asciiBytes (s : List Char) : Bytes := s.map fun c => c.toNat.toUInt8

/-- `URL` of an ASCII string without escapes. -/
def PlainUrl.parse (s : String) : Except Exc PlainUrl :=
  if s.toList.any fun c => c.toNat < 32 then .error (.httpx2 .invalidURL)
  else
    let (rest, _, fragment) := partition '#' s.toList
    let (base, questionMark, query) := partition '?' rest
    let authority := base.drop 8
    let location : Location :=
      if ['h', 't', 't', 'p', 's', ':', '/', '/'] <+: base then
        ⟨some (.ofList (authority.takeWhile (· ≠ '/'))), .ofList (authority.dropWhile (· ≠ '/'))⟩
      else ⟨none, .ofList base⟩
    .ok ⟨location, if questionMark = [] then none else some (asciiBytes query), .ofList fragment⟩

/-- `QueryParams` with one value for a key. -/
abbrev PlainParams := List (String × String)

/-- Those of the client whose key the request does not have, and those of the request. -/
def PlainParams.merge (clientParams params : PlainParams) : PlainParams :=
  clientParams.filter (fun p => p.1 ∉ params.map Prod.fst) ++ params

/-- They need no escapes. -/
def PlainParams.encode (params : PlainParams) : Bytes :=
  asciiBytes ("&".intercalate (params.map fun p => p.1 ++ "=" ++ p.2)).toList

/-- Requests that have nothing but a URL. -/
def plainReference : Reference PlainUrl PlainParams Unit Unit where
  joinPath base path := base ++ .ofList (path.toList.dropWhile (· = '/'))
  merged clientParams params := (PlainParams.merge clientParams (params.getD [])).encode
  rest _ _ _ _ := .ok ()

/-- `URL`. -/
def PlainUrl.ofArg : UrlArg PlainUrl → Except Exc PlainUrl
  | .str s => PlainUrl.parse s
  | .url u => .ok u

/-- The request for a URL. Without params it has the query of the URL. -/
def plainRequest (client : Httpx2Client PlainUrl PlainParams) (kwargs : Kwargs PlainParams Unit)
    (u : PlainUrl) : BuiltRequest PlainUrl Unit :=
  let encoded := plainReference.merged client.params kwargs.params
  let query :=
    if kwargs.params.isSome || !client.params.isEmpty then
      if encoded = [] then none else some encoded
    else u.query
  ⟨⟨plainReference.joined client.baseUrl.location u.location, query, u.fragment⟩, ()⟩

/-- httpx2 on these URLs. -/
def plainHttpx2 : Httpx2 PlainUrl PlainParams Unit Unit where
  parse := PlainUrl.parse
  location := PlainUrl.location
  query u := u.query.getD []
  fragment := PlainUrl.fragment
  copyWith u query :=
    if 65536 < (query.getD []).length then .error (.httpx2 .invalidURL) else .ok { u with query }
  truthy params := !params.isEmpty
  buildRequest client _ url kwargs := (PlainUrl.ofArg url).map (plainRequest client kwargs)

/-- A copy has the other query. -/
theorem PlainUrl.of_copyWith {u u' : PlainUrl} {query : Option Bytes}
    (h : plainHttpx2.copyWith u query = .ok u') : u' = { u with query } := by
  unfold plainHttpx2 at h
  dsimp only at h
  split_ifs at h
  exact (Except.ok.inj h).symm

/-- It does what httpx2 documents. -/
theorem plainHttpx2_spec : plainHttpx2.Spec plainReference where
  parse_query s u hs hparse := by
    have hparse : PlainUrl.parse s = .ok u := hparse
    have hrest : '?' ∉ (partition '#' s.toList).1 := fun h => hs (List.takeWhile_sublist _ |>.mem h)
    unfold PlainUrl.parse at hparse
    dsimp only at hparse
    rw [partition_of_notMem hrest] at hparse
    split_ifs at hparse
    all_goals
      rw [← Except.ok.inj hparse]
      rfl
  copyWith_location u query u' h := by rw [PlainUrl.of_copyWith h]; rfl
  copyWith_fragment u query u' h := by rw [PlainUrl.of_copyWith h]; rfl
  copyWith_none u u' h := by rw [PlainUrl.of_copyWith h]; rfl
  copyWith_query u v u' h := by rw [PlainUrl.of_copyWith h]; rfl
  copyWith_joined u v w u' h := by rw [PlainUrl.of_copyWith h]; rfl
  merged_none params h := by
    have hnil : params = [] := by simpa [plainHttpx2] using h
    rw [hnil]
    rfl
  build client method url kwargs _ := by
    have hurl : plainHttpx2.URL url = PlainUrl.ofArg url := by
      cases url <;> rfl
    have hbuild : plainHttpx2.buildRequest client method url kwargs =
      (PlainUrl.ofArg url).map (plainRequest client kwargs) := rfl
    rw [hurl, hbuild]
    cases PlainUrl.ofArg url with
    | error e => rfl
    | ok u =>
      -- An empty query and none are the same bytes.
      apply congrArg Except.ok
      unfold plainRequest Httpx2.parts plainHttpx2
      dsimp only
      congr 1
      split_ifs with hparams hencoded
      · exact hencoded.symm
      · rfl
      · rfl

/-- The client of `https://example.test/api/` with the params `c=3`. -/
def plainClient : Client plainHttpx2 where
  baseUrl := ⟨⟨some "example.test", "/api/"⟩, none, ""⟩
  params := [("c", "3")]
  accepted := rfl

/-- The URL `items?a=1` with the params `b=2`, on both paths. -/
theorem buildRequest_eq_reference_items :
    let parts : Parts Unit :=
      ⟨⟨some "example.test", "/api/items"⟩, asciiBytes "a=1&c=3&b=2".toList, "", ()⟩
    (buildRequest plainHttpx2 plainClient.toHttpx2Client "GET" (.str "items?a=1")
        ⟨some [("b", "2")], ()⟩).map plainHttpx2.parts = .ok parts ∧
      (slowPath plainHttpx2 plainClient.toHttpx2Client "GET" (.str "items?a=1")
        ⟨some [("b", "2")], ()⟩).map plainHttpx2.parts = .ok parts := by
  intro parts
  obtain ⟨-, hbuilt, hslow⟩ := buildRequest_eq_reference plainHttpx2_spec plainClient "GET"
    (.str "items?a=1") ⟨some [("b", "2")], ()⟩
  have hreference : mapInvalidURL (plainReference.build plainHttpx2 plainClient.toHttpx2Client "GET"
      (.str "items?a=1") ⟨some [("b", "2")], ()⟩) = .ok parts := by
    rfl
  -- No copy raises: both requests are built.
  have hbuilds : ∃ request, buildRequest plainHttpx2 plainClient.toHttpx2Client "GET"
      (.str "items?a=1") ⟨some [("b", "2")], ()⟩ = .ok request := ⟨_, rfl⟩
  have hslowBuilds : ∃ request, slowPath plainHttpx2 plainClient.toHttpx2Client "GET"
      (.str "items?a=1") ⟨some [("b", "2")], ()⟩ = .ok request := ⟨_, rfl⟩
  obtain ⟨request, hrequest⟩ := hbuilds
  obtain ⟨slowRequest, hslowRequest⟩ := hslowBuilds
  constructor
  · rcases hbuilt with hbuilt | ⟨e, he, -⟩
    · exact hbuilt.trans hreference
    · cases hrequest.symm.trans he
  · rcases hslow with hslow | ⟨e, he, -⟩
    · exact hslow.trans hreference
    · cases hslowRequest.symm.trans he

end Httpware.BuildRequest
