import Httpware.Observability
import Httpware.Redaction.Noninterference

/-!
# The emission of events

`_emit_event` of `_internal/observability.py`, the one place where events leave the program: it redacts
the `url` attribute, logs a record, and hands the event to the current span where OpenTelemetry is
installed. What is emitted of an event depends on its URL by what `redact_url` makes of it only, so it
stays the same when every URL is replaced by one that is redacted alike (`emitEvent_withUrl`).
-/

namespace Httpware

open Python (Error UrlLibrary isKept)
open Redaction

/-- `{**attributes, key: value}`. -/
def setItem (key : String) (value : AttributeValue) :
    List (String × AttributeValue) → List (String × AttributeValue)
  | [] => [(key, value)]
  | x :: xs => if x.1 = key then (key, value) :: xs else x :: setItem key value xs

/-- A record of the log. -/
structure LogRecord where
  level : ℤ
  message : String
  extra : List (String × AttributeValue)
deriving DecidableEq, Repr

/-- An event of a span. -/
structure SpanEvent where
  name : String
  attributes : List (String × AttributeValue)
deriving DecidableEq, Repr

/-- Where events go: what the handlers and filters of the logger raise on a record, and what
`get_current_span().add_event` raises, where OpenTelemetry is installed and can be imported. -/
structure Channels where
  log : LogRecord → Option Exc
  addEvent : Option (SpanEvent → Option Exc)
  /-- The class of the exception derives from `Exception`. -/
  isException : Exc → Bool

/-- What `_emit_event` does: the records and the span events in order, and what escapes from it. -/
structure Emission where
  records : List LogRecord := []
  spanEvents : List SpanEvent := []
  raised : Option Exc := none

/-- `safe_attributes`: the attributes with the URL redacted, where it is a string. -/
def Event.safeAttributes (lib : UrlLibrary) (e : Event) :
    Except Error (List (String × AttributeValue)) :=
  match e.get "url" with
  | some (.text url) => do
    let redacted ← redactUrl lib url.toList
    return setItem "url" (.text (String.ofList redacted)) e.attributes
  | _ => .ok e.attributes

/-- The part of `_emit_event` after the redaction. -/
def emitSafe (channels : Channels) (e : Event) : Emission :=
  let record : LogRecord := ⟨e.level, e.message, setItem "event" (.text e.name) e.attributes⟩
  match channels.log record with
  | some exc => { records := [record], raised := some exc }
  | none =>
    match channels.addEvent with
    | none => { records := [record] }
    | some addEvent =>
      let event : SpanEvent := ⟨e.name, e.attributes.filter fun x => x.2 ≠ .absent⟩
      -- `contextlib.suppress(Exception)`.
      { records := [record]
        spanEvents := [event]
        raised := (addEvent event).filter fun exc => !channels.isException exc }

/-- `_emit_event`. -/
def emitEvent (lib : UrlLibrary) (channels : Channels) (e : Event) : Emission :=
  match e.safeAttributes lib with
  | .error error => { raised := some (.ofError error) }
  | .ok attributes => emitSafe channels { e with attributes }

/-- `_emit_events`: one event after the other, until something escapes. -/
def emitEvents (lib : UrlLibrary) (channels : Channels) : List Event → Emission
  | [] => {}
  | e :: events =>
    let first := emitEvent lib channels e
    match first.raised with
    | some exc => { first with raised := some exc }
    | none =>
      let rest := emitEvents lib channels events
      { records := first.records ++ rest.records
        spanEvents := first.spanEvents ++ rest.spanEvents
        raised := rest.raised }

/-! ## The URL of an event -/

/-- The value that was set is found. -/
theorem lookup_setItem (key : String) (value : AttributeValue)
    (attributes : List (String × AttributeValue)) :
    (setItem key value attributes).lookup key = some value := by
  induction attributes with
  | nil => simp [setItem]
  | cons x xs ih =>
    rw [setItem]
    split_ifs with hx
    · simp
    · have hne : (key == x.1) = false := beq_eq_false_iff_ne.mpr (Ne.symm hx)
      rw [List.lookup_cons, hne]
      exact ih

/-- Of two values that are set for one key, the second stays. -/
theorem setItem_setItem (key : String) (value value' : AttributeValue)
    (attributes : List (String × AttributeValue)) :
    setItem key value (setItem key value' attributes) = setItem key value attributes := by
  induction attributes with
  | nil => simp [setItem]
  | cons x xs ih =>
    rw [setItem, setItem]
    split_ifs with hx
    · simp [setItem]
    · rw [setItem, if_neg hx, ih]

/-- A value is set where its key stands. -/
theorem setItem_append_cons {key : String} {before : List (String × AttributeValue)}
    (h : ∀ x ∈ before, x.1 ≠ key) (value value' : AttributeValue)
    (after : List (String × AttributeValue)) :
    setItem key value (before ++ (key, value') :: after) = before ++ (key, value) :: after := by
  induction before with
  | nil => simp [setItem]
  | cons x xs ih =>
    rw [List.cons_append, setItem, if_neg (h x List.mem_cons_self),
      ih fun y hy => h y (List.mem_cons_of_mem x hy)]
    rfl

/-- A key is found where it stands. -/
theorem lookup_append_cons {key : String} {before : List (String × AttributeValue)}
    (h : ∀ x ∈ before, x.1 ≠ key) (value : AttributeValue) (after : List (String × AttributeValue)) :
    (before ++ (key, value) :: after).lookup key = some value := by
  rw [← setItem_append_cons h value value after]
  exact lookup_setItem key value _

/-- The event with its URL replaced. -/
def Event.withUrl (f : String → String) (e : Event) : Event :=
  match e.get "url" with
  | some (.text url) => { e with attributes := setItem "url" (.text (f url)) e.attributes }
  | _ => e

/-- The request with the text of its URL replaced. -/
def Request.withUrl (f : String → String) (request : Request) : Request :=
  { request with url := { request.url with text := f request.url.text } }

/-- The event of a request with another URL, by the attributes before and after it. -/
theorem Event.withUrl_eq (f : String → String) (name : String) (level : ℤ) (message : String)
    {before : List (String × AttributeValue)} (h : ∀ x ∈ before, x.1 ≠ "url") (url : String)
    (after : List (String × AttributeValue)) :
    (Event.mk name level message (before ++ ("url", .text url) :: after)).withUrl f =
      ⟨name, level, message, before ++ ("url", .text (f url)) :: after⟩ := by
  have hget : (Event.mk name level message (before ++ ("url", .text url) :: after)).get "url" =
      some (.text url) := lookup_append_cons h _ after
  unfold withUrl
  rw [hget]
  simp only [setItem_append_cons h]

/-- URLs that are redacted alike are emitted alike. -/
theorem emitEvent_withUrl {lib : UrlLibrary} {f : String → String}
    (hf : ∀ url, redactUrl lib (f url).toList = redactUrl lib url.toList) (channels : Channels)
    (e : Event) : emitEvent lib channels (e.withUrl f) = emitEvent lib channels e := by
  have hsafe : (e.withUrl f).safeAttributes lib = e.safeAttributes lib := by
    unfold Event.withUrl
    split
    · next url hget =>
      have hget' : Event.get { e with attributes := setItem "url" (.text (f url)) e.attributes } "url" =
          some (.text (f url)) := lookup_setItem "url" _ e.attributes
      unfold Event.safeAttributes
      rw [hget, hget']
      simp only [hf, setItem_setItem]
    · rfl
  have hrest (attributes : List (String × AttributeValue)) :
      { e.withUrl f with attributes } = { e with attributes } := by
    unfold Event.withUrl
    split <;> rfl
  unfold emitEvent
  rw [hsafe]
  simp only [hrest]

/-- So are lists of events. -/
theorem emitEvents_withUrl {lib : UrlLibrary} {f : String → String}
    (hf : ∀ url, redactUrl lib (f url).toList = redactUrl lib url.toList) (channels : Channels)
    (events : List Event) :
    emitEvents lib channels (events.map (Event.withUrl f)) = emitEvents lib channels events := by
  induction events with
  | nil => rfl
  | cons e events ih => simp only [List.map_cons, emitEvents, emitEvent_withUrl hf, ih]

/-! ## Secrets -/

/-- A URL that is redacted as this one is, the same for all of these. -/
noncomputable def canonicalUrl (lib : UrlLibrary) (url : String) : String :=
  Function.invFun (fun url : String => redactUrl lib url.toList) (redactUrl lib url.toList)

/-- It is redacted alike. -/
theorem redactUrl_canonicalUrl (lib : UrlLibrary) (url : String) :
    redactUrl lib (canonicalUrl lib url).toList = redactUrl lib url.toList :=
  Function.invFun_eq (f := fun url : String => redactUrl lib url.toList) ⟨url, rfl⟩

/-- URLs that are redacted alike stand for one URL. -/
theorem canonicalUrl_congr {lib : UrlLibrary} {url url' : String}
    (h : redactUrl lib url.toList = redactUrl lib url'.toList) :
    canonicalUrl lib url = canonicalUrl lib url' := by
  unfold canonicalUrl
  rw [h]

namespace Redaction.SecretUrl

/-- Two URLs with one public part are redacted alike. -/
theorem redactUrl_text_congr {lib : UrlLibrary} (hlib : lib.KeepsReservedOut) {u v : SecretUrl}
    (hpublic : u.publicPart = v.publicPart)
    (haccept : lib.acceptsNetloc (u.authority.filter isKept) = true) :
    redactUrl lib u.text = redactUrl lib v.text := by
  have hauthority : u.authority = v.authority := by
    unfold authority
    rw [show u.host = v.host from congrArg PublicPart.host hpublic,
      show u.port = v.port from congrArg PublicPart.port hpublic]
  have hacceptU := u.accepts_netloc hlib haccept
  have hacceptV := v.accepts_netloc hlib (hauthority ▸ haccept)
  have huserinfo : u.userinfo.isSome = v.userinfo.isSome := congrArg PublicPart.hasUserinfo hpublic
  rcases hu : u.userinfo with _ | a
  · rcases hv : v.userinfo with _ | b
    · rw [u.redactUrl_text_of_none hacceptU hu, v.redactUrl_text_of_none hacceptV hv,
        maskSections_eq hpublic hu hv]
    · simp [hu, hv] at huserinfo
  · rcases hv : v.userinfo with _ | b
    · simp [hu, hv] at huserinfo
    · rw [u.redactUrl_text_of_some hacceptU hu, v.redactUrl_text_of_some hacceptV hv,
        maskSections_stripped_eq hpublic hu hv]

end Redaction.SecretUrl

/-- Two requests that differ in the secrets of their URL only. -/
def SameButSecrets (lib : UrlLibrary) (request request' : Request) : Prop :=
  ∃ u v : SecretUrl, u.publicPart = v.publicPart ∧
    lib.acceptsNetloc (u.authority.filter isKept) = true ∧
    request.url.text = String.ofList u.text ∧
    request' = request.withUrl fun _ => String.ofList v.text

/-- With one URL for all that are redacted alike they are one request. -/
theorem SameButSecrets.withUrl_eq {lib : UrlLibrary} (hlib : lib.KeepsReservedOut)
    {request request' : Request} (h : SameButSecrets lib request request') :
    request.withUrl (canonicalUrl lib) = request'.withUrl (canonicalUrl lib) := by
  obtain ⟨u, v, hpublic, haccept, htext, rfl⟩ := h
  have hcanonical : canonicalUrl lib request.url.text = canonicalUrl lib (String.ofList v.text) := by
    apply canonicalUrl_congr
    rw [htext, String.toList_ofList, String.toList_ofList]
    exact SecretUrl.redactUrl_text_congr hlib hpublic haccept
  unfold Request.withUrl
  rw [hcanonical]

end Httpware
