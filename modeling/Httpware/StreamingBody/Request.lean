import Httpware.Errors

/-!
# Requests whose bodies may be streams

What a caller can give as a body, what httpx2 makes of it, and how a client marks a request whose
body cannot be sent again: `_internal/status.py`, with `send` and `_prepare_request` of `client.py`.

A value is known by its type and by the bytes of each pass over it. The encoder of httpx2 is not in
the repository. `Encodes` states what is relied on: a body in memory becomes a `ByteStream`, an
iterable an iterator stream, and files a multipart stream, which reads a file again only if it can
seek.
-/

namespace Httpware

/-! ## Values -/

/-- The type of a value, as far as the code tells types apart. -/
inductive ValueType
  | bytes
  | bytearray
  | memoryview
  | str
  | dict
  | list
  | tuple
  /-- Any other type: whether it has `__iter__` and `__aiter__`, and whether it is a `Mapping`. -/
  | other (hasIter hasAiter isMapping : Bool)
deriving DecidableEq, Repr

namespace ValueType

/-- `_is_replayable_type`. -/
def isReplayable : ValueType → Bool
  | other _ _ _ => false
  | _ => true

/-- `hasattr(value, "__iter__")`. -/
def hasIter : ValueType → Bool
  | other hasIter _ _ => hasIter
  | _ => true

/-- `hasattr(value, "__aiter__")`. -/
def hasAiter : ValueType → Bool
  | other _ hasAiter _ => hasAiter
  | _ => false

/-- `isinstance(value, Mapping)`. -/
def isMapping : ValueType → Bool
  | dict => true
  | other _ _ isMapping => isMapping
  | _ => false

/-- The value is its bytes. -/
def isInMemory : ValueType → Bool
  | bytes => true
  | bytearray => true
  | memoryview => true
  | str => true
  | _ => false

end ValueType

/-- `_is_streaming_body_async`. -/
def isStreamingBodyAsync (value : Option ValueType) : Bool :=
  match value with
  | none => false
  | some type => if type.isReplayable then false else type.hasAiter || type.hasIter

/-- `_is_streaming_body_sync`. -/
def isStreamingBodySync (value : Option ValueType) : Bool :=
  match value with
  | none => false
  | some type => if type.isReplayable then false else type.hasIter

/-- The detector of a client. -/
def isStreamingBody : Mode → Option ValueType → Bool
  | .sync => isStreamingBodySync
  | .async => isStreamingBodyAsync

/-- A value of `content=` or `data=`, with the bytes of each pass over it. -/
structure Body where
  type : ValueType
  passes : ℕ → Bytes
  /-- The built-in types give the same bytes again. -/
  replays : type.isReplayable = true → ∀ n, passes n = passes 0

/-- A part of a multipart body: data in memory, or a file. -/
inductive Part
  | inMemory (data : Bytes)
  | file (data : Bytes) (seekable : Bool)
deriving DecidableEq, Repr

/-- The bytes of a pass over a part: a file is at its end after the first one, and is rewound if it
can seek. -/
def Part.pass : Part → ℕ → Bytes
  | inMemory data, _ => data
  | file data seekable, n => if seekable ∨ n = 0 then data else []

/-- A value of `files=`, with the parts that it gives. -/
structure Files where
  type : ValueType
  parts : List Part

/-- The options of a verb method that supply a body. -/
structure BodyOptions where
  content : Option Body := none
  data : Option Body := none
  files : Option Files := none

/-! ## What httpx2 makes of them -/

/-- `Request.stream`: a `ByteStream`, a stream over an iterator, or a multipart stream. -/
inductive RequestStream
  | byteStream (data : Bytes)
  | iterator (passes : ℕ → Bytes)
  | multipart (parts : List Part)

namespace RequestStream

/-- The bytes of a pass over a stream. -/
def pass : RequestStream → ℕ → Bytes
  | byteStream data, _ => data
  | iterator passes, n => passes n
  | multipart parts, n => parts.flatMap fun part => part.pass n

/-- `isinstance(stream, httpx2.ByteStream)`. -/
def isByteStream : RequestStream → Bool
  | byteStream _ => true
  | _ => false

/-- A later pass does not give the bytes of the first one. -/
def OneShot (stream : RequestStream) : Prop := ∃ n, stream.pass n ≠ stream.pass 0

end RequestStream

/-- The value that httpx2 sends as it is: `content=`, or a `data=` that is not a mapping. -/
def BodyOptions.source (options : BodyOptions) : Option Body :=
  match options.data with
  | some data => if data.type.isMapping then options.content else some data
  | none => options.content

/-- What httpx2 makes of the options. -/
inductive Encodes (options : BodyOptions) : RequestStream → Prop
  | inMemory {body : Body} (data : Bytes) :
      options.source = some body → body.type.isInMemory = true → Encodes options (.byteStream data)
  | iterable {body : Body} :
      options.source = some body → body.type.isInMemory = false →
      (body.type.hasIter || body.type.hasAiter) = true → Encodes options (.iterator body.passes)
  /-- The fields of `data=` are in memory. -/
  | multipart {files : Files} (fields : List Bytes) :
      options.source = none → options.files = some files →
      Encodes options (.multipart (fields.map Part.inMemory ++ files.parts))
  /-- A form, or no body. -/
  | form (data : Bytes) : options.source = none → Encodes options (.byteStream data)

/-- A request of httpx2, which upper-cases the method. -/
structure BodyRequest extends Request where
  stream : RequestStream
  upper : ∃ name : String, method = name.toUpper

/-! ## The marker -/

/-- `extensions[key] = value`. -/
def setExtension (key : String) (value : Bool) : List (String × Bool) → List (String × Bool)
  | [] => [(key, value)]
  | e :: extensions =>
    if e.1 = key then (key, value) :: extensions else e :: setExtension key value extensions

/-- The extension that was set. -/
@[simp]
theorem lookup_setExtension (key : String) (value : Bool) (extensions : List (String × Bool)) :
    (setExtension key value extensions).lookup key = some value := by
  induction extensions with
  | nil => exact List.lookup_cons_self
  | cons e extensions ih =>
    rw [setExtension]
    split_ifs with h
    · exact List.lookup_cons_self
    · rw [List.lookup_cons, beq_false_of_ne (Ne.symm h)]
      exact ih

namespace BodyRequest

/-- `request.extensions[STREAMING_BODY_MARKER] = True`. -/
def mark (request : BodyRequest) : BodyRequest :=
  { request with extensions := setExtension streamingBodyMarker true request.extensions }

/-- `request.headers.get("content-type", "").startswith("multipart/form-data")`. -/
def isMultipart (request : BodyRequest) : Bool :=
  Python.startsWith ((request.headers.get "content-type").getD "") "multipart/form-data"

end BodyRequest

/-- `_mark_streaming_body`. -/
def markStreamingBody (request : BodyRequest) : BodyRequest :=
  if request.stream.isByteStream || (request.extensions.lookup streamingBodyMarker).isSome then
    request
  else if request.isMultipart then request
  else request.mark

/-- What `_mark_streaming_body` makes of a body that is not in memory. -/
theorem lookup_markStreamingBody {request : BodyRequest}
    (hstream : request.stream.isByteStream = false)
    (hunmarked : request.extensions.lookup streamingBodyMarker = none) :
    (markStreamingBody request).extensions.lookup streamingBodyMarker =
      if request.isMultipart then none else some true := by
  unfold markStreamingBody
  rw [hstream, hunmarked, if_neg (by decide)]
  split
  · exact hunmarked
  · exact lookup_setExtension streamingBodyMarker true request.extensions

/-- One of the options is a stream to the detector of the client. -/
def BodyOptions.isStreaming (mode : Mode) (options : BodyOptions) : Bool :=
  isStreamingBody mode (options.content.map Body.type) ||
    isStreamingBody mode (options.data.map Body.type) ||
    isStreamingBody mode (options.files.map Files.type)

/-- `_prepare_request`, for the request that httpx2 built from the options. -/
def prepareRequest (mode : Mode) (options : BodyOptions) (built : BodyRequest) : BodyRequest :=
  if (options.content.isSome || options.data.isSome || options.files.isSome) &&
      options.isStreaming mode then built.mark
  else built

/-- Options that are a stream are given. -/
theorem BodyOptions.isSome_of_isStreaming {mode : Mode} {options : BodyOptions}
    (h : options.isStreaming mode = true) :
    (options.content.isSome || options.data.isSome || options.files.isSome) = true := by
  have hnone : isStreamingBody mode none = false := by cases mode <;> rfl
  obtain ⟨content, data, files⟩ := options
  cases content with
  | some content => rfl
  | none =>
    cases data with
    | some data => rfl
    | none =>
      cases files with
      | some files => rfl
      | none => simp [isStreaming, hnone] at h

/-- What `_prepare_request` makes of a request. -/
theorem lookup_prepareRequest (mode : Mode) (options : BodyOptions) {built : BodyRequest}
    (hunmarked : built.extensions.lookup streamingBodyMarker = none) :
    (prepareRequest mode options built).extensions.lookup streamingBodyMarker =
      if options.isStreaming mode then some true else none := by
  unfold prepareRequest
  rcases hstreaming : options.isStreaming mode with _ | _
  · rw [Bool.and_false]
    exact hunmarked
  · rw [BodyOptions.isSome_of_isStreaming hstreaming]
    exact lookup_setExtension streamingBodyMarker true built.extensions

end Httpware
