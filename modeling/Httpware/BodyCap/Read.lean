import Httpware.BodyCap.Exchange

/-!
# Reading under the cap

`_internal/body_cap.py`: the functions that buffer or discard a body. The sync and the async ones are
written out where their code differs, and are one function where it differs only in awaiting.
-/

namespace Httpware.BodyCap

/-- `_parse_content_length`. -/
def parseContentLength (raw : Option String) : Option ℤ :=
  match raw with
  | none => none
  | some raw =>
    match Python.intOfString raw with
    | .error _ => none
    | .ok value => if value ≥ 0 then some value else none

/-- `_accumulate_capped`, on the decoded chunks of a response. -/
def accumulateCapped (rounds : ℕ) (id : ℕ) (cap : ℕ) : Call Bytes :=
  iterBytes rounds id [] fun buf chunk =>
    let buf := buf ++ chunk
    if buf.length > cap then .raise (.capExceeded buf.length) else .next buf

/-- `_safe_extensions`. -/
def safeExtensions (extensions : List (String × String)) : List (String × String) :=
  extensions.filter fun e => e.1 ≠ "network_stream"

/-- `_WIRE_BODY_HEADERS`. -/
def wireBodyHeaders : List String := ["content-encoding", "content-length", "transfer-encoding"]

/-- `_BODILESS_STATUS`. -/
def bodilessStatus : List ℤ := [204, 304]

/-- `_buffered_headers`. -/
def bufferedHeaders (headers : Headers) : Headers :=
  headers.filter fun h => ¬ wireBodyHeaders.contains h.1.toLower

/-- `_response_has_body`. -/
def responseHasBody (method : String) (statusCode : ℤ) : Bool :=
  method.toUpper ≠ "HEAD" && !bodilessStatus.contains statusCode

/-- `_reject_if_declared_length_exceeds_cap`. -/
def rejectIfDeclaredLengthExceedsCap (r : StreamedResponse) (cap : ℕ) : Call (Option ℤ) :=
  let contentLength := parseContentLength (r.headers.get "content-length")
  if ∃ n ∈ contentLength, n > cap then
    .raise (.responseTooLarge r.statusCode cap contentLength .declared)
  else return contentLength

/-- What httpx2 adds to the headers of a response that is built from its content. -/
def contentHeaders (content : Bytes) : Headers :=
  if content = [] then [] else [("Content-Length", toString content.length)]

/-- `_build_buffered_response`: httpx2 reads the given content at once, and closes the response. -/
def buildBufferedResponse (r : StreamedResponse) (content : Bytes) (request : Request) :
    StreamedResponse where
  statusCode := r.statusCode
  headers := bufferedHeaders r.headers ++ contentHeaders content
  nextRequest := r.nextRequest
  extensions := safeExtensions r.extensions
  defaultEncoding := r.defaultEncoding
  elapsed := r.elapsed
  chunks _ := .stop
  identity _ _ _ h := nomatch h
  request
  stream := .bytes
  isStreamConsumed := true
  isClosed := true
  content := some ⟨content, .httpware⟩
  history := r.history

/-- Reads an unencoded body through a counting stream, and closes the response if that fails: the
second part of `_read_capped` and of `_read_capped_async`. -/
def readThroughCappedStream (rounds : ℕ) (id : ℕ) (cap : ℕ) (contentLength : Option ℤ) :
    Call ℕ := do
  update id fun r => { r with stream := .capped r.stream cap r.statusCode contentLength }
  (read rounds id).onRaise (close id)
  return id

/-- The third part of `_read_capped`: accumulates a decoded body, and rebuilds the response. -/
def readDecoded (rounds : ℕ) (id : ℕ) (cap : ℕ) (contentLength : Option ℤ) (request : Request) :
    Call ℕ := do
  let r ← response id
  let content ← (accumulateCapped rounds id cap).catching fun
    | .capExceeded _ => .raise (.responseTooLarge r.statusCode cap contentLength .streamed)
    | e => .raise e
  close id
  let r ← response id
  new (buildBufferedResponse r content request)

/-- The third part of `_read_capped_async`, which raises from inside its loop. -/
def readDecodedAsync (rounds : ℕ) (id : ℕ) (cap : ℕ) (contentLength : Option ℤ)
    (request : Request) : Call ℕ := do
  let r ← response id
  let content ← iterBytes rounds id [] fun buf chunk =>
    let buf := buf ++ chunk
    if buf.length > cap then
      .raise (.responseTooLarge r.statusCode cap contentLength .streamed)
    else .next buf
  close id
  let r ← response id
  new (buildBufferedResponse r content request)

/-- `_read_capped` and `_read_capped_async`: the response object with the buffered body. -/
def readCapped (mode : Mode) (rounds : ℕ) (id : ℕ) (cap : ℕ) (request : Request) : Call ℕ := do
  update id fun r => { r with capRead := true }
  let r ← response id
  if ¬ responseHasBody request.method r.statusCode then
    read rounds id
    return id
  else
    let contentLength ← rejectIfDeclaredLengthExceedsCap r cap
    if (r.headers.get "content-encoding").isNone then
      readThroughCappedStream rounds id cap contentLength
    else
      match mode with
      | .sync => readDecoded rounds id cap contentLength request
      | .async => readDecodedAsync rounds id cap contentLength request

/-- `_fits_declared_length`. -/
def fitsDeclaredLength (r : StreamedResponse) (cap : ℕ) : Bool :=
  if ¬ responseHasBody r.request.method r.statusCode then true
  else
    match parseContentLength (r.headers.get "content-length") with
    | none => true
    | some contentLength => contentLength ≤ cap

/-- `_discard_within_cap` and `_discard_within_cap_async`. -/
def discardWithinCap (rounds : ℕ) (id : ℕ) (cap : ℕ) : Call Unit := do
  let r ← response id
  if ¬ fitsDeclaredLength r cap then return
  else
    let _ ← iterBytes rounds id 0 fun read chunk =>
      let read := read + chunk.length
      if read > cap then .done read else .next read

end Httpware.BodyCap
