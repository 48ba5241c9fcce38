import Httpware.Errors
import Httpware.Lib.Program

/-!
# Responses and their bodies

The responses of one call, as objects that are read and closed in place. A body comes from the
transport in chunks, one at each `next`, and may never end. `StreamedResponse` has what httpware
uses of an httpx2 response: `iterBytes` and `read` go through the response's stream one chunk at a
time, and a body that is in memory is not read again. A chunk is given with the bytes that it adds to
the decoded body, so the decoders of httpx2 are arbitrary; only without a `Content-Encoding` are the
decoded bytes those of the transport.

What goes on between two calls of httpware is the environment's: the transport may hand over a body
that it read itself, and so may the auth flow. `Reader` tells these from the bodies that httpware
read.
-/

namespace Httpware.BodyCap

/-- A chunk: the bytes of the transport, and the bytes that they add to the decoded body. -/
structure Chunk where
  wire : Bytes
  decoded : Bytes
deriving DecidableEq

/-- What a `next` on a body gives. The exception is not the one that stops an iterator. -/
inductive Pull
  | chunk (c : Chunk)
  | stop
  | raised (e : Exc)

/-- The bytes that a `next` adds to the decoded body. -/
def Pull.decoded : Pull → Bytes
  | chunk c => c.decoded
  | _ => []

/-- Who read a body into memory. -/
inductive Reader
  | httpware
  | other
deriving DecidableEq

/-- A body in memory. -/
structure Content where
  data : Bytes
  reader : Reader
deriving DecidableEq

/-- `Response.stream`: the transport's stream, a stream that counts around another one
(`_CappedSyncStream` and `_CappedAsyncStream`), or a body in memory. -/
inductive Stream
  | transport
  | capped (inner : Stream) (cap : ℕ) (statusCode : ℤ) (contentLength : Option ℤ)
  | bytes

/-- What the transport hands over: the head of a response, what the `next`s on its body give, and the
body itself where the transport has read it. -/
structure Received extends Response where
  nextRequest : Option Request := none
  extensions : List (String × String) := []
  defaultEncoding : String := "utf-8"
  elapsed : Option ℚ := none
  inMemory : Option Bytes := none
  chunks : ℕ → Pull
  /-- Without a content encoding, decoding changes nothing. -/
  identity : headers.get "content-encoding" = none →
    ∀ n c, chunks n = .chunk c → c.decoded = c.wire

/-- A response object. `pulled` counts the `next`s of httpware on the transport's stream, and
`capRead` says that httpware began to buffer the body under the cap. -/
structure StreamedResponse extends Received where
  request : Request
  stream : Stream := .transport
  pulled : ℕ := 0
  isStreamConsumed : Bool := false
  isClosed : Bool := false
  content : Option Content := none
  history : List ℕ := []
  capRead : Bool := false

/-- The response objects of a call, numbered as they were made; the requests that were sent; and the
auth flow, with the number of times that it was resumed. -/
structure Exchange where
  responses : ℕ → StreamedResponse
  count : ℕ := 0
  sent : List Request := []
  resumed : ℕ := 0
  flowClosed : Bool := false

/-- A program that works on the responses of a call. -/
abbrev Call (α : Type) := Program Exchange Exc α

/-- A response object in its present state. -/
def response (id : ℕ) : Call StreamedResponse := .get fun x => x.responses id

theorem response_bind {α : Type} (id : ℕ) (f : StreamedResponse → Call α) (x : Exchange) :
    (response id >>= f) x = f (x.responses id) x := rfl

/-- The exchange with one response object changed. -/
def Exchange.set (x : Exchange) (id : ℕ) (r : StreamedResponse) : Exchange :=
  { x with responses := Function.update x.responses id r }

/-- The object that was changed. -/
@[simp]
theorem Exchange.set_here (x : Exchange) (id : ℕ) (r : StreamedResponse) :
    (x.set id r).responses id = r := Function.update_self _ _ _

/-- The others. -/
@[simp]
theorem Exchange.set_other {x : Exchange} {id d : ℕ} (h : d ≠ id) (r : StreamedResponse) :
    (x.set id r).responses d = x.responses d := Function.update_of_ne h _ _

/-- Changes a response object. -/
def update (id : ℕ) (f : StreamedResponse → StreamedResponse) : Call Unit :=
  .modify fun x => x.set id (f (x.responses id))

theorem update_bind {α : Type} (id : ℕ) (f : StreamedResponse → StreamedResponse)
    (p : Unit → Call α) (x : Exchange) :
    (update id f >>= p) x = p () (x.set id (f (x.responses id))) := rfl

/-- Makes a response object. -/
def new (r : StreamedResponse) : Call ℕ := do
  let id ← .get Exchange.count
  Program.modify fun x => { x.set id r with count := id + 1 }
  return id

/-! ## What httpware uses of an httpx2 response -/

/-- `close`. -/
def close (id : ℕ) : Call Unit := update id fun r => { r with isClosed := true }

/-- `next` on the transport's stream. -/
def pull (id : ℕ) : Call Pull := do
  let r ← response id
  update id fun r => { r with pulled := r.pulled + 1 }
  return r.chunks r.pulled

/-- The chunk, and the count of them. -/
theorem pull_eq (id : ℕ) (x : Exchange) :
    pull id x = (.ok ((x.responses id).chunks (x.responses id).pulled),
      x.set id { x.responses id with pulled := (x.responses id).pulled + 1 }) := rfl

/-- What the body of a `for` loop over chunks does: goes on, breaks, or raises. -/
inductive Step (β : Type)
  | next (b : β)
  | done (b : β)
  | raise (e : Exc)

/-- A round of the loop over the transport's stream, which closes the response at its end. -/
def pullRound (id : ℕ) {β : Type} (body : β → Chunk → Step β) (b : β) : Call (β ⊕ β) := do
  match ← pull id with
  | .stop =>
    close id
    return .inl b
  | .raised e => .raise e
  | .chunk c =>
    match body b c with
    | .next b => return .inr b
    | .done b => return .inl b
    | .raise e => .raise e

/-- The loop over the transport's stream. -/
def forEachPull (rounds : ℕ) (id : ℕ) {β : Type} (b : β) (body : β → Chunk → Step β) : Call β :=
  Program.loop (pullRound id body) rounds b

/-- The body of a loop over a counting stream, as one over the stream inside: the `__iter__` of
`_CappedSyncStream` and the `__aiter__` of `_CappedAsyncStream`, with the count beside the loop's own
variables. -/
def cappedBody (cap : ℕ) (statusCode : ℤ) (contentLength : Option ℤ) {β : Type}
    (body : β → Chunk → Step β) : ℕ × β → Chunk → Step (ℕ × β)
  | (read, b), chunk =>
    let read := read + chunk.wire.length
    if read > cap then .raise (.responseTooLarge statusCode cap contentLength .streamed)
    else
      match body b chunk with
      | .next b => .next (read, b)
      | .done b => .done (read, b)
      | .raise e => .raise e

/-- The loop over a response's stream. -/
def Stream.forEach (rounds : ℕ) (id : ℕ) : Stream → {β : Type} → β → (β → Chunk → Step β) → Call β
  | transport, _, b, body => forEachPull rounds id b body
  | capped inner cap statusCode contentLength, _, b, body => do
    let r ← inner.forEach rounds id (0, b) (cappedBody cap statusCode contentLength body)
    return r.2
  | bytes, _, b, _ => return b

/-- The body of a loop over decoded chunks: `iter_bytes` leaves out the empty ones. -/
def decodedBody {β : Type} (body : β → Bytes → Step β) (b : β) (chunk : Chunk) : Step β :=
  if chunk.decoded = [] then .next b else body b chunk.decoded

/-- The loop over `iter_bytes()` or `aiter_bytes()`. A body in memory is one chunk. -/
def iterBytes (rounds : ℕ) (id : ℕ) {β : Type} (b : β) (body : β → Bytes → Step β) : Call β := do
  let r ← response id
  match r.content with
  | some content =>
    match decodedBody body b ⟨content.data, content.data⟩ with
    | .next b => return b
    | .done b => return b
    | .raise e => .raise e
  | none =>
    if r.isStreamConsumed then .raise (.httpx2 .streamConsumed)
    else if r.isClosed then .raise (.httpx2 .streamClosed)
    else do
      update id fun r => { r with isStreamConsumed := true }
      r.stream.forEach rounds id b (decodedBody body)

/-- `read` or `aread`. -/
def read (rounds : ℕ) (id : ℕ) : Call Unit := do
  let r ← response id
  match r.content with
  | some _ => return
  | none =>
    let data ← iterBytes rounds id [] fun data chunk => .next (data ++ chunk)
    update id fun r => { r with content := some ⟨data, .httpware⟩ }

end Httpware.BodyCap
