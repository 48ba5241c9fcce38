import Httpware.Errors
import Httpware.Lib.Program

/-!
# Decoding a response

`_DecoderResolver`, `_BoundDecoder` and the methods of both clients that use them: `_send` and
`_send_with_response`. The middleware chain is how it ends: with an exception, or with a response object
that lies in the `World` and is read in place. Its stream is a `SyncByteStream`, an `AsyncByteStream` or
both; it yields some chunks, and then ends or fails.

The four methods differ in where they read the body. `AsyncClient` reads it before it calls
`_BoundDecoder.decode`, and `Client` leaves it to `decode`, which wraps what the reading raises.
-/

namespace Httpware.Decoding

/-- The exceptions that httpware does not make: those of httpx2's response, and those of the chain, the
streams and the decoders. -/
inductive Outside (ε : Type)
  | httpx2 (e : Httpx2Error)
  | foreign (e : ε)
deriving DecidableEq

/-- The exceptions of the resolver and the clients, and the others. The response of a `DecodeError` is the
one in the `World`. -/
inductive Raised (Model ε : Type)
  | missingDecoderError (model : Model) (registeredNames : List String)
  | typeError (message : String)
  | decodeError (model : Model) (original : Raised Model ε)
  | outside (e : Outside ε)

/-- A decoder. Either method can raise. -/
structure Decoder (Model ε V : Type) where
  name : String
  canDecode : Model → Except ε Bool
  decode : Bytes → Model → Except ε V

/-- An httpx2 response. The content decoder works on the chunks as they come, and is flushed after the
last one. -/
structure StreamResponse (ε : Type) where
  isSyncByteStream : Bool
  isAsyncByteStream : Bool
  chunks : List Bytes
  /-- What the stream raises after its chunks. -/
  failure : Option ε
  decodeChunks : List Bytes → Except ε Bytes
  flush : List Bytes → Except ε Bytes
  isClosed : Bool := false
  isStreamConsumed : Bool := false
  content : Option Bytes := none

/-- How the middleware chain ends: it raises, or returns the response of the `World`. -/
inductive ChainEnd (ε : Type)
  | raised (e : ε)
  | returned

/-- The chain, its response, and how often it was called. -/
structure World (ε : Type) where
  chain : ChainEnd ε
  response : StreamResponse ε
  dispatched : ℕ := 0

/-- A method of a client. -/
abbrev Call (Model ε α : Type) := Program (World ε) (Raised Model ε) α

variable {Model ε V : Type}

/-! ## Reading -/

/-- Whether the stream is one of the kind. -/
def StreamResponse.hasKind (mode : Mode) (r : StreamResponse ε) : Bool :=
  match mode with
  | .sync => r.isSyncByteStream
  | .async => r.isAsyncByteStream

/-- Reads the stream to its end: the body, and the response after it, which is closed when the stream has
ended. -/
def StreamResponse.readStream (r : StreamResponse ε) :
    Except (Outside ε) Bytes × StreamResponse ε :=
  match r.decodeChunks r.chunks, r.failure, r.flush r.chunks with
  | .error e, _, _ => (.error (.foreign e), { r with isStreamConsumed := true })
  | .ok _, some e, _ => (.error (.foreign e), { r with isStreamConsumed := true })
  | .ok _, none, .error e =>
    (.error (.foreign e), { r with isStreamConsumed := true, isClosed := true })
  | .ok body, none, .ok rest =>
    (.ok (body ++ rest),
      { r with isStreamConsumed := true, isClosed := true, content := some (body ++ rest) })

/-- `read` and `aread`: the body, and the response after it. A body that was read is not read again. -/
def StreamResponse.readBody (mode : Mode) (r : StreamResponse ε) :
    Except (Outside ε) Bytes × StreamResponse ε :=
  match r.content with
  | some content => (.ok content, r)
  | none =>
    if r.isStreamConsumed then (.error (.httpx2 .streamConsumed), r)
    else if r.isClosed then (.error (.httpx2 .streamClosed), r)
    else if r.hasKind mode then r.readStream
    else (.error (.httpx2 .runtimeError), r)

/-- Reads the response of the `World`. -/
def read (mode : Mode) : Call Model ε Bytes := fun w =>
  match w.response.readBody mode with
  | (.ok content, r) => (.ok content, { w with response := r })
  | (.error e, r) => (.raised (.outside e), { w with response := r })

/-! ## `_resolver.py` -/

/-- `_BoundDecoder`. -/
structure BoundDecoder (Model ε V : Type) where
  decoder : Decoder Model ε V
  model : Model

/-- Whether `except Exception` catches. Only what comes from elsewhere can derive from `BaseException`
alone. -/
def Outside.isException (isException : ε → Bool) : Outside ε → Bool
  | httpx2 _ => true
  | foreign e => isException e

/-- Whether `except Exception` catches. -/
def Raised.isException (isException : ε → Bool) : Raised Model ε → Bool
  | outside e => e.isException isException
  | _ => true

/-- A call of a decoder. -/
def ofDecoder {α : Type} : Except ε α → Call Model ε α
  | .ok a => pure a
  | .error e => Program.raise (.outside (.foreign e))

/-- `_BoundDecoder.decode`. -/
def BoundDecoder.decode (isException : ε → Bool) (bound : BoundDecoder Model ε V) : Call Model ε V :=
  Program.catching
    (do
      let content ← read .sync
      ofDecoder (bound.decoder.decode content bound.model))
    fun exc =>
      if exc.isException isException then Program.raise (.decodeError bound.model exc)
      else Program.raise exc

/-- The loop of `_DecoderResolver.resolve`. -/
def resolveLoop (model : Model) (registeredNames : List String) :
    List (Decoder Model ε V) → Call Model ε (BoundDecoder Model ε V)
  | [] => Program.raise (.missingDecoderError model registeredNames)
  | decoder :: rest => do
    if ← ofDecoder (decoder.canDecode model) then return ⟨decoder, model⟩
    else resolveLoop model registeredNames rest

/-- `_DecoderResolver.resolve`. -/
def resolve (decoders : List (Decoder Model ε V)) (model : Model) :
    Call Model ε (BoundDecoder Model ε V) :=
  resolveLoop model (decoders.map Decoder.name) decoders

/-! ## `client.py` -/

/-- The message of `_reject_sync_stream`. -/
def syncStreamMessage : String :=
  "AsyncClient middleware returned a response with a sync stream;" ++
    " AsyncClient middleware must return async-streamed responses"

/-- The message of `_reject_async_stream`. -/
def asyncStreamMessage : String :=
  "Client middleware returned a response with an async stream;" ++
    " Client middleware must return sync-streamed responses"

/-- `_reject_sync_stream`. -/
def rejectSyncStream (response : StreamResponse ε) : Call Model ε Unit :=
  if ¬ response.isAsyncByteStream then Program.raise (.typeError syncStreamMessage) else return

/-- `_reject_async_stream`. -/
def rejectAsyncStream (response : StreamResponse ε) : Call Model ε Unit :=
  if ¬ response.isSyncByteStream then Program.raise (.typeError asyncStreamMessage) else return

/-- `self._dispatch(request)`. -/
def dispatch : Call Model ε Unit := do
  Program.modify fun w => { w with dispatched := w.dispatched + 1 }
  match ← Program.get World.chain with
  | .raised e => Program.raise (.outside (.foreign e))
  | .returned => return

/-- What `_send` returns: the response of the `World`, or a decoded value. -/
inductive Sent (V : Type)
  | response
  | decoded (value : V)

section Clients

variable (isException : ε → Bool) (decoders : List (Decoder Model ε V))

/-- `AsyncClient._send`. -/
def AsyncClient.send (responseModel : Option Model) : Call Model ε (Sent V) := do
  match responseModel with
  | none =>
    dispatch
    return .response
  | some model =>
    let bound ← resolve decoders model
    dispatch
    let response ← Program.get World.response
    if ¬ response.isClosed then
      rejectSyncStream response
      let _ ← read .async
    return .decoded (← bound.decode isException)

/-- `AsyncClient._send_with_response`. -/
def AsyncClient.sendWithResponse (responseModel : Model) : Call Model ε V := do
  let bound ← resolve decoders responseModel
  dispatch
  let response ← Program.get World.response
  if ¬ response.isClosed then
    rejectSyncStream response
    let _ ← read .async
  bound.decode isException

/-- `Client._send`. -/
def Client.send (responseModel : Option Model) : Call Model ε (Sent V) := do
  match responseModel with
  | none =>
    dispatch
    return .response
  | some model =>
    let bound ← resolve decoders model
    dispatch
    let response ← Program.get World.response
    if ¬ response.isClosed then
      rejectAsyncStream response
    return .decoded (← bound.decode isException)

/-- `Client._send_with_response`. -/
def Client.sendWithResponse (responseModel : Model) : Call Model ε V := do
  let bound ← resolve decoders responseModel
  dispatch
  let response ← Program.get World.response
  if ¬ response.isClosed then
    rejectAsyncStream response
  bound.decode isException

end Clients

end Httpware.Decoding
