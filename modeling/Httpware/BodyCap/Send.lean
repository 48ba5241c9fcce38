import Httpware.BodyCap.Read

/-!
# A call under the cap

The capped part of `client.py`: the driver of the auth flow and of the redirects, the terminal of the
middleware chain, and `stream()`. The server and the auth flow are the environment: `Client.send`
says what each request meets, and `Auth.flow` what each resumption of the flow does, in the order of
the call, so that a server or a flow may do anything at any time. Loops run for a number of rounds.
-/

namespace Httpware.BodyCap

/-- What a generator does when it is resumed. The exception is not the one that stops it. -/
inductive Resumed
  | yields (request : Request)
  | stops
  | raises (e : Exc)

/-- What the program outside httpware does with a response that it was given: it may begin to read the
body itself, with what it then has in memory, and it may close the response. -/
structure Use where
  reads : Bool := false
  inMemory : Option Bytes := none
  closes : Bool := false

/-- A resumption of the auth flow: what it does with the response that it was sent, and how it goes
on. -/
structure FlowStep where
  use : Use := {}
  result : Resumed

/-- An `httpx2.Auth`, with its flow in one call. -/
structure Auth where
  requiresResponseBody : Bool := false
  flow : ℕ → FlowStep

/-- What the code reads of an httpx2 client, and what each of its requests meets in one call. -/
structure Client where
  auth : Option Auth := none
  /-- `httpx2.BasicAuth` for a URL with credentials. -/
  urlAuth : Request → Option Auth := fun _ => none
  followRedirects : Bool := false
  maxRedirects : ℤ := 20
  isClosed : Bool := false
  /-- The classes of exceptions from outside that derive from another one. -/
  derives : String → String → Bool := fun _ _ => false
  send : ℕ → Request → Except Exc Received

/-- `isinstance`, for an exception from outside. -/
def Client.isInstance (client : Client) (qualname cls : String) : Bool :=
  qualname == cls || client.derives qualname cls

/-- `_NO_AUTH`, whose flow yields the request as it is. -/
def noAuth (request : Request) : Auth where
  flow n := { result := if n = 0 then .yields request else .stops }

/-- `_request_auth`. -/
def requestAuth (client : Client) (request : Request) : Auth :=
  match client.auth with
  | some auth => auth
  | none => (client.urlAuth request).getD (noAuth request)

/-- A response object as the transport hands it over. -/
def Received.streaming (received : Received) (request : Request) : StreamedResponse where
  toReceived := received
  request
  isStreamConsumed := received.inMemory.isSome
  isClosed := received.inMemory.isSome
  content := received.inMemory.map fun data => ⟨data, .other⟩

/-- `client.send(request, stream=True, follow_redirects=False, auth=_NO_AUTH)`. -/
def send (client : Client) (request : Request) : Call ℕ := do
  let sent ← .get Exchange.sent
  Program.modify fun x => { x with sent := x.sent ++ [request] }
  match client.send sent.length request with
  | .error e => .raise e
  | .ok received => new (received.streaming request)

/-- The program outside httpware uses a response. -/
def StreamedResponse.use (r : StreamedResponse) (use : Use) : StreamedResponse :=
  let r :=
    if use.reads ∧ ¬ r.isStreamConsumed ∧ ¬ r.isClosed then
      { r with
        isStreamConsumed := true
        content := use.inMemory.map fun data => ⟨data, .other⟩ }
    else r
  { r with isClosed := r.isClosed || use.closes }

/-- Resumes the auth flow, with the response that it is sent (`flow.send`) or none (`next`). -/
def resume (auth : Auth) (sent : Option ℕ) : Call Resumed := do
  let n ← .get Exchange.resumed
  Program.modify fun x => { x with resumed := n + 1 }
  match sent with
  | none => return (auth.flow n).result
  | some id =>
    update id fun r => r.use (auth.flow n).use
    return (auth.flow n).result

/-- `response.history = history`. -/
def setHistory (id : ℕ) (history : List ℕ) : Call Unit := update id fun r => { r with history }

/-- `_read_capped_and_close`. -/
def readCappedAndClose (mode : Mode) (rounds : ℕ) (id : ℕ) (cap : ℕ) : Call ℕ :=
  Program.onExit
    (do
      let r ← response id
      readCapped mode rounds id cap r.request)
    (close id)

/-- `_discard_and_close`. -/
def discardAndClose (rounds : ℕ) (id : ℕ) (cap : ℕ) : Call Unit :=
  Program.onExit
    (do
      let r ← response id
      if ¬ r.isStreamConsumed then discardWithinCap rounds id cap else return)
    (close id)

/-- `_send_redirect_hops`. -/
def sendRedirectHops (client : Client) (rounds : ℕ) (request : Request) (priorHistory : List ℕ)
    (cap : ℕ) : Call ℕ :=
  Program.loop (fun (request, hops) => do
    if (hops.length : ℤ) > client.maxRedirects then .raise (.httpx2 .tooManyRedirects)
    else
      let id ← send client request
      setHistory id hops
      let r ← response id
      match r.nextRequest with
      | none => return .inl id
      | some nextRequest =>
        if ¬ client.followRedirects then return .inl id
        else
          discardAndClose rounds id cap
          return .inr (nextRequest, hops ++ [id])) rounds (request, priorHistory)

/-- The exception that stops an iterator: `next` and `anext` raise it, and pass it on. -/
def stopIteration : Mode → String
  | .sync => "StopIteration"
  | .async => "StopAsyncIteration"

/-- `_send_capped` and `_send_capped_async`, which pass on that a flow stops without a request. -/
def sendCapped (mode : Mode) (client : Client) (rounds : ℕ) (request : Request) (cap : ℕ) :
    Call ℕ :=
  let auth := requestAuth client request
  Program.onExit
    (do
      match ← resume auth none with
      | .stops => .raise (.other (stopIteration mode))
      | .raises e => .raise e
      | .yields request =>
        Program.loop (fun (request, history) => do
          let id ← sendRedirectHops client rounds request history cap
          let id ← (if auth.requiresResponseBody then readCappedAndClose mode rounds id cap
            else pure id : Call ℕ)
          match ← resume auth (some id) with
          | .stops => return .inl id
          | .raises e =>
            close id
            .raise e
          | .yields nextRequest =>
            discardAndClose rounds id cap
            setHistory id history
            return .inr (nextRequest, history ++ [id])) rounds (request, []))
    (Program.modify fun x => { x with flowClosed := true })

/-- `map_httpx2_exception`, and the clause for a `RuntimeError`, of httpx2 or another one, on a closed
client. -/
def mapException (client : Client) : Exc → Exc
  | .httpx2 .timeoutException => .timeoutError
  | .httpx2 .invalidURL => .transportError
  | .httpx2 .cookieConflict => .transportError
  | .httpx2 .networkError => .networkError
  | .httpx2 .remoteProtocolError => .networkError
  | .httpx2 .tooManyRedirects => .transportError
  | .httpx2 .httpError => .transportError
  | .httpx2 e => if client.isClosed then .transportError else .httpx2 e
  | .other qualname =>
    if client.isInstance qualname "RuntimeError" && client.isClosed then .transportError
    else .other qualname
  | e => e

/-- `_raise_on_status_error`, on a response object. -/
def raiseOnStatus (id : ℕ) : Call Unit := do
  let r ← response id
  match raiseOnStatusError r.toResponse with
  | .raised e => .raise e
  | .returned _ => return

/-- Looking at the status changes nothing. -/
theorem keeps_raiseOnStatus {I : Exchange → Prop} (id : ℕ) :
    Program.Keeps I (raiseOnStatus id) := by
  unfold raiseOnStatus
  refine Program.Keeps.bind .get fun r => ?_
  split
  · exact .raise
  · exact .pure

/-- `_terminal`, of a client with a cap. -/
def terminal (mode : Mode) (client : Client) (rounds : ℕ) (cap : ℕ) (request : Request) :
    Call ℕ := do
  let id ← Program.catching
    (do
      let streaming ← sendCapped mode client rounds request cap
      readCappedAndClose mode rounds streaming cap)
    fun e => .raise (mapException client e)
  raiseOnStatus id
  return id

/-- What leaves a generator for an exception that is raised in it: it must not stop an iteration, so a
`StopIteration`, and in an asynchronous generator a `StopAsyncIteration`, becomes a `RuntimeError`. -/
def leaveGenerator (mode : Mode) (client : Client) : Exc → Exc
  | .other qualname =>
    if client.isInstance qualname "StopIteration" ||
        (mode = .async && client.isInstance qualname "StopAsyncIteration") then .other "RuntimeError"
    else .other qualname
  | e => e

/-- The generators `_stream_capped` and `_stream_capped_async`, as far as they yield the response. -/
def streamCapped (mode : Mode) (client : Client) (rounds : ℕ) (request : Request) (cap : ℕ) :
    Call ℕ :=
  Program.catching (sendCapped mode client rounds request cap)
    fun e => .raise (leaveGenerator mode client e)

/-- The end of the block under a `with`, which an exception may leave. It leaves the generators of
`contextmanager` as it is. -/
def leaveBlock : Option Exc → Call Unit
  | some e => .raise e
  | none => return

/-- `stream()`, of a client with a cap, for a request that is built, with what the block under the
`with` does with the response, and the exception that leaves it, if any. -/
def stream (mode : Mode) (client : Client) (rounds : ℕ) (cap : ℕ) (request : Request) (use : Use)
    (leaves : Option Exc) : Call Unit :=
  Program.catching
    (do
      let id ← streamCapped mode client rounds request cap
      Program.onExit
        (do
          let r ← response id
          if 400 ≤ r.statusCode ∧ r.statusCode < 600 then
            -- The error's body is read before it is raised.
            let buffered ← readCapped mode rounds id cap r.request
            raiseOnStatus buffered
          update id fun r => r.use use
          leaveBlock leaves)
        (close id))
    fun e => .raise (mapException client e)

/-- The calls that read under the cap. -/
inductive CappedCall
  | terminal
  | stream (use : Use) (leaves : Option Exc)

/-- Makes a call. -/
def CappedCall.run (mode : Mode) (client : Client) (rounds : ℕ) (cap : ℕ) (request : Request) :
    CappedCall → Call Unit
  | terminal => do
    let _ ← BodyCap.terminal mode client rounds cap request
  | stream use leaves => BodyCap.stream mode client rounds cap request use leaves

/-- An exchange before a call. -/
def Exchange.start : Exchange where
  responses _ :=
    { statusCode := 0, chunks := fun _ => .stop, identity := nofun,
      request := { method := "", url := ⟨"", "", none, "", ""⟩ } }

end Httpware.BodyCap
