import Httpware.Lib.Python

/-!
# Requests, responses, and exceptions

What the middleware reads of a request and of a response, and the exceptions of `errors.py` that it
raises and catches. `Exc.httpx2` stands for the exceptions of httpx2, and `Exc.other` for every
other exception outside the `ClientError` tree, a cancellation included. `Ending` is how a call of `next` ends.
-/

namespace Httpware

open Python (Number)

/-- Bytes. -/
abbrev Bytes := List UInt8

/-- The sync or the async client. -/
inductive Mode
  | sync
  | async
deriving DecidableEq, Repr

/-- Calls are numbered in the order in which a run names them. -/
abbrev CallId := ℕ

/-- The parts of a request's URL that the middleware reads; `text` is `str(url)`. -/
structure Url where
  scheme : String
  rawHost : String
  port : Option ℤ
  netloc : String
  text : String
deriving DecidableEq, Repr

/-- A header list, in order. -/
abbrev Headers := List (String × String)

/-- `headers.get(name)`: names compare without case, and repeated values are joined. -/
def Headers.get (headers : Headers) (name : String) : Option String :=
  match headers.filter fun h => h.1.toLower == name.toLower with
  | [] => none
  | found => some (", ".intercalate (found.map Prod.snd))

/-- `STREAMING_BODY_MARKER`. -/
def streamingBodyMarker : String := "httpware.streaming_body"

/-- A request. `extensions` keeps the truth value of each extension. -/
structure Request where
  method : String
  url : Url
  headers : Headers := []
  extensions : List (String × Bool) := []
deriving DecidableEq, Repr

/-- A response. -/
structure Response where
  statusCode : ℤ
  headers : Headers := []
deriving DecidableEq, Repr

/-- The exceptions of httpx2 that httpware tells apart: the first seven are in
`MAPPED_HTTPX2_ERRORS`, and the last three are `RuntimeError`s. -/
inductive Httpx2Error
  | timeoutException
  | invalidURL
  | cookieConflict
  | networkError
  | remoteProtocolError
  | tooManyRedirects
  | httpError
  | streamConsumed
  | streamClosed
  | runtimeError
deriving DecidableEq, Repr

/-- The name of the class. -/
def Httpx2Error.qualname : Httpx2Error → String
  | timeoutException => "TimeoutException"
  | invalidURL => "InvalidURL"
  | cookieConflict => "CookieConflict"
  | networkError => "NetworkError"
  | remoteProtocolError => "RemoteProtocolError"
  | tooManyRedirects => "TooManyRedirects"
  | httpError => "HTTPError"
  | streamConsumed => "StreamConsumed"
  | streamClosed => "StreamClosed"
  | runtimeError => "RuntimeError"

/-- How a body was found to be too large. -/
inductive TooLargeReason
  | declared
  | streamed
deriving DecidableEq, Repr

/-- An exception. A `StatusError` keeps the name of its class. -/
inductive Exc
  | statusError (qualname : String) (response : Response)
  | networkError
  | timeoutError
  | transportError
  | retryBudgetExhausted (lastResponse : Option Response) (lastException : Option Exc)
      (attempts : ℤ)
  | circuitOpen (retryAfter : Option Number)
  | responseTooLarge (statusCode : ℤ) (limit : ℕ) (contentLength : Option ℤ)
      (reason : TooLargeReason)
  /-- `_CapExceeded`, which does not leave the reading functions. -/
  | capExceeded (read : ℕ)
  | httpx2 (e : Httpx2Error)
  | other (qualname : String)

/-- `type(exc).__qualname__`. -/
def Exc.qualname : Exc → String
  | statusError qualname _ => qualname
  | networkError => "NetworkError"
  | timeoutError => "TimeoutError"
  | transportError => "TransportError"
  | retryBudgetExhausted _ _ _ => "RetryBudgetExhaustedError"
  | circuitOpen _ => "CircuitOpenError"
  | responseTooLarge _ _ _ _ => "ResponseTooLargeError"
  | capExceeded _ => "_CapExceeded"
  | httpx2 e => e.qualname
  | other qualname => qualname

/-- An exception of Python's own. -/
def Exc.ofError : Python.Error → Exc
  | .valueError => other "ValueError"
  | .overflowError => other "OverflowError"
  | .zeroDivisionError => other "ZeroDivisionError"
  | .attributeError => other "AttributeError"

/-- `STATUS_TO_EXCEPTION`, with the fallbacks of `_raise_on_status_error`. -/
def statusToException (status : ℤ) : String :=
  if status = 400 then "BadRequestError"
  else if status = 401 then "UnauthorizedError"
  else if status = 403 then "ForbiddenError"
  else if status = 404 then "NotFoundError"
  else if status = 409 then "ConflictError"
  else if status = 422 then "UnprocessableEntityError"
  else if status = 429 then "RateLimitedError"
  else if status = 500 then "InternalServerError"
  else if status = 503 then "ServiceUnavailableError"
  else if status < 500 then "ClientStatusError"
  else "ServerStatusError"

/-- How a call of `next` ends. -/
inductive Ending
  | returned (response : Response)
  | raised (exc : Exc)

/-- `_raise_on_status_error`: a 4xx or 5xx response becomes its `StatusError`. -/
def raiseOnStatusError (response : Response) : Ending :=
  if 400 ≤ response.statusCode ∧ response.statusCode < 600 then
    .raised (.statusError (statusToException response.statusCode) response)
  else .returned response

end Httpware
