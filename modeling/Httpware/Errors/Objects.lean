import Httpware.Lib.Machine
import Httpware.Redaction.Emission

/-!
# Error objects

The exceptions of `errors.py` as objects: what the constructors store, the `args` property of
`StatusError` with `__str__` and `__repr__` over it, and the copies that `__reduce__` and
`_restore_client_error` make for `copy.copy`, `copy.deepcopy` and pickle. A program makes errors, reads
and changes them, and copies them, in any order (`errorObjects`). Errors hold other errors, as a
`RetryBudgetExhaustedError` holds the last one, and these are copied with them.

A `StatusError` builds its message when its `args` are read first. How `args` are kept is therefore a
parameter of the operations (`ArgsRule`): `lazyArgs` is the property of the source, and `eagerArgs` what
it stands for, a constructor that builds the message at once.

The attributes are those that programs set by name: no name with an underscore in front but that of the
notes, so neither the traceback nor the cause, which `raise` sets. An error is held by an attribute, and
is no argument of another error.
-/

namespace Httpware.Errors

open Python (Error Number UrlLibrary)
open Redaction

/-! ## Classes -/

/-- The classes of the tree. -/
inductive ErrorClass
  | clientError
  | transportError
  | networkError
  | timeoutError
  | statusError
  | clientStatusError
  | serverStatusError
  | badRequestError
  | unauthorizedError
  | forbiddenError
  | notFoundError
  | conflictError
  | unprocessableEntityError
  | rateLimitedError
  | internalServerError
  | serviceUnavailableError
  | retryBudgetExhaustedError
  | bulkheadFullError
  | circuitOpenError
  | decodeError
  | missingDecoderError
  | responseTooLargeError
deriving DecidableEq, Repr

/-- The classes whose `__init__` is that of `BaseException`. -/
def ErrorClass.isPlain : ErrorClass → Bool
  | clientError | transportError | networkError | timeoutError => true
  | _ => false

/-- `issubclass(cls, StatusError)`: no other class has its `__init__`. -/
def ErrorClass.isStatusError : ErrorClass → Bool
  | clientError | transportError | networkError | timeoutError => false
  | retryBudgetExhaustedError | bulkheadFullError | circuitOpenError => false
  | decodeError | missingDecoderError | responseTooLargeError => false
  | _ => true

/-- `cls.__name__`. -/
def ErrorClass.name : ErrorClass → String
  | clientError => "ClientError"
  | transportError => "TransportError"
  | networkError => "NetworkError"
  | timeoutError => "TimeoutError"
  | statusError => "StatusError"
  | clientStatusError => "ClientStatusError"
  | serverStatusError => "ServerStatusError"
  | badRequestError => "BadRequestError"
  | unauthorizedError => "UnauthorizedError"
  | forbiddenError => "ForbiddenError"
  | notFoundError => "NotFoundError"
  | conflictError => "ConflictError"
  | unprocessableEntityError => "UnprocessableEntityError"
  | rateLimitedError => "RateLimitedError"
  | internalServerError => "InternalServerError"
  | serviceUnavailableError => "ServiceUnavailableError"
  | retryBudgetExhaustedError => "RetryBudgetExhaustedError"
  | bulkheadFullError => "BulkheadFullError"
  | circuitOpenError => "CircuitOpenError"
  | decodeError => "DecodeError"
  | missingDecoderError => "MissingDecoderError"
  | responseTooLargeError => "ResponseTooLargeError"

/-- `STATUS_TO_EXCEPTION`, with the fallbacks of `_raise_on_status_error`. -/
def ErrorClass.ofStatus (status : ℤ) : ErrorClass :=
  if status = 400 then badRequestError
  else if status = 401 then unauthorizedError
  else if status = 403 then forbiddenError
  else if status = 404 then notFoundError
  else if status = 409 then conflictError
  else if status = 422 then unprocessableEntityError
  else if status = 429 then rateLimitedError
  else if status = 500 then internalServerError
  else if status = 503 then serviceUnavailableError
  else if status < 500 then clientStatusError
  else serverStatusError

/-- The exception that is raised for a status has the name of its class. -/
theorem ErrorClass.name_ofStatus (status : ℤ) : (ofStatus status).name = statusToException status := by
  unfold ofStatus statusToException
  simp only [apply_ite ErrorClass.name]
  rfl

/-! ## Objects -/

/-- A `response_model`: a class with its name, or another type expression, and its `repr`. -/
structure ResponseModel where
  name : Option String
  repr : String
  /-- What pickle raises for it, as for a class of a function. -/
  unpicklable : Option String := none
deriving DecidableEq, Repr

/-- A value that an error holds. Equal texts, numbers and classes are one value. -/
inductive Value
  | none
  | text (text : String)
  | int (n : ℤ)
  | float (x : Number)
  /-- A tuple of texts. -/
  | texts (texts : List String)
  | model (model : ResponseModel)
  | object (id : ℕ)
  | error (i : ℕ)
deriving DecidableEq, Repr

/-- `None`, or the value. -/
def Value.ofOption {α : Type} (value : α → Value) : Option α → Value
  | some a => value a
  | Option.none => none

/-- A number of seconds that the caller gives. -/
inductive Seconds
  | int (n : ℤ)
  | float (x : Number)
deriving DecidableEq, Repr

/-- The number as an attribute. -/
def Seconds.value : Seconds → Value
  | int n => .int n
  | float x => .float x

/-- `str(self)`. -/
def Seconds.str : Seconds → String
  | int n => toString n
  | float x => Python.strOfFloat x

/-- The value is none of the objects from `n` on, and none of the errors from `m` on. -/
def Value.isKnown (n m : ℕ) : Value → Bool
  | object id => id < n
  | error i => i < m
  | _ => true

/-- The value is known, and can be an argument. -/
def Value.isArgument (n : ℕ) : Value → Bool
  | object id => id < n
  | error _ => false
  | _ => true

/-- A response object, with the request that it answers. -/
structure ReceivedResponse where
  response : Response
  request : Request
deriving DecidableEq, Repr

/-- An object that is no response and no error of the tree, and holds none: an exception of a library, a
list of notes. -/
structure OtherObject where
  n : ℕ
  /-- `type(self).__qualname__`. -/
  qualname : String := "object"
  /-- `self.error_count()`, if it has the method. -/
  errorCount : Option ℤ := none
  /-- What a deep copy raises. -/
  uncopyable : Option String := none
  /-- What pickle raises. -/
  unpicklable : Option String := none
deriving DecidableEq, Repr

/-- What an object is. -/
inductive Content
  | response (r : ReceivedResponse)
  | other (object : OtherObject)
deriving DecidableEq, Repr

/-- An error: its class, its `__dict__` in order, the fields of `OSError` that are set, and what is kept
of its `args`. -/
structure ErrorObject (S : Type) where
  cls : ErrorClass
  dict : List (String × Value)
  slots : List (String × Value)
  args : S
deriving DecidableEq, Repr

/-- The objects and the errors of a program, named in the order in which they were made. -/
structure Heap (S : Type) where
  objects : List Content := []
  errors : List (ErrorObject S) := []
deriving DecidableEq, Repr

/-- What a program is shown. -/
inductive Shown
  | done
  | created (id : ℕ)
  | values (values : List Value)
  | value (value : Value)
  | text (text : String)
  /-- `str(value)`, where the value is no text. -/
  | strOf (value : Value)
  /-- `str(args)`. -/
  | strOfTuple (values : List Value)
  /-- `OSError.__str__`. -/
  | strOfErrno (errno strerror : Value) (files : List Value)
  /-- `BaseException.__repr__`. -/
  | reprOf (name : String) (values : List Value)
  /-- A method of `BaseException`. -/
  | method (name : String)
  | raised (error : Error)
  /-- An exception that copying an object raises. -/
  | refused (qualname : String)
deriving DecidableEq, Repr

/-- What is shown of a computation that can raise. -/
def Shown.ofExcept {α : Type} (shown : α → Shown) : Except Error α → Shown
  | .ok a => shown a
  | .error e => raised e

/-- `vars(self).get(name)`. -/
def ErrorObject.vars {S : Type} (e : ErrorObject S) (name : String) : Value :=
  (e.dict.lookup name).getD .none

/-- `self.response`, as the messages use it. -/
def ErrorObject.response {S : Type} (objects : List Content) (e : ErrorObject S) :
    Except Error ReceivedResponse :=
  match e.dict.lookup "response" with
  | some (.object id) =>
    match objects[id]? with
    | some (.response r) => .ok r
    | _ => .error .attributeError
  | _ => .error .attributeError

/-- `_summary`. -/
def ErrorObject.summary {S : Type} (lib : UrlLibrary) (objects : List Content) (e : ErrorObject S) :
    Except Error String := do
  let r ← e.response objects
  let url ← redactUrl lib r.request.url.text.toList
  return s!"{r.response.statusCode} {r.request.method} {String.ofList url}"

/-- `StatusError.__repr__`. -/
def ErrorObject.statusRepr {S : Type} (lib : UrlLibrary) (objects : List Content)
    (e : ErrorObject S) : Except Error String := do
  let r ← e.response objects
  let url ← redactUrl lib r.request.url.text.toList
  let cls := e.cls.name
  return s!"<{cls} status={r.response.statusCode} method={r.request.method} url={String.ofList url}>"

/-- The `args` are the lone response, with which the constructor left them. -/
def ErrorObject.isUnread (e : ErrorObject (List Value)) : Bool :=
  e.cls.isStatusError && e.args = [e.vars "response"]

/-- The `args` property: what it returns or raises, and the `args` of `BaseException` after it. -/
def readArgs (lib : UrlLibrary) (objects : List Content) (e : ErrorObject (List Value)) :
    Except Error (List Value) × List Value :=
  if e.isUnread then
    match e.summary lib objects with
    | .ok summary => (.ok [.text summary], [.text summary])
    | .error error => (.error error, e.args)
  else (.ok e.args, e.args)

/-- How `args` are kept: what stands for them when the constructor is done, what reading them gives and
leaves, and what assigning to them leaves. -/
structure ArgsRule (S : Type) where
  init : List Content → ErrorObject (List Value) → S
  read : List Content → ErrorObject S → Except Error (List Value) × S
  assign : List Value → S

/-- The property and its setter. -/
def lazyArgs (lib : UrlLibrary) : ArgsRule (List Value) where
  init _ e := e.args
  read := readArgs lib
  assign := id

/-- The message is built, or fails to be built, by the constructor. -/
def eagerArgs (lib : UrlLibrary) : ArgsRule (Except Error (List Value)) where
  init objects e := (readArgs lib objects e).1
  read _ e := (e.args, e.args)
  assign := .ok

/-! ## Reading -/

/-- What is read of an error. -/
inductive Read
  | args
  | str
  | repr
  | getattr (name : String)
deriving DecidableEq, Repr

/-- `str` of a lone argument. -/
def strOfValue : Value → Shown
  | .text text => .text text
  | value => .strOf value

/-- `BaseException.__str__`, and the same in `StatusError.__str__`. -/
def strOfArgs : List Value → Shown
  | [] => .text ""
  | [value] => strOfValue value
  | values => .strOfTuple values

/-- The fields of `OSError`, which are no entries of the `__dict__`. -/
def ErrorClass.slotNames : ErrorClass → List String
  | timeoutError => ["errno", "strerror", "filename", "filename2"]
  | _ => []

/-- The name is one by which programs read and set an attribute of the class. `args` has operations of
its own. -/
def ErrorClass.hasName (cls : ErrorClass) (name : String) : Bool :=
  (name = "__notes__" || name.toList.head? ≠ some '_') && name ≠ "args" &&
    (cls ≠ .timeoutError || name ≠ "characters_written")

/-- `OSError.__str__`, where it does not look at the arguments. -/
def ErrorObject.osErrorStr {S : Type} (e : ErrorObject S) : Option Shown :=
  let field name := if name ∈ e.cls.slotNames then e.slots.lookup name else none
  match field "filename", field "errno", field "strerror" with
  | some filename, errno, strerror =>
    some (.strOfErrno (errno.getD .none) (strerror.getD .none)
      (filename :: (field "filename2").toList))
  | none, some errno, some strerror => some (.strOfErrno errno strerror [])
  | none, _, _ => none

/-- `getattr(self, name)`: a field, an attribute, or a method. -/
def ErrorObject.getattr {S : Type} (e : ErrorObject S) (name : String) : Shown :=
  if name ∈ e.cls.slotNames then .value ((e.slots.lookup name).getD .none)
  else
    match e.dict.lookup name with
    | some value => .value value
    | none => if name ∈ ["add_note", "with_traceback"] then .method name else .raised .attributeError

/-- What is shown of an error, and its `args` after it. -/
def ArgsRule.show {S : Type} (rule : ArgsRule S) (lib : UrlLibrary) (objects : List Content)
    (e : ErrorObject S) : Read → Shown × S
  | .args => ((rule.read objects e).1 |> .ofExcept .values, (rule.read objects e).2)
  | .str =>
    match e.osErrorStr with
    | some shown => (shown, e.args)
    | none => ((rule.read objects e).1 |> .ofExcept strOfArgs, (rule.read objects e).2)
  | .repr =>
    if e.cls.isStatusError then (.ofExcept .text (e.statusRepr lib objects), e.args)
    else ((rule.read objects e).1 |> .ofExcept (.reprOf e.cls.name), (rule.read objects e).2)
  | .getattr name => (e.getattr name, e.args)

/-! ## Constructors -/

/-- A call of a constructor. -/
inductive Construction
  /-- The positional arguments of a class that has no `__init__` of its own. -/
  | message (cls : ErrorClass) (args : List Value)
  | response (cls : ErrorClass) (id : ℕ)
  | retryBudgetExhausted (lastResponse lastException : Value) (attempts : ℤ)
  | bulkheadFull (maxConcurrent : ℤ) (acquireTimeout : Option Seconds)
  | circuitOpen (retryAfter : Option Number)
  | decode (response : Value) (model : ResponseModel) (original : Value)
  | missingDecoder (model : ResponseModel) (registeredNames : List String)
  | responseTooLarge (statusCode limit : ℤ) (contentLength : Option ℤ) (reason : TooLargeReason)
deriving DecidableEq, Repr

/-- `str` of an optional number. -/
def strOfOption {α : Type} (str : α → String) : Option α → String
  | some a => str a
  | none => "None"

/-- The message of a `RetryBudgetExhaustedError`. -/
def retryBudgetMessage (attempts : ℤ) : String :=
  s!"retry budget exhausted after {attempts} attempt(s)"

/-- The message of a `BulkheadFullError`. -/
def bulkheadFullMessage (maxConcurrent : ℤ) (acquireTimeout : Option Seconds) : String :=
  let timeout := strOfOption Seconds.str acquireTimeout
  s!"bulkhead full (max_concurrent={maxConcurrent}, acquire_timeout={timeout})"

/-- The message of a `CircuitOpenError`. -/
def circuitOpenMessage : Option Number → String
  | none => "circuit open (a probe request is already in flight)"
  | some retryAfter =>
    let seconds := Python.fixed 3 retryAfter
    s!"circuit open (retry_after={seconds}s)"

/-- `_decode_error_summary`. -/
def decodeErrorSummary (model : ResponseModel) (qualname : String) (errorCount : Option ℤ) : String :=
  let modelName := model.name.getD model.repr
  let summary := s!"failed to decode response into {modelName}: {qualname}"
  match errorCount with
  | none => summary
  | some count =>
    let ending := if count = 1 then "" else "s"
    s!"{summary} ({count} error{ending})"

/-- `_missing_decoder_summary`. -/
def missingDecoderSummary (model : ResponseModel) (registeredNames : List String) : String :=
  let joined := " + ".intercalate registeredNames
  let hint :=
    if registeredNames = [] then
      "no decoders registered. Install `pip install httpware[pydantic]` " ++
        "or `pip install httpware[msgspec]`, or pass decoders=[...] explicitly."
    else
      s!"registered decoders ({joined}) all rejected it. " ++
        "Pass a custom decoder via decoders=[...]."
  s!"no decoder for response_model={model.repr}: {hint}"

/-- `reason`. -/
def reasonText : TooLargeReason → String
  | .declared => "declared"
  | .streamed => "streamed"

/-- The message of a `ResponseTooLargeError`. -/
def tooLargeMessage (statusCode limit : ℤ) (contentLength : Option ℤ) (reason : TooLargeReason) :
    String :=
  let length := strOfOption toString contentLength
  let detail :=
    match reason with
    | .declared => s!"declared content_length={length} exceeds max_response_body_bytes={limit}"
    | .streamed => s!"decoded body exceeded max_response_body_bytes={limit}"
  s!"response body too large: status={statusCode} {detail}"

/-- What `_decode_error_summary` reads of `original`: the name of its type, and its `error_count()`. An
error of the tree has no such method, and none on which it is set is taken. -/
def Heap.original {S : Type} (h : Heap S) : Value → Option (String × Option ℤ)
  | .object id =>
    match h.objects[id]? with
    | some (.other object) => some (object.qualname, object.errorCount)
    | _ => none
  | .error i =>
    (h.errors[i]?.filter fun e => e.dict.lookup "error_count" = none).map fun e => (e.cls.name, none)
  | _ => none

/-- `OSError.__new__`, where it gets file names: these leave the arguments. -/
def osErrorFiles (args : List Value) (errno strerror filename filename2 : Value) :
    List Value × List (String × Value) :=
  let slots := [("errno", errno), ("strerror", strerror)]
  let second := if filename2 = .none then [] else [("filename2", filename2)]
  if filename = .none then (args, slots) else ([errno, strerror], slots ++ ("filename", filename) :: second)

/-- `OSError.__new__`: two to five arguments are taken apart. The fourth counts on Windows only. -/
def osErrorNew (args : List Value) : List Value × List (String × Value) :=
  match args with
  | [errno, strerror] => (args, [("errno", errno), ("strerror", strerror)])
  | [errno, strerror, filename] => osErrorFiles args errno strerror filename .none
  | [errno, strerror, filename, _] => osErrorFiles args errno strerror filename .none
  | [errno, strerror, filename, _, filename2] => osErrorFiles args errno strerror filename filename2
  | _ => (args, [])

/-- `cls.__new__(cls, *args)`: the `args` and the fields that it stores. -/
def ErrorClass.new (cls : ErrorClass) (args : List Value) : List Value × List (String × Value) :=
  if cls = .timeoutError then osErrorNew args else (args, [])

/-- An error that `__init__` gives its attributes and a message. -/
def withMessage (cls : ErrorClass) (dict : List (String × Value)) (message : String) :
    ErrorObject (List Value) := ⟨cls, dict, [], [.text message]⟩

/-- The error that a constructor makes. `StatusError.__init__` leaves the arguments that `__new__` has
stored. -/
def Construction.make {S : Type} (h : Heap S) : Construction → Option (ErrorObject (List Value))
  | message cls args =>
    if cls.isPlain then some ⟨cls, [], (cls.new args).2, (cls.new args).1⟩ else none
  | response cls id =>
    if cls.isStatusError then some ⟨cls, [("response", .object id)], [], [.object id]⟩ else none
  | retryBudgetExhausted lastResponse lastException attempts =>
    some (withMessage .retryBudgetExhaustedError
      [("last_response", lastResponse), ("last_exception", lastException), ("attempts", .int attempts)]
      (retryBudgetMessage attempts))
  | bulkheadFull maxConcurrent acquireTimeout =>
    some (withMessage .bulkheadFullError
      [("max_concurrent", .int maxConcurrent), ("acquire_timeout", .ofOption Seconds.value acquireTimeout)]
      (bulkheadFullMessage maxConcurrent acquireTimeout))
  | circuitOpen retryAfter =>
    some (withMessage .circuitOpenError [("retry_after", .ofOption .float retryAfter)]
      (circuitOpenMessage retryAfter))
  | decode received responseModel original =>
    (h.original original).map fun (qualname, errorCount) =>
      withMessage .decodeError
        [("response", received), ("model", .model responseModel), ("original", original)]
        (decodeErrorSummary responseModel qualname errorCount)
  | missingDecoder model registeredNames =>
    some (withMessage .missingDecoderError
      [("model", .model model), ("registered_names", .texts registeredNames)]
      (missingDecoderSummary model registeredNames))
  | responseTooLarge statusCode limit contentLength reason =>
    some (withMessage .responseTooLargeError
      [("status_code", .int statusCode), ("limit", .int limit),
        ("content_length", .ofOption .int contentLength), ("reason", .text (reasonText reason))]
      (tooLargeMessage statusCode limit contentLength reason))

/-- The values of an error are known, and its arguments are no errors. -/
def ErrorObject.isKnown (n m : ℕ) (e : ErrorObject (List Value)) : Bool :=
  e.args.all (·.isArgument n) && (e.dict.map Prod.snd).all (·.isKnown n m) &&
    (e.slots.map Prod.snd).all (·.isKnown n m)

/-- A constructor is called with objects and errors that the program has. -/
def Construction.build {S : Type} (h : Heap S) (construction : Construction) :
    Option (ErrorObject (List Value)) :=
  (construction.make h).filter (·.isKnown h.objects.length h.errors.length)

/-! ## Copying -/

/-- `copy.copy`, `copy.deepcopy`, or a round trip through pickle. -/
inductive CopyMode
  | shallow
  | deep
  | pickled
deriving DecidableEq, Repr

/-- What an object raises when it is copied. -/
def Content.refusal : CopyMode → Content → Option String
  | .deep, other object => object.uncopyable
  | .pickled, other object => object.unpicklable
  | _, _ => none

/-- What a value raises when it is copied. A deep copy shares a class, which pickle finds by its name. -/
def Value.refusal (mode : CopyMode) (objects : List Content) : Value → Option String
  | .object id => objects[id]?.bind (·.refusal mode)
  | .model t => if mode = .pickled then t.unpicklable else Option.none
  | _ => Option.none

/-- What `__reduce__` returns: the class, the `args`, and the `__dict__`. -/
structure Reduced where
  cls : ErrorClass
  args : List Value
  dict : List (String × Value)
deriving DecidableEq, Repr

/-- What a reduced error holds. -/
def Reduced.values (r : Reduced) : List Value := r.args ++ r.dict.map Prod.snd

/-- The objects and the errors that a copy has met, in order. -/
structure Memo where
  objects : List ℕ := []
  errors : List (ℕ × Reduced) := []
deriving DecidableEq, Repr

/-- Why an error is not copied. -/
inductive CopyError
  /-- The `args` of an error cannot be read. -/
  | raised (error : Error)
  /-- A value cannot be copied, or Python's stack ends. -/
  | refused (qualname : String)
deriving DecidableEq, Repr

/-- What the program is shown. -/
def CopyError.shown : CopyError → Shown
  | raised error => .raised error
  | refused qualname => .refused qualname

/-- How a copy names what it has copied: the rest keeps its names. -/
structure Names where
  object : ℕ → ℕ
  error : ℕ → ℕ

/-- Nothing is copied. -/
def Names.same : Names := ⟨id, id⟩

/-- The value under its new name. -/
def Value.rename (ρ : Names) : Value → Value
  | object id => object (ρ.object id)
  | error i => error (ρ.error i)
  | value => value

/-- The attributes with their values renamed. -/
def renameDict (ρ : Names) (dict : List (String × Value)) : List (String × Value) :=
  dict.map fun x => (x.1, x.2.rename ρ)

/-- Copies are named from `start` on, in the order in which their originals were met. -/
def copyName (start : ℕ) (met : List ℕ) (id : ℕ) : ℕ :=
  if id ∈ met then start + met.idxOf id else id

section Heaps

variable {S : Type} (rule : ArgsRule S)

/-- The error with its place in the heap. -/
def Heap.put (h : Heap S) (i : ℕ) (e : ErrorObject S) : Heap S :=
  { h with errors := h.errors.set i e }

/-- `__reduce__`, which reads the `args`. -/
def Heap.reduce (h : Heap S) (i : ℕ) : Option (Except Error Reduced × Heap S) :=
  h.errors[i]?.map fun e =>
    ((rule.read h.objects e).1.map fun args => ⟨e.cls, args, e.dict⟩,
      h.put i { e with args := (rule.read h.objects e).2 })

/-- A value that is no error is met. -/
def Heap.visitValue (mode : CopyMode) (h : Heap S) (m : Memo) (v : Value) : Except CopyError Memo :=
  match v.refusal mode h.objects, v with
  | some qualname, _ => .error (.refused qualname)
  | none, .object id => .ok (if id ∈ m.objects then m else { m with objects := m.objects ++ [id] })
  | none, _ => .ok m

/-- Values are met in order, until one of them raises. -/
def visitAll (visit : Heap S → Memo → Value → Except CopyError Memo × Heap S) (h : Heap S)
    (m : Memo) : List Value → Except CopyError Memo × Heap S
  | [] => (.ok m, h)
  | v :: values =>
    match visit h m v with
    | (.ok m, h) => visitAll visit h m values
    | (.error e, h) => (.error e, h)

/-- A value is met, with what it holds: an error that was not met before is reduced. No argument is an
error, so that it does not matter when the error is noted in the memo. The errors that hold one another
take the stack, which ends after `limit` of them. -/
def Heap.visit (mode : CopyMode) (limit : ℕ) (h : Heap S) (m : Memo) (v : Value) :
    Except CopyError Memo × Heap S :=
  match v with
  | .error i =>
    if i ∈ m.errors.map Prod.fst then (.ok m, h)
    else
      match limit, h.reduce rule i with
      | 0, _ => (.error (.refused "RecursionError"), h)
      | _, none => (.ok m, h)
      | _, some (.error e, h) => (.error (.raised e), h)
      | limit + 1, some (.ok r, h) =>
        visitAll (Heap.visit mode limit) h { m with errors := m.errors ++ [(i, r)] } r.values
  | v => (h.visitValue mode m v, h)

/-- How the copies of what was met are named. -/
def Memo.names (m : Memo) (h : Heap S) : Names where
  object := copyName h.objects.length m.objects
  error := copyName h.errors.length (m.errors.map Prod.fst)

/-- `_restore_client_error` makes the copy without `__init__`, and the `__dict__` is restored. -/
def Reduced.restore (ρ : Names) (r : Reduced) : ErrorObject S :=
  let new := r.cls.new (r.args.map (Value.rename ρ))
  ⟨r.cls, renameDict ρ r.dict, new.2, rule.assign new.1⟩

/-- The copies of what was met. An object is copied as a whole. -/
def Heap.restore (h : Heap S) (m : Memo) : Heap S where
  objects := h.objects ++ m.objects.filterMap (h.objects[·]?)
  errors := h.errors ++ m.errors.map fun x => x.2.restore rule (m.names h)

/-- `copy.copy`: the copy holds what the error holds. -/
def Heap.shallowCopy (h : Heap S) (i : ℕ) : Option (Shown × Heap S) :=
  (h.reduce rule i).map fun
    | (.error e, h) => (.raised e, h)
    | (.ok r, h) => (.created h.errors.length, { h with errors := h.errors ++ [r.restore rule .same] })

/-- `copy.deepcopy`, or pickle: the copy holds copies of what the error holds. They are made here when
all was met, since to make a copy reads and shows nothing. -/
def Heap.deepCopy (mode : CopyMode) (limit : ℕ) (h : Heap S) (i : ℕ) : Option (Shown × Heap S) :=
  if i < h.errors.length then
    match h.visit rule mode limit {} (.error i) with
    | (.error e, h) => some (e.shown, h)
    | (.ok m, h) => some (.created ((m.names h).error i), h.restore rule m)
  else none

/-- An error is copied. -/
def Heap.copy (limit : ℕ) (h : Heap S) (i : ℕ) : CopyMode → Option (Shown × Heap S)
  | .shallow => h.shallowCopy rule i
  | mode => h.deepCopy rule mode limit i

end Heaps

/-! ## Programs -/

/-- An operation of a program. -/
inductive Action
  /-- A response, or an object that errors can hold, comes into being. -/
  | make (content : Content)
  /-- A response object changes. -/
  | change (id : ℕ) (r : ReceivedResponse)
  | construct (construction : Construction)
  | read (i : ℕ) (what : Read)
  | assign (i : ℕ) (args : List Value)
  /-- `setattr`, also for the notes. -/
  | setattr (i : ℕ) (name : String) (value : Value)
  | copy (i : ℕ) (mode : CopyMode)
deriving DecidableEq, Repr

/-- The attributes with one of them set. -/
def setattr (name : String) (value : Value) : List (String × Value) → List (String × Value)
  | [] => [(name, value)]
  | x :: xs => if x.1 = name then (name, value) :: xs else x :: setattr name value xs

/-- `setattr(self, name, value)`: a field is set in its place. -/
def ErrorObject.setattr {S : Type} (e : ErrorObject S) (name : String) (value : Value) :
    ErrorObject S :=
  if name ∈ e.cls.slotNames then { e with slots := Errors.setattr name value e.slots }
  else { e with dict := Errors.setattr name value e.dict }

/-- What is read is an attribute that programs read by name. -/
def ErrorObject.canRead {S : Type} (e : ErrorObject S) : Read → Bool
  | .getattr name => e.cls.hasName name
  | _ => true

section Steps

variable {S : Type} (rule : ArgsRule S) (lib : UrlLibrary) (limit : ℕ)

/-- An error is read. -/
def Heap.read (h : Heap S) (i : ℕ) (what : Read) : Option (Shown × Heap S) :=
  (h.errors[i]?.filter (·.canRead what)).map fun e =>
    let (shown, args) := rule.show lib h.objects e what
    (shown, h.put i { e with args })

/-- One operation. -/
def step (h : Heap S) : Action → Option (Shown × Heap S)
  | .make content =>
    some (.created h.objects.length, { h with objects := h.objects ++ [content] })
  | .change id r =>
    match h.objects[id]? with
    | some (.response _) => some (.done, { h with objects := h.objects.set id (.response r) })
    | _ => none
  | .construct construction =>
    (construction.build h).map fun e =>
      (.created h.errors.length,
        { h with errors := h.errors ++ [⟨e.cls, e.dict, e.slots, rule.init h.objects e⟩] })
  | .read i what => h.read rule lib i what
  | .assign i args =>
    if args.all (·.isArgument h.objects.length) then
      h.errors[i]?.map fun e => (.done, h.put i { e with args := rule.assign args })
    else none
  | .setattr i name value =>
    if value.isKnown h.objects.length h.errors.length then
      (h.errors[i]?.filter (·.cls.hasName name)).map fun e =>
        (.done, h.put i (e.setattr name value))
    else none
  | .copy i mode => h.copy rule limit i mode

/-- Programs over error objects. -/
def errorObjects : Machine (Heap S) Action Shown where
  init := {}
  step := step rule lib limit

end Steps

end Httpware.Errors
