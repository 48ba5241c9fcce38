import Httpware.Lib.Frames

/-!
# The middleware chain

`middleware/chain.py` and the phase decorators of `middleware/__init__.py`. A middleware is a program
over any state, which is given the request and the rest of the chain; `compose` folds a list of them
around a terminal. The sync and the async functions differ only in awaiting, and are one definition
here. Exceptions are of any type, and `isException` says which of them `except Exception` catches.

A chain of decorated functions is a nest of calls. `compose_eq_travel` turns it into two passes: the
request goes in through the `before_request` functions, and what the terminal made of it comes out
through the `after_response` and `on_error` functions, the innermost one first, each with the request
that its own layer was given.
-/

namespace Httpware.Middleware

variable {σ ε Req Resp : Type}

/-- `Next` and `AsyncNext`. -/
abbrev Next (σ ε Req Resp : Type) := Req → Program σ ε Resp

end Middleware

/-- `Middleware` and `AsyncMiddleware`. -/
abbrev Middleware (σ ε Req Resp : Type) := Req → Middleware.Next σ ε Req Resp → Program σ ε Resp

namespace Middleware

/-! ## `chain.py` -/

/-- `_wrap` and `_wrap_sync`. -/
def wrap (layer : Middleware σ ε Req Resp) (inner : Next σ ε Req Resp) : Next σ ε Req Resp :=
  fun request => layer request inner

/-- `compose` and `compose_async`. -/
def compose (middleware : List (Middleware σ ε Req Resp)) (terminal : Next σ ε Req Resp) :
    Next σ ε Req Resp :=
  middleware.reverse.foldl (fun dispatch layer => wrap layer dispatch) terminal

/-- Without middleware the chain is the terminal. -/
@[simp]
theorem compose_nil (terminal : Next σ ε Req Resp) : compose [] terminal = terminal := rfl

/-- The first middleware of the list is the outermost. -/
@[simp]
theorem compose_cons (layer : Middleware σ ε Req Resp) (middleware : List (Middleware σ ε Req Resp))
    (terminal : Next σ ε Req Resp) :
    compose (layer :: middleware) terminal = wrap layer (compose middleware terminal) := by
  simp [compose]

/-! ## The phase decorators -/

/-- `before_request` and `async_before_request`. -/
def beforeRequest (f : Req → Program σ ε Req) : Middleware σ ε Req Resp := fun request next => do
  next (← f request)

/-- `after_response` and `async_after_response`. -/
def afterResponse (f : Req → Resp → Program σ ε Resp) : Middleware σ ε Req Resp :=
  fun request next => do
    let response ← next request
    f request response

/-- The `except Exception` clause of `on_error`. -/
def handleError (isException : ε → Bool) (f : Req → ε → Program σ ε (Option Resp)) (request : Req)
    (exc : ε) : Program σ ε Resp :=
  if isException exc then do
    match ← f request exc with
    | none => Program.raise exc
    | some result => return result
  else Program.raise exc

/-- `on_error` and `async_on_error`. -/
def onError (isException : ε → Bool) (f : Req → ε → Program σ ε (Option Resp)) :
    Middleware σ ε Req Resp := fun request next =>
  (next request).catching (handleError isException f request)

/-- A function under one of the decorators. -/
inductive Phase (σ ε Req Resp : Type)
  | beforeRequest (f : Req → Program σ ε Req)
  | afterResponse (f : Req → Resp → Program σ ε Resp)
  | onError (f : Req → ε → Program σ ε (Option Resp))

namespace Phase

variable (isException : ε → Bool)

/-- The middleware that the decorator makes. -/
def middleware : Phase σ ε Req Resp → Middleware σ ε Req Resp
  | beforeRequest f => Middleware.beforeRequest f
  | afterResponse f => Middleware.afterResponse f
  | onError f => Middleware.onError isException f

/-- What a decorated function does on the way in, and what it leaves for the way out. -/
def station : Phase σ ε Req Resp → Program.Station σ ε Req Resp
  | beforeRequest f => fun request => do return (← f request, .through)
  | afterResponse f => fun request => return (request, ⟨f request, Program.raise⟩)
  | onError f => fun request => return (request, ⟨pure, handleError isException f request⟩)

/-- Each decorator is its station around the rest of the chain. -/
theorem middleware_eq_station (phase : Phase σ ε Req Resp) (request : Req)
    (next : Next σ ε Req Resp) :
    phase.middleware isException request next = (do
      let (request, frame) ← phase.station isException request
      frame.around (next request)) := by
  cases phase with
  | beforeRequest f =>
    funext s
    -- The function may raise, and then there is no call of `next` on either side.
    change Program.bind (f request) next s = Program.bind (Program.bind (f request) _) _ s
    unfold Program.bind
    generalize f request s = entered
    rcases entered with ⟨inner | e | _, t⟩
    · change next inner t = Program.Frame.through.around (next inner) t
      rw [Program.Frame.around_through]
    · rfl
    · rfl
  | afterResponse f => exact (Program.Frame.around_raise (f request) (next request)).symm
  | onError f =>
    exact (Program.Frame.around_pure (handleError isException f request) (next request)).symm

/-- A chain of decorated functions is the nest of their stations. -/
theorem compose_eq_nest (phases : List (Phase σ ε Req Resp)) (terminal : Next σ ε Req Resp) :
    compose (phases.map (middleware isException)) terminal =
      Program.nest terminal (phases.map (station isException)) := by
  induction phases with
  | nil => rfl
  | cons phase phases ih =>
    rw [List.map_cons, List.map_cons, compose_cons, ih]
    funext request
    exact phase.middleware_eq_station isException request _

/-- The frames of decorated functions let a `BaseException` through. -/
theorem station_raised {e : ε} (he : isException e = false) (phase : Phase σ ε Req Resp)
    {request inner : Req} {s t : σ} {frame : Program.Frame σ ε Resp}
    (h : phase.station isException request s = (.ok (inner, frame), t)) :
    frame.raised e = Program.raise e := by
  cases phase with
  | beforeRequest f =>
    obtain ⟨_, _, _, hreturn⟩ := Program.bind_ok h
    cases hreturn
    rfl
  | afterResponse f =>
    cases h
    rfl
  | onError f =>
    cases h
    change handleError isException f request e = _
    rw [handleError, he, if_neg Bool.false_ne_true]

end Phase

section Chain

variable (isException : ε → Bool) (phases : List (Phase σ ε Req Resp))

/-- The way of a request into a chain of decorated functions. -/
abbrev wayIn (request : Req) (s : σ) :
    Program.Result ε Req × List (Program.Frame σ ε Resp) × σ :=
  Program.inbound (phases.map (Phase.station isException)) [] request s

/-- A chain of decorated functions is the way in, the turn at the terminal, and the way out. -/
theorem compose_eq_unwind (terminal : Next σ ε Req Resp) (request : Req) (s : σ) :
    compose (phases.map (Phase.middleware isException)) terminal request s =
      Program.unwind (Program.turn terminal (wayIn isException phases request s)).1
        (Program.turn terminal (wayIn isException phases request s)).2 := by
  rw [Phase.compose_eq_nest, Program.nest_eq_travel]
  rfl

/-- The frames on the way out of a chain let a `BaseException` through. -/
theorem wayIn_raised {e : ε} (he : isException e = false) (request : Req) (s : σ) :
    ∀ frame ∈ (wayIn isException phases request s).2.1, frame.raised e = Program.raise e := by
  apply Program.forall_mem_inbound
  · intro station hstation request s inner frame t hentered
    obtain ⟨phase, _, rfl⟩ := List.mem_map.mp hstation
    exact phase.station_raised isException he hentered
  · exact fun _ h => nomatch h

/-- A chain of decorated functions, in two passes. The `before_request` functions run first, from the
outermost to the innermost. If they let a request through, the terminal runs on it, and what it made
leaves the frames that were piled up, the innermost first; an exception of a `before_request` function
leaves the frames of the layers outside it, and the terminal is not called. -/
theorem chain_in_two_passes (terminal : Next σ ε Req Resp) (request : Req) (s : σ) :
    (∀ inner frames t, wayIn isException phases request s = (.ok inner, frames, t) →
      compose (phases.map (Phase.middleware isException)) terminal request s =
        Program.unwind frames (terminal inner t)) ∧
    (∀ e frames t, wayIn isException phases request s = (.raised e, frames, t) →
      compose (phases.map (Phase.middleware isException)) terminal request s =
        Program.unwind frames (.raised e, t)) ∧
    ∀ frames t, wayIn isException phases request s = (.pending, frames, t) →
      compose (phases.map (Phase.middleware isException)) terminal request s = (.pending, t) := by
  rw [compose_eq_unwind]
  refine ⟨?_, ?_, ?_⟩
  · intro inner frames t h
    rw [h, Program.turn]
  · intro e frames t h
    rw [h, Program.turn]
  · intro frames t h
    rw [h, Program.turn]
    exact Program.unwind_pending frames t

/-- A `BaseException` that is no `Exception` is not touched by a chain of decorated functions: raised
by a `before_request` function, by the terminal, or on the way out by the function of some layer, it
reaches the caller from the state in which it was raised, so no function of the layers outside runs. -/
theorem chain_baseException {e : ε} (he : isException e = false) (terminal : Next σ ε Req Resp)
    (request : Req) (s : σ) :
    (∀ frames t, wayIn isException phases request s = (.raised e, frames, t) →
      compose (phases.map (Phase.middleware isException)) terminal request s = (.raised e, t)) ∧
    ∀ request' left outer t u, wayIn isException phases request s = (.ok request', left ++ outer, t) →
      Program.unwind left (terminal request' t) = (.raised e, u) →
      compose (phases.map (Phase.middleware isException)) terminal request s = (.raised e, u) := by
  have hframes := wayIn_raised isException phases he request s
  rw [compose_eq_unwind]
  constructor
  · intro frames t h
    rw [h] at hframes ⊢
    exact Program.unwind_raised hframes t
  · intro request' left outer t u h hleft
    rw [h] at hframes ⊢
    have houter : ∀ frame ∈ outer, frame.raised e = Program.raise e :=
      fun frame hframe => hframes frame (List.mem_append_right _ hframe)
    calc Program.unwind (left ++ outer) (terminal request' t)
      _ = Program.unwind outer (Program.unwind left (terminal request' t)) :=
        Program.unwind_append left outer _
      _ = Program.unwind outer (.raised e, u) := by rw [hleft]
      _ = (.raised e, u) := Program.unwind_raised houter u

/-- A chain of decorated functions calls its terminal at most once, on a request and in a state that
do not depend on what the terminal does: two terminals that agree there give the same call. -/
theorem chain_asks_terminal_once (request : Req) (s : σ) :
    ∃ asked : Option (Req × σ), ∀ terminal terminal' : Next σ ε Req Resp,
      (∀ x ∈ asked, terminal x.1 x.2 = terminal' x.1 x.2) →
      compose (phases.map (Phase.middleware isException)) terminal request s =
        compose (phases.map (Phase.middleware isException)) terminal' request s := by
  have hunwind := fun terminal : Next σ ε Req Resp =>
    compose_eq_unwind isException phases terminal request s
  generalize wayIn isException phases request s = way at hunwind
  obtain ⟨inner | e | _, frames, t⟩ := way
  · -- Only a request that came through is asked about.
    refine ⟨some (inner, t), fun terminal terminal' hsame => ?_⟩
    have hat : terminal inner t = terminal' inner t := hsame (inner, t) rfl
    rw [hunwind, hunwind, Program.turn, Program.turn, hat]
  · exact ⟨none, fun terminal terminal' _ => by rw [hunwind, hunwind]; rfl⟩
  · exact ⟨none, fun terminal terminal' _ => by rw [hunwind, hunwind]; rfl⟩

end Chain

/-- An error handler that answers every `Exception` and counts its calls. -/
def answering : Phase ℕ Bool Unit ℕ :=
  .onError fun _ _ => do
    Program.modify (· + 1)
    return some 200

/-- A cancelled terminal under the handler: the handler is not called. -/
theorem chain_baseException_cancelled :
    compose ([answering].map (Phase.middleware id)) (fun _ => Program.raise false) () 0 =
      (.raised false, 0) :=
  (chain_baseException id [answering] rfl (fun _ => Program.raise false) () 0).2
    () [] _ 0 0 rfl rfl

end Httpware.Middleware
