import Httpware.Decoding.Client

/-!
# The sync and the async client decode alike

`World.mirror` exchanges the two kinds of streams, so that a stream of one client's own kind is one of the
other's. `observe` is how a method ends: with a value, or with the kind of its exception, and how often the
chain was called. `Client` in a world and `AsyncClient` in its mirror are compared on these.

They end alike but for one case: an unread response of their own kind whose reading raises an `Exception`.
`Client` reads inside `_BoundDecoder.decode` and raises a `DecodeError`, and `AsyncClient` reads before it,
so the exception leaves as it is.
-/

namespace Httpware.Decoding

variable {Model ε V : Type}

/-- The response as the other client has it. -/
def StreamResponse.mirror (r : StreamResponse ε) : StreamResponse ε :=
  { r with isSyncByteStream := r.isAsyncByteStream, isAsyncByteStream := r.isSyncByteStream }

/-- The world as the other client has it. -/
def World.mirror (w : World ε) : World ε := { w with response := w.response.mirror }

/-- The kinds of exceptions. One that is not the client's own is told apart by what it is. -/
inductive Kind (ε : Type)
  | missingDecoderError
  | typeError
  | decodeError
  | outside (e : Outside ε)
deriving DecidableEq

/-- The kind of an exception. -/
def Raised.kind : Raised Model ε → Kind ε
  | missingDecoderError _ _ => .missingDecoderError
  | typeError _ => .typeError
  | decodeError _ _ => .decodeError
  | outside e => .outside e

/-- How a method ends, and how often the chain was called. -/
def observe {α : Type} : Program.Result (Raised Model ε) α × World ε →
    Program.Result (Kind ε) α × ℕ
  | (.ok a, w) => (.ok a, w.dispatched)
  | (.raised e, w) => (.raised e.kind, w.dispatched)
  | (.pending, w) => (.pending, w.dispatched)

/-! ## Reading and decoding -/

section Reading

variable (r : StreamResponse ε)

/-- A stream is read alike by both clients. -/
theorem readStream_mirror : r.mirror.readStream = (r.readStream.1, r.readStream.2.mirror) := by
  unfold StreamResponse.readStream StreamResponse.mirror
  dsimp only
  split
  · rfl
  · rfl
  · rfl
  · rfl

/-- A body of the own kind is read alike by both clients. -/
theorem readBody_mirror :
    r.mirror.readBody .async = ((r.readBody .sync).1, (r.readBody .sync).2.mirror) := by
  have hcontent : r.mirror.content = r.content := rfl
  have hconsumed : r.mirror.isStreamConsumed = r.isStreamConsumed := rfl
  have hclosed : r.mirror.isClosed = r.isClosed := rfl
  have hkind : r.mirror.hasKind .async = r.hasKind .sync := rfl
  unfold StreamResponse.readBody
  rw [hcontent, hconsumed, hclosed, hkind, readStream_mirror]
  cases r.content with
  | some content => rfl
  | none =>
    dsimp only
    split_ifs
    · rfl
    · rfl
    · rfl
    · rfl

/-- A stream that was read to its end leaves its body. -/
theorem readStream_content {body : Bytes} {s : StreamResponse ε} (h : r.readStream = (.ok body, s)) :
    s.content = some body := by
  unfold StreamResponse.readStream at h
  split at h
  · cases h
  · cases h
  · cases h
  · cases h
    rfl

/-- A body that was read is there. -/
theorem readBody_again {mode : Mode} {body : Bytes} {s : StreamResponse ε} (other : Mode)
    (h : r.readBody mode = (.ok body, s)) : s.readBody other = (.ok body, s) := by
  have hcontent : s.content = some body := by
    unfold StreamResponse.readBody at h
    cases hr : r.content with
    | some content =>
      rw [hr] at h
      cases h
      exact hr
    | none =>
      rw [hr] at h
      dsimp only at h
      split_ifs at h
      · cases h
      · cases h
      · exact readStream_content r h
      · cases h
  unfold StreamResponse.readBody
  rw [hcontent]

/-- A closed response is not read from its stream, so its kind does not matter. -/
theorem readBody_closed (h : r.isClosed = true) :
    r.mirror.readBody .sync = ((r.readBody .sync).1, (r.readBody .sync).2.mirror) := by
  have hcontent : r.mirror.content = r.content := rfl
  have hconsumed : r.mirror.isStreamConsumed = r.isStreamConsumed := rfl
  have hclosed : r.mirror.isClosed = r.isClosed := rfl
  unfold StreamResponse.readBody
  rw [hcontent, hconsumed, hclosed, if_pos h, if_pos h]
  cases r.content with
  | some content => rfl
  | none =>
    dsimp only
    split_ifs
    · rfl
    · rfl

/-- A reading that returns. -/
theorem read_of_ok {mode : Mode} {w : World ε} {body : Bytes} {s : StreamResponse ε}
    (h : w.response.readBody mode = (.ok body, s)) :
    (read mode : Call Model ε Bytes) w = (.ok body, { w with response := s }) := by
  unfold read
  rw [h]

/-- A reading that raises. -/
theorem read_of_error {mode : Mode} {w : World ε} {e : Outside ε} {s : StreamResponse ε}
    (h : w.response.readBody mode = (.error e, s)) :
    (read mode : Call Model ε Bytes) w = (.raised (.outside e), { w with response := s }) := by
  unfold read
  rw [h]

end Reading

section Decode

variable (isException : ε → Bool) (bound : BoundDecoder Model ε V)

/-- What `_BoundDecoder.decode` raises for an exception. -/
def BoundDecoder.wrap (exc : Raised Model ε) : Raised Model ε :=
  if exc.isException isException then .decodeError bound.model exc else exc

/-- How `_BoundDecoder.decode` ends, by the body. -/
def BoundDecoder.ending : Except (Outside ε) Bytes → Program.Result (Raised Model ε) V
  | .error e => .raised (bound.wrap isException (.outside e))
  | .ok content =>
    match bound.decoder.decode content bound.model with
    | .ok value => .ok value
    | .error e => .raised (bound.wrap isException (.outside (.foreign e)))

/-- `_BoundDecoder.decode` reads the body and wraps what fails. -/
theorem decode_eq (w : World ε) : bound.decode isException w =
    (bound.ending isException (w.response.readBody .sync).1,
      { w with response := (w.response.readBody .sync).2 }) := by
  -- The `except Exception` clause wraps the exceptions that it catches.
  have hwrap (exc : Raised Model ε) (v : World ε) :
      (if exc.isException isException then Program.raise (.decodeError bound.model exc)
        else Program.raise exc : Call Model ε V) v = (.raised (bound.wrap isException exc), v) := by
    unfold BoundDecoder.wrap
    split_ifs
    · rfl
    · rfl
  generalize hr : w.response.readBody .sync = reading
  obtain ⟨body, r⟩ := reading
  cases body with
  | error e =>
    unfold BoundDecoder.decode
    rw [Program.catching_of_raised (Program.bind_of_raised (read_of_error hr))]
    exact hwrap _ _
  | ok content =>
    have hbody := Program.bind_of_ok (f := fun content =>
      (ofDecoder (bound.decoder.decode content bound.model) : Call Model ε V)) (read_of_ok hr)
    show _ = (bound.ending isException (.ok content), { w with response := r })
    unfold BoundDecoder.decode BoundDecoder.ending
    dsimp only
    cases hd : bound.decoder.decode content bound.model with
    | ok value =>
      rw [hd] at hbody
      exact Program.catching_of_ok hbody
    | error e =>
      rw [hd] at hbody
      rw [Program.catching_of_raised hbody]
      exact hwrap _ _

end Decode

/-! ## After the chain has returned -/

/-- What the methods of `AsyncClient` do before they decode. -/
def AsyncClient.afterDispatch {α : Type} (decode : Call Model ε α) : Call Model ε α := do
  let response ← Program.get World.response
  if ¬ response.isClosed then
    rejectSyncStream response
    let _ ← read .async
  decode

/-- What the methods of `Client` do before they decode. -/
def Client.afterDispatch {α : Type} (decode : Call Model ε α) : Call Model ε α := do
  let response ← Program.get World.response
  if ¬ response.isClosed then
    rejectAsyncStream response
  decode

section AfterDispatch

variable {α : Type} (decode : Call Model ε α) (w : World ε)

/-- What `Client` does there, by whether the response is closed. -/
theorem Client.afterDispatch_eq : Client.afterDispatch decode w =
    (if ¬ w.response.isClosed = true then rejectAsyncStream w.response >>= fun _ => decode
      else decode : Call Model ε α) w := rfl

/-- And what `AsyncClient` does. -/
theorem AsyncClient.afterDispatch_eq : AsyncClient.afterDispatch decode w =
    (if ¬ w.response.isClosed = true then
        rejectSyncStream w.response >>= fun _ => read .async >>= fun _ => decode
      else decode : Call Model ε α) w := rfl

/-- `Client` decodes a closed response, and one of its own kind. -/
theorem Client.afterDispatch_own (h : w.response.isClosed = true ∨ w.response.isSyncByteStream = true) :
    Client.afterDispatch decode w = decode w := by
  rw [Client.afterDispatch_eq]
  split_ifs with hclosed
  · rfl
  · have hkind := h.resolve_left hclosed
    apply Program.bind_of_ok (a := ()) (t := w)
    unfold rejectAsyncStream
    rw [if_neg (not_not.mpr hkind)]
    rfl

/-- `Client` rejects an unread response of the other kind. -/
theorem Client.afterDispatch_other (hclosed : w.response.isClosed = false)
    (hkind : w.response.isSyncByteStream = false) :
    Client.afterDispatch decode w = (.raised (.typeError asyncStreamMessage), w) := by
  rw [Client.afterDispatch_eq, if_pos (Bool.eq_false_iff.mp hclosed)]
  apply Program.bind_of_raised
  unfold rejectAsyncStream
  rw [if_pos (Bool.eq_false_iff.mp hkind)]
  rfl

/-- `AsyncClient` decodes a closed response. -/
theorem AsyncClient.afterDispatch_closed (h : w.response.isClosed = true) :
    AsyncClient.afterDispatch decode w = decode w := by
  rw [AsyncClient.afterDispatch_eq, if_neg (not_not.mpr h)]

/-- `AsyncClient` rejects an unread response of the other kind. -/
theorem AsyncClient.afterDispatch_other (hclosed : w.response.isClosed = false)
    (hkind : w.response.isAsyncByteStream = false) :
    AsyncClient.afterDispatch decode w = (.raised (.typeError syncStreamMessage), w) := by
  rw [AsyncClient.afterDispatch_eq, if_pos (Bool.eq_false_iff.mp hclosed)]
  apply Program.bind_of_raised
  unfold rejectSyncStream
  rw [if_pos (Bool.eq_false_iff.mp hkind)]
  rfl

/-- `AsyncClient` reads an unread response of its own kind, and what the reading raises leaves as it is. -/
theorem AsyncClient.afterDispatch_own (hclosed : w.response.isClosed = false)
    (hkind : w.response.isAsyncByteStream = true) :
    AsyncClient.afterDispatch decode w = (read .async >>= fun _ => decode : Call Model ε α) w := by
  rw [AsyncClient.afterDispatch_eq, if_pos (Bool.eq_false_iff.mp hclosed)]
  apply Program.bind_of_ok (a := ()) (t := w)
  unfold rejectSyncStream
  rw [if_neg (not_not.mpr hkind)]
  rfl

end AfterDispatch

/-- The stream, or the content decoder on its chunks, raises `e`. -/
def StreamResponse.Fails (r : StreamResponse ε) (e : ε) : Prop :=
  r.decodeChunks r.chunks = .error e ∨
    (∃ body, r.decodeChunks r.chunks = .ok body) ∧
      (r.failure = some e ∨ r.failure = none ∧ r.flush r.chunks = .error e)

/-- The response is an unread one of the own kind of `Client`, and its stream was consumed before or
raises an `Exception`. -/
def StreamResponse.OwnFails (isException : ε → Bool) (r : StreamResponse ε) : Prop :=
  r.isClosed = false ∧ r.isSyncByteStream = true ∧ r.content = none ∧
    (r.isStreamConsumed = true ∨ ∃ e, isException e = true ∧ r.Fails e)

/-- An unread response of the own kind fails exactly when reading it raises an `Exception`. -/
theorem ownFails_iff (isException : ε → Bool) {r : StreamResponse ε} (hclosed : r.isClosed = false)
    (hkind : r.isSyncByteStream = true) : r.OwnFails isException ↔
      ∃ e, (r.readBody .sync).1 = .error e ∧ e.isException isException = true := by
  unfold StreamResponse.OwnFails StreamResponse.readBody
  have hopen := Bool.eq_false_iff.mp hclosed
  cases hcontent : r.content with
  | some content => simp
  | none =>
    by_cases hconsumed : r.isStreamConsumed = true
    · simp [hclosed, hkind, hconsumed, Outside.isException]
    · have hread : r.hasKind .sync = true := hkind
      rw [if_neg hconsumed, if_neg hopen, if_pos hread]
      unfold StreamResponse.Fails StreamResponse.readStream
      cases hd : r.decodeChunks r.chunks with
      | error e => simp [hclosed, hkind, hconsumed, Outside.isException]
      | ok body =>
        cases hf : r.failure with
        | some e => simp [hclosed, hkind, hconsumed, Outside.isException]
        | none =>
          cases hl : r.flush r.chunks with
          | error e => simp [hclosed, hkind, hconsumed, Outside.isException]
          | ok rest => simp [hclosed, hkind, hconsumed]

section Agree

variable (isException : ε → Bool) (bound : BoundDecoder Model ε V) {α : Type} (f : V → α)

/-- `decode` with a function of its value. -/
def Decodes (decode : Call Model ε α) : Prop :=
  ∀ w, decode w = ((bound.ending isException (w.response.readBody .sync).1).map f,
    { w with response := (w.response.readBody .sync).2 })

variable {isException bound}

/-- `decode` itself. -/
theorem decodes_id : Decodes isException bound id (bound.decode isException) := by
  intro w
  rw [decode_eq]
  cases bound.ending isException (w.response.readBody .sync).1 with
  | ok value => rfl
  | raised e => rfl
  | pending => rfl

/-- `decode`, and then a function of its value. -/
theorem decodes_map : Decodes isException bound f
    (do return f (← bound.decode isException)) := by
  intro w
  have hdecode := decode_eq isException bound w
  generalize bound.ending isException (w.response.readBody .sync).1 = ending at hdecode ⊢
  cases ending with
  | ok value => exact Program.bind_of_ok hdecode
  | raised e => exact Program.bind_of_raised hdecode
  | pending => exact Program.bind_of_pending hdecode

variable {f} {decode : Call Model ε α} (w : World ε)

/-- A read failure has another kind once it is wrapped. -/
theorem kind_wrap (e : Outside ε) : (bound.wrap isException (.outside e)).kind = .outside e ↔
    ¬ e.isException isException = true := by
  unfold BoundDecoder.wrap Raised.isException
  split_ifs with h
  · simp [Raised.kind, h]
  · simp [Raised.kind, h]

/-- What is observed is the ending and the number of calls. -/
theorem observe_congr (x : Program.Result (Raised Model ε) α) {v w : World ε}
    (h : v.dispatched = w.dispatched) : observe (x, v) = observe (x, w) := by
  cases x with
  | ok a => exact congrArg (Prod.mk _) h
  | raised e => exact congrArg (Prod.mk _) h
  | pending => exact congrArg (Prod.mk _) h

/-- Two exceptions are observed alike when their kinds agree. -/
theorem observe_raised_iff {x y : Raised Model ε} {v w : World ε} (h : v.dispatched = w.dispatched) :
    observe ((.raised x, v) : Program.Result (Raised Model ε) α × World ε)
        = observe ((.raised y, w) : Program.Result (Raised Model ε) α × World ε) ↔
      x.kind = y.kind := by
  show ((.raised x.kind, v.dispatched) : Program.Result (Kind ε) α × ℕ)
    = (.raised y.kind, w.dispatched) ↔ _
  rw [h]
  simp

/-- A closed response is decoded alike. -/
theorem afterDispatch_agree_closed (h : Decodes isException bound f decode)
    (hclosed : w.response.isClosed = true) :
    observe (Client.afterDispatch decode w) = observe (AsyncClient.afterDispatch decode w.mirror) := by
  have hmirror : w.mirror.response.isClosed = true := hclosed
  rw [Client.afterDispatch_own decode w (Or.inl hclosed),
    AsyncClient.afterDispatch_closed decode w.mirror hmirror, h w, h w.mirror]
  have hread : (w.mirror.response.readBody .sync).1 = (w.response.readBody .sync).1 := by
    show (w.response.mirror.readBody .sync).1 = _
    rw [readBody_closed w.response hclosed]
  rw [hread]
  exact observe_congr _ rfl

/-- An unread response of the own kind is decoded alike unless reading it raises an `Exception`. -/
theorem afterDispatch_agree_own (h : Decodes isException bound f decode)
    (hclosed : w.response.isClosed = false) (hkind : w.response.isSyncByteStream = true) :
    observe (Client.afterDispatch decode w) = observe (AsyncClient.afterDispatch decode w.mirror) ↔
      ¬ ∃ e, (w.response.readBody .sync).1 = .error e ∧ e.isException isException = true := by
  have hmirror := readBody_mirror w.response
  rw [Client.afterDispatch_own decode w (Or.inr hkind),
    AsyncClient.afterDispatch_own decode w.mirror hclosed hkind, h w]
  generalize hr : w.response.readBody .sync = reading at hmirror ⊢
  obtain ⟨body, r⟩ := reading
  cases body with
  | ok body =>
    -- The body is in memory when `AsyncClient` decodes.
    have hagain := readBody_again w.response.mirror .sync hmirror
    have hread : (read .async : Call Model ε Bytes) w.mirror = _ := read_of_ok hmirror
    rw [Program.bind_of_ok hread, h]
    dsimp only
    rw [hagain]
    refine iff_of_true (observe_congr _ rfl) ?_
    rintro ⟨e, he, _⟩
    cases he
  | error e =>
    have hread : (read .async : Call Model ε Bytes) w.mirror = _ := read_of_error hmirror
    rw [Program.bind_of_raised hread]
    refine (observe_raised_iff rfl).trans ((kind_wrap e).trans ?_)
    rw [not_iff_not]
    constructor
    · exact fun he => ⟨e, rfl, he⟩
    · rintro ⟨_, ⟨⟩, he⟩
      exact he

/-- After the chain has returned, the clients end alike unless an unread response of their own kind
fails. -/
theorem afterDispatch_agree_iff (h : Decodes isException bound f decode) :
    observe (Client.afterDispatch decode w) = observe (AsyncClient.afterDispatch decode w.mirror) ↔
      ¬ w.response.OwnFails isException := by
  cases hclosed : w.response.isClosed with
  | true =>
    have hagree := afterDispatch_agree_closed w h hclosed
    refine iff_of_true hagree ?_
    rintro ⟨hopen, _⟩
    rw [hclosed] at hopen
    cases hopen
  | false =>
    cases hkind : w.response.isSyncByteStream with
    | true => rw [ownFails_iff isException hclosed hkind, afterDispatch_agree_own w h hclosed hkind]
    | false =>
      rw [Client.afterDispatch_other decode w hclosed hkind,
        AsyncClient.afterDispatch_other decode w.mirror hclosed hkind]
      refine iff_of_true rfl ?_
      rintro ⟨_, hown, _⟩
      rw [hkind] at hown
      cases hown

end Agree

/-! ## The methods -/

/-- The first decoder that claims the model; none before it raises. -/
def Claimed (decoders : List (Decoder Model ε V)) (model : Model) : Prop :=
  ∃ front decoder back, decoders = front ++ decoder :: back ∧
    (∀ d ∈ front, d.canDecode model = .ok false) ∧ decoder.canDecode model = .ok true

/-- The first decoder claims the model, or declines it for a later one. -/
theorem claimed_cons {decoder : Decoder Model ε V} {rest : List (Decoder Model ε V)} {model : Model} :
    Claimed (decoder :: rest) model ↔ decoder.canDecode model = .ok true ∨
      (decoder.canDecode model = .ok false ∧ Claimed rest model) := by
  constructor
  · rintro ⟨front, d, back, hsplit, hfront, hd⟩
    cases front with
    | nil =>
      rw [List.nil_append, List.cons.injEq] at hsplit
      rw [hsplit.1]
      exact Or.inl hd
    | cons c front =>
      rw [List.cons_append, List.cons.injEq] at hsplit
      rw [hsplit.1]
      exact Or.inr ⟨hfront c List.mem_cons_self, front, d, back, hsplit.2,
        fun e he => hfront e (List.mem_cons_of_mem _ he), hd⟩
  · rintro (hd | ⟨hdecline, front, d, back, rfl, hfront, hd⟩)
    · exact ⟨[], decoder, rest, rfl, fun _ h => absurd h List.not_mem_nil, hd⟩
    · refine ⟨decoder :: front, d, back, rfl, ?_, hd⟩
      intro c hc
      obtain rfl | hc := List.mem_cons.mp hc
      · exact hdecline
      · exact hfront c hc

/-- `resolve` does not touch the world: it binds the first decoder that claims the model, or raises. -/
theorem resolveLoop_cases (model : Model) (names : List String) (decoders : List (Decoder Model ε V)) :
    (Claimed decoders model ∧ ∃ bound, ∀ w, resolveLoop model names decoders w = (.ok bound, w)) ∨
      (¬ Claimed decoders model ∧ ∃ e, ∀ w, resolveLoop model names decoders w = (.raised e, w)) := by
  induction decoders with
  | nil =>
    right
    refine ⟨?_, _, fun w => rfl⟩
    rintro ⟨front, decoder, back, h, _⟩
    exact absurd h.symm (List.append_ne_nil_of_right_ne_nil _ (List.cons_ne_nil _ _))
  | cons decoder rest ih =>
    rw [claimed_cons]
    unfold resolveLoop
    cases hd : decoder.canDecode model with
    | error e =>
      right
      refine ⟨?_, .outside (.foreign e), fun w => rfl⟩
      rintro (h | ⟨h, _⟩)
      · cases h
      · cases h
    | ok claims =>
      cases claims with
      | true => exact Or.inl ⟨Or.inl rfl, ⟨decoder, model⟩, fun w => rfl⟩
      | false =>
        -- A decoder that declines leaves the loop to the rest.
        obtain ⟨hclaimed, bound, hbound⟩ | ⟨hnone, e, he⟩ := ih
        · exact Or.inl ⟨Or.inr ⟨rfl, hclaimed⟩, bound, hbound⟩
        · right
          refine ⟨?_, e, he⟩
          rintro (h | ⟨_, h⟩)
          · cases h
          · exact hnone h

/-- A chain that raises. -/
theorem dispatch_of_raised {w : World ε} {e : ε} (h : w.chain = .raised e) :
    (dispatch : Call Model ε Unit) w
      = (.raised (.outside (.foreign e)), { w with dispatched := w.dispatched + 1 }) := by
  obtain ⟨chain, response, dispatched⟩ := w
  cases h
  rfl

/-- A chain that returns. -/
theorem dispatch_of_returned {w : World ε} (h : w.chain = .returned) :
    (dispatch : Call Model ε Unit) w = (.ok (), { w with dispatched := w.dispatched + 1 }) := by
  obtain ⟨chain, response, dispatched⟩ := w
  cases h
  rfl

section Methods

variable (isException : ε → Bool) (decoders : List (Decoder Model ε V))

/-- The methods that decode: `decode` is what they do with the decoder that they have bound. -/
theorem methods_agree_iff {α : Type} (f : V → α) (decode : BoundDecoder Model ε V → Call Model ε α)
    (hdecode : ∀ bound, Decodes isException bound f (decode bound)) (model : Model) (w : World ε) :
    observe ((do
        let bound ← resolve decoders model
        dispatch
        Client.afterDispatch (decode bound) : Call Model ε α) w)
      = observe ((do
        let bound ← resolve decoders model
        dispatch
        AsyncClient.afterDispatch (decode bound) : Call Model ε α) w.mirror) ↔
      ¬ (Claimed decoders model ∧ w.chain = .returned ∧ w.response.OwnFails isException) := by
  obtain ⟨hclaimed, bound, hbound⟩ | ⟨hnone, e, he⟩ :=
    resolveLoop_cases model (decoders.map Decoder.name) decoders
  · have hsync : resolve decoders model w = (.ok bound, w) := hbound w
    have hasync : resolve decoders model w.mirror = (.ok bound, w.mirror) := hbound w.mirror
    -- A decoder is bound: the chain decides whether the response is decoded.
    rw [Program.bind_of_ok hsync, Program.bind_of_ok hasync]
    cases hchain : w.chain with
    | raised e =>
      have hmirror : w.mirror.chain = .raised e := hchain
      rw [Program.bind_of_raised (dispatch_of_raised hchain),
        Program.bind_of_raised (dispatch_of_raised hmirror)]
      refine iff_of_true rfl ?_
      rintro ⟨_, h, _⟩
      cases h
    | returned =>
      have hmirror : w.mirror.chain = .returned := hchain
      rw [Program.bind_of_ok (dispatch_of_returned hchain),
        Program.bind_of_ok (dispatch_of_returned hmirror)]
      have h := afterDispatch_agree_iff { w with dispatched := w.dispatched + 1 } (hdecode bound)
      refine h.trans (not_congr ?_)
      exact ⟨fun hfails => ⟨hclaimed, rfl, hfails⟩, fun hall => hall.2.2⟩
  · have hsync : resolve decoders model w = (.raised e, w) := he w
    have hasync : resolve decoders model w.mirror = (.raised e, w.mirror) := he w.mirror
    -- No decoder claims the model: both clients raise before the chain.
    rw [Program.bind_of_raised hsync, Program.bind_of_raised hasync]
    exact iff_of_true (observe_congr _ rfl) fun h => hnone h.1

/-- `Client` and `AsyncClient` end alike: with the same value or the same kind of exception, after as many
calls of the chain, unless a decoder claims the model and the chain returns an unread response of the
client's own kind whose reading raises an `Exception`. -/
theorem clients_agree_iff (w : World ε) :
    (∀ responseModel : Option Model,
      observe (Client.send isException decoders responseModel w)
          = observe (AsyncClient.send isException decoders responseModel w.mirror) ↔
        ¬ ((∃ model ∈ responseModel, Claimed decoders model) ∧ w.chain = .returned ∧
          w.response.OwnFails isException)) ∧
    ∀ model : Model,
      observe (Client.sendWithResponse isException decoders model w)
          = observe (AsyncClient.sendWithResponse isException decoders model w.mirror) ↔
        ¬ (Claimed decoders model ∧ w.chain = .returned ∧ w.response.OwnFails isException) := by
  constructor
  · intro responseModel
    cases responseModel with
    | none =>
      -- Without a model nothing is read.
      have hnone : ¬ ∃ model ∈ (none : Option Model), Claimed decoders model := by simp
      refine iff_of_true ?_ fun h => hnone h.1
      obtain ⟨chain, response, dispatched⟩ := w
      cases chain with
      | raised e => rfl
      | returned => rfl
    | some model =>
      have hsome : (∃ m ∈ some model, Claimed decoders m) ↔ Claimed decoders model := by simp
      rw [hsome]
      exact methods_agree_iff isException decoders Sent.decoded _
        (fun bound => decodes_map Sent.decoded) model w
  · intro model
    exact methods_agree_iff isException decoders id _ (fun bound => decodes_id) model w

end Methods

/-- A decoder that returns the body. -/
def bodyDecoder : Decoder String String Bytes :=
  ⟨"BodyDecoder", fun _ => .ok true, fun content _ => .ok content⟩

/-- A chain that returns an unread response whose stream breaks after a chunk. -/
def brokenWorld : World String where
  chain := .returned
  response := {
    isSyncByteStream := true
    isAsyncByteStream := false
    chunks := [[0x7b]]
    failure := some "ReadError"
    decodeChunks := fun chunks => .ok chunks.flatten
    flush := fun _ => .ok [] }

/-- A stream that breaks is a `DecodeError` of `Client`, and leaves `AsyncClient` as it is. -/
theorem clients_disagree :
    observe (Client.send (fun _ => true) [bodyDecoder] (some "dict") brokenWorld)
      = (.raised .decodeError, 1) ∧
    observe (AsyncClient.send (fun _ => true) [bodyDecoder] (some "dict") brokenWorld.mirror)
      = (.raised (.outside (.foreign "ReadError")), 1) ∧
    observe (Client.sendWithResponse (fun _ => true) [bodyDecoder] "dict" brokenWorld)
      = (.raised .decodeError, 1) ∧
    observe (AsyncClient.sendWithResponse (fun _ => true) [bodyDecoder] "dict" brokenWorld.mirror)
      = (.raised (.outside (.foreign "ReadError")), 1) := ⟨rfl, rfl, rfl, rfl⟩

end Httpware.Decoding
