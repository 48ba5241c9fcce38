import Httpware.BodyCap.History

/-!
# How a capped call ends

What can leave a capped call as an exception, whatever the server, the bodies that it sends, and the auth
flow do (`exceptions_spec`): their own exceptions, mapped where they are httpx2's, the limits of the
driver and of the cap, and the `StatusError` of a response. `Sound` is what the exchange has to say of its
responses for that: that their bodies raise what comes from outside, and that the streams that count do so
up to the cap.

The terminal and `stream()` are two programs around the same driver. They agree on every response that is
an error, and on any other `stream()` leaves the body to its block (`stream_spec`).
-/

namespace Httpware.BodyCap

open Program (Triple Ends Raises)

/-! ## What can be raised -/

/-- What reading a response raises. -/
inductive Readable (client : Client) (cap : ℕ) : Exc → Prop
  | chunk {n m : ℕ} {request : Request} {received : Received} {e : Exc}
      (h : client.send n request = .ok received) (hchunk : received.chunks m = .raised e) :
      Readable client cap e
  /-- The outside has begun to read the body, or has closed the response. -/
  | streamConsumed : Readable client cap (.httpx2 .streamConsumed)
  | streamClosed : Readable client cap (.httpx2 .streamClosed)
  | declared {statusCode n : ℤ} (h : n > cap) :
      Readable client cap (.responseTooLarge statusCode cap (some n) .declared)
  | streamed {statusCode : ℤ} {contentLength : Option ℤ} :
      Readable client cap (.responseTooLarge statusCode cap contentLength .streamed)

/-- What the driver raises, and reading what it returns. -/
inductive Raisable (mode : Mode) (client : Client) (auth : Auth) (cap : ℕ) : Exc → Prop
  | reading {e : Exc} (h : Readable client cap e) : Raisable mode client auth cap e
  | sending {n : ℕ} {request : Request} {e : Exc} (h : client.send n request = .error e) :
      Raisable mode client auth cap e
  | flow {n : ℕ} {e : Exc} (h : (auth.flow n).result = .raises e) : Raisable mode client auth cap e
  /-- The auth flow stops without a request. -/
  | noRequest {n : ℕ} (h : (auth.flow n).result = .stops) :
      Raisable mode client auth cap (.other (stopIteration mode))
  | tooManyRedirects : Raisable mode client auth cap (.httpx2 .tooManyRedirects)

/-- The streams that count do so up to the cap. -/
def Stream.CountsTo (cap : ℕ) : Stream → Prop
  | transport => True
  | capped inner limit _ _ => limit = cap ∧ inner.CountsTo cap
  | bytes => True

/-- What a response can raise when it is read comes from the transport, or from the cap. -/
structure StreamedResponse.Sound (client : Client) (cap : ℕ) (r : StreamedResponse) : Prop where
  chunks : ∀ m e, r.chunks m = .raised e → Readable client cap e
  stream : r.stream.CountsTo cap

/-- Every response of the exchange. -/
def Sound (client : Client) (cap : ℕ) (x : Exchange) : Prop :=
  ∀ id, (x.responses id).Sound client cap

section Parts

variable {client : Client} {cap rounds id : ℕ} {E : Exc → Prop}

/-! ## Single responses -/

/-- A change that leaves the body and its stream alone. -/
theorem raises_update {f : StreamedResponse → StreamedResponse}
    (hf : ∀ r : StreamedResponse, r.Sound client cap → (f r).Sound client cap) :
    Raises (Sound client cap) E (update id f) := by
  refine .modify fun x hx d => ?_
  by_cases hd : d = id
  · subst hd
    rw [x.set_here]
    exact hf _ (hx d)
  · rw [x.set_other hd]
    exact hx d

theorem raises_close : Raises (Sound client cap) E (close id) :=
  raises_update fun _ hr => ⟨hr.chunks, hr.stream⟩

/-- A change of what is neither, before the rest. -/
theorem raises_update_bind {α : Type} {f : StreamedResponse → StreamedResponse} {p : Unit → Call α}
    (hchunks : ∀ r, (f r).chunks = r.chunks) (hstream : ∀ r, (f r).stream = r.stream)
    (hp : Raises (Sound client cap) E (p ())) :
    Raises (Sound client cap) E (update id f >>= p) := by
  refine (raises_update fun r hr => ⟨?_, ?_⟩).bind fun _ => hp
  · rw [hchunks]
    exact hr.chunks
  · rw [hstream]
    exact hr.stream

/-- A response object is made. -/
theorem raises_new {r : StreamedResponse} (hr : r.Sound client cap) :
    Raises (Sound client cap) E (new r) := by
  refine Raises.get.bind fun n => Raises.bind (.modify fun x hx d => ?_) fun _ => .pure
  by_cases hd : d = n
  · subst hd
    change ((x.set d r).responses d).Sound client cap
    rw [x.set_here]
    exact hr
  · change ((x.set n r).responses d).Sound client cap
    rw [x.set_other hd]
    exact hx d

/-! ## Reading -/

variable (hE : ∀ e, Readable client cap e → E e)
include hE

/-- A round of the loop over the transport's stream. -/
theorem raises_pullRound {β : Type} {body : β → Chunk → Step β}
    (hbody : ∀ b c e, body b c = .raise e → E e) (b : β) :
    Raises (Sound client cap) E (pullRound id body b) := by
  have hpull : Triple (Sound client cap) (pull id)
      (Ends (fun pulled x => Sound client cap x ∧ ∀ e, pulled = .raised e → E e)
        fun e x => Sound client cap x ∧ E e) := by
    intro x hx
    rw [pull_eq]
    refine ⟨fun d => ?_, fun e he => hE e ((hx id).chunks _ e he)⟩
    by_cases hd : d = id
    · subst hd
      rw [x.set_here]
      exact ⟨(hx d).chunks, (hx d).stream⟩
    · rw [x.set_other hd]
      exact hx d
  refine Ends.bind hpull fun pulled => ?_
  rintro x ⟨hx, hraised⟩
  cases pulled with
  | stop => exact (raises_close.bind fun _ => .pure) x hx
  | raised e => exact ⟨hx, hraised e rfl⟩
  | chunk c =>
    dsimp only
    cases hstep : body b c with
    | next b' => exact hx
    | done b' => exact hx
    | raise e => exact ⟨hx, hbody b c e hstep⟩

/-- The loop over a response's stream: a stream that counts adds its limit. -/
theorem raises_forEach (stream : Stream) (hstream : stream.CountsTo cap) {β : Type}
    {body : β → Chunk → Step β} (hbody : ∀ b c e, body b c = .raise e → E e) (b : β) :
    Raises (Sound client cap) E (stream.forEach rounds id b body) := by
  induction stream generalizing β with
  | transport => exact .loop (raises_pullRound hE hbody) rounds b
  | bytes => exact .pure
  | capped inner limit statusCode contentLength ih =>
    obtain ⟨rfl, hinner⟩ := hstream
    refine (ih hinner ?_ _).bind fun _ => .pure
    rintro ⟨read, b⟩ c e he
    unfold cappedBody at he
    dsimp only at he
    split_ifs at he with hlimit
    · cases he
      exact hE _ .streamed
    · cases hstep : body b c with
      | raise raised =>
        rw [hstep] at he
        cases he
        exact hbody b c _ hstep
      | _ =>
        rw [hstep] at he
        cases he

/-- The loop over the decoded chunks. -/
theorem raises_iterBytes {β : Type} {body : β → Bytes → Step β}
    (hbody : ∀ b c e, body b c = .raise e → E e) (b : β) :
    Raises (Sound client cap) E (iterBytes rounds id b body) := by
  have hdecoded : ∀ b c e, decodedBody body b c = .raise e → E e := by
    intro b c e he
    unfold decodedBody at he
    split_ifs at he
    exact hbody b _ e he
  unfold iterBytes
  refine Raises.get_bind (P := fun r => r.Sound client cap) (fun x hx => hx id) fun r hr => ?_
  cases r.content with
  | some content =>
    dsimp only
    cases hstep : decodedBody body b ⟨content.data, content.data⟩ with
    | next b' => exact .pure
    | done b' => exact .pure
    | raise e => exact .raise (hdecoded _ _ e hstep)
  | none =>
    dsimp only
    split_ifs
    · exact .raise (hE _ .streamConsumed)
    · exact .raise (hE _ .streamClosed)
    · refine raises_update_bind (fun _ => rfl) (fun _ => rfl) ?_
      exact raises_forEach hE r.stream hr.stream hdecoded b

/-- `read` and `aread`. -/
theorem raises_read : Raises (Sound client cap) E (read rounds id) := by
  unfold read
  refine Raises.get.bind fun r => ?_
  cases r.content with
  | some content => exact .pure
  | none =>
    refine (raises_iterBytes hE (fun _ _ _ he => by cases he) []).bind fun data => ?_
    exact raises_update fun _ hr => ⟨hr.chunks, hr.stream⟩

/-- `_discard_and_close`. -/
theorem raises_discardAndClose :
    Raises (Sound client cap) E (discardAndClose rounds id cap) := by
  refine Raises.onExit (Raises.get.bind fun r => ?_) raises_close
  split_ifs
  · exact .pure
  · unfold discardWithinCap
    refine Raises.get.bind fun r => ?_
    split_ifs
    · refine (raises_iterBytes hE (fun read chunk e he => ?_) 0).bind fun _ => .pure
      dsimp only at he
      split_ifs at he
    · exact .pure

/-- A declared length above the cap. -/
theorem raises_reject (r : StreamedResponse) :
    Raises (Sound client cap) E (rejectIfDeclaredLengthExceedsCap r cap) := by
  unfold rejectIfDeclaredLengthExceedsCap
  dsimp only
  split_ifs with hlong
  · obtain ⟨n, hn, hgt⟩ := hlong
    rw [Option.mem_def.mp hn]
    exact .raise (hE _ (.declared hgt))
  · exact .pure

omit hE in
/-- The response is rebuilt from its content. -/
theorem raises_rebuild (content : Bytes) (request : Request) :
    Raises (Sound client cap) E (do
      close id
      let r ← response id
      new (buildBufferedResponse r content request)) := by
  refine raises_close.bind fun _ => Raises.get.bind fun r => raises_new ⟨?_, trivial⟩
  intro m e he
  cases he

/-- `_read_capped` and `_read_capped_async`: the signal of the sync one does not leave it. -/
theorem raises_readCapped (mode : Mode) (request : Request) :
    Raises (Sound client cap) E (readCapped mode rounds id cap request) := by
  unfold readCapped
  refine raises_update_bind (fun _ => rfl) (fun _ => rfl) (Raises.get.bind fun r => ?_)
  split_ifs
  · refine (raises_reject hE r).bind fun contentLength => ?_
    unfold readThroughCappedStream
    refine Raises.bind (raises_update fun _ hr => ⟨hr.chunks, rfl, hr.stream⟩) fun _ => ?_
    exact ((raises_read hE).onRaise raises_close).bind fun _ => .pure
  · refine (raises_reject hE r).bind fun contentLength => ?_
    cases mode with
    | sync =>
      refine Raises.get.bind fun r => Raises.bind ?_ fun content => raises_rebuild content request
      refine Raises.catching (E := fun e => E e ∨ ∃ n, e = .capExceeded n) ?_ ?_
      · refine raises_iterBytes (fun e he => .inl (hE e he)) (fun buf chunk e he => ?_) []
        dsimp only at he
        split_ifs at he
        cases he
        exact .inr ⟨_, rfl⟩
      · intro e he
        split
        · exact .raise (hE _ .streamed)
        · next hother =>
          rcases he with he | ⟨n, rfl⟩
          · exact .raise he
          · exact absurd rfl (hother n)
    | async =>
      refine Raises.get.bind fun r => Raises.bind ?_ fun content => raises_rebuild content request
      refine raises_iterBytes hE (fun buf chunk e he => ?_) []
      dsimp only at he
      split_ifs at he
      cases he
      exact hE _ .streamed
  · exact (raises_read hE).bind fun _ => .pure

/-- `_read_capped_and_close`. -/
theorem raises_readCappedAndClose (mode : Mode) :
    Raises (Sound client cap) E (readCappedAndClose mode rounds id cap) :=
  Raises.onExit (Raises.get.bind fun r => raises_readCapped hE mode r.request) raises_close

omit hE in
/-- The program outside httpware uses a response. -/
theorem raises_use (use : Use) : Raises (Sound client cap) E (update id fun r => r.use use) := by
  refine raises_update fun r hr => ?_
  unfold StreamedResponse.use
  dsimp only
  split_ifs
  · exact ⟨hr.chunks, hr.stream⟩
  · exact ⟨hr.chunks, hr.stream⟩

end Parts

/-! ## The driver -/

section Driver

variable {mode : Mode} {client : Client} {auth : Auth} {cap rounds id : ℕ}

/-- Reading under the driver. -/
theorem raises_reading {α : Type} {p : Call α} (h : Raises (Sound client cap) (Readable client cap) p) :
    Raises (Sound client cap) (Raisable mode client auth cap) p :=
  Ends.mono h (fun _ hx => hx) (fun _ _ hx => hx) fun _ _ hx => ⟨hx.1, .reading hx.2⟩

/-- A request is sent. -/
theorem raises_send (request : Request) :
    Raises (Sound client cap) (Raisable mode client auth cap) (send client request) := by
  unfold send
  refine Raises.get.bind fun sent => Raises.bind (.modify fun _ hx => hx) fun _ => ?_
  cases hsent : client.send sent.length request with
  | error e => exact .raise (.sending hsent)
  | ok received => exact raises_new ⟨fun m e he => .chunk hsent he, trivial⟩

/-- A resumption of the flow shows what the flow does. -/
theorem raises_resume (sent : Option ℕ) :
    Triple (Sound client cap) (resume auth sent)
      (Ends (fun resumed x => Sound client cap x ∧ ∃ n, (auth.flow n).result = resumed)
        fun _ _ => False) := by
  unfold resume
  refine Ends.get fun n => ?_
  refine Ends.bind (Q := fun _ => Sound client cap) (.modify fun _ hx => hx.1) fun _ => ?_
  cases sent with
  | none => exact .pure fun x hx => ⟨hx, n, rfl⟩
  | some id =>
    refine Ends.bind (Q := fun _ => Sound client cap) ?_ fun _ => .pure fun x hx => ⟨hx, n, rfl⟩
    exact Ends.mono (raises_use (E := fun _ => False) (auth.flow n).use) (fun _ hx => hx)
      (fun _ _ hx => hx) fun _ _ hx => hx.2

/-- A flow that is resumed, with what is done when it yields or stops. -/
theorem raises_resumed {α : Type} (sent : Option ℕ) {next : Resumed → Call α}
    (hnext : ∀ n, Raises (Sound client cap) (Raisable mode client auth cap)
      (next (auth.flow n).result)) :
    Raises (Sound client cap) (Raisable mode client auth cap) (resume auth sent >>= next) := by
  refine Ends.bind
    (Q := fun resumed x => Sound client cap x ∧ ∃ n, (auth.flow n).result = resumed) ?_ fun resumed => ?_
  · exact Ends.mono (raises_resume sent) (fun _ hx => hx) (fun _ _ hx => hx) fun _ _ hx => hx.elim
  · rintro x ⟨hx, n, rfl⟩
    exact hnext n x hx

/-- `_send_redirect_hops`. -/
theorem raises_sendRedirectHops (request : Request) (priorHistory : List ℕ) :
    Raises (Sound client cap) (Raisable mode client auth cap)
      (sendRedirectHops client rounds request priorHistory cap) := by
  refine Raises.loop (fun next => ?_) rounds _
  dsimp only
  split
  · exact .raise .tooManyRedirects
  · refine (raises_send next.1).bind fun id => ?_
    refine raises_update_bind (fun _ => rfl) (fun _ => rfl) (Raises.get.bind fun r => ?_)
    cases r.nextRequest with
    | none => exact .pure
    | some nextRequest =>
      dsimp only
      split
      · exact .pure
      · exact (raises_reading (raises_discardAndClose fun _ he => he)).bind fun _ => .pure

/-- A round of `_send_capped`. -/
theorem raises_authStep (next : Request × List ℕ) :
    Raises (Sound client cap) (Raisable mode client auth cap)
      (authStep mode client auth rounds cap next) := by
  refine (raises_sendRedirectHops next.1 next.2).bind fun id => Raises.bind ?_ fun id => ?_
  · unfold handOver
    split_ifs
    · exact raises_reading (raises_readCappedAndClose (fun _ he => he) mode)
    · exact .pure
  · refine raises_resumed (some id) fun n => ?_
    cases hresult : (auth.flow n).result with
    | stops => exact .pure
    | raises e => exact raises_close.bind fun _ => .raise (.flow hresult)
    | yields nextRequest =>
      refine (raises_reading (raises_discardAndClose fun _ he => he)).bind fun _ => ?_
      exact raises_update_bind (fun _ => rfl) (fun _ => rfl) .pure

end Driver

/-- `_send_capped`. -/
theorem raises_sendCapped (mode : Mode) (client : Client) (rounds cap : ℕ) (request : Request) :
    Raises (Sound client cap) (Raisable mode client (requestAuth client request) cap)
      (sendCapped mode client rounds request cap) := by
  rw [sendCapped_eq]
  refine Raises.onExit ?_ (.modify fun _ hx => hx)
  refine raises_resumed none fun n => ?_
  cases hresult : ((requestAuth client request).flow n).result with
  | stops => exact .raise (.noRequest hresult)
  | raises e => exact .raise (.flow hresult)
  | yields first => exact .loop raises_authStep rounds _

/-! ## What leaves a call -/

/-- `isinstance(exc, MAPPED_HTTPX2_ERRORS)`. -/
def isMapped : Exc → Bool
  | .httpx2 .streamConsumed => false
  | .httpx2 .streamClosed => false
  | .httpx2 .runtimeError => false
  | .httpx2 _ => true
  | _ => false

/-- Nothing that is mapped is left. -/
theorem isMapped_mapException (client : Client) (e : Exc) :
    isMapped (mapException client e) = false := by
  cases e with
  | httpx2 e =>
    cases e with
    | streamConsumed =>
      simp only [mapException]
      split_ifs <;> rfl
    | streamClosed =>
      simp only [mapException]
      split_ifs <;> rfl
    | runtimeError =>
      simp only [mapException]
      split_ifs <;> rfl
    | _ => rfl
  | other qualname =>
    simp only [mapException]
    split_ifs <;> rfl
  | _ => rfl

/-- A response that `_raise_on_status_error` raises an error for. -/
def StreamedResponse.IsError (r : StreamedResponse) : Prop := 400 ≤ r.statusCode ∧ r.statusCode < 600

/-- The error. -/
def StreamedResponse.statusError (r : StreamedResponse) : Exc :=
  .statusError (statusToException r.statusCode) r.toResponse

/-- The exception with which the block of a call ends. -/
def CappedCall.block : CappedCall → Option Exc
  | terminal => none
  | stream _ leaves => leaves

/-- An exception of the driver, when it comes to the `try` of the call. -/
def CappedCall.fromDriver (mode : Mode) (client : Client) : CappedCall → Exc → Exc
  | terminal, e => e
  | stream _ _, e => leaveGenerator mode client e

/-- What leaves a call: what the driver, the reading of a body or the block raised, mapped, or the error
of a response. -/
inductive CanLeave (mode : Mode) (client : Client) (auth : Auth) (cap : ℕ) (call : CappedCall)
    (x : Exchange) : Exc → Prop
  | driver {e : Exc} (h : Raisable mode client auth cap e) :
      CanLeave mode client auth cap call x (mapException client (call.fromDriver mode client e))
  | reading {e : Exc} (h : Readable client cap e) :
      CanLeave mode client auth cap call x (mapException client e)
  | block {e : Exc} (h : call.block = some e) :
      CanLeave mode client auth cap call x (mapException client e)
  | status {id : ℕ} (h : (x.responses id).IsError) :
      CanLeave mode client auth cap call x (x.responses id).statusError

/-- The error of a response is raised, or the response is none. -/
theorem raiseOnStatus_eq (id : ℕ) (x : Exchange) :
    ((x.responses id).IsError ∧ raiseOnStatus id x = (.raised (x.responses id).statusError, x)) ∨
      ¬ (x.responses id).IsError ∧ raiseOnStatus id x = (.ok (), x) := by
  by_cases h : (x.responses id).IsError
  · have hraised : raiseOnStatusError (x.responses id).toResponse =
        .raised (x.responses id).statusError := if_pos h
    refine .inl ⟨h, ?_⟩
    unfold raiseOnStatus
    rw [response_bind, hraised]
    rfl
  · have hreturned : raiseOnStatusError (x.responses id).toResponse =
        .returned (x.responses id).toResponse := if_neg h
    refine .inr ⟨h, ?_⟩
    unfold raiseOnStatus
    rw [response_bind, hreturned]
    rfl

/-- The exchange after a response was closed. -/
def Exchange.closed (x : Exchange) (id : ℕ) : Exchange :=
  x.set id { x.responses id with isClosed := true }

/-- Closing a response changes no status. -/
theorem toResponse_closed (x : Exchange) (id d : ℕ) :
    ((x.closed id).responses d).toResponse = (x.responses d).toResponse := by
  unfold Exchange.closed
  by_cases hd : d = id
  · subst hd
    rw [x.set_here]
  · rw [x.set_other hd]

section Leaves

variable {client : Client} {request : Request} {mode : Mode} {rounds cap : ℕ}

/-- What is raised under the `try` of `stream()`. -/
inductive RaisedInStream (mode : Mode) (client : Client) (auth : Auth) (cap : ℕ) (block : Option Exc)
    (x : Exchange) : Exc → Prop
  | driver {e : Exc} (h : Raisable mode client auth cap e) :
      RaisedInStream mode client auth cap block x (leaveGenerator mode client e)
  | reading {e : Exc} (h : Readable client cap e) : RaisedInStream mode client auth cap block x e
  | block {e : Exc} (h : block = some e) : RaisedInStream mode client auth cap block x e
  | status {id : ℕ} (h : (x.responses id).IsError) :
      RaisedInStream mode client auth cap block x (x.responses id).statusError

/-- Mapped, it can leave. -/
theorem RaisedInStream.canLeave {auth : Auth} {use : Use} {block : Option Exc} {e : Exc} {x : Exchange}
    (h : RaisedInStream mode client auth cap block x e) :
    CanLeave mode client auth cap (.stream use block) x (mapException client e) := by
  cases h with
  | driver h => exact .driver h
  | reading h => exact .reading h
  | block h => exact .block h
  | status h => exact .status h

/-- Closing a response changes nothing of it. -/
theorem RaisedInStream.close {auth : Auth} {block : Option Exc} {e : Exc} {x : Exchange}
    (h : RaisedInStream mode client auth cap block x e) (id : ℕ) :
    RaisedInStream mode client auth cap block (x.closed id) e := by
  cases h with
  | driver h => exact .driver h
  | reading h => exact .reading h
  | block h => exact .block h
  | @status d hstatus =>
    have hsame := toResponse_closed x id d
    have herror : ((x.closed id).responses d).IsError := by
      unfold StreamedResponse.IsError
      rw [hsame]
      exact hstatus
    have hexc : (x.responses d).statusError = ((x.closed id).responses d).statusError := by
      unfold StreamedResponse.statusError
      rw [hsame]
    rw [hexc]
    exact .status herror

/-- What leaves the terminal, and what it returns. -/
theorem terminal_outcomes :
    Triple (Sound client cap) (terminal mode client rounds cap request)
      (Ends (fun id x => ¬ (x.responses id).IsError)
        fun e x => CanLeave mode client (requestAuth client request) cap .terminal x e) := by
  unfold terminal
  refine Ends.bind (Q := fun _ => Sound client cap) ?_ fun id => ?_
  · refine Ends.catching
      (E := fun e _ => Raisable mode client (requestAuth client request) cap e) ?_
      fun e => .raise fun x he => .driver he
    refine Ends.mono (Raises.bind (raises_sendCapped mode client rounds cap request) fun id =>
      raises_reading (raises_readCappedAndClose (fun _ he => he) mode)) (fun _ hx => hx)
        (fun _ _ hx => hx) ?_
    exact fun _ _ hx => hx.2
  · intro x hx
    rcases raiseOnStatus_eq id x with ⟨hstatus, hraise⟩ | ⟨hstatus, hgo⟩
    · rw [Program.bind_of_raised hraise]
      exact .status hstatus
    · rw [Program.bind_of_ok hgo]
      exact hstatus

/-- What leaves `stream()`. -/
theorem stream_outcomes (use : Use) (leaves : Option Exc) :
    Triple (Sound client cap) (stream mode client rounds cap request use leaves)
      (Ends (fun _ _ => True)
        fun e x => CanLeave mode client (requestAuth client request) cap (.stream use leaves) x e) := by
  let raised := fun e x => RaisedInStream mode client (requestAuth client request) cap leaves x e
  unfold stream
  refine Ends.catching (E := raised) ?_ fun e => .raise fun x he => he.canLeave
  refine Ends.bind (Q := fun _ => Sound client cap) ?_ fun id => ?_
  · exact Ends.catching (raises_sendCapped mode client rounds cap request) fun e =>
      .raise fun x hx => .driver hx.2
  · refine Ends.onExit (Q := fun _ _ => True) (E := raised) ?_ (fun _ => .modify fun _ _ => trivial)
      fun e => .modify fun x hx => hx.close id
    have hblock : Triple (Sound client cap)
        (do
          update id fun r => r.use use
          leaveBlock leaves)
        (Ends (fun _ _ => True) raised) := by
      refine Ends.bind (Q := fun _ _ => True) (.modify fun _ _ => trivial) fun _ => ?_
      cases leaves with
      | none => exact .pure fun _ _ => trivial
      | some e => exact .raise fun _ _ => .block rfl
    refine Ends.get fun r => Triple.consequence (P := Sound client cap) ?_ (fun _ hx => hx.1)
      fun _ _ hx => hx
    dsimp only
    split_ifs
    · refine Ends.bind (Q := fun _ => Sound client cap) ?_ fun buffered => ?_
      · exact Ends.mono (raises_readCapped (fun _ he => he) mode r.request) (fun _ hx => hx)
          (fun _ _ hx => hx) fun _ _ hx => .reading hx.2
      · intro x hx
        rcases raiseOnStatus_eq buffered x with ⟨hstatus, hraise⟩ | ⟨hstatus, hgo⟩
        · rw [Program.bind_of_raised hraise]
          exact .status hstatus
        · rw [Program.bind_of_ok hgo]
          exact hblock x hx
    · exact hblock

end Leaves

/-- Whatever the server, its bodies, and the auth flow do: an exception that leaves a capped call is one
of theirs, a limit of the driver or of the cap, or the block's, each mapped to httpware's where it is one
of `MAPPED_HTTPX2_ERRORS`, or a `RuntimeError` of a closed client, or it is the `StatusError` of a response
of the call, under the name for its status. A flow that stops without a request leaves the terminal as it
stops, and `stream()` as a `RuntimeError`. The terminal returns no response with an error status. -/
theorem exceptions_spec (mode : Mode) (client : Client) (rounds cap : ℕ) (request : Request) :
    (∀ (call : CappedCall) e x, call.run mode client rounds cap request .start = (.raised e, x) →
      CanLeave mode client (requestAuth client request) cap call x e ∧ isMapped e = false) ∧
    ∀ id x, terminal mode client rounds cap request .start = (.ok id, x) →
      ¬ (x.responses id).IsError := by
  have hstart : Sound client cap .start := fun id => ⟨fun m e he => (nomatch he), trivial⟩
  refine ⟨fun call e x h => ?_, fun id x h => Ends.of_ok terminal_outcomes hstart h⟩
  have hleaves : CanLeave mode client (requestAuth client request) cap call x e := by
    cases call with
    | terminal =>
      have hrun : Triple (Sound client cap) (CappedCall.terminal.run mode client rounds cap request)
          (Ends (fun _ _ => True)
            fun e x => CanLeave mode client (requestAuth client request) cap .terminal x e) :=
        Ends.bind terminal_outcomes fun _ => .pure fun _ _ => trivial
      have hleaves := Ends.of_raised hrun hstart h
      exact hleaves
    | stream use leaves =>
      have hleaves := Ends.of_raised (stream_outcomes use leaves) hstart h
      exact hleaves
  refine ⟨hleaves, ?_⟩
  cases hleaves with
  | driver _ => exact isMapped_mapException client _
  | reading _ => exact isMapped_mapException client _
  | block _ => exact isMapped_mapException client _
  | status _ => rfl

/-- The name of the exception that leaves a call. -/
def leavingName : Program.Result Exc Unit → Option String
  | .raised e => some e.qualname
  | _ => none

/-- A server that knows nothing. -/
def unknown : Client := repeating 404 fun _ => none

/-- Its replies leave the terminal as the error that their status names. -/
theorem exceptions_spec_unknown : ∃ e x,
    CappedCall.terminal.run .sync unknown 5 10 (requestOf "GET") .start = (.raised e, x) ∧
      e.qualname = "NotFoundError" ∧ isMapped e = false := by
  have hname : leavingName (CappedCall.terminal.run .sync unknown 5 10 (requestOf "GET") .start).1 =
      some "NotFoundError" := by decide +kernel
  generalize hrun : CappedCall.terminal.run .sync unknown 5 10 (requestOf "GET") .start = after at hname
  obtain ⟨result, x⟩ := after
  cases result with
  | raised e =>
    have hmapped := ((exceptions_spec .sync unknown 5 10 (requestOf "GET")).1 .terminal e x hrun).2
    exact ⟨e, x, rfl, Option.some.inj hname, hmapped⟩
  | ok _ => cases hname
  | pending => cases hname

/-! ## The terminal and `stream()` -/

section Stream

variable {mode : Mode} {client : Client} {rounds cap id : ℕ} {request : Request}

/-- Reading a response leaves its status. -/
theorem framed_statusCode (statusCode : ℤ) :
    Framed id fun x => (x.responses id).statusCode = statusCode ∧ id < x.count where
  touched {f} hf x hx := by
    refine ⟨?_, hx.2⟩
    change ((x.set id (f (x.responses id))).responses id).statusCode = statusCode
    rw [x.set_here, hf.received]
    exact hx.1
  rebuilt {x r} hx _ _ := by
    refine ⟨?_, Nat.lt_succ_of_lt hx.2⟩
    change ((x.set x.count r).responses id).statusCode = statusCode
    rw [x.set_other hx.2.ne]
    exact hx.1

/-- So does rebuilding it. -/
theorem rebuild_statusCode (statusCode : ℤ) (content : Bytes) :
    Triple (fun x => (x.responses id).statusCode = statusCode ∧ id < x.count)
      (do
        close id
        let r ← response id
        new (buildBufferedResponse r content request))
      (Ends (fun id' x => (x.responses id').statusCode = statusCode) fun _ _ => True) := by
  refine Ends.bind (framed_statusCode statusCode).keeps_close.ends_ok fun _ =>
    Ends.get fun r => ?_
  rintro x ⟨⟨hstatus, -⟩, rfl⟩
  change ((x.set x.count _).responses x.count).statusCode = statusCode
  rw [x.set_here]
  exact hstatus

/-- Buffering gives back an object with the status of the response. -/
theorem readCapped_statusCode (statusCode : ℤ) :
    Triple (fun x => (x.responses id).statusCode = statusCode ∧ id < x.count)
      (readCapped mode rounds id cap request)
      (Ends (fun id' x => (x.responses id').statusCode = statusCode) fun _ _ => True) := by
  have hframed : Framed id fun x => (x.responses id).statusCode = statusCode ∧ id < x.count :=
    framed_statusCode statusCode
  unfold readCapped
  refine Ends.bind (hframed.touched touches_capRead).ends_ok fun _ => Ends.get fun r =>
    Triple.consequence
      (P := fun x => (x.responses id).statusCode = statusCode ∧ id < x.count) ?_
      (fun _ hx => hx.1) fun _ _ hx => hx
  split_ifs
  · refine Ends.bind (keeps_reject r cap).ends_ok fun contentLength => ?_
    unfold readThroughCappedStream
    refine Ends.bind (hframed.touched (touches_stream _)).ends_ok fun _ => ?_
    exact Ends.bind (hframed.keeps_read.onRaise hframed.keeps_close).ends_ok fun _ =>
      .pure fun _ hx => hx.1
  · refine Ends.bind (keeps_reject r cap).ends_ok fun contentLength => ?_
    cases mode with
    | sync =>
      refine Ends.bind Program.Keeps.get.ends_ok fun r =>
        Ends.bind (Program.Keeps.ends_ok ?_) fun content => rebuild_statusCode statusCode content
      refine hframed.keeps_accumulateCapped.catching fun e => ?_
      split
      · exact .raise
      · exact .raise
    | async =>
      refine Ends.bind Program.Keeps.get.ends_ok fun r => ?_
      exact Ends.bind (hframed.keeps_iterBytes _ _).ends_ok fun content =>
        rebuild_statusCode statusCode content
  · exact Ends.bind hframed.keeps_read.ends_ok fun _ => .pure fun _ hx => hx.1

/-- The driver returns a response that it has received. -/
theorem received_of_sendCapped {x : Exchange}
    (h : sendCapped mode client rounds request cap .start = (.ok id, x)) : id < x.count := by
  obtain ⟨steps, redirects, first, x₀, x₁, hresume, hauth, rfl⟩ := DriverRun.of_sendCapped h
  exact (hauth.chained (Chained.nil x₀)).1.last.1

/-- What `stream()` does with a response of the driver, under its `with`. -/
def streamBlock (mode : Mode) (rounds cap : ℕ) (use : Use) (leaves : Option Exc) (id : ℕ) :
    Call Unit := do
  let r ← response id
  if 400 ≤ r.statusCode ∧ r.statusCode < 600 then
    let buffered ← readCapped mode rounds id cap r.request
    raiseOnStatus buffered
  update id fun r => r.use use
  leaveBlock leaves

theorem stream_eq (mode : Mode) (client : Client) (rounds cap : ℕ) (request : Request) (use : Use)
    (leaves : Option Exc) :
    stream mode client rounds cap request use leaves =
      Program.catching
        (do
          let id ← streamCapped mode client rounds request cap
          Program.onExit (streamBlock mode rounds cap use leaves id) (close id))
        fun e => .raise (mapException client e) := rfl

/-- On a response with an error status the block is not reached. -/
theorem streamBlock_of_isError {x : Exchange} {use : Use} {leaves : Option Exc}
    (h : (x.responses id).IsError) :
    streamBlock mode rounds cap use leaves id x =
      (readCapped mode rounds id cap (x.responses id).request >>= fun buffered =>
        raiseOnStatus buffered >>= fun _ =>
          update id (fun r => r.use use) >>= fun _ => leaveBlock leaves) x := by
  have hstatus : 400 ≤ (x.responses id).statusCode ∧ (x.responses id).statusCode < 600 := h
  unfold streamBlock
  rw [response_bind, if_pos hstatus]

/-- On any other it is all. -/
theorem streamBlock_of_not_isError {x : Exchange} {use : Use} {leaves : Option Exc}
    (h : ¬ (x.responses id).IsError) :
    streamBlock mode rounds cap use leaves id x =
      leaveBlock leaves (x.set id ((x.responses id).use use)) := by
  have hstatus : ¬ (400 ≤ (x.responses id).statusCode ∧ (x.responses id).statusCode < 600) := h
  unfold streamBlock
  rw [response_bind, if_neg hstatus]
  rfl

/-- The block under `stream()` has ended. -/
def leftBlock (client : Client) : Option Exc → Program.Result Exc Unit
  | some e => .raised (mapException client e)
  | none => .ok ()

/-- `_stream_capped` yields what the driver returns. -/
theorem streamCapped_of_ok {x : Exchange}
    (h : sendCapped mode client rounds request cap .start = (.ok id, x)) :
    streamCapped mode client rounds request cap .start = (.ok id, x) := Program.catching_of_ok h

/-- Where the body cannot be buffered, the terminal raises what `stream()` raises. -/
theorem stream_eq_of_raised {x y : Exchange} {e : Exc} {use : Use} {leaves : Option Exc}
    (hsent : sendCapped mode client rounds request cap .start = (.ok id, x))
    (hstatus : (x.responses id).IsError)
    (hread : readCapped mode rounds id cap (x.responses id).request x = (.raised e, y)) :
    stream mode client rounds cap request use leaves .start =
      CappedCall.terminal.run mode client rounds cap request .start := by
  have hclose : close id y = (.ok (), y.closed id) := rfl
  have hblock : streamBlock mode rounds cap use leaves id x = (.raised e, y) :=
    (streamBlock_of_isError hstatus).trans (Program.bind_of_raised hread)
  have hstream : stream mode client rounds cap request use leaves .start =
      (.raised (mapException client e), y.closed id) := by
    rw [stream_eq]
    apply Program.catching_of_raised
    rw [Program.bind_of_ok (streamCapped_of_ok hsent)]
    exact Program.onExit_of_ended hblock (Program.Result.raised_ne_pending e) hclose
  have hbuffer : readCappedAndClose mode rounds id cap x = (.raised e, y.closed id) :=
    Program.onExit_of_ended hread (Program.Result.raised_ne_pending e) hclose
  have hterminal : terminal mode client rounds cap request .start =
      (.raised (mapException client e), y.closed id) :=
    Program.bind_of_raised
      (Program.catching_of_raised ((Program.bind_of_ok hsent).trans hbuffer))
  exact hstream.trans (Program.bind_of_raised hterminal).symm

/-- Where the body is buffered, both raise the error of the buffered response. -/
theorem stream_eq_of_ok {x y : Exchange} {id' : ℕ} {use : Use} {leaves : Option Exc}
    (hsent : sendCapped mode client rounds request cap .start = (.ok id, x))
    (hstatus : (x.responses id).IsError)
    (hread : readCapped mode rounds id cap (x.responses id).request x = (.ok id', y)) :
    stream mode client rounds cap request use leaves .start =
      CappedCall.terminal.run mode client rounds cap request .start := by
  have hclose : close id y = (.ok (), y.closed id) := rfl
  have hbuffers := @readCapped_statusCode mode rounds cap id (x.responses id).request
    (x.responses id).statusCode
  have hreceived : (x.responses id).statusCode = (x.responses id).statusCode ∧ id < x.count :=
    ⟨rfl, received_of_sendCapped hsent⟩
  have hsame := Ends.of_ok hbuffers hreceived hread
  have herror : (y.responses id').IsError := by
    unfold StreamedResponse.IsError
    rw [hsame]
    exact hstatus
  -- Closing the response comes before the check in the one, and after it in the other.
  have hclosed := toResponse_closed y id id'
  have herror' : ((y.closed id).responses id').IsError := by
    unfold StreamedResponse.IsError
    rw [hclosed]
    exact herror
  have hexc : ((y.closed id).responses id').statusError = (y.responses id').statusError := by
    unfold StreamedResponse.statusError
    rw [hclosed]
  have hraise := (raiseOnStatus_eq id' y).resolve_right fun h => h.1 herror
  have hraise' := (raiseOnStatus_eq id' (y.closed id)).resolve_right fun h => h.1 herror'
  have hblock : streamBlock mode rounds cap use leaves id x =
      (.raised (y.responses id').statusError, y) := by
    rw [streamBlock_of_isError hstatus, Program.bind_of_ok hread]
    exact Program.bind_of_raised hraise.2
  have hopened : (streamCapped mode client rounds request cap >>= fun id =>
      Program.onExit (streamBlock mode rounds cap use leaves id) (close id)) .start =
      (.raised (y.responses id').statusError, y.closed id) :=
    (Program.bind_of_ok (streamCapped_of_ok hsent)).trans
      (Program.onExit_of_ended hblock (Program.Result.raised_ne_pending _) hclose)
  have hstream : stream mode client rounds cap request use leaves .start =
      (.raised (y.responses id').statusError, y.closed id) := by
    rw [stream_eq, Program.catching_of_raised hopened]
    rfl
  have hbuffer : readCappedAndClose mode rounds id cap x = (.ok id', y.closed id) :=
    Program.onExit_of_ended hread (Program.Result.ok_ne_pending id') hclose
  have hterminal : terminal mode client rounds cap request .start =
      (.raised (y.responses id').statusError, y.closed id) := by
    unfold terminal
    rw [Program.bind_of_ok (Program.catching_of_ok ((Program.bind_of_ok hsent).trans hbuffer)),
      ← hexc]
    exact Program.bind_of_raised hraise'.2
  exact hstream.trans (Program.bind_of_raised hterminal).symm

/-- Where the body has not ended yet, neither call has. -/
theorem stream_eq_of_pending {x y : Exchange} {use : Use} {leaves : Option Exc}
    (hsent : sendCapped mode client rounds request cap .start = (.ok id, x))
    (hstatus : (x.responses id).IsError)
    (hread : readCapped mode rounds id cap (x.responses id).request x = (.pending, y)) :
    stream mode client rounds cap request use leaves .start =
      CappedCall.terminal.run mode client rounds cap request .start := by
  have hblock : streamBlock mode rounds cap use leaves id x = (.pending, y) :=
    (streamBlock_of_isError hstatus).trans (Program.bind_of_pending hread)
  have hstream : stream mode client rounds cap request use leaves .start = (.pending, y) := by
    rw [stream_eq]
    apply Program.catching_of_pending
    rw [Program.bind_of_ok (streamCapped_of_ok hsent)]
    exact Program.onExit_of_pending hblock
  have hbuffer : readCappedAndClose mode rounds id cap x = (.pending, y) :=
    Program.onExit_of_pending hread
  have hterminal : terminal mode client rounds cap request .start = (.pending, y) :=
    Program.bind_of_pending
      (Program.catching_of_pending ((Program.bind_of_ok hsent).trans hbuffer))
  exact hstream.trans (Program.bind_of_pending hterminal).symm

/-- Any other response is left to the block and closed, and nothing else is done to it. -/
theorem stream_of_not_isError {id : ℕ} {x : Exchange}
    (hsent : sendCapped mode client rounds request cap .start = (.ok id, x))
    (herror : ¬ (x.responses id).IsError) :
    stream mode client rounds cap request use leaves .start =
      (leftBlock client leaves, x.set id { (x.responses id).use use with isClosed := true }) := by
  let y := x.set id ((x.responses id).use use)
  have hclose : close id y =
      (.ok (), x.set id { (x.responses id).use use with isClosed := true }) := by
    change (_, y.set id _) = _
    rw [show y.responses id = (x.responses id).use use from x.set_here id _, Exchange.set_set]
  have hblock : streamBlock mode rounds cap use leaves id x = leaveBlock leaves y :=
    streamBlock_of_not_isError herror
  rw [stream_eq]
  cases leaves with
  | none =>
    apply Program.catching_of_ok
    rw [Program.bind_of_ok (streamCapped_of_ok hsent)]
    exact Program.onExit_of_ended hblock (Program.Result.ok_ne_pending _) hclose
  | some e =>
    apply Program.catching_of_raised
    rw [Program.bind_of_ok (streamCapped_of_ok hsent)]
    exact Program.onExit_of_ended hblock (Program.Result.raised_ne_pending e) hclose

/-! ## What the driver returns -/

/-- Httpware has read nothing of a response. -/
structure StreamedResponse.Untouched (r : StreamedResponse) : Prop where
  pulled : r.pulled = 0
  content : ∀ content, r.content = some content → content.reader = .other
  capRead : r.capRead = false

/-- A change of what is none of these. -/
theorem keeps_untouched {f : StreamedResponse → StreamedResponse}
    (hf : ∀ r : StreamedResponse, r.Untouched → (f r).Untouched) :
    Program.Keeps (fun x => (x.responses id).Untouched) (update id f) := by
  refine .modify fun x hx => ?_
  rw [x.set_here]
  exact hf _ hx

/-- A response that is sent for is untouched. -/
theorem send_untouched (request : Request) :
    Triple (fun _ => True) (send client request)
      (Ends (fun id x => (x.responses id).Untouched) fun _ _ => True) := by
  unfold send
  refine Ends.get fun sent => ?_
  refine Ends.bind (Q := fun _ _ => True) (.modify fun _ _ => trivial) fun _ => ?_
  cases client.send sent.length request with
  | error e => exact .raise fun _ _ => trivial
  | ok received =>
    intro x _
    change ((x.set x.count _).responses x.count).Untouched
    rw [x.set_here]
    refine ⟨rfl, fun content hcontent => ?_, rfl⟩
    obtain ⟨data, -, rfl⟩ := Option.map_eq_some_iff.mp hcontent
    rfl

/-- So is the one that the redirects end with. -/
theorem sendRedirectHops_untouched (request : Request) (priorHistory : List ℕ) :
    Triple (fun _ => True) (sendRedirectHops client rounds request priorHistory cap)
      (Ends (fun id x => (x.responses id).Untouched) fun _ _ => True) := by
  refine Ends.loop (J := fun _ _ => True) (fun next => ?_) rounds _
  dsimp only
  split
  · exact .raise fun _ _ => trivial
  · refine Ends.bind (send_untouched next.1) fun id => ?_
    refine Ends.bind (Program.Keeps.ends_ok (keeps_untouched (f := fun r => { r with history := next.2 })
      fun _ hr => ⟨hr.pulled, hr.content, hr.capRead⟩)) fun _ => ?_
    refine Ends.get fun r => Triple.consequence (P := fun x => (x.responses id).Untouched) ?_
      (fun _ hx => hx.1) fun _ _ hx => hx
    cases r.nextRequest with
    | none => exact .pure fun _ hx => hx
    | some nextRequest =>
      dsimp only
      split
      · exact .pure fun _ hx => hx
      · exact Ends.bind (Ends.any.consequence (fun _ _ => trivial) fun _ _ hx => hx) fun _ =>
          .pure fun _ _ => trivial

/-- What the program outside does with a response is its own. -/
theorem StreamedResponse.Untouched.use {r : StreamedResponse} (h : r.Untouched) (use : Use) :
    (r.use use).Untouched := by
  unfold StreamedResponse.use
  split_ifs
  · refine ⟨h.pulled, fun content hcontent => ?_, h.capRead⟩
    obtain ⟨data, -, rfl⟩ := Option.map_eq_some_iff.mp hcontent
    rfl
  · exact ⟨h.pulled, h.content, h.capRead⟩

/-- So is one that the auth flow stops with. -/
theorem answer_untouched (auth : Auth) (history : List ℕ) :
    Triple (fun x => (x.responses id).Untouched) (answer auth rounds cap history id)
      (Ends (Sum.elim (fun id x => (x.responses id).Untouched) fun _ _ => True) fun _ _ => True) := by
  have hresume : Program.Keeps (fun x => (x.responses id).Untouched) (resume auth (some id)) := by
    refine Program.Keeps.bind .get fun n => Program.Keeps.bind (.modify fun x hx => hx) fun _ => ?_
    exact (keeps_untouched fun _ hr => hr.use _).bind fun _ => .pure
  refine Ends.bind hresume.ends_ok fun resumed => ?_
  cases resumed with
  | stops => exact .pure fun _ hx => hx
  | raises e => exact Ends.bind Ends.any fun _ => .raise fun _ _ => trivial
  | yields next => exact Ends.bind Ends.any fun _ => Ends.bind Ends.any fun _ => .pure fun _ _ => trivial

/-- So is what the driver returns, for an auth that wants no body. -/
theorem sendCapped_untouched (hauth : (requestAuth client request).requiresResponseBody = false) :
    Triple (fun _ => True) (sendCapped mode client rounds request cap)
      (Ends (fun id x => (x.responses id).Untouched) fun _ _ => True) := by
  rw [sendCapped_eq]
  refine Ends.onExit (Q := fun id x => (x.responses id).Untouched) (E := fun _ _ => True) ?_
    (fun id => .modify fun x hx => hx) fun e => .modify fun _ _ => trivial
  refine Ends.bind Ends.any fun resumed => ?_
  cases resumed with
  | stops => exact .raise fun _ _ => trivial
  | raises e => exact .raise fun _ _ => trivial
  | yields first =>
    refine Ends.loop (J := fun _ _ => True) (fun next => ?_) rounds _
    refine Ends.bind (sendRedirectHops_untouched next.1 next.2) fun id => ?_
    unfold handOver
    rw [hauth, if_neg Bool.false_ne_true]
    exact answer_untouched _ next.2

/-- The terminal and `stream()` run the same driver. Where it raises, both raise the same, unless the
exception would stop an iteration: then it is a `RuntimeError` that leaves the generator of `stream()`.
Where it returns a response with an error status, they do the same and raise the same: the error's body is
buffered under the cap by both. On any other response the terminal goes on to buffer the body, and
`stream()` leaves it to its block, as the driver returned it, which is untouched for an auth that wants no
body: what `stream()` does by itself is to close the response. -/
theorem stream_spec (mode : Mode) (client : Client) (rounds cap : ℕ) (request : Request) (use : Use)
    (leaves : Option Exc) :
    (∀ e x, sendCapped mode client rounds request cap .start = (.raised e, x) →
      CappedCall.terminal.run mode client rounds cap request .start =
          (.raised (mapException client e), x) ∧
        stream mode client rounds cap request use leaves .start =
          (.raised (mapException client (leaveGenerator mode client e)), x)) ∧
    (∀ id x, sendCapped mode client rounds request cap .start = (.ok id, x) →
      (x.responses id).IsError →
        stream mode client rounds cap request use leaves .start =
          CappedCall.terminal.run mode client rounds cap request .start) ∧
    (∀ x, sendCapped mode client rounds request cap .start = (.pending, x) →
      stream mode client rounds cap request use leaves .start =
        CappedCall.terminal.run mode client rounds cap request .start) ∧
    ∀ id x, sendCapped mode client rounds request cap .start = (.ok id, x) →
      ¬ (x.responses id).IsError →
        ((requestAuth client request).requiresResponseBody = false → (x.responses id).Untouched) ∧
        stream mode client rounds cap request use leaves .start =
          (leftBlock client leaves,
            x.set id { (x.responses id).use use with isClosed := true }) := by
  refine ⟨fun e x hsent => ?_, fun id x hsent hstatus => ?_, fun x hsent => ?_,
    fun id x hsent herror => ?_⟩
  · have hterminal : terminal mode client rounds cap request .start =
        (.raised (mapException client e), x) :=
      Program.bind_of_raised (Program.catching_of_raised (Program.bind_of_raised hsent))
    have hopened : streamCapped mode client rounds request cap .start =
        (.raised (leaveGenerator mode client e), x) := Program.catching_of_raised hsent
    exact ⟨Program.bind_of_raised hterminal,
      Program.catching_of_raised (Program.bind_of_raised hopened)⟩
  · cases hread : readCapped mode rounds id cap (x.responses id).request x with
    | mk result y =>
      cases result with
      | ok id' => exact stream_eq_of_ok hsent hstatus hread
      | raised e => exact stream_eq_of_raised hsent hstatus hread
      | pending => exact stream_eq_of_pending hsent hstatus hread
  · have hterminal : terminal mode client rounds cap request .start = (.pending, x) :=
      Program.bind_of_pending (Program.catching_of_pending (Program.bind_of_pending hsent))
    have hopened : streamCapped mode client rounds request cap .start = (.pending, x) :=
      Program.catching_of_pending hsent
    have hstream : stream mode client rounds cap request use leaves .start = (.pending, x) :=
      Program.catching_of_pending (Program.bind_of_pending hopened)
    exact hstream.trans (Program.bind_of_pending hterminal).symm
  · exact ⟨fun hauth => Ends.of_ok (sendCapped_untouched hauth) trivial hsent,
      stream_of_not_isError hsent herror⟩

end Stream

/-- The reply of that server raises the same under `with client.stream(...)`, whose block would fail. -/
theorem stream_spec_unknown :
    stream .sync unknown 5 10 (requestOf "GET") {} (some (.other "ValueError")) .start =
      CappedCall.terminal.run .sync unknown 5 10 (requestOf "GET") .start := by
  have hcode : (sendCapped .sync unknown 5 (requestOf "GET") 10 .start).1.toOption.map
      (fun id => ((sendCapped .sync unknown 5 (requestOf "GET") 10 .start).2.responses id).statusCode) =
        some 404 := by decide +kernel
  generalize hsent : sendCapped .sync unknown 5 (requestOf "GET") 10 .start = after at hcode
  obtain ⟨result, x⟩ := after
  cases result with
  | ok id =>
    have hstatus : (x.responses id).statusCode = 404 := Option.some.inj hcode
    apply (stream_spec .sync unknown 5 10 (requestOf "GET") {} (some (.other "ValueError"))).2.1 id x hsent
    unfold StreamedResponse.IsError
    omega
  | raised _ => cases hcode
  | pending => cases hcode

end Httpware.BodyCap
