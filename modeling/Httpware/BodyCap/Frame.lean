import Httpware.BodyCap.Loops

/-!
# What reading leaves alone

The functions that buffer or discard a body change the response that they read, and never what the
transport handed over, the request, or the history; and they make a response only by rebuilding one.
`Framed` is what an invariant needs for all of them to keep it. The driver's two loops are here as
loops of a named round (`redirectHop` and `authStep`), and `ofBuffered` follows the object that
buffering gives back.
-/

namespace Httpware.BodyCap

open Program (Triple Keeps Ends)

/-- What reading a response, closing it, or using it does to it. -/
structure Touches (f : StreamedResponse → StreamedResponse) : Prop where
  received : ∀ r, (f r).toReceived = r.toReceived
  request : ∀ r, (f r).request = r.request
  history : ∀ r, (f r).history = r.history
  closed : ∀ r, r.isClosed = true → (f r).isClosed = true
  /-- A response that is not consumed has not been read. -/
  unread : ∀ r, (f r).isStreamConsumed = false → r.isStreamConsumed = false ∧ (f r).pulled = r.pulled

/-- An invariant that every change of a response by reading keeps, and every response object that is
rebuilt from it. -/
structure Framed (id : ℕ) (I : Exchange → Prop) : Prop where
  touched : ∀ {f}, Touches f → Keeps I (update id f)
  rebuilt : ∀ {x r}, I x → r.isClosed = true → r.history = (x.responses id).history →
    I { x.set x.count r with count := x.count + 1 }

/-- A fact that is not about the exchange is kept as well. -/
theorem Framed.and {id : ℕ} {I : Exchange → Prop} (hI : Framed id I) (p : Prop) :
    Framed id fun x => p ∧ I x :=
  ⟨fun hf x hx => ⟨hx.1, hI.touched hf x hx.2⟩, fun hx hr hh => ⟨hx.1, hI.rebuilt hx.2 hr hh⟩⟩

/-! ## The steps -/

theorem touches_close : Touches fun r => { r with isClosed := true } :=
  ⟨fun _ => rfl, fun _ => rfl, fun _ => rfl, fun _ _ => rfl, fun _ h => ⟨h, rfl⟩⟩

theorem touches_capRead : Touches fun r => { r with capRead := true } :=
  ⟨fun _ => rfl, fun _ => rfl, fun _ => rfl, fun _ h => h, fun _ h => ⟨h, rfl⟩⟩

theorem touches_stream (stream : StreamedResponse → Stream) :
    Touches fun r => { r with stream := stream r } :=
  ⟨fun _ => rfl, fun _ => rfl, fun _ => rfl, fun _ h => h, fun _ h => ⟨h, rfl⟩⟩

theorem touches_content (content : Option Content) : Touches fun r => { r with content } :=
  ⟨fun _ => rfl, fun _ => rfl, fun _ => rfl, fun _ h => h, fun _ h => ⟨h, rfl⟩⟩

theorem touches_afterLoop (pulled : ℕ) (exhausted : Bool) :
    Touches fun r => r.consumed.afterLoop pulled exhausted :=
  ⟨fun _ => rfl, fun _ => rfl, fun _ => rfl, fun _ h => by simp [StreamedResponse.afterLoop, h],
    fun _ (h : true = false) => Bool.noConfusion h⟩

/-- The program outside httpware changes no more. -/
theorem touches_use (use : Use) : Touches fun r => r.use use := by
  refine ⟨fun r => ?_, fun r => ?_, fun r => ?_, fun r h => ?_, fun r h => ?_⟩
  · unfold StreamedResponse.use
    split_ifs <;> rfl
  · unfold StreamedResponse.use
    split_ifs <;> rfl
  · unfold StreamedResponse.use
    split_ifs <;> rfl
  · unfold StreamedResponse.use
    split_ifs <;> simp [h]
  · unfold StreamedResponse.use at h ⊢
    split_ifs at h ⊢
    exact ⟨h, rfl⟩

/-! ## Reading -/

section Read

variable {I : Exchange → Prop} {id rounds cap : ℕ} (hI : Framed id I)
include hI

theorem Framed.keeps_close : Keeps I (close id) := hI.touched touches_close

theorem Framed.keeps_iterBytes {β : Type} (b : β) (body : β → Bytes → Step β) :
    Keeps I (iterBytes rounds id b body) := by
  intro x hx
  rcases iterBytes_frame b body x with h | ⟨pulled, exhausted, h⟩
  · rw [h]
    exact hx
  · rw [h]
    exact hI.touched (touches_afterLoop pulled exhausted) x hx

theorem Framed.keeps_read : Keeps I (read rounds id) := by
  unfold read
  refine Keeps.bind .get fun r => ?_
  split
  · exact .pure
  · exact (hI.keeps_iterBytes _ _).bind fun _ => hI.touched (touches_content _)

theorem Framed.keeps_discardWithinCap : Keeps I (discardWithinCap rounds id cap) := by
  unfold discardWithinCap
  refine Keeps.bind .get fun r => ?_
  split_ifs
  · exact (hI.keeps_iterBytes _ _).bind fun _ => .pure
  · exact .pure

theorem Framed.keeps_discardAndClose : Keeps I (discardAndClose rounds id cap) := by
  refine Keeps.onExit (Keeps.bind .get fun r => ?_) hI.keeps_close
  split_ifs
  · exact .pure
  · exact hI.keeps_discardWithinCap

/-- A response that is rebuilt from its content. -/
theorem Framed.keeps_rebuild (content : Bytes) (request : Request) :
    Keeps I (do
      close id
      let r ← response id
      new (buildBufferedResponse r content request)) := by
  refine hI.keeps_close.bind fun _ x hx => ?_
  exact hI.rebuilt hx rfl rfl

theorem Framed.keeps_readThroughCappedStream (contentLength : Option ℤ) :
    Keeps I (readThroughCappedStream rounds id cap contentLength) := by
  unfold readThroughCappedStream
  refine (hI.touched (touches_stream _)).bind fun _ => ?_
  exact (hI.keeps_read.onRaise hI.keeps_close).bind fun _ => .pure

theorem Framed.keeps_accumulateCapped : Keeps I (accumulateCapped rounds id cap) :=
  hI.keeps_iterBytes _ _

theorem Framed.keeps_readCapped (mode : Mode) (request : Request) :
    Keeps I (readCapped mode rounds id cap request) := by
  unfold readCapped
  refine (hI.touched touches_capRead).bind fun _ => Keeps.bind .get fun r => ?_
  split_ifs
  · refine (keeps_reject r cap).bind fun contentLength => ?_
    exact hI.keeps_readThroughCappedStream contentLength
  · refine (keeps_reject r cap).bind fun contentLength => ?_
    cases mode with
    | sync =>
      refine Keeps.bind .get fun r => Keeps.bind ?_ fun content => hI.keeps_rebuild content request
      refine hI.keeps_accumulateCapped.catching fun e => ?_
      split
      · exact .raise
      · exact .raise
    | async =>
      refine Keeps.bind .get fun r => ?_
      exact (hI.keeps_iterBytes _ _).bind fun content => hI.keeps_rebuild content request
  · exact hI.keeps_read.bind fun _ => .pure

theorem Framed.keeps_readCappedAndClose (mode : Mode) :
    Keeps I (readCappedAndClose mode rounds id cap) :=
  Keeps.onExit (Keeps.bind .get fun r => hI.keeps_readCapped mode r.request) hI.keeps_close

end Read

/-! ## The object that buffering gives back -/

section Buffered

variable {I : Exchange → Prop} {id rounds cap : ℕ}

/-- A response that was received stays one. -/
theorem Framed.received (hI : Framed id I) (d : ℕ) : Framed id fun x => I x ∧ d < x.count := by
  exact ⟨fun hf x hx => ⟨hI.touched hf x hx.1, hx.2⟩, fun hx hr hh =>
    ⟨hI.rebuilt hx.1 hr hh, Nat.lt_succ_of_lt hx.2⟩⟩

/-- An object that was received, with the history of the response, and closed where it is another
one. -/
structure OfBuffered (id id' : ℕ) (x : Exchange) : Prop where
  received : id' < x.count
  history : (x.responses id').history = (x.responses id).history
  closed : id' ≠ id → (x.responses id').isClosed = true

/-- Where an invariant is kept, it is kept with the object that is given back. -/
theorem Framed.buffered_of_keeps (hI : Framed id I) {p : Call Unit}
    (h : ∀ {J}, Framed id J → Keeps J p) :
    Triple (fun x => I x ∧ id < x.count) (do p; return id)
      (Ends (fun id' x => I x ∧ OfBuffered id id' x) fun _ => I) := by
  refine Ends.bind (Q := fun _ x => I x ∧ id < x.count) ?_ fun _ => ?_
  · exact Ends.mono (h (hI.received id)).ends (fun _ hx => hx) (fun _ _ hx => hx) fun _ _ hx => hx.1
  · exact .pure fun _ hx => ⟨hx.1, hx.2, rfl, absurd rfl⟩

/-- The response that is rebuilt has the history of the one that was read. -/
theorem Framed.rebuild_buffered (hI : Framed id I) (content : Bytes) (request : Request) :
    Triple (fun x => I x ∧ id < x.count)
      (do
        close id
        let r ← response id
        new (buildBufferedResponse r content request))
      (Ends (fun id' x => I x ∧ OfBuffered id id' x) fun _ => I) := by
  refine Ends.bind (Q := fun _ x => I x ∧ id < x.count) ?_ fun _ => Ends.get fun r => ?_
  · exact Ends.mono (hI.received id).keeps_close.ends (fun _ hx => hx) (fun _ _ hx => hx)
      fun _ _ hx => hx.1
  · rintro x ⟨⟨hx, hid⟩, rfl⟩
    refine ⟨hI.rebuilt hx rfl rfl, Nat.lt_succ_self x.count, ?_, fun _ => ?_⟩
    · change ((x.set x.count _).responses x.count).history = ((x.set x.count _).responses id).history
      rw [x.set_here, x.set_other hid.ne]
      rfl
    · change ((x.set x.count _).responses x.count).isClosed = true
      rw [x.set_here]
      rfl

/-- Buffering gives back an object with the history of the response, the response itself or another
one. -/
theorem Framed.readCapped_buffered (hI : Framed id I) (mode : Mode) (request : Request) :
    Triple (fun x => I x ∧ id < x.count) (readCapped mode rounds id cap request)
      (Ends (fun id' x => I x ∧ OfBuffered id id' x) fun _ => I) := by
  have hI' := hI.received id
  have hframed : ∀ {α : Type} {p : Call α}, Keeps (fun x => I x ∧ id < x.count) p →
      Triple (fun x => I x ∧ id < x.count) p
        (Ends (fun _ x => I x ∧ id < x.count) fun _ => I) := fun h =>
    Ends.mono h.ends (fun _ hx => hx) (fun _ _ hx => hx) fun _ _ hx => hx.1
  unfold readCapped
  refine Ends.bind (hframed (hI'.touched touches_capRead)) fun _ => Ends.get fun r =>
    Triple.consequence (P := fun x => I x ∧ id < x.count) ?_ (fun _ hx => hx.1) fun _ _ hx => hx
  split_ifs
  · refine Ends.bind (hframed (keeps_reject r cap)) fun contentLength => ?_
    unfold readThroughCappedStream
    refine Ends.bind (hframed (hI'.touched (touches_stream _))) fun _ => ?_
    exact hI.buffered_of_keeps fun hJ => hJ.keeps_read.onRaise hJ.keeps_close
  · refine Ends.bind (hframed (keeps_reject r cap)) fun contentLength => ?_
    cases mode with
    | sync =>
      refine Ends.bind (hframed .get) fun r => Ends.bind (hframed ?_) fun content =>
        hI.rebuild_buffered content request
      refine hI'.keeps_accumulateCapped.catching fun e => ?_
      split
      · exact .raise
      · exact .raise
    | async =>
      refine Ends.bind (hframed .get) fun r => ?_
      exact Ends.bind (hframed (hI'.keeps_iterBytes _ _)) fun content =>
        hI.rebuild_buffered content request
  · exact hI.buffered_of_keeps fun hJ => hJ.keeps_read

/-- The same, and the object is closed. -/
theorem Framed.readCappedAndClose_buffered (hI : Framed id I) (mode : Mode) :
    Triple (fun x => I x ∧ id < x.count) (readCappedAndClose mode rounds id cap)
      (Ends (fun id' x => I x ∧ OfBuffered id id' x ∧ (x.responses id').isClosed = true)
        fun _ => I) := by
  unfold readCappedAndClose
  refine Ends.onExit (Q := fun id' x => I x ∧ OfBuffered id id' x) (E := fun _ => I)
    (Ends.get fun r => ?_) (fun id' => ?_) fun _ => ?_
  · exact (hI.readCapped_buffered mode r.request).consequence (fun _ hx => hx.1) fun _ _ hx => hx
  · rintro x ⟨hx, hid, hhistory, hclosed⟩
    have hkeeps := hI.keeps_close x hx
    by_cases hne : id' = id
    · subst hne
      have hnow : ((x.set id' { x.responses id' with isClosed := true }).responses id').isClosed =
          true := by rw [x.set_here]
      exact ⟨hkeeps, ⟨hid, rfl, fun _ => hnow⟩, hnow⟩
    · have hother : (x.set id { x.responses id with isClosed := true }).responses id' =
          x.responses id' := x.set_other hne _
      refine ⟨hkeeps, ⟨hid, ?_, fun _ => ?_⟩, ?_⟩
      · change ((x.set id _).responses id').history = ((x.set id _).responses id).history
        rw [hother, x.set_here]
        exact hhistory
      · exact (congrArg StreamedResponse.isClosed hother).trans (hclosed hne)
      · exact (congrArg StreamedResponse.isClosed hother).trans (hclosed hne)
  · exact hI.keeps_close

end Buffered

/-! ## The rounds of the driver -/

/-- A round of `_send_redirect_hops`. -/
def redirectHop (client : Client) (rounds cap : ℕ) :
    Request × List ℕ → Call (ℕ ⊕ Request × List ℕ) :=
  fun (request, hops) => do
    if (hops.length : ℤ) > client.maxRedirects then .raise (.httpx2 .tooManyRedirects)
    else
      let id ← send client request
      setHistory id hops
      let r ← response id
      match r.nextRequest with
      | none => return .inl id
      | some nextRequest =>
        if ¬ client.followRedirects then return .inl id
        else
          discardAndClose rounds id cap
          return .inr (nextRequest, hops ++ [id])

theorem sendRedirectHops_eq (client : Client) (rounds : ℕ) (request : Request)
    (priorHistory : List ℕ) (cap : ℕ) :
    sendRedirectHops client rounds request priorHistory cap =
      Program.loop (redirectHop client rounds cap) rounds (request, priorHistory) := rfl

/-- The response that the auth flow is sent: buffered, where the flow reads the body. -/
def handOver (mode : Mode) (auth : Auth) (rounds id cap : ℕ) : Call ℕ :=
  if auth.requiresResponseBody then readCappedAndClose mode rounds id cap else pure id

/-- The end of a round of `_send_capped`: the flow is resumed with a response. -/
def answer (auth : Auth) (rounds cap : ℕ) (history : List ℕ) (id : ℕ) :
    Call (ℕ ⊕ Request × List ℕ) := do
  match ← resume auth (some id) with
  | .stops => return .inl id
  | .raises e =>
    close id
    .raise e
  | .yields nextRequest =>
    discardAndClose rounds id cap
    setHistory id history
    return .inr (nextRequest, history ++ [id])

/-- A round of `_send_capped`. -/
def authStep (mode : Mode) (client : Client) (auth : Auth) (rounds cap : ℕ) :
    Request × List ℕ → Call (ℕ ⊕ Request × List ℕ) :=
  fun (request, history) => do
    let id ← sendRedirectHops client rounds request history cap
    let id ← handOver mode auth rounds id cap
    answer auth rounds cap history id

theorem sendCapped_eq (mode : Mode) (client : Client) (rounds : ℕ) (request : Request) (cap : ℕ) :
    sendCapped mode client rounds request cap =
      Program.onExit
        (do
          match ← resume (requestAuth client request) none with
          | .stops => .raise (.other (stopIteration mode))
          | .raises e => .raise e
          | .yields first =>
            Program.loop (authStep mode client (requestAuth client request) rounds cap) rounds
              (first, []))
        (Program.modify fun x => { x with flowClosed := true }) := rfl

end Httpware.BodyCap
