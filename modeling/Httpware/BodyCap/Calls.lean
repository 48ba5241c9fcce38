import Httpware.BodyCap.Bounded

/-!
# Every call is bounded

The driver of redirects and of the auth flow, the terminal and `stream()` are made of the reads of
`Bounded.lean` and of steps that read nothing, so each keeps `Bounded`, whatever the server and the
flow do, and so `body_capped`. A reply that may have no body is the exception: `readCapped_bypasses`
shows that one whose body passes the cap is read past it, and `body_cap_bypassed` is a call in which
that happens.
-/

namespace Httpware.BodyCap

variable {cap : ℕ}

/-! ## Steps of the driver -/

/-- A response object as the transport hands it over. -/
theorem keeps_send (client : Client) (request : Request) :
    Program.Keeps (Bounded cap) (send client request) := by
  unfold send
  refine Program.Keeps.bind .get fun sent => Program.Keeps.bind ?_ fun _ => ?_
  · exact .modify fun _ hx => hx
  · split
    · exact .raise
    · refine keeps_new (.of_unread rfl fun content hcontent hreader => ?_)
      obtain ⟨data, -, rfl⟩ := Option.map_eq_some_iff.mp hcontent
      cases hreader

/-- A resumption of the auth flow. -/
theorem keeps_resume (auth : Auth) (sent : Option ℕ) :
    Program.Keeps (Bounded cap) (resume auth sent) := by
  unfold resume
  refine Program.Keeps.bind .get fun n => Program.Keeps.bind ?_ fun _ => ?_
  · exact .modify fun _ hx => hx
  · cases sent with
    | none => exact .pure
    | some id => exact (keeps_use id (auth.flow n).use).bind fun _ => .pure

/-- Buffering a body for its own request. -/
theorem keeps_readCapped (mode : Mode) (rounds : ℕ) (id : ℕ) :
    Program.Keeps (Bounded cap) (do
      let r ← response id
      readCapped mode rounds id cap r.request) :=
  fun x hx => readCapped_spec mode _ x ⟨hx, rfl⟩

theorem keeps_readCappedAndClose (mode : Mode) (rounds : ℕ) (id : ℕ) :
    Program.Keeps (Bounded cap) (readCappedAndClose mode rounds id cap) :=
  (keeps_readCapped mode rounds id).onExit (keeps_close id)

theorem keeps_discardAndClose (rounds : ℕ) (id : ℕ) :
    Program.Keeps (Bounded cap) (discardAndClose rounds id cap) := by
  refine Program.Keeps.onExit (Program.Keeps.bind .get fun r => ?_) (keeps_close id)
  split_ifs
  · exact .pure
  · exact keeps_discardWithinCap id rounds

/-- The redirects. -/
theorem keeps_sendRedirectHops (client : Client) (rounds : ℕ) (request : Request)
    (priorHistory : List ℕ) :
    Program.Keeps (Bounded cap) (sendRedirectHops client rounds request priorHistory cap) := by
  unfold sendRedirectHops
  refine Program.Keeps.loop (fun ⟨request, hops⟩ => ?_) rounds _
  dsimp only
  split
  · exact .raise
  · refine (keeps_send client request).bind fun id => ?_
    refine (keeps_setHistory id hops).bind fun _ => Program.Keeps.bind .get fun r => ?_
    split
    · exact .pure
    · split
      · exact .pure
      · exact (keeps_discardAndClose rounds id).bind fun _ => .pure

/-- The auth flow, with the redirects of each of its requests. -/
theorem keeps_sendCapped (mode : Mode) (client : Client) (rounds : ℕ) (request : Request) :
    Program.Keeps (Bounded cap) (sendCapped mode client rounds request cap) := by
  unfold sendCapped
  refine Program.Keeps.onExit ?_ (.modify fun _ hx => hx)
  refine (keeps_resume _ none).bind fun resumed => ?_
  cases resumed with
  | stops => exact .raise
  | raises e => exact .raise
  | yields request =>
    refine Program.Keeps.loop (fun ⟨request, history⟩ => ?_) rounds _
    refine (keeps_sendRedirectHops client rounds request history).bind fun id => ?_
    refine Program.Keeps.bind ?_ fun id => (keeps_resume _ (some id)).bind fun resumed => ?_
    · split_ifs
      · exact keeps_readCappedAndClose mode rounds id
      · exact .pure
    · cases resumed with
      | stops => exact .pure
      | raises e => exact (keeps_close id).bind fun _ => .raise
      | yields next =>
        refine (keeps_discardAndClose rounds id).bind fun _ => ?_
        exact (keeps_setHistory id history).bind fun _ => .pure

/-- The terminal of the middleware chain. -/
theorem keeps_terminal (mode : Mode) (client : Client) (rounds : ℕ) (request : Request) :
    Program.Keeps (Bounded cap) (terminal mode client rounds cap request) := by
  unfold terminal
  refine Program.Keeps.bind ?_ fun id => (keeps_raiseOnStatus id).bind fun _ => .pure
  refine Program.Keeps.catching ?_ fun _ => .raise
  exact (keeps_sendCapped mode client rounds request).bind fun streaming =>
    keeps_readCappedAndClose mode rounds streaming

/-- `stream()`. -/
theorem keeps_stream (mode : Mode) (client : Client) (rounds : ℕ) (request : Request) (use : Use)
    (leaves : Option Exc) :
    Program.Keeps (Bounded cap) (stream mode client rounds cap request use leaves) := by
  unfold stream
  refine Program.Keeps.catching ?_ fun _ => .raise
  refine Program.Keeps.bind ?_ fun id => ?_
  · exact (keeps_sendCapped mode client rounds request).catching fun _ => .raise
  refine Program.Keeps.onExit ?_ (keeps_close id)
  have hblock : Program.Keeps (Bounded cap) (do
      update id fun r => r.use use
      leaveBlock leaves) := by
    refine (keeps_use id use).bind fun _ => ?_
    cases leaves with
    | some e => exact .raise
    | none => exact .pure
  refine triple_response fun r => ?_
  dsimp only
  split_ifs
  · have hread : Program.Triple (fun x => Bounded cap x ∧ x.responses id = r)
        (readCapped mode rounds id cap r.request) fun _ => Bounded cap :=
      fun x hx => readCapped_spec mode _ x ⟨hx.1, congrArg StreamedResponse.request hx.2⟩
    refine Program.Triple.bind hread (fun buffered => ?_) (fun _ _ hx => hx) fun _ hx => hx
    exact (keeps_raiseOnStatus buffered).bind fun _ => hblock
  · exact Program.Triple.consequence hblock (fun _ hx => hx.1) fun _ _ hx => hx

/-! ## Past the cap -/

section Past

variable {id n : ℕ} {r : StreamedResponse}

/-- More than `n` chunks of a response have been pulled. -/
def Past (id n : ℕ) (r : StreamedResponse) (x : Exchange) : Prop :=
  n < (x.responses id).pulled ∧ (x.responses id).chunks = r.chunks

/-- A change that leaves the chunks, and does not take back a `next`. -/
theorem keeps_past {f : StreamedResponse → StreamedResponse}
    (hpulled : ∀ r, r.pulled ≤ (f r).pulled) (hchunks : ∀ r, (f r).chunks = r.chunks) :
    Program.Keeps (Past id n r) (update id f) := by
  refine Program.Keeps.modify fun x hx => ?_
  unfold Past
  rw [x.set_here, hchunks]
  exact ⟨lt_of_lt_of_le hx.1 (hpulled _), hx.2⟩

/-- A round asks for a chunk. -/
theorem pullRound_past {β : Type} (body : β → Chunk → Step β) (b : β) :
    Program.Triple
      (fun x => n ≤ (x.responses id).pulled ∧ (x.responses id).chunks = r.chunks)
      (pullRound id body b) fun _ => Past id n r := by
  have hpull : Program.Triple
      (fun x => n ≤ (x.responses id).pulled ∧ (x.responses id).chunks = r.chunks)
      (pull id) fun _ => Past id n r := by
    intro x hx
    unfold Past
    rw [pull_eq, x.set_here]
    exact ⟨Nat.lt_succ_of_le hx.1, hx.2⟩
  have hclose : Program.Keeps (Past id n r) (close id) :=
    keeps_past (fun _ => le_rfl) fun _ => rfl
  refine hpull.bind (fun p => ?_) (fun _ _ hx => hx) fun _ hx => hx
  cases p with
  | stop => exact hclose.bind fun _ => .pure
  | raised e => exact .raise fun _ hx => hx
  | chunk c =>
    dsimp only
    cases body b c with
    | next b' => exact .pure fun _ hx => hx
    | done b' => exact .pure fun _ hx => hx
    | raise e => exact .raise fun _ hx => hx

/-- A loop that never ends by itself pulls the chunks that there are, and asks for one more. -/
theorem forEachPull_past {β : Type} {body : β → Chunk → Step β}
    (hbody : ∀ b c, ∃ b', body b c = .next b') (hyields : r.Yields n) :
    ∀ rounds k b, k ≤ n → n < k + rounds →
      Program.Triple (fun x => (x.responses id).pulled = k ∧ (x.responses id).chunks = r.chunks)
        (forEachPull rounds id b body) fun _ => Past id n r := by
  intro rounds
  induction rounds with
  | zero => intro k b hk hn; omega
  | succ rounds ih =>
    intro k b hk hn
    rcases Nat.lt_or_eq_of_le hk with hlt | rfl
    · -- There is another chunk.
      have hround : Program.Triple
          (fun x => (x.responses id).pulled = k ∧ (x.responses id).chunks = r.chunks)
          (pullRound id body b) fun res x => (∃ b', res = .ok (.inr b')) ∧
            (x.responses id).pulled = k + 1 ∧ (x.responses id).chunks = r.chunks := by
        obtain ⟨c, hc⟩ := hyields k hlt
        obtain ⟨b', hb'⟩ := hbody b c
        have hpull : Program.Triple
            (fun x => (x.responses id).pulled = k ∧ (x.responses id).chunks = r.chunks)
            (pull id) fun res x => res = .ok (.chunk c) ∧
              (x.responses id).pulled = k + 1 ∧ (x.responses id).chunks = r.chunks := by
          rintro x ⟨hpulled, hchunks⟩
          rw [pull_eq, x.set_here, hpulled, hchunks, hc]
          exact ⟨rfl, rfl, rfl⟩
        refine hpull.bind (fun p => ?_) (fun _ _ hx => nomatch hx.1) fun _ hx => nomatch hx.1
        rintro x ⟨hp, hx⟩
        obtain rfl := Program.Result.ok.inj hp
        dsimp only
        rw [hb']
        exact ⟨⟨b', rfl⟩, hx⟩
      refine hround.bind (fun d => ?_) (fun _ _ hx => nomatch hx.1) fun _ hx => nomatch hx.1
      rintro x ⟨⟨b', hb'⟩, hx⟩
      obtain rfl := Program.Result.ok.inj hb'
      exact ih (k + 1) b' hlt (by omega) x hx
    · -- One more is asked for, and no `next` is taken back.
      have hkeeps : ∀ b, Program.Keeps (Past id k r) (pullRound id body b) := fun b =>
        (pullRound_past body b).consequence (fun x hx => ⟨hx.1.le, hx.2⟩) fun _ _ hx => hx
      refine Program.Triple.bind
        ((pullRound_past body b).consequence (fun x hx => ⟨hx.1.ge, hx.2⟩) fun _ _ hx => hx)
        (fun d => ?_) (fun _ _ hx => hx) fun _ hx => hx
      cases d with
      | inl b' => exact .pure fun _ hx => hx
      | inr b' => exact Program.Keeps.loop hkeeps rounds b'

/-- A response whose body is open, and has not been read. -/
structure Unread (r : StreamedResponse) : Prop where
  pulled : r.pulled = 0
  stream : r.stream = .transport
  content : r.content = none
  consumed : r.isStreamConsumed = false
  closed : r.isClosed = false

/-- A plain `read` of an open response pulls the chunks that there are, and asks for one more. -/
theorem read_past {rounds : ℕ} {x : Exchange} (hchunks : (x.responses id).chunks = r.chunks)
    (hopen : Unread (x.responses id)) (hyields : r.Yields n) (hrounds : n < rounds) :
    Past id n r (read rounds id x).2 := by
  have hiter : Past id n r
      (iterBytes rounds id [] (fun data chunk => .next (data ++ chunk)) x).2 := by
    rw [iterBytes, response_bind, hopen.content]
    dsimp only
    rw [hopen.consumed, hopen.closed, if_neg Bool.false_ne_true, if_neg Bool.false_ne_true,
      update_bind, hopen.stream]
    refine forEachPull_past (fun data c => ⟨_, decodedBody_append data c⟩) hyields rounds 0 []
      (Nat.zero_le n) (by omega) _ ?_
    dsimp only
    rw [x.set_here]
    exact ⟨hopen.pulled, hchunks⟩
  rw [read, response_bind, hopen.content]
  have hread : Program.Triple (fun y => y = x)
      (iterBytes rounds id [] (fun data chunk => .next (data ++ chunk)) >>= fun data =>
        update id fun r => { r with content := some ⟨data, .httpware⟩ }) fun _ => Past id n r := by
    refine Program.Triple.bind (R := fun _ => Past id n r) ?_ (fun data => ?_) (fun _ _ hx => hx)
      fun _ hx => hx
    · rintro y rfl
      exact hiter
    · exact keeps_past (fun _ => le_rfl) fun _ => rfl
  exact hread x rfl

/-- The condition of `body_capped` leaves out nothing else: a reply that may have no body, and whose
body passes the cap, is read past it whenever httpware buffers it. -/
theorem readCapped_bypasses {mode : Mode} {rounds cap : ℕ} {request : Request} {x : Exchange}
    (hopen : Unread (x.responses id))
    (hbody : responseHasBody request.method (x.responses id).statusCode = false)
    (hyields : (x.responses id).Yields n) (hlong : cap < ((x.responses id).decoded n).length)
    (hrounds : n < rounds) :
    ¬ ((readCapped mode rounds id cap request x).2.responses id).Capped cap := by
  let marked := { x.responses id with capRead := true }
  have hread : Past id n (x.responses id) (read rounds id (x.set id marked)).2 := by
    have hhere : (x.set id marked).responses id = marked := x.set_here id marked
    refine read_past ?_ ?_ hyields hrounds
    · rw [hhere]
    · rw [hhere]
      exact ⟨hopen.pulled, hopen.stream, hopen.content, hopen.consumed, hopen.closed⟩
  have hpast : Past id n (x.responses id) (readCapped mode rounds id cap request x).2 := by
    rw [readCapped, update_bind, response_bind, x.set_here]
    dsimp only
    rw [hbody, if_pos Bool.false_ne_true]
    have hreturn : Program.Triple (fun y => y = x.set id marked)
        (read rounds id >>= fun _ => pure id) fun _ => Past id n (x.responses id) := by
      refine Program.Triple.bind (R := fun _ => Past id n (x.responses id)) ?_
        (fun _ => .pure fun _ hx => hx) (fun _ _ hx => hx) fun _ hx => hx
      rintro y rfl
      exact hread
    exact hreturn _ rfl
  intro hcapped
  have hle := hcapped.pulls n hpast.1
  rw [StreamedResponse.decoded_of_chunks hpast.2] at hle
  omega

end Past

/-! ## The claim -/

/-- Httpware bounds what it reads of a response, whatever the server and the auth flow do and in
whatever order, unless it buffers a reply that may have no body and has one that passes the cap. -/
theorem body_capped (mode : Mode) (client : Client) (rounds : ℕ) (request : Request)
    (call : CappedCall) (id : ℕ)
    (h : ¬ ((call.run mode client rounds cap request .start).2.responses id).BypassesCap cap) :
    ((call.run mode client rounds cap request .start).2.responses id).Capped cap := by
  have hstart : Bounded cap .start := fun _ => .of_unread rfl nofun
  have hrun : Program.Keeps (Bounded cap) (call.run mode client rounds cap request) := by
    cases call with
    | terminal => exact (keeps_terminal mode client rounds request).bind fun _ => .pure
    | stream use leaves => exact keeps_stream mode client rounds request use leaves
  exact (hrun .start hstart id).capped h

/-- A client whose server replies to every request with one status and one sequence of chunks. -/
def repeating (statusCode : ℤ) (chunks : ℕ → Option Bytes) : Client where
  send _ _ := .ok
    { statusCode
      chunks := fun n =>
        match chunks n with
        | some data => .chunk ⟨data, data⟩
        | none => .stop
      identity := by
        intro _ n c hc
        cases h : chunks n with
        | none => simp [h] at hc
        | some data =>
          simp only [h, Pull.chunk.injEq] at hc
          rw [← hc] }

/-- A request of a method. -/
def requestOf (method : String) : Request where
  method
  url := ⟨"https", "example.com", none, "example.com", "https://example.com/"⟩

/-- An endless body of single bytes, under a cap of one byte: httpware asks for a second byte, and for
no other. -/
theorem body_capped_endless :
    ((CappedCall.terminal.run .sync (repeating 200 fun _ => some [0]) 5 1 (requestOf "GET")
      .start).2.responses 0).Capped 1 ∧
    ((CappedCall.terminal.run .sync (repeating 200 fun _ => some [0]) 5 1 (requestOf "GET")
      .start).2.responses 0).pulled = 2 := by
  refine ⟨body_capped .sync _ 5 _ .terminal 0 fun hbypass => ?_, by decide +kernel⟩
  have hbody : responseHasBody
      ((CappedCall.terminal.run .sync (repeating 200 fun _ => some [0]) 5 1 (requestOf "GET")
        .start).2.responses 0).request.method
      ((CappedCall.terminal.run .sync (repeating 200 fun _ => some [0]) 5 1 (requestOf "GET")
        .start).2.responses 0).statusCode = true := by decide +kernel
  rw [hbypass.2.1] at hbody
  cases hbody

/-- A reply with status 204 and a body of two bytes, under a cap of one byte: the terminal returns
it, with both bytes in memory. -/
theorem body_cap_bypassed :
    (terminal .sync (repeating 204 fun n => if n = 0 then some [1, 2] else none) 5 1
      (requestOf "GET") .start).1.toOption = some 0 ∧
    ¬ ((CappedCall.terminal.run .sync (repeating 204 fun n => if n = 0 then some [1, 2] else none)
      5 1 (requestOf "GET") .start).2.responses 0).Capped 1 := by
  refine ⟨by decide +kernel, fun hcapped => ?_⟩
  have hcontent : ((CappedCall.terminal.run .sync
      (repeating 204 fun n => if n = 0 then some [1, 2] else none) 5 1 (requestOf "GET")
      .start).2.responses 0).content = some ⟨[1, 2], .httpware⟩ := by decide +kernel
  have hle := hcapped.content _ hcontent rfl
  revert hle
  decide

end Httpware.BodyCap
