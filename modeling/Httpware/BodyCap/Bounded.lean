import Httpware.BodyCap.Send

/-!
# The cap bounds what is read

`Capped` says of one response that httpware asks for no further chunk once the decoded body is past the
cap, and that a body that it read into memory has at most as many bytes. It fails for the kind of
response that `BypassesCap` describes: a reply to HEAD, or one with status 204 or 304, whose body is
buffered with a plain `read`, which counts nothing.

Every loop over a body is one `Stream.forEach`, so `forEach_spec` is the only induction: while a loop
reads a response, the response differs from what it was in the number of chunks pulled (`During`),
and a relation between that number and the loop's variables gives the bound. What every other step
keeps is `Bounded`, of every response object, and `Calls.lean` shows that every call does.
-/

namespace Httpware.BodyCap

/-! ## What is claimed of a response -/

namespace StreamedResponse

/-- The decoded body after so many `next`s. -/
def decoded (r : StreamedResponse) : ℕ → Bytes
  | 0 => []
  | n + 1 => r.decoded n ++ (r.chunks n).decoded

/-- The body yields at least so many chunks. -/
def Yields (r : StreamedResponse) (n : ℕ) : Prop := ∀ m < n, ∃ c, r.chunks m = .chunk c

/-- The decoded body passes the cap. -/
def Overlong (r : StreamedResponse) (cap : ℕ) : Prop :=
  ∃ n, r.Yields n ∧ cap < (r.decoded n).length

/-- The response may have no body, has one that passes the cap, and is buffered. -/
def BypassesCap (r : StreamedResponse) (cap : ℕ) : Prop :=
  r.capRead = true ∧ responseHasBody r.request.method r.statusCode = false ∧ r.Overlong cap

/-- Httpware bounds what it reads of a response. -/
structure Capped (r : StreamedResponse) (cap : ℕ) : Prop where
  /-- Httpware asks for a chunk only while the decoded body is within the cap. -/
  pulls : ∀ n < r.pulled, (r.decoded n).length ≤ cap
  /-- A body that httpware read into memory is within the cap. -/
  content : ∀ content, r.content = some content → content.reader = .httpware →
    content.data.length ≤ cap

/-- The invariant of a response object. -/
structure Bounded (r : StreamedResponse) (cap : ℕ) : Prop where
  /-- Chunks are pulled by a read, which happens once. -/
  fresh : r.isStreamConsumed = false → r.pulled = 0
  capped : ¬ r.BypassesCap cap → r.Capped cap

variable {r r' : StreamedResponse} {cap : ℕ}

/-- The chunks determine the decoded body. -/
theorem decoded_of_chunks (h : r'.chunks = r.chunks) (n : ℕ) : r'.decoded n = r.decoded n := by
  induction n with
  | zero => rfl
  | succ n ih => rw [decoded, decoded, ih, h]

/-- Only some fields matter to `BypassesCap`. -/
theorem BypassesCap.of_fields (h : r.BypassesCap cap) (hchunks : r'.chunks = r.chunks)
    (hrequest : r'.request = r.request) (hstatus : r'.statusCode = r.statusCode)
    (hread : r.capRead = true → r'.capRead = true) : r'.BypassesCap cap := by
  obtain ⟨hcap, hbody, n, hyields, hn⟩ := h
  refine ⟨hread hcap, by rw [hrequest, hstatus]; exact hbody, n, fun m hm => ?_, ?_⟩
  · rw [hchunks]
    exact hyields m hm
  · rwa [decoded_of_chunks hchunks]

/-- Only some fields matter to `Bounded`. -/
theorem Bounded.of_fields (h : r.Bounded cap) (hchunks : r'.chunks = r.chunks)
    (hrequest : r'.request = r.request) (hstatus : r'.statusCode = r.statusCode)
    (hread : r.capRead = true → r'.capRead = true)
    (hconsumed : r'.isStreamConsumed = false → r.isStreamConsumed = false)
    (hpulled : r'.pulled = r.pulled)
    (hcontent : ∀ content, r'.content = some content → content.reader = .httpware →
      r.content = some content) : r'.Bounded cap := by
  refine ⟨fun hc => hpulled.trans (h.fresh (hconsumed hc)), fun hnot => ?_⟩
  have hcapped := h.capped fun hbypass => hnot (hbypass.of_fields hchunks hrequest hstatus hread)
  refine ⟨fun n hn => ?_, fun content hsome hreader => ?_⟩
  · rw [hpulled] at hn
    rw [decoded_of_chunks hchunks]
    exact hcapped.pulls n hn
  · exact hcapped.content content (hcontent content hsome hreader) hreader

/-- A response object after a read of `r`. -/
theorem Bounded.of_read (hconsumed : r'.isStreamConsumed = true) (hchunks : r'.chunks = r.chunks)
    (hrequest : r'.request = r.request) (hstatus : r'.statusCode = r.statusCode)
    (hread : r.capRead = true → r'.capRead = true)
    (hpulls : ¬ r.BypassesCap cap → ∀ n < r'.pulled, (r.decoded n).length ≤ cap)
    (hcontent : ¬ r.BypassesCap cap → ∀ content, r'.content = some content →
      content.reader = .httpware → content.data.length ≤ cap) : r'.Bounded cap := by
  refine ⟨fun hc => ?_, fun hnot => ?_⟩
  · rw [hconsumed] at hc
    cases hc
  · have hbefore : ¬ r.BypassesCap cap := fun hbypass =>
      hnot (hbypass.of_fields hchunks hrequest hstatus hread)
    refine ⟨fun n hn => ?_, hcontent hbefore⟩
    rw [decoded_of_chunks hchunks]
    exact hpulls hbefore n hn

/-- A response object that nobody has read from. -/
theorem Bounded.of_unread (hpulled : r.pulled = 0)
    (hcontent : ∀ content, r.content = some content → content.reader = .httpware →
      content.data.length ≤ cap) : r.Bounded cap where
  fresh _ := hpulled
  capped _ := ⟨fun n hn => absurd (hpulled ▸ hn) (Nat.not_lt_zero n), hcontent⟩

end StreamedResponse

/-- Every response object of an exchange is bounded. -/
def Bounded (cap : ℕ) (x : Exchange) : Prop := ∀ id, (x.responses id).Bounded cap

variable {cap : ℕ}

/-! ## Steps -/

/-- The object that was changed, and the others. -/
theorem Bounded.set {x : Exchange} {id : ℕ} {r : StreamedResponse}
    (hothers : ∀ d, d ≠ id → (x.responses d).Bounded cap) (hr : r.Bounded cap) :
    Bounded cap (x.set id r) := by
  intro d
  by_cases hd : d = id
  · subst hd
    rwa [x.set_here]
  · rw [x.set_other hd]
    exact hothers d hd

/-- A change that keeps every response object bounded. -/
theorem keeps_update {id : ℕ} {f : StreamedResponse → StreamedResponse}
    (h : ∀ r, r.Bounded cap → (f r).Bounded cap) : Program.Keeps (Bounded cap) (update id f) :=
  Program.Keeps.modify fun _ hx => Bounded.set (fun d _ => hx d) (h _ (hx id))

/-- `close` reads nothing. -/
theorem keeps_close (id : ℕ) : Program.Keeps (Bounded cap) (close id) :=
  keeps_update fun _ h =>
    h.of_fields rfl rfl rfl (fun hc => hc) (fun hc => hc) rfl fun _ hc _ => hc

/-- `response.history = history` reads nothing. -/
theorem keeps_setHistory (id : ℕ) (history : List ℕ) :
    Program.Keeps (Bounded cap) (setHistory id history) :=
  keeps_update fun _ h =>
    h.of_fields rfl rfl rfl (fun hc => hc) (fun hc => hc) rfl fun _ hc _ => hc

/-- What the program outside httpware reads does not count. -/
theorem keeps_use (id : ℕ) (use : Use) :
    Program.Keeps (Bounded cap) (update id fun r => r.use use) := by
  refine keeps_update fun r h => ?_
  unfold StreamedResponse.use
  split_ifs
  · refine h.of_fields rfl rfl rfl (fun hc => hc) nofun rfl fun content hc hreader => ?_
    obtain ⟨data, -, rfl⟩ := Option.map_eq_some_iff.mp hc
    cases hreader
  · exact h.of_fields rfl rfl rfl (fun hc => hc) (fun hc => hc) rfl fun _ hc _ => hc

/-- A new response object. -/
theorem keeps_new {r : StreamedResponse} (h : r.Bounded cap) :
    Program.Keeps (Bounded cap) (new r) := by
  refine Program.Keeps.bind .get fun id => Program.Keeps.bind ?_ fun _ => .pure
  exact .modify fun x hx => Bounded.set (x := { x with count := id + 1 }) (fun d _ => hx d) h

/-- A program that looks at a response object. -/
theorem triple_response {α : Type} {P : Exchange → Prop} {id : ℕ}
    {f : StreamedResponse → Call α} {Q : Program.Result Exc α → Exchange → Prop}
    (h : ∀ r, Program.Triple (fun x => P x ∧ x.responses id = r) (f r) Q) :
    Program.Triple P (response id >>= f) Q := fun x hx => h (x.responses id) x ⟨hx, rfl⟩

/-- A program that does the same whatever it sees there. -/
theorem triple_each_response {α : Type} {P : Exchange → Prop} {id : ℕ}
    {f : StreamedResponse → Call α} {Q : Program.Result Exc α → Exchange → Prop}
    (h : ∀ r, Program.Triple P (f r) Q) : Program.Triple P (response id >>= f) Q :=
  fun x hx => h (x.responses id) x hx

/-- A program that looks at a response object with a property. -/
theorem triple_response_of {α : Type} {P : StreamedResponse → Prop} {id : ℕ}
    {f : StreamedResponse → Call α} {Q : Program.Result Exc α → Exchange → Prop}
    (h : ∀ r, P r → Program.Triple (fun x => Bounded cap x ∧ x.responses id = r) (f r) Q) :
    Program.Triple (fun x => Bounded cap x ∧ P (x.responses id)) (response id >>= f) Q :=
  fun x hx => h (x.responses id) hx.2 x ⟨hx.1, rfl⟩

/-! ## Loops over a body -/

section Loop

variable {id : ℕ} {r₀ : StreamedResponse} {rounds : ℕ} {β : Type}

/-- While a loop reads the response `r₀`, `k` chunks have been pulled from it. -/
structure During (cap : ℕ) (id : ℕ) (r₀ : StreamedResponse) (k : ℕ) (x : Exchange) : Prop where
  here : x.responses id = { r₀ with pulled := k }
  others : ∀ d, d ≠ id → (x.responses d).Bounded cap
  pulls : ¬ r₀.BypassesCap cap → ∀ n < k, (r₀.decoded n).length ≤ cap

/-- After a loop over the response `r₀`. -/
structure After (cap : ℕ) (id : ℕ) (r₀ : StreamedResponse) (x : Exchange) : Prop where
  here : ∃ k closed, x.responses id = { r₀ with pulled := k, isClosed := closed } ∧
    (¬ r₀.BypassesCap cap → ∀ n < k, (r₀.decoded n).length ≤ cap)
  others : ∀ d, d ≠ id → (x.responses d).Bounded cap

/-- A loop can be over at any time. -/
theorem During.after {k : ℕ} {x : Exchange} (h : During cap id r₀ k x) : After cap id r₀ x :=
  ⟨⟨k, r₀.isClosed, h.here, h.pulls⟩, h.others⟩

/-- After a loop everything is bounded. -/
theorem After.bounded {x : Exchange} (h : After cap id r₀ x) (hconsumed : r₀.isStreamConsumed = true)
    (hcontent : r₀.content = none) : Bounded cap x := by
  intro d
  by_cases hd : d = id
  · subst hd
    obtain ⟨k, closed, hhere, hpulls⟩ := h.here
    rw [hhere]
    refine .of_read (r := r₀) hconsumed rfl rfl rfl (fun hc => hc) hpulls fun _ c hc => ?_
    cases hcontent.symm.trans hc
  · exact h.others d hd

/-- After a loop everything is bounded, with what it read in memory. -/
theorem After.bounded_of_read {x : Exchange} (h : After cap id r₀ x)
    (hconsumed : r₀.isStreamConsumed = true) {data : Bytes}
    (hdata : ¬ r₀.BypassesCap cap → data.length ≤ cap) :
    Bounded cap (x.set id { x.responses id with content := some ⟨data, .httpware⟩ }) := by
  obtain ⟨k, closed, hhere, hpulls⟩ := h.here
  rw [hhere]
  refine Bounded.set h.others (.of_read (r := r₀) hconsumed rfl rfl rfl (fun hc => hc) hpulls ?_)
  rintro hnot c hc -
  obtain rfl := Option.some.inj hc
  exact hdata hnot

/-- A `next`, on a body that is within the cap. -/
theorem pull_spec {k : ℕ} (hbound : ¬ r₀.BypassesCap cap → (r₀.decoded k).length ≤ cap) :
    Program.Triple (During cap id r₀ k) (pull id) fun r x =>
      r = .ok (r₀.chunks k) ∧ During cap id r₀ (k + 1) x := by
  intro x hx
  rw [pull_eq, hx.here]
  refine ⟨rfl, x.set_here id _, fun d hd => ?_, fun hnot n hn => ?_⟩
  · rw [x.set_other hd]
    exact hx.others d hd
  · rcases Nat.lt_succ_iff_lt_or_eq.mp hn with hn | rfl
    · exact hx.pulls hnot n hn
    · exact hbound hnot

/-- The end of a loop over the transport's stream, which closes the response. -/
theorem During.closed {k : ℕ} {x : Exchange} (h : During cap id r₀ k x) :
    After cap id r₀ (x.set id { x.responses id with isClosed := true }) := by
  refine ⟨⟨k, true, ?_, h.pulls⟩, fun d hd => ?_⟩
  · rw [h.here, x.set_here]
  · rw [x.set_other hd]
    exact h.others d hd

/-- What a loop over a body needs to know of it. `J` relates the number of chunks pulled to the
loop's variables; it bounds the body before every `next`, and it gives `E` of the variables when the
loop ends. -/
structure LoopInvariant (cap : ℕ) (r₀ : StreamedResponse) (body : β → Chunk → Step β)
    (J : ℕ → β → Prop) (E : β → Prop) : Prop where
  bound : ∀ k b, J k b → r₀.Yields k → ¬ r₀.BypassesCap cap → (r₀.decoded k).length ≤ cap
  next : ∀ k b c b', J k b → r₀.chunks k = .chunk c → body b c = .next b' → J (k + 1) b'
  done : ∀ k b c b', J k b → r₀.chunks k = .chunk c → body b c = .done b' → E b'
  stop : ∀ k b, J k b → r₀.Yields k → E b

/-- A loop ends with `E` of its variables, or with an exception, or not. -/
def LoopEnds (cap : ℕ) (id : ℕ) (r₀ : StreamedResponse) (E : β → Prop) :
    Program.Result Exc β → Exchange → Prop
  | .ok b, x => After cap id r₀ x ∧ E b
  | _, x => After cap id r₀ x

/-- A round ends the loop, or goes around with one more chunk pulled. -/
def RoundEnds (cap : ℕ) (id : ℕ) (r₀ : StreamedResponse) (J : ℕ → β → Prop) (E : β → Prop) :
    Program.Result Exc (β ⊕ β) → Exchange → Prop
  | .ok (.inl b), x => After cap id r₀ x ∧ E b
  | .ok (.inr b), x => ∃ k, During cap id r₀ k x ∧ r₀.Yields k ∧ J k b
  | _, x => After cap id r₀ x

/-- A round of the loop over the transport's stream. -/
theorem pullRound_spec {J : ℕ → β → Prop} {E : β → Prop} {body : β → Chunk → Step β}
    (h : LoopInvariant cap r₀ body J E) {k : ℕ} {b : β} (hyields : r₀.Yields k) (hJ : J k b) :
    Program.Triple (During cap id r₀ k) (pullRound id body b) (RoundEnds cap id r₀ J E) := by
  unfold pullRound
  refine (pull_spec (h.bound k b hJ hyields)).bind (fun p => ?_) (fun _ _ hr => nomatch hr.1)
    fun _ hr => nomatch hr.1
  rintro x ⟨hp, hx⟩
  obtain rfl := Program.Result.ok.inj hp
  cases hc : r₀.chunks k with
  | stop => exact ⟨hx.closed, h.stop k b hJ hyields⟩
  | raised e => exact hx.after
  | chunk c =>
    dsimp only
    have hyields' : r₀.Yields (k + 1) := by
      intro m hm
      rcases Nat.lt_succ_iff_lt_or_eq.mp hm with hm | rfl
      · exact hyields m hm
      · exact ⟨c, hc⟩
    cases hbody : body b c with
    | next b' => exact ⟨k + 1, hx, hyields', h.next k b c b' hJ hc hbody⟩
    | done b' => exact ⟨hx.after, h.done k b c b' hJ hc hbody⟩
    | raise e => exact hx.after

/-- The loop over the transport's stream. -/
theorem forEachPull_spec {J : ℕ → β → Prop} {E : β → Prop} {body : β → Chunk → Step β} {b : β}
    (h : LoopInvariant cap r₀ body J E) (hstart : J 0 b) :
    Program.Triple (During cap id r₀ 0) (forEachPull rounds id b body) (LoopEnds cap id r₀ E) := by
  have hround : ∀ b, Program.Triple (fun x => ∃ k, During cap id r₀ k x ∧ r₀.Yields k ∧ J k b)
      (pullRound id body b) (RoundEnds cap id r₀ J E) :=
    fun b x ⟨_, hx, hyields, hJ⟩ => pullRound_spec h hyields hJ x hx
  have hloop := Program.Triple.loop (Q := LoopEnds cap id r₀ E)
    (J := fun b x => ∃ k, During cap id r₀ k x ∧ r₀.Yields k ∧ J k b)
    (fun b => (hround b).consequence (fun _ hx => hx) fun r x hr => ?_)
    (fun b x ⟨_, hx, _⟩ => hx.after) rounds b
  · exact hloop.consequence (fun x hx => ⟨0, hx, nofun, hstart⟩) fun _ _ hr => hr
  · rcases r with (_ | _) | _ | _ <;> exact hr

/-- A counting loop that goes on goes on inside. -/
theorem next_of_cappedBody {body : β → Chunk → Step β} {cap' : ℕ} {statusCode : ℤ}
    {contentLength : Option ℤ} {b b' : ℕ × β} {c : Chunk}
    (h : cappedBody cap' statusCode contentLength body b c = .next b') : body b.2 c = .next b'.2 := by
  unfold cappedBody at h
  dsimp only at h
  split_ifs at h
  cases hb : body b.2 c <;> rw [hb] at h <;> cases h
  rfl

/-- A counting loop that stops early stops inside. -/
theorem done_of_cappedBody {body : β → Chunk → Step β} {cap' : ℕ} {statusCode : ℤ}
    {contentLength : Option ℤ} {b b' : ℕ × β} {c : Chunk}
    (h : cappedBody cap' statusCode contentLength body b c = .done b') : body b.2 c = .done b'.2 := by
  unfold cappedBody at h
  dsimp only at h
  split_ifs at h
  cases hb : body b.2 c <;> rw [hb] at h <;> cases h
  rfl

/-- A loop over a counting stream is one over the stream inside. -/
theorem LoopInvariant.capped {J : ℕ → β → Prop} {E : β → Prop} {body : β → Chunk → Step β}
    (h : LoopInvariant cap r₀ body J E) (cap' : ℕ) (statusCode : ℤ) (contentLength : Option ℤ) :
    LoopInvariant cap r₀ (cappedBody cap' statusCode contentLength body) (fun k b => J k b.2)
      fun b => E b.2 where
  bound k b := h.bound k b.2
  next k b c b' hJ hc hbody := h.next k b.2 c b'.2 hJ hc (next_of_cappedBody hbody)
  done k b c b' hJ hc hbody := h.done k b.2 c b'.2 hJ hc (done_of_cappedBody hbody)
  stop k b := h.stop k b.2

/-- The loop over a response's stream, through the counting streams around it. -/
theorem forEach_spec (stream : Stream) {J : ℕ → β → Prop} {E : β → Prop}
    {body : β → Chunk → Step β} {b : β} (h : LoopInvariant cap r₀ body J E) (hstart : J 0 b)
    (hbytes : E b) :
    Program.Triple (During cap id r₀ 0) (stream.forEach rounds id b body)
      (LoopEnds cap id r₀ E) := by
  induction stream generalizing β with
  | transport => exact forEachPull_spec h hstart
  | capped inner cap' statusCode contentLength ih =>
    refine (ih (h.capped cap' statusCode contentLength) hstart hbytes).bind (fun b' => ?_)
      (fun _ _ hr => hr) fun _ hr => hr
    exact .pure fun x hx => hx
  | bytes => exact .pure fun x hx => ⟨hx.after, hbytes⟩

/-- A response whose body is being read. -/
abbrev StreamedResponse.consumed (r : StreamedResponse) : StreamedResponse :=
  { r with isStreamConsumed := true }

/-- A loop that may not have begun ends with `E` of its variables after a read of `r₀`. -/
def ReadEnds (cap : ℕ) (id : ℕ) (r₀ : StreamedResponse) (E : β → Prop) :
    Program.Result Exc β → Exchange → Prop
  | .ok b, x => After cap id r₀ x ∧ E b
  | _, x => Bounded cap x

/-- A program ends with `E` of its value, and keeps everything bounded. -/
def BoundedAnd (cap : ℕ) (E : β → Prop) : Program.Result Exc β → Exchange → Prop
  | .ok b, x => Bounded cap x ∧ E b
  | _, x => Bounded cap x

/-- The loop over the decoded chunks of a body that is not in memory. -/
theorem iterBytes_unread {body : β → Bytes → Step β} {b : β} {E : β → Prop}
    (hcontent : r₀.content = none)
    (hloop : Program.Triple (During cap id r₀.consumed 0)
      (r₀.stream.forEach rounds id b (decodedBody body)) (LoopEnds cap id r₀.consumed E)) :
    Program.Triple (fun x => Bounded cap x ∧ x.responses id = r₀) (iterBytes rounds id b body)
      (ReadEnds cap id r₀.consumed E) := by
  unfold iterBytes
  refine triple_response fun r => ?_
  rintro x ⟨⟨hx, hhere⟩, rfl⟩
  rw [hhere, hcontent]
  dsimp only
  split_ifs with hconsumed hclosed
  · exact hx
  · exact hx
  · have hduring : During cap id r₀.consumed 0 (x.set id r₀.consumed) := by
      refine ⟨?_, fun d hd => ?_, fun _ n hn => absurd hn (Nat.not_lt_zero n)⟩
      · have hfresh : r₀.pulled = 0 := by
          have := (hx id).fresh
          rw [hhere] at this
          exact this (by simpa using hconsumed)
        rw [← hfresh, x.set_here]
      · rw [x.set_other hd]
        exact hx d
    have hends := hloop _ hduring
    have hrun : ∀ p : Call β, (update id StreamedResponse.consumed >>= fun _ => p) x =
        p (x.set id (x.responses id).consumed) := fun _ => rfl
    rw [hrun, hhere]
    generalize r₀.stream.forEach rounds id b (decodedBody body) _ = ending at hends ⊢
    rcases ending with ⟨_ | _ | _, t⟩
    · exact hends
    · exact After.bounded hends rfl hcontent
    · exact After.bounded hends rfl hcontent

/-- The loop over the decoded chunks of a body, which may be in memory. -/
theorem iterBytes_spec {body : β → Bytes → Step β} {b : β} {J : ℕ → β → Prop} {E : β → Prop}
    (h : LoopInvariant cap r₀.consumed (decodedBody body) J E) (hstart : J 0 b) (hbytes : E b)
    (hmemory : ∀ chunk b', decodedBody body b chunk = .next b' ∨ decodedBody body b chunk = .done b' →
      E b') :
    Program.Triple (fun x => Bounded cap x ∧ x.responses id = r₀) (iterBytes rounds id b body)
      (BoundedAnd cap E) := by
  cases hcontent : r₀.content with
  | none =>
    refine (iterBytes_unread hcontent (forEach_spec _ h hstart hbytes)).consequence
      (fun x hx => hx) fun r x hr => ?_
    rcases r with _ | _ | _
    · exact ⟨hr.1.bounded rfl hcontent, hr.2⟩
    · exact hr
    · exact hr
  | some content =>
    unfold iterBytes
    refine triple_response fun r => ?_
    rintro x ⟨⟨hx, hhere⟩, rfl⟩
    rw [hhere, hcontent]
    dsimp only
    cases hbody : decodedBody body b ⟨content.data, content.data⟩ with
    | next b' => exact ⟨hx, hmemory _ b' (.inl hbody)⟩
    | done b' => exact ⟨hx, hmemory _ b' (.inr hbody)⟩
    | raise e => exact hx

/-- Reading a body into memory. -/
theorem read_spec
    (hloop : r₀.content = none → Program.Triple (During cap id r₀.consumed 0)
      (r₀.stream.forEach rounds id [] (decodedBody fun data chunk => .next (data ++ chunk)))
      (LoopEnds cap id r₀.consumed fun data => ¬ r₀.BypassesCap cap → data.length ≤ cap)) :
    Program.Triple (fun x => Bounded cap x ∧ x.responses id = r₀) (read rounds id) fun _ =>
      Bounded cap := by
  unfold read
  refine triple_response fun r => ?_
  cases hcontent : r.content with
  | some content => exact .pure fun x hx => hx.1.1
  | none =>
    refine Program.Triple.bind (R := ReadEnds cap id r₀.consumed
      fun data => ¬ r₀.BypassesCap cap → data.length ≤ cap) ?_ (fun data => ?_) (fun _ _ hr => hr)
      fun _ hr => hr
    · rintro x ⟨⟨hx, hhere⟩, rfl⟩
      rw [hhere] at hcontent
      exact iterBytes_unread hcontent (hloop hcontent) x ⟨hx, hhere⟩
    · refine .modify fun x hx => hx.1.bounded_of_read rfl fun hnot => hx.2 fun hbypass => ?_
      exact hnot (hbypass.of_fields rfl rfl rfl fun hc => hc)

end Loop

/-! ## The reading functions -/

section Read

variable {id : ℕ} {r₀ : StreamedResponse} {rounds : ℕ}

/-- A chunk is appended to the decoded body. -/
theorem decoded_succ {k : ℕ} {c : Chunk} (hc : r₀.chunks k = .chunk c) :
    r₀.consumed.decoded (k + 1) = r₀.consumed.decoded k ++ c.decoded := by
  rw [StreamedResponse.decoded]
  congr 1
  exact congrArg Pull.decoded hc

/-- A loop over the decoded chunks that joins them. -/
theorem decodedBody_append (data : Bytes) (c : Chunk) :
    decodedBody (fun data chunk => .next (data ++ chunk)) data c = .next (data ++ c.decoded) := by
  unfold decodedBody
  split_ifs with hempty
  · rw [hempty, List.append_nil]
  · rfl

/-- A plain `read`, of a body that may be left out: nothing bounds it but the server. -/
theorem read_bodiless (hread : r₀.capRead = true)
    (hbody : responseHasBody r₀.request.method r₀.statusCode = false) :
    Program.Triple (fun x => Bounded cap x ∧ x.responses id = r₀) (read rounds id) fun _ =>
      Bounded cap := by
  have hshort : ∀ k, r₀.consumed.Yields k → ¬ r₀.BypassesCap cap →
      (r₀.consumed.decoded k).length ≤ cap := by
    intro k hyields hnot
    by_contra hlong
    refine hnot ⟨hread, hbody, k, hyields, ?_⟩
    have hchunks : r₀.consumed.chunks = r₀.chunks := rfl
    rw [← StreamedResponse.decoded_of_chunks hchunks]
    exact not_le.mp hlong
  have hbypass : ¬ r₀.consumed.BypassesCap cap → ¬ r₀.BypassesCap cap := fun hnot h =>
    hnot (h.of_fields rfl rfl rfl fun hc => hc)
  refine read_spec fun _ => forEach_spec _ (J := fun k data => data = r₀.consumed.decoded k)
    ⟨?_, ?_, ?_, ?_⟩ rfl fun _ => Nat.zero_le cap
  · rintro k data rfl hyields hnot
    exact hshort k hyields (hbypass hnot)
  · rintro k data c data' rfl hc hnext
    rw [decodedBody_append] at hnext
    rw [decoded_succ hc]
    exact (Step.next.inj hnext).symm
  · rintro k data c data' rfl hc hdone
    rw [decodedBody_append] at hdone
    cases hdone
  · rintro k data rfl hyields hnot
    exact hshort k hyields hnot

/-- A `read` through a counting stream, of a body without a content encoding. -/
theorem read_through_capped {stream : Stream} {statusCode : ℤ} {contentLength : Option ℤ}
    (hencoding : r₀.headers.get "content-encoding" = none)
    (hstream : r₀.stream = .capped stream cap statusCode contentLength) :
    Program.Triple (fun x => Bounded cap x ∧ x.responses id = r₀) (read rounds id) fun _ =>
      Bounded cap := by
  refine read_spec fun _ => ?_
  rw [hstream]
  -- The count is the number of bytes decoded, since nothing is encoded.
  have hinner : Program.Triple (During cap id r₀.consumed 0)
      (stream.forEach rounds id (0, []) (cappedBody cap statusCode contentLength
        (decodedBody fun data chunk => .next (data ++ chunk))))
      (LoopEnds cap id r₀.consumed fun b => b.2.length ≤ cap) := by
    refine forEach_spec stream
      (J := fun k b => b = ((r₀.consumed.decoded k).length, r₀.consumed.decoded k) ∧ b.1 ≤ cap)
      ⟨?_, ?_, ?_, ?_⟩ ⟨rfl, Nat.zero_le cap⟩ (Nat.zero_le cap)
    · rintro k b ⟨rfl, hle⟩ - -
      exact hle
    · rintro k b c b' ⟨rfl, hle⟩ hc hnext
      have hwire : c.decoded = c.wire := r₀.identity hencoding k c hc
      unfold cappedBody at hnext
      dsimp only at hnext
      rw [decodedBody_append] at hnext
      split_ifs at hnext with hover
      obtain rfl := Step.next.inj hnext
      rw [decoded_succ hc]
      refine ⟨?_, not_lt.mp hover⟩
      rw [List.length_append, hwire]
    · rintro k b c b' ⟨rfl, hle⟩ hc hdone
      unfold cappedBody at hdone
      dsimp only at hdone
      rw [decodedBody_append] at hdone
      split_ifs at hdone
    · rintro k b ⟨rfl, hle⟩ -
      exact hle
  refine hinner.bind (fun b => ?_) (fun _ _ hr => hr) fun _ hr => hr
  exact .pure fun x hx => ⟨hx.1, fun _ => hx.2⟩

/-- The body of the loops that accumulate a decoded body, which differ in the exception. -/
abbrev accumulating (cap : ℕ) (e : Bytes → Exc) (buf chunk : Bytes) : Step Bytes :=
  if (buf ++ chunk).length > cap then .raise (e (buf ++ chunk)) else .next (buf ++ chunk)

/-- Accumulating a decoded body. -/
theorem accumulating_spec (e : Bytes → Exc) :
    Program.Triple (fun x => Bounded cap x ∧ x.responses id = r₀)
      (iterBytes rounds id [] (accumulating cap e)) (BoundedAnd cap fun data => data.length ≤ cap) := by
  have hbody : ∀ buf c b', buf.length ≤ cap → decodedBody (accumulating cap e) buf c = .next b' ∨
      decodedBody (accumulating cap e) buf c = .done b' →
        b' = buf ++ c.decoded ∧ b'.length ≤ cap := by
    intro buf c b' hle hb
    unfold decodedBody accumulating at hb
    split_ifs at hb with hempty hover
    · rcases hb with hb | hb
      · obtain rfl := Step.next.inj hb
        rw [hempty, List.append_nil]
        exact ⟨rfl, hle⟩
      · cases hb
    · rcases hb with hb | hb <;> cases hb
    · rcases hb with hb | hb
      · obtain rfl := Step.next.inj hb
        exact ⟨rfl, not_lt.mp hover⟩
      · cases hb
  refine iterBytes_spec (J := fun k buf => buf = r₀.consumed.decoded k ∧ buf.length ≤ cap)
    ⟨?_, ?_, ?_, ?_⟩ ⟨rfl, Nat.zero_le cap⟩ (Nat.zero_le cap) fun c b' hb => ?_
  · rintro k buf ⟨rfl, hle⟩ - -
    exact hle
  · rintro k buf c b' ⟨rfl, hle⟩ hc hnext
    rw [decoded_succ hc]
    exact hbody _ c b' hle (.inl hnext)
  · rintro k buf c b' ⟨rfl, hle⟩ hc hdone
    exact (hbody _ c b' hle (.inr hdone)).2
  · rintro k buf ⟨rfl, hle⟩ -
    exact hle
  · exact (hbody [] c b' (Nat.zero_le cap) hb).2

/-- A raise or a return. -/
theorem keeps_reject {P : Exchange → Prop} (r : StreamedResponse) (cap' : ℕ) :
    Program.Keeps P (rejectIfDeclaredLengthExceedsCap r cap') := by
  unfold rejectIfDeclaredLengthExceedsCap
  dsimp only
  split_ifs
  · exact .raise
  · exact .pure

/-- Reading an unencoded body. -/
theorem readThroughCappedStream_spec (contentLength : Option ℤ)
    (hencoding : r₀.headers.get "content-encoding" = none) :
    Program.Triple (fun x => Bounded cap x ∧ x.responses id = r₀)
      (readThroughCappedStream rounds id cap contentLength) fun _ => Bounded cap := by
  unfold readThroughCappedStream
  let wrapped := { r₀ with stream := .capped r₀.stream cap r₀.statusCode contentLength }
  have hupdate : Program.Triple (fun x => Bounded cap x ∧ x.responses id = r₀)
      (update id fun r => { r with stream := .capped r.stream cap r.statusCode contentLength })
      fun _ x => Bounded cap x ∧ x.responses id = wrapped := by
    refine .modify fun x ⟨hx, hhere⟩ => ⟨Bounded.set (fun d _ => hx d) ?_, ?_⟩
    · exact (hx id).of_fields rfl rfl rfl (fun hc => hc) (fun hc => hc) rfl fun _ hc _ => hc
    · rw [hhere, x.set_here]
  have hread : Program.Triple (fun x => Bounded cap x ∧ x.responses id = wrapped) (read rounds id)
      fun _ => Bounded cap := read_through_capped hencoding rfl
  have hclosing : Program.Triple (fun x => Bounded cap x ∧ x.responses id = wrapped)
      ((read rounds id).onRaise (close id)) fun _ => Bounded cap :=
    hread.catching (fun _ _ hx => hx) (fun _ => (keeps_close id).bind fun _ => .raise) fun _ hx => hx
  refine hupdate.bind (fun _ => ?_) (fun _ _ hx => hx.1) fun _ hx => hx.1
  exact hclosing.bind (fun _ => .pure fun _ hx => hx) (fun _ _ hx => hx) fun _ hx => hx

/-- The response that is built from a body within the cap. -/
theorem keeps_buildBuffered {content : Bytes} (hcontent : content.length ≤ cap) (request : Request) :
    Program.Keeps (Bounded cap) (do
      close id
      let r ← response id
      new (buildBufferedResponse r content request)) := by
  refine (keeps_close id).bind fun _ => Program.Keeps.bind .get fun r => keeps_new ?_
  refine .of_unread rfl fun c hc _ => ?_
  obtain rfl := Option.some.inj hc
  exact hcontent

/-- Reading an encoded body. -/
theorem readDecoded_spec (contentLength : Option ℤ) (request : Request) :
    Program.Triple (fun x => Bounded cap x ∧ x.responses id = r₀)
      (readDecoded rounds id cap contentLength request) fun _ => Bounded cap := by
  unfold readDecoded
  refine triple_each_response fun r => ?_
  refine Program.Triple.bind (R := BoundedAnd cap fun data => data.length ≤ cap) ?_
    (fun content x hx => keeps_buildBuffered hx.2 request x hx.1) (fun _ _ hx => hx) fun _ hx => hx
  refine (accumulating_spec fun buf => .capExceeded buf.length).catching (fun _ _ hx => hx)
    (fun e => ?_) fun _ hx => hx
  split
  · exact .raise fun _ hx => hx
  · exact .raise fun _ hx => hx

/-- Reading an encoded body, in the async client. -/
theorem readDecodedAsync_spec (contentLength : Option ℤ) (request : Request) :
    Program.Triple (fun x => Bounded cap x ∧ x.responses id = r₀)
      (readDecodedAsync rounds id cap contentLength request) fun _ => Bounded cap := by
  unfold readDecodedAsync
  refine triple_each_response fun r => ?_
  exact Program.Triple.bind (accumulating_spec fun _ => _)
    (fun content x hx => keeps_buildBuffered hx.2 request x hx.1) (fun _ _ hx => hx) fun _ hx => hx

/-- Buffering a body. -/
theorem readCapped_spec (mode : Mode) (request : Request) :
    Program.Triple (fun x => Bounded cap x ∧ (x.responses id).request = request)
      (readCapped mode rounds id cap request) fun _ => Bounded cap := by
  unfold readCapped
  have hmark : Program.Triple (fun x => Bounded cap x ∧ (x.responses id).request = request)
      (update id fun r => { r with capRead := true }) fun _ x => Bounded cap x ∧
        (x.responses id).request = request ∧ (x.responses id).capRead = true := by
    refine .modify fun x ⟨hx, hrequest⟩ => ⟨Bounded.set (fun d _ => hx d) ?_, ?_⟩
    · exact (hx id).of_fields rfl rfl rfl (fun _ => rfl) (fun hc => hc) rfl fun _ hc _ => hc
    · rw [x.set_here]
      exact ⟨hrequest, rfl⟩
  refine hmark.bind (fun _ => ?_) (fun _ _ hx => hx.1) fun _ hx => hx.1
  refine triple_response_of (P := fun r => r.request = request ∧ r.capRead = true) fun r hr => ?_
  obtain ⟨rfl, hread⟩ := hr
  split_ifs with hbody hencoding
  · refine Program.Triple.bind (keeps_reject r cap) (fun contentLength => ?_) (fun _ _ hx => hx.1)
      fun _ hx => hx.1
    exact readThroughCappedStream_spec contentLength (Option.isNone_iff_eq_none.mp hencoding)
  · refine Program.Triple.bind (keeps_reject r cap) (fun contentLength => ?_) (fun _ _ hx => hx.1)
      fun _ hx => hx.1
    cases mode with
    | sync => exact readDecoded_spec contentLength r.request
    | async => exact readDecodedAsync_spec contentLength r.request
  · -- A reply that may have no body.
    have hnone : responseHasBody r.request.method r.statusCode = false := by simpa using hbody
    exact (read_bodiless hread hnone).bind (fun _ => .pure fun _ hx => hx) (fun _ _ hx => hx)
      fun _ hx => hx

/-- The loop that discards a body, of which only the length is kept. -/
theorem discarding_spec :
    Program.Triple (fun x => Bounded cap x ∧ x.responses id = r₀)
      (iterBytes rounds id 0 fun read chunk =>
        if read + chunk.length > cap then .done (read + chunk.length)
        else .next (read + chunk.length)) (BoundedAnd cap fun _ => True) := by
  refine iterBytes_spec (J := fun k read => read = (r₀.consumed.decoded k).length ∧ read ≤ cap)
    ⟨?_, ?_, fun _ _ _ _ _ _ _ => trivial, fun _ _ _ _ => trivial⟩ ⟨rfl, Nat.zero_le cap⟩ trivial
    fun _ _ _ => trivial
  · rintro k read ⟨rfl, hle⟩ - -
    exact hle
  · rintro k read c read' ⟨rfl, hle⟩ hc hnext
    rw [decoded_succ hc, List.length_append]
    unfold decodedBody at hnext
    dsimp only at hnext
    split_ifs at hnext with hempty hover
    · obtain rfl := Step.next.inj hnext
      rw [hempty]
      exact ⟨rfl, hle⟩
    · obtain rfl := Step.next.inj hnext
      exact ⟨rfl, not_lt.mp hover⟩

/-- Discarding a body. -/
theorem keeps_discardWithinCap (id : ℕ) (rounds : ℕ) :
    Program.Keeps (Bounded cap) (discardWithinCap rounds id cap) := by
  unfold discardWithinCap
  refine triple_response fun r => ?_
  split_ifs
  · exact discarding_spec.bind (fun _ => .pure fun _ hx => hx.1) (fun _ _ hx => hx) fun _ hx => hx
  · exact .pure fun _ hx => hx.1

end Read

end Httpware.BodyCap
