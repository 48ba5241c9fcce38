import Httpware.BodyCap.Frame

/-!
# Buffering is exact

The two loops that buffer a body under the cap, one of which counts the bytes of the transport and the
other those that are decoded, are loops that append to what they have read and raise past the cap
(`Limits`), so `consumeChunks_limits` is about both. From it follows that the result of buffering a body is a
function of the cap, the status, the declared length, and the decoded bytes (`cappedOutcome`), on each of
the four paths, and that a body that is too long is read to the shortest prefix that passes the cap.
-/

namespace Httpware.BodyCap

open Program (Result)

/-- The `next`s of a body of these chunks. -/
def bodyOf (chunks : List Chunk) (n : ℕ) : Pull :=
  match chunks[n]? with
  | some c => .chunk c
  | none => .stop

/-- The decoded bytes of these chunks. -/
def decodedBytes (chunks : List Chunk) : Bytes := chunks.flatMap Chunk.decoded

/-- What the result of buffering a body should be. -/
def cappedOutcome (cap : ℕ) (statusCode : ℤ) (contentLength : Option ℤ) (data : Bytes) :
    Result Exc Bytes :=
  if ∃ n ∈ contentLength, n > cap then
    .raised (.responseTooLarge statusCode cap contentLength .declared)
  else if data.length > cap then
    .raised (.responseTooLarge statusCode cap contentLength .streamed)
  else .ok data

/-! ## Loops that append -/

section Limits

variable {β : Type} {cap n : ℕ} {b : β} {body : β → Chunk → Step β}

/-- The loop over the transport's stream, of a body of these chunks. -/
def consumeChunks (body : β → Chunk → Step β) : List Chunk → ℕ → β → Consumed β
  | [], n, b => ⟨.ok b, n + 1, true⟩
  | c :: cs, n, b =>
    match body b c with
    | .next b => consumeChunks body cs (n + 1) b
    | .done b => ⟨.ok b, n + 1, false⟩
    | .raise e => ⟨.raised e, n + 1, false⟩

/-- With rounds enough, the loop goes through the chunks that are left. -/
theorem consume_bodyOf {rounds : ℕ} (cs before : List Chunk) (b : β) (h : cs.length < rounds) :
    consume (bodyOf (before ++ cs)) body rounds before.length b =
      consumeChunks body cs before.length b := by
  induction cs generalizing before rounds b with
  | nil =>
    obtain ⟨rounds, rfl⟩ := Nat.exists_eq_add_one_of_ne_zero (Nat.ne_zero_of_lt h)
    have hstop : bodyOf (before ++ []) before.length = .stop := by
      rw [bodyOf, List.append_nil, List.getElem?_eq_none le_rfl]
    rw [consume, hstop, consumeChunks]
  | cons c cs ih =>
    obtain ⟨rounds, rfl⟩ := Nat.exists_eq_add_one_of_ne_zero (Nat.ne_zero_of_lt h)
    have hchunk : bodyOf (before ++ c :: cs) before.length = .chunk c := by
      rw [bodyOf, List.getElem?_append_right le_rfl, Nat.sub_self]
      rfl
    rw [consume, hchunk, consumeChunks]
    dsimp only
    cases body b c with
    | next b' =>
      have hrest := ih (before ++ [c]) b' (Nat.lt_of_succ_lt_succ h)
      rw [List.append_assoc, List.singleton_append, List.length_append] at hrest
      exact hrest
    | done b' => rfl
    | raise e => rfl

/-- A body of a loop that appends the decoded bytes to what it has read, `data b`, and raises `e` when
that passes the cap; `P` is what it keeps of its variables. -/
def Limits (cap : ℕ) (e : Bytes → Exc) (data : β → Bytes) (P : β → Prop)
    (body : β → Chunk → Step β) (c : Chunk) : Prop :=
  ∀ b, P b → (data b).length ≤ cap →
    if (data b ++ c.decoded).length > cap then body b c = .raise (e (data b ++ c.decoded))
    else ∃ b', body b c = .next b' ∧ P b' ∧ data b' = data b ++ c.decoded

variable {e : Bytes → Exc} {data : β → Bytes} {P : β → Prop}

/-- A body within the cap is read to its end. -/
theorem consumeChunks_fits {cs : List Chunk} (hbody : ∀ c ∈ cs, Limits cap e data P body c)
    (hP : P b) (hfits : (data b ++ decodedBytes cs).length ≤ cap) :
    ∃ b', consumeChunks body cs n b = ⟨.ok b', n + cs.length + 1, true⟩ ∧
      data b' = data b ++ decodedBytes cs := by
  induction cs generalizing n b with
  | nil => exact ⟨b, rfl, (List.append_nil _).symm⟩
  | cons c cs ih =>
    have hsplit : data b ++ decodedBytes (c :: cs) = (data b ++ c.decoded) ++ decodedBytes cs := by
      rw [decodedBytes, List.flatMap_cons, ← List.append_assoc]
      rfl
    rw [hsplit] at hfits ⊢
    have hshort : (data b ++ c.decoded).length ≤ cap := by
      rw [List.length_append] at hfits
      omega
    have hle : (data b).length ≤ cap := by
      rw [List.length_append] at hshort
      omega
    have hstep := hbody c List.mem_cons_self b hP hle
    rw [if_neg (not_lt.mpr hshort)] at hstep
    obtain ⟨b', hnext, hP', hdata⟩ := hstep
    rw [← hdata] at hfits ⊢
    obtain ⟨b'', hloop, hall⟩ := ih (n := n + 1) (fun c hc => hbody c (List.mem_cons_of_mem _ hc))
      hP' hfits
    refine ⟨b'', ?_, hall⟩
    rw [consumeChunks, hnext, List.length_cons]
    dsimp only
    rw [hloop]
    congr 1
    omega

/-- A body that passes the cap is read to the shortest prefix that does. -/
theorem consumeChunks_passes {cs : List Chunk} (hbody : ∀ c ∈ cs, Limits cap e data P body c)
    (hP : P b) (hle : (data b).length ≤ cap) (hpasses : cap < (data b ++ decodedBytes cs).length) :
    ∃ k, consumeChunks body cs n b = ⟨.raised (e (data b ++ decodedBytes (cs.take k))), n + k, false⟩ ∧
      IsLeast {k | cap < (data b ++ decodedBytes (cs.take k)).length} k := by
  induction cs generalizing n b with
  | nil =>
    rw [decodedBytes, List.flatMap_nil, List.append_nil] at hpasses
    omega
  | cons c cs ih =>
    have hsplit : ∀ cs, data b ++ decodedBytes (c :: cs) =
        (data b ++ c.decoded) ++ decodedBytes cs := fun cs => by
      rw [decodedBytes, List.flatMap_cons, ← List.append_assoc]
      rfl
    have hstep := hbody c List.mem_cons_self b hP hle
    by_cases hlong : (data b ++ c.decoded).length > cap
    · -- The first chunk passes the cap.
      rw [if_pos hlong] at hstep
      have hone : data b ++ decodedBytes ((c :: cs).take 1) = data b ++ c.decoded := by
        rw [List.take_succ_cons, List.take_zero, hsplit]
        exact List.append_nil _
      refine ⟨1, ?_, ?_, fun k hk => ?_⟩
      · rw [consumeChunks, hstep, hone]
      · rw [Set.mem_ofPred_eq, hone]
        exact hlong
      · by_contra hzero
        obtain rfl : k = 0 := by omega
        rw [Set.mem_ofPred_eq, List.take_zero, decodedBytes, List.flatMap_nil,
          List.append_nil] at hk
        omega
    · rw [if_neg hlong] at hstep
      obtain ⟨b', hnext, hP', hdata⟩ := hstep
      rw [hsplit, ← hdata] at hpasses
      rw [← hdata, not_lt] at hlong
      obtain ⟨k, hloop, hmem, hleast⟩ := ih (n := n + 1)
        (fun c hc => hbody c (List.mem_cons_of_mem _ hc)) hP' hlong hpasses
      have htake : ∀ k, data b ++ decodedBytes ((c :: cs).take (k + 1)) =
          data b' ++ decodedBytes (cs.take k) := fun k => by
        rw [List.take_succ_cons, hsplit, hdata]
      refine ⟨k + 1, ?_, ?_, fun j hj => ?_⟩
      · rw [consumeChunks, hnext, htake]
        dsimp only
        rw [hloop]
        congr 1
        omega
      · rw [Set.mem_ofPred_eq, htake]
        exact hmem
      · cases j with
        | zero =>
          rw [Set.mem_ofPred_eq, List.take_zero, decodedBytes, List.flatMap_nil,
            List.append_nil] at hj
          omega
        | succ j =>
          rw [Set.mem_ofPred_eq, htake] at hj
          exact Nat.succ_le_succ (hleast hj)

/-- A loop over a body of these chunks, that starts with nothing. -/
theorem consume_limits {cs : List Chunk} {rounds : ℕ}
    (hbody : ∀ c ∈ cs, Limits cap e data P body c) (hP : P b) (hdata : data b = [])
    (hrounds : cs.length < rounds) :
    if (decodedBytes cs).length > cap then
      ∃ k, consume (bodyOf cs) body rounds 0 b =
          ⟨.raised (e (decodedBytes (cs.take k))), k, false⟩ ∧
        IsLeast {k | cap < (decodedBytes (cs.take k)).length} k
    else
      ∃ b', consume (bodyOf cs) body rounds 0 b = ⟨.ok b', cs.length + 1, true⟩ ∧
        data b' = decodedBytes cs := by
  have hloop : consume (bodyOf cs) body rounds 0 b = consumeChunks body cs 0 b :=
    consume_bodyOf cs [] b hrounds
  rw [hloop]
  split_ifs with hlong
  · have hpasses := consumeChunks_passes (n := 0) hbody hP (by rw [hdata]; exact Nat.zero_le cap)
      (by rw [hdata]; exact hlong)
    simp only [hdata, Nat.zero_add, List.nil_append] at hpasses
    exact hpasses
  · have hfits := consumeChunks_fits (n := 0) hbody hP (by rw [hdata]; exact not_lt.mp hlong)
    simp only [hdata, Nat.zero_add, List.nil_append] at hfits
    exact hfits

end Limits

/-- The loops that accumulate a decoded body. -/
theorem limits_accumulating (cap : ℕ) (e : Bytes → Exc) (c : Chunk) :
    Limits cap e (fun buf => buf) (fun _ => True) (decodedBody (accumulating cap e)) c := by
  intro buf _ hle
  unfold decodedBody accumulating
  by_cases hempty : c.decoded = []
  · -- `iter_bytes` leaves it out.
    rw [if_pos hempty, hempty, List.append_nil, if_neg (not_lt.mpr hle)]
    exact ⟨buf, rfl, trivial, rfl⟩
  · rw [if_neg hempty]
    split_ifs
    · rfl
    · exact ⟨buf ++ c.decoded, rfl, trivial, rfl⟩

/-- The loop through a counting stream, of a body that is not encoded. -/
theorem limits_capped (cap : ℕ) (statusCode : ℤ) (contentLength : Option ℤ) {c : Chunk}
    (hidentity : c.decoded = c.wire) :
    Limits cap (fun _ => .responseTooLarge statusCode cap contentLength .streamed) Prod.snd
      (fun b => b.1 = b.2.length)
      (cappedBody cap statusCode contentLength
        (decodedBody fun data chunk => .next (data ++ chunk))) c := by
  rintro ⟨read, data⟩ hread -
  unfold cappedBody
  dsimp only at hread ⊢
  rw [decodedBody_append, hidentity, List.length_append, hread]
  split_ifs
  · rfl
  · exact ⟨_, rfl, (List.length_append ..).symm, rfl⟩

/-! ## The paths -/

section Paths

variable {rounds id cap : ℕ} {x : Exchange} {chunks : List Chunk} {contentLength : Option ℤ}

/-- A body of these chunks was buffered, or passed the cap with the last chunk that was pulled. -/
def Buffers (cap : ℕ) (statusCode : ℤ) (contentLength : Option ℤ) (id : ℕ) (chunks : List Chunk)
    (after : Result Exc ℕ × Exchange) : Prop :=
  if (decodedBytes chunks).length > cap then
    after.1 = .raised (.responseTooLarge statusCode cap contentLength .streamed) ∧
      IsLeast {k | cap < (decodedBytes (chunks.take k)).length} (after.2.responses id).pulled
  else
    ∃ id', after.1 = .ok id' ∧
      (after.2.responses id').content = some ⟨decodedBytes chunks, .httpware⟩

/-- The loop of a `read`, which joins the chunks. -/
abbrev joining (data chunk : Bytes) : Step Bytes := .next (data ++ chunk)

/-- The loop of a `read` of an open response. -/
theorem iterBytes_joining (rounds : ℕ) (hopen : Unread (x.responses id)) (stream : Stream) :
    iterBytes rounds id [] joining (x.set id { x.responses id with stream }) =
      ((stream.consume (x.responses id).chunks rounds 0 [] (decodedBody joining)).result,
        x.set id ({ (x.responses id).consumed with stream }.afterLoop
          (stream.consume (x.responses id).chunks rounds 0 [] (decodedBody joining)).pulled
          (stream.consume (x.responses id).chunks rounds 0 [] (decodedBody joining)).exhausted)) := by
  have hhere := x.set_here id { x.responses id with stream }
  rw [iterBytes_eq rounds [] joining (by rw [hhere]; exact hopen.content) (by rw [hhere]; exact hopen.consumed)
    (by rw [hhere]; exact hopen.closed), hhere, x.set_set]
  dsimp only
  rw [hopen.pulled]

/-- A `read` of an open response is that loop, and the body is kept after it. -/
theorem read_joining (rounds : ℕ) (hopen : Unread (x.responses id)) (stream : Stream) :
    read rounds id (x.set id { x.responses id with stream }) =
      (do
        let data ← iterBytes rounds id [] joining
        update id fun r => { r with content := some ⟨data, .httpware⟩ } : Call Unit)
        (x.set id { x.responses id with stream }) := by
  have hcontent : ((x.set id { x.responses id with stream }).responses id).content = none := by
    rw [x.set_here]
    exact hopen.content
  rw [read, response_bind, hcontent]

/-- A `read` whose loop ends. -/
theorem read_of_ok (stream : Stream) {data : Bytes} {pulled : ℕ} {exhausted : Bool}
    (hopen : Unread (x.responses id))
    (hloop : stream.consume (x.responses id).chunks rounds 0 [] (decodedBody joining) =
      ⟨.ok data, pulled, exhausted⟩) :
    ∃ r, read rounds id (x.set id { x.responses id with stream }) = (.ok (), x.set id r) ∧
      r.content = some ⟨data, .httpware⟩ := by
  have hiter := iterBytes_joining rounds hopen stream
  rw [hloop] at hiter
  rw [read_joining rounds hopen, Program.bind_of_ok hiter]
  exact ⟨_, congrArg (Prod.mk (Result.ok ())) (x.set_set id _ _), rfl⟩

/-- A `read` whose loop raises. -/
theorem read_of_raised (stream : Stream) {e : Exc} {pulled : ℕ} {exhausted : Bool}
    (hopen : Unread (x.responses id))
    (hloop : stream.consume (x.responses id).chunks rounds 0 [] (decodedBody joining) =
      ⟨.raised e, pulled, exhausted⟩) :
    ∃ r, read rounds id (x.set id { x.responses id with stream }) = (.raised e, x.set id r) ∧
      r.pulled = pulled := by
  have hiter := iterBytes_joining rounds hopen stream
  rw [hloop] at hiter
  rw [read_joining rounds hopen, Program.bind_of_raised hiter]
  exact ⟨_, rfl, rfl⟩

/-- The path of a body that is not encoded. -/
theorem readThroughCappedStream_exact (hopen : Unread (x.responses id))
    (hchunks : (x.responses id).chunks = bodyOf chunks)
    (hencoding : (x.responses id).headers.get "content-encoding" = none)
    (hrounds : chunks.length < rounds) :
    Buffers cap (x.responses id).statusCode contentLength id chunks
      (readThroughCappedStream rounds id cap contentLength x) := by
  let r := x.responses id
  have hlimits : ∀ c ∈ chunks, Limits cap
      (fun _ => .responseTooLarge r.statusCode cap contentLength .streamed) Prod.snd
      (fun b => b.1 = b.2.length)
      (cappedBody cap r.statusCode contentLength (decodedBody joining)) c := by
    intro c hc
    obtain ⟨i, hi, rfl⟩ := List.getElem_of_mem hc
    refine limits_capped cap r.statusCode contentLength (r.identity hencoding i _ ?_)
    rw [hchunks, bodyOf, List.getElem?_eq_getElem hi]
  have hloop := consume_limits hlimits (b := (0, [])) rfl rfl hrounds
  rw [readThroughCappedStream, update_bind, hopen.stream]
  unfold Buffers
  split_ifs at hloop ⊢ with hlong
  · obtain ⟨k, hconsume, hleast⟩ := hloop
    have hstream : (Stream.capped .transport cap r.statusCode contentLength).consume r.chunks rounds 0
        [] (decodedBody joining) =
          ⟨.raised (.responseTooLarge r.statusCode cap contentLength .streamed), k, false⟩ := by
      rw [hchunks, Stream.consume, Stream.consume, hconsume]
      rfl
    obtain ⟨r', hread, hpulled⟩ := read_of_raised _ hopen hstream
    -- The response is closed before the exception goes on.
    have hclosing : (read rounds id).onRaise (close id)
        (x.set id { r with stream := .capped .transport cap r.statusCode contentLength }) =
          (.raised (.responseTooLarge r.statusCode cap contentLength .streamed),
            x.set id { r' with isClosed := true }) := by
      rw [Program.onRaise, Program.catching_of_raised hread]
      change (Result.raised _, (x.set id r').set id _) = _
      rw [x.set_set, x.set_here]
    rw [Program.bind_of_raised hclosing]
    refine ⟨rfl, ?_⟩
    rw [x.set_here]
    dsimp only
    rw [hpulled]
    exact hleast
  · obtain ⟨b, hconsume, hdata⟩ := hloop
    have hstream : (Stream.capped .transport cap r.statusCode contentLength).consume r.chunks rounds 0
        [] (decodedBody joining) = ⟨.ok (decodedBytes chunks), chunks.length + 1, true⟩ := by
      rw [hchunks, Stream.consume, Stream.consume, hconsume, ← hdata]
      rfl
    obtain ⟨r', hread, hcontent⟩ := read_of_ok _ hopen hstream
    have hreading : (read rounds id).onRaise (close id)
        (x.set id { r with stream := .capped .transport cap r.statusCode contentLength }) =
          (.ok (), x.set id r') := Program.catching_of_ok hread
    rw [Program.bind_of_ok hreading]
    refine ⟨id, rfl, ?_⟩
    change ((x.set id r').responses id).content = _
    rw [x.set_here]
    exact hcontent

/-- The response that is rebuilt has the content. -/
theorem rebuild_content (content : Bytes) (request : Request) :
    ∃ id', ((do
      close id
      let r ← response id
      new (buildBufferedResponse r content request) : Call ℕ) x).1 = .ok id' ∧
      (((do
        close id
        let r ← response id
        new (buildBufferedResponse r content request) : Call ℕ) x).2.responses id').content =
        some ⟨content, .httpware⟩ := by
  refine ⟨x.count, rfl, ?_⟩
  change ((Exchange.set _ x.count (buildBufferedResponse _ content request)).responses
    x.count).content = _
  rw [Exchange.set_here]
  rfl

/-- A loop that accumulates the decoded body. -/
theorem accumulating_exact (cap : ℕ) (e : Bytes → Exc) (hopen : Unread (x.responses id))
    (hchunks : (x.responses id).chunks = bodyOf chunks) (hrounds : chunks.length < rounds) :
    if (decodedBytes chunks).length > cap then
      ∃ k, iterBytes rounds id [] (accumulating cap e) x =
          (.raised (e (decodedBytes (chunks.take k))),
            x.set id ((x.responses id).consumed.afterLoop k false)) ∧
        IsLeast {k | cap < (decodedBytes (chunks.take k)).length} k
    else
      ∃ x', iterBytes rounds id [] (accumulating cap e) x = (.ok (decodedBytes chunks), x') := by
  have hiter :=
    iterBytes_eq rounds [] (accumulating cap e) hopen.content hopen.consumed hopen.closed
  rw [hopen.stream, hopen.pulled, hchunks, Stream.consume] at hiter
  have hloop := consume_limits (fun c _ => limits_accumulating cap e c) (b := []) trivial rfl hrounds
  split_ifs at hloop ⊢ with hlong
  · obtain ⟨k, hconsume, hleast⟩ := hloop
    rw [hconsume] at hiter
    exact ⟨k, hiter, hleast⟩
  · obtain ⟨data, hconsume, rfl⟩ := hloop
    rw [hconsume] at hiter
    exact ⟨_, hiter⟩

/-- What follows a loop that accumulated the decoded body. -/
theorem Buffers.of_accumulating {accumulate : Call Bytes} {request : Request}
    (h : if (decodedBytes chunks).length > cap then
        ∃ k, accumulate x = (.raised (.responseTooLarge (x.responses id).statusCode cap contentLength
            .streamed), x.set id ((x.responses id).consumed.afterLoop k false)) ∧
          IsLeast {k | cap < (decodedBytes (chunks.take k)).length} k
      else ∃ x', accumulate x = (.ok (decodedBytes chunks), x')) :
    Buffers cap (x.responses id).statusCode contentLength id chunks
      ((do
        let content ← accumulate
        close id
        let r ← response id
        new (buildBufferedResponse r content request) : Call ℕ) x) := by
  unfold Buffers
  split_ifs at h ⊢
  · obtain ⟨k, hraised, hleast⟩ := h
    rw [Program.bind_of_raised hraised]
    refine ⟨rfl, ?_⟩
    rw [x.set_here]
    exact hleast
  · obtain ⟨x', hok⟩ := h
    rw [Program.bind_of_ok hok]
    exact rebuild_content (decodedBytes chunks) request

/-- The path of an encoded body. -/
theorem readDecoded_exact (request : Request) (hopen : Unread (x.responses id))
    (hchunks : (x.responses id).chunks = bodyOf chunks) (hrounds : chunks.length < rounds) :
    Buffers cap (x.responses id).statusCode contentLength id chunks
      (readDecoded rounds id cap contentLength request x) := by
  rw [readDecoded, response_bind]
  refine Buffers.of_accumulating ?_
  have hloop := accumulating_exact cap (fun buf => .capExceeded buf.length) hopen hchunks hrounds
  split_ifs at hloop ⊢
  · obtain ⟨k, hraised, hleast⟩ := hloop
    exact ⟨k, Program.catching_of_raised hraised, hleast⟩
  · obtain ⟨x', hok⟩ := hloop
    exact ⟨x', Program.catching_of_ok hok⟩

/-- The path of an encoded body, in the async client. -/
theorem readDecodedAsync_exact (request : Request) (hopen : Unread (x.responses id))
    (hchunks : (x.responses id).chunks = bodyOf chunks) (hrounds : chunks.length < rounds) :
    Buffers cap (x.responses id).statusCode contentLength id chunks
      (readDecodedAsync rounds id cap contentLength request x) := by
  rw [readDecodedAsync, response_bind]
  let tooLarge := Exc.responseTooLarge (x.responses id).statusCode cap contentLength .streamed
  exact Buffers.of_accumulating (accumulating_exact cap (fun _ => tooLarge) hopen hchunks hrounds)

/-- A response that is marked as read under the cap. -/
theorem Unread.marked {r : StreamedResponse} (h : Unread r) : Unread { r with capRead := true } :=
  ⟨h.pulled, h.stream, h.content, h.consumed, h.closed⟩

/-- `readCapped` of a reply that may have a body. -/
theorem readCapped_eq (mode : Mode) (request : Request)
    (hbody : responseHasBody request.method (x.responses id).statusCode = true) :
    readCapped mode rounds id cap request x =
      (do
        let contentLength ← rejectIfDeclaredLengthExceedsCap
          { x.responses id with capRead := true } cap
        if ((x.responses id).headers.get "content-encoding").isNone then
          readThroughCappedStream rounds id cap contentLength
        else
          match mode with
          | .sync => readDecoded rounds id cap contentLength request
          | .async => readDecodedAsync rounds id cap contentLength request : Call ℕ)
        (x.set id { x.responses id with capRead := true }) := by
  rw [readCapped, update_bind, response_bind, x.set_here]
  dsimp only
  rw [hbody]
  exact congrFun (if_neg (not_not.mpr rfl)) _

/-- A reply that may have a body is rejected for its declared length, or buffered. -/
theorem readCapped_buffers (cap : ℕ) (mode : Mode) (request : Request) (hopen : Unread (x.responses id))
    (hchunks : (x.responses id).chunks = bodyOf chunks)
    (hbody : responseHasBody request.method (x.responses id).statusCode = true)
    (hrounds : chunks.length < rounds)
    (hdeclared : parseContentLength ((x.responses id).headers.get "content-length") = contentLength) :
    if ∃ n ∈ contentLength, n > (cap : ℤ) then
      (readCapped mode rounds id cap request x).1 =
          .raised (.responseTooLarge (x.responses id).statusCode cap contentLength .declared) ∧
        ((readCapped mode rounds id cap request x).2.responses id).pulled = 0
    else
      Buffers cap (x.responses id).statusCode contentLength id chunks
        (readCapped mode rounds id cap request x) := by
  let marked := { x.responses id with capRead := true }
  have hhere : (x.set id marked).responses id = marked := x.set_here id marked
  have hunread : Unread ((x.set id marked).responses id) := by
    rw [hhere]
    exact hopen.marked
  have hchunks' : ((x.set id marked).responses id).chunks = bodyOf chunks := by
    rw [hhere]
    exact hchunks
  have hstatus : ((x.set id marked).responses id).statusCode = (x.responses id).statusCode := by
    rw [hhere]
  rw [readCapped_eq mode request hbody]
  -- The declared length decides before the first chunk.
  by_cases hlong : ∃ n ∈ contentLength, n > (cap : ℤ)
  · have hreject : rejectIfDeclaredLengthExceedsCap marked cap (x.set id marked) =
        (.raised (.responseTooLarge (x.responses id).statusCode cap contentLength .declared),
          x.set id marked) := by
      rw [rejectIfDeclaredLengthExceedsCap]
      dsimp only [marked]
      rw [hdeclared, if_pos hlong]
      rfl
    rw [if_pos hlong, Program.bind_of_raised hreject]
    refine ⟨rfl, ?_⟩
    rw [hhere]
    exact hopen.pulled
  · have hreject : rejectIfDeclaredLengthExceedsCap marked cap (x.set id marked) =
        (.ok contentLength, x.set id marked) := by
      rw [rejectIfDeclaredLengthExceedsCap]
      dsimp only [marked]
      rw [hdeclared, if_neg hlong]
      rfl
    rw [if_neg hlong, Program.bind_of_ok hreject, ← hstatus]
    -- Without a content encoding the counting stream reads, and the decoded loops otherwise.
    cases hencoding : (x.responses id).headers.get "content-encoding" with
    | none =>
      rw [Option.isNone_none, if_pos rfl]
      refine readThroughCappedStream_exact hunread hchunks' ?_ hrounds
      rw [hhere]
      exact hencoding
    | some encoding =>
      rw [Option.isNone_some, if_neg Bool.false_ne_true]
      cases mode with
      | sync => exact readDecoded_exact request hunread hchunks' hrounds
      | async => exact readDecodedAsync_exact request hunread hchunks' hrounds

end Paths

/-! ## The claim -/

/-- What a caller sees of a buffered body: the bytes that were read, or the exception. -/
def observed (after : Result Exc ℕ × Exchange) : Result Exc (Option Content) :=
  after.1.map fun id => (after.2.responses id).content

/-- Buffering a body under the cap gives what it should: an outcome that the declared length and the
decoded bytes determine, on every path and however the body is split into chunks. A declared length
above the cap is rejected before a chunk is pulled, and a body that is too long after the shortest
prefix that passes the cap. -/
theorem readCapped_exact {mode : Mode} {rounds id cap : ℕ} {request : Request} {x : Exchange}
    {chunks : List Chunk} (hopen : Unread (x.responses id))
    (hchunks : (x.responses id).chunks = bodyOf chunks)
    (hbody : responseHasBody request.method (x.responses id).statusCode = true)
    (hrounds : chunks.length < rounds) :
    observed (readCapped mode rounds id cap request x) =
        (cappedOutcome cap (x.responses id).statusCode
          (parseContentLength ((x.responses id).headers.get "content-length"))
          (decodedBytes chunks)).map (fun data => some ⟨data, .httpware⟩) ∧
      ((∃ n ∈ parseContentLength ((x.responses id).headers.get "content-length"), n > (cap : ℤ)) →
        ((readCapped mode rounds id cap request x).2.responses id).pulled = 0) ∧
      ((¬ ∃ n ∈ parseContentLength ((x.responses id).headers.get "content-length"), n > (cap : ℤ)) →
        (decodedBytes chunks).length > cap →
        IsLeast {k | cap < (decodedBytes (chunks.take k)).length}
          ((readCapped mode rounds id cap request x).2.responses id).pulled) := by
  have hbuffers := readCapped_buffers cap mode request hopen hchunks hbody hrounds rfl
  -- The three outcomes: rejected for its length, too long, and buffered.
  unfold cappedOutcome observed
  unfold Buffers at hbuffers
  split_ifs at hbuffers ⊢ with hlong hpasses
  · obtain ⟨hraised, hpulled⟩ := hbuffers
    rw [hraised]
    exact ⟨rfl, fun _ => hpulled, fun hnot => absurd hlong hnot⟩
  · obtain ⟨hraised, hleast⟩ := hbuffers
    rw [hraised]
    exact ⟨rfl, fun h => absurd h hlong, fun _ _ => hleast⟩
  · obtain ⟨id', hok, hcontent⟩ := hbuffers
    rw [hok]
    exact ⟨congrArg Result.ok hcontent, fun h => absurd h hlong, fun _ h => absurd h hpasses⟩

/-- An open response with a body of two chunks, of one and of two bytes. -/
def twoChunks : Exchange where
  responses _ :=
    { statusCode := 200
      chunks := bodyOf [⟨[1], [1]⟩, ⟨[2, 3], [2, 3]⟩]
      identity := by
        intro _ n c hc
        match n, hc with
        | 0, hc => cases hc; rfl
        | 1, hc => cases hc; rfl
      request := requestOf "GET" }
  count := 1

/-- Under a cap of two bytes, both chunks are pulled and no more; under a cap of three bytes, they are the
content. -/
theorem readCapped_exact_twoChunks :
    observed (readCapped .async 3 0 2 (requestOf "GET") twoChunks) =
      .raised (.responseTooLarge 200 2 none .streamed) ∧
    IsLeast {k | 2 < (decodedBytes ([⟨[1], [1]⟩, ⟨[2, 3], [2, 3]⟩].take k)).length}
      ((readCapped .async 3 0 2 (requestOf "GET") twoChunks).2.responses 0).pulled ∧
    observed (readCapped .sync 3 0 3 (requestOf "GET") twoChunks) =
      .ok (some ⟨[1, 2, 3], .httpware⟩) := by
  have hopen : Unread (twoChunks.responses 0) := ⟨rfl, rfl, rfl, rfl, rfl⟩
  have hbody : responseHasBody (requestOf "GET").method (twoChunks.responses 0).statusCode = true := by
    decide +kernel
  have hdeclared : parseContentLength ((twoChunks.responses 0).headers.get "content-length") = none :=
    rfl
  obtain ⟨hraised, -, hleast⟩ :=
    @readCapped_exact .async 3 0 2 (requestOf "GET") twoChunks _ hopen rfl hbody (by decide)
  obtain ⟨hok, -, -⟩ :=
    @readCapped_exact .sync 3 0 3 (requestOf "GET") twoChunks _ hopen rfl hbody (by decide)
  rw [hdeclared] at hraised hleast hok
  exact ⟨hraised, hleast (by rintro ⟨n, hn, -⟩; cases hn) (by decide), hok⟩

end Httpware.BodyCap
