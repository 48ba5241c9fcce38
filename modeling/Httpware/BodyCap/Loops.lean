import Httpware.BodyCap.Calls

/-!
# Loops over a body, as functions of its chunks

A loop over a response's stream changes only the response that it reads, and in it only the number of
chunks pulled and whether it is closed. `Stream.consume` is the loop as a function of the chunks, and
`forEach_eq` says that the loop is this function.
-/

namespace Httpware.BodyCap

open Program (Result)

/-- How a loop over a body ends, after how many `next`s, and whether the last one found the end of the
body. -/
structure Consumed (β : Type) where
  result : Result Exc β
  pulled : ℕ
  exhausted : Bool

/-- The loop over the transport's stream, from the chunk with number `n`. -/
def consume (chunks : ℕ → Pull) {β : Type} (body : β → Chunk → Step β) : ℕ → ℕ → β → Consumed β
  | 0, n, _ => ⟨.pending, n, false⟩
  | rounds + 1, n, b =>
    match chunks n with
    | .stop => ⟨.ok b, n + 1, true⟩
    | .raised e => ⟨.raised e, n + 1, false⟩
    | .chunk c =>
      match body b c with
      | .next b => consume chunks body rounds (n + 1) b
      | .done b => ⟨.ok b, n + 1, false⟩
      | .raise e => ⟨.raised e, n + 1, false⟩

/-- The loop over a response's stream, from the chunk with number `n`. -/
def Stream.consume (chunks : ℕ → Pull) (rounds n : ℕ) :
    Stream → {β : Type} → β → (β → Chunk → Step β) → Consumed β
  | transport, _, b, body => BodyCap.consume chunks body rounds n b
  | capped inner cap statusCode contentLength, _, b, body =>
    let loop := inner.consume chunks rounds n (0, b) (cappedBody cap statusCode contentLength body)
    ⟨loop.result.map Prod.snd, loop.pulled, loop.exhausted⟩
  | bytes, _, b, _ => ⟨.ok b, n, false⟩

/-- A response that a loop has read from. -/
def StreamedResponse.afterLoop (r : StreamedResponse) (pulled : ℕ) (exhausted : Bool) :
    StreamedResponse :=
  { r with pulled, isClosed := r.isClosed || exhausted }

/-- Nothing was read. -/
theorem StreamedResponse.afterLoop_self (r : StreamedResponse) :
    r.afterLoop r.pulled false = r := by
  rw [StreamedResponse.afterLoop, Bool.or_false]

/-- One more chunk was read, and then the others. -/
theorem StreamedResponse.afterLoop_afterLoop (r : StreamedResponse) (m n : ℕ) (exhausted : Bool) :
    (r.afterLoop m false).afterLoop n exhausted = r.afterLoop n exhausted := by
  rw [StreamedResponse.afterLoop, StreamedResponse.afterLoop, StreamedResponse.afterLoop,
    Bool.or_false]

theorem Exchange.set_self (x : Exchange) (id : ℕ) : x.set id (x.responses id) = x := by
  rw [Exchange.set, Function.update_eq_self]

theorem Exchange.set_set (x : Exchange) (id : ℕ) (r s : StreamedResponse) :
    (x.set id r).set id s = x.set id s := by
  rw [Exchange.set, Exchange.set, Exchange.set, Function.update_idem]

variable {rounds id : ℕ} {β : Type}

/-- A round of the loop over the transport's stream, from what its `next` gives. -/
theorem pullRound_eq (b : β) (body : β → Chunk → Step β) (x : Exchange) :
    pullRound id body b x =
      match (x.responses id).chunks (x.responses id).pulled with
      | .stop => (.ok (.inl b),
          x.set id ((x.responses id).afterLoop ((x.responses id).pulled + 1) true))
      | .raised e => (.raised e,
          x.set id ((x.responses id).afterLoop ((x.responses id).pulled + 1) false))
      | .chunk c =>
        ((match body b c with
          | .next b => .ok (.inr b)
          | .done b => .ok (.inl b)
          | .raise e => .raised e),
          x.set id ((x.responses id).afterLoop ((x.responses id).pulled + 1) false)) := by
  have hpull : pull id x = (.ok ((x.responses id).chunks (x.responses id).pulled),
      x.set id ((x.responses id).afterLoop ((x.responses id).pulled + 1) false)) := by
    rw [pull_eq, StreamedResponse.afterLoop, Bool.or_false]
  rw [pullRound, Program.bind_of_ok hpull]
  cases (x.responses id).chunks (x.responses id).pulled with
  | stop =>
    -- The end of the body closes the response.
    change (Result.ok (Sum.inl b), (x.set id _).set id _) = _
    rw [x.set_set, x.set_here, StreamedResponse.afterLoop, StreamedResponse.afterLoop, Bool.or_true]
  | raised e => rfl
  | chunk c =>
    dsimp only
    cases body b c with
    | next b' => rfl
    | done b' => rfl
    | raise e => rfl

/-- The loop over the transport's stream. -/
theorem forEachPull_eq (b : β) (body : β → Chunk → Step β) (x : Exchange) :
    forEachPull rounds id b body x =
      ((consume (x.responses id).chunks body rounds (x.responses id).pulled b).result,
        x.set id ((x.responses id).afterLoop
          (consume (x.responses id).chunks body rounds (x.responses id).pulled b).pulled
          (consume (x.responses id).chunks body rounds (x.responses id).pulled b).exhausted)) := by
  induction rounds generalizing b x with
  | zero =>
    have hself : x.set id ((x.responses id).afterLoop (x.responses id).pulled false) = x := by
      rw [StreamedResponse.afterLoop_self, x.set_self]
    exact congrArg (Prod.mk Result.pending) hself.symm
  | succ rounds ih =>
    have hround := @pullRound_eq id β b body x
    rw [forEachPull, Program.loop, consume]
    cases hc : (x.responses id).chunks (x.responses id).pulled with
    | stop =>
      rw [hc] at hround
      rw [Program.bind_of_ok hround]
      rfl
    | raised e =>
      rw [hc] at hround
      rw [Program.bind_of_raised hround]
    | chunk c =>
      rw [hc] at hround
      dsimp only at hround ⊢
      cases hb : body b c with
      | next b' =>
        rw [hb] at hround
        rw [Program.bind_of_ok hround]
        -- The rest of the loop starts where this round left the stream.
        change forEachPull rounds id b' body _ = _
        rw [ih, x.set_here, x.set_set, StreamedResponse.afterLoop_afterLoop]
        rfl
      | done b' =>
        rw [hb] at hround
        rw [Program.bind_of_ok hround]
        rfl
      | raise e =>
        rw [hb] at hround
        rw [Program.bind_of_raised hround]

/-- The loop over a response's stream. -/
theorem forEach_eq (stream : Stream) (b : β) (body : β → Chunk → Step β) (x : Exchange) :
    stream.forEach rounds id b body x =
      ((stream.consume (x.responses id).chunks rounds (x.responses id).pulled b body).result,
        x.set id ((x.responses id).afterLoop
          (stream.consume (x.responses id).chunks rounds (x.responses id).pulled b body).pulled
          (stream.consume (x.responses id).chunks rounds (x.responses id).pulled b
            body).exhausted)) := by
  induction stream generalizing β with
  | transport => exact forEachPull_eq b body x
  | capped inner cap statusCode contentLength ih =>
    rw [Stream.forEach, Stream.consume]
    -- The stream inside runs the counting body, and ends as it does.
    have hinner := ih (0, b) (cappedBody cap statusCode contentLength body)
    revert hinner
    generalize inner.consume _ _ _ (0, b) (cappedBody cap statusCode contentLength body) = loop
    rcases loop with ⟨_ | _ | _, n, exhausted⟩
    · intro hinner
      rw [Program.bind_of_ok hinner]
      rfl
    · intro hinner
      rw [Program.bind_of_raised hinner]
      rfl
    · intro hinner
      rw [Program.bind_of_pending hinner]
      rfl
  | bytes =>
    have hself : x.set id ((x.responses id).afterLoop (x.responses id).pulled false) = x := by
      rw [StreamedResponse.afterLoop_self, x.set_self]
    exact congrArg (Prod.mk (Result.ok b)) hself.symm

/-- The loop over the decoded chunks of an open response that nobody has read. -/
theorem iterBytes_eq (rounds : ℕ) (b : β) (body : β → Bytes → Step β) {x : Exchange}
    (hcontent : (x.responses id).content = none)
    (hconsumed : (x.responses id).isStreamConsumed = false)
    (hclosed : (x.responses id).isClosed = false) :
    iterBytes rounds id b body x =
      (((x.responses id).stream.consume (x.responses id).chunks rounds (x.responses id).pulled b
          (decodedBody body)).result,
        x.set id ((x.responses id).consumed.afterLoop
          ((x.responses id).stream.consume (x.responses id).chunks rounds (x.responses id).pulled b
            (decodedBody body)).pulled
          ((x.responses id).stream.consume (x.responses id).chunks rounds (x.responses id).pulled b
            (decodedBody body)).exhausted)) := by
  rw [iterBytes, response_bind, hcontent]
  dsimp only
  rw [hconsumed, hclosed, if_neg Bool.false_ne_true, if_neg Bool.false_ne_true, update_bind,
    forEach_eq, x.set_here, x.set_set]

/-- A loop over the decoded chunks of a response changes nothing else. -/
theorem iterBytes_frame (b : β) (body : β → Bytes → Step β) (x : Exchange) :
    (iterBytes rounds id b body x).2 = x ∨ ∃ pulled exhausted, (iterBytes rounds id b body x).2 =
      x.set id ((x.responses id).consumed.afterLoop pulled exhausted) := by
  cases hcontent : (x.responses id).content with
  | some content =>
    refine .inl ?_
    rw [iterBytes, response_bind, hcontent]
    dsimp only
    cases decodedBody body b ⟨content.data, content.data⟩ with
    | next b' => rfl
    | done b' => rfl
    | raise e => rfl
  | none =>
    cases hconsumed : (x.responses id).isStreamConsumed with
    | true =>
      refine .inl ?_
      rw [iterBytes, response_bind, hcontent, hconsumed]
      rfl
    | false =>
      cases hclosed : (x.responses id).isClosed with
      | true =>
        refine .inl ?_
        rw [iterBytes, response_bind, hcontent, hconsumed, hclosed]
        rfl
      | false =>
        rw [iterBytes_eq rounds b body hcontent hconsumed hclosed]
        exact .inr ⟨_, _, rfl⟩

end Httpware.BodyCap
