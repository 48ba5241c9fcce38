import Httpware.BodyCap.Frame

/-!
# No response leaks

When a call under the cap has returned or raised, every response object of it is closed, and so is
the auth flow; the driver returns with one response open at most, the one that it returns. While the
driver works on one response, every other is closed (`ClosedBut`), and each function that gives a
response up closes it on every way out (`readCappedAndClose_closes`, `discardAndClose_closes`). A
server, a body, or a flow may raise anything at any time; only a close itself does not raise.
-/

namespace Httpware.BodyCap

open Program (Triple Keeps Ends)

/-- Every response object is closed, and, where `flow` says so, the auth flow. -/
structure AllClosed (flow : Bool) (x : Exchange) : Prop where
  responses : ∀ d < x.count, (x.responses d).isClosed = true
  flow : flow = true → x.flowClosed = true

/-- Every response object is closed but `id`, which may be open, and, where `flow` says so, the auth
flow is closed. -/
structure ClosedBut (flow : Bool) (id : ℕ) (x : Exchange) : Prop where
  others : ∀ d < x.count, d ≠ id → (x.responses d).isClosed = true
  flow : flow = true → x.flowClosed = true

variable {flow : Bool} {id : ℕ}

/-- The one that may be open can be closed as well. -/
theorem AllClosed.but {x : Exchange} (h : AllClosed flow x) (id : ℕ) : ClosedBut flow id x :=
  ⟨fun d hd _ => h.responses d hd, h.flow⟩

/-! ## Steps -/

/-- A change of the one response that may be open. -/
theorem ClosedBut.update {x : Exchange} (h : ClosedBut flow id x) (r : StreamedResponse) :
    ClosedBut flow id (x.set id r) := by
  refine ⟨fun d hd hne => ?_, h.flow⟩
  rw [x.set_other hne]
  exact h.others d hd hne

/-- Reading a response, or rebuilding it, opens no other. -/
theorem framed_closedBut : Framed id (ClosedBut flow id) := by
  refine ⟨fun _ => .modify fun _ hx => hx.update _, fun {x r} hx hr _ =>
    ⟨fun d hd hne => ?_, hx.flow⟩⟩
  change ((x.set x.count r).responses d).isClosed = true
  by_cases hnew : d = x.count
  · subst hnew
    rw [x.set_here]
    exact hr
  · rw [x.set_other hnew]
    have hle : d < x.count + 1 := hd
    exact hx.others d (by omega) hne

/-- `close` closes the last one. -/
theorem close_closes :
    Triple (ClosedBut flow id) (close id) (Ends (fun _ => AllClosed flow) fun _ _ => False) := by
  refine .modify fun x hx => ⟨fun d hd => ?_, hx.flow⟩
  by_cases hne : d = id
  · subst hne
    rw [x.set_here]
  · rw [x.set_other hne]
    exact hx.others d hd hne

/-- A history is set, which opens nothing. -/
theorem keeps_historyClosed (history : List ℕ) :
    Keeps (AllClosed flow) (setHistory id history) := by
  refine .modify fun x hx => ⟨fun d hd => ?_, hx.flow⟩
  by_cases hne : d = id
  · subst hne
    rw [x.set_here]
    exact hx.responses d hd
  · rw [x.set_other hne]
    exact hx.responses d hd

/-- A response object that is made open is the one that may be. -/
theorem new_opens (r : StreamedResponse) :
    Triple (AllClosed flow) (new r) (Ends (ClosedBut flow) fun _ _ => False) := by
  rintro x hx
  refine ⟨fun d hd hne => ?_, hx.flow⟩
  change ((x.set x.count r).responses d).isClosed = true
  rw [x.set_other hne]
  have hle : d < x.count + 1 := hd
  have hlt : d ≠ x.count := hne
  exact hx.responses d (by omega)

/-! ## Reading -/

section Read

variable {rounds cap : ℕ}

/-- Buffering a body closes its response on every way out. -/
theorem readCappedAndClose_closes (mode : Mode) :
    Triple (ClosedBut flow id) (readCappedAndClose mode rounds id cap)
      (Ends (fun _ => AllClosed flow) fun _ => AllClosed flow) := by
  have hread : Keeps (ClosedBut flow id) (do
      let r ← response id
      readCapped mode rounds id cap r.request) :=
    Keeps.bind .get fun r => framed_closedBut.keeps_readCapped mode r.request
  exact Ends.onExit hread.ends (fun _ => close_closes) fun _ => close_closes

/-- Discarding a body closes its response on every way out. -/
theorem discardAndClose_closes :
    Triple (ClosedBut flow id) (discardAndClose rounds id cap)
      (Ends (fun _ => AllClosed flow) fun _ => AllClosed flow) := by
  have hdiscard : Keeps (ClosedBut flow id) (do
      let r ← response id
      if ¬ r.isStreamConsumed then discardWithinCap rounds id cap else return) := by
    refine Keeps.bind .get fun r => ?_
    split_ifs
    · exact .pure
    · exact framed_closedBut.keeps_discardWithinCap
  exact Ends.onExit hdiscard.ends (fun _ => close_closes) fun _ => close_closes

end Read

/-! ## The driver -/

section Driver

variable {rounds cap : ℕ}

/-- A request is answered by a response that is open, or not at all. -/
theorem send_opens (client : Client) (request : Request) :
    Triple (AllClosed flow) (send client request)
      (Ends (ClosedBut flow) fun _ => AllClosed flow) := by
  have hmodify : ∀ sent : List Request, Triple (fun x => AllClosed flow x ∧ x.sent = sent)
      (Program.modify fun x => { x with sent := x.sent ++ [request] } : Call Unit)
      (Ends (fun _ => AllClosed flow) fun _ => AllClosed flow) :=
    fun _ => .modify fun x hx => ⟨hx.1.responses, hx.1.flow⟩
  unfold send
  refine Ends.get fun sent => Ends.bind (hmodify sent) fun _ => ?_
  split
  · exact .raise fun _ hx => hx
  · exact Ends.mono (new_opens _) (fun _ hx => hx) (fun _ _ hx => hx) fun _ _ hx => hx.elim

/-- A hop ends with the response open, or goes on with every response closed. -/
theorem redirectHop_opens (client : Client) (next : Request × List ℕ) :
    Triple (AllClosed flow) (redirectHop client rounds cap next)
      (Ends (Sum.elim (ClosedBut flow) fun _ => AllClosed flow) fun _ => AllClosed flow) := by
  unfold redirectHop
  dsimp only
  split
  · -- Too many redirects, before another request.
    exact .raise fun _ hx => hx
  · refine Ends.bind (send_opens client next.1) fun id => ?_
    refine Ends.bind (Q := fun _ => ClosedBut flow id) (.modify fun _ hx => hx.update _) fun _ => ?_
    refine Ends.get fun r => Triple.consequence (P := ClosedBut flow id) ?_ (fun _ hx => hx.1)
      fun _ _ hx => hx
    split
    · exact .pure fun _ hx => hx
    · split_ifs
      · exact Ends.bind discardAndClose_closes fun _ => .pure fun _ hx => hx
      · exact .pure fun _ hx => hx

/-- The redirects leave the last response open. -/
theorem sendRedirectHops_opens (client : Client) (request : Request) (priorHistory : List ℕ) :
    Triple (AllClosed flow) (sendRedirectHops client rounds request priorHistory cap)
      (Ends (ClosedBut flow) fun _ => AllClosed flow) := by
  rw [sendRedirectHops_eq]
  exact Ends.loop (J := fun _ => AllClosed flow) (redirectHop_opens client) rounds _

/-- What the flow is sent is open, or every response is closed. -/
theorem handOver_opens (mode : Mode) (auth : Auth) :
    Triple (ClosedBut flow id) (handOver mode auth rounds id cap)
      (Ends (ClosedBut flow) fun _ => AllClosed flow) := by
  unfold handOver
  split_ifs
  · exact Ends.mono (readCappedAndClose_closes mode) (fun _ hx => hx) (fun id _ hx => hx.but id)
      fun _ _ hx => hx
  · exact .pure fun _ hx => hx

/-- A resumption of the auth flow may close the response that it is given, and opens none. -/
theorem resume_opens (auth : Auth) :
    Triple (ClosedBut flow id) (resume auth (some id))
      (Ends (fun _ => ClosedBut flow id) fun _ _ => False) := by
  refine Ends.get fun n => Ends.bind (Q := fun _ => ClosedBut flow id) ?_ fun _ => ?_
  · exact .modify fun x hx => ⟨hx.1.others, hx.1.flow⟩
  · refine Ends.bind (Q := fun _ => ClosedBut flow id) (.modify fun _ hx => hx.update _) fun _ => ?_
    exact .pure fun _ hx => hx

/-- The first resumption is given none. -/
theorem keeps_resumeFirst (auth : Auth) : Keeps (AllClosed flow) (resume auth none) := by
  refine Keeps.bind .get fun n => Keeps.bind ?_ fun _ => .pure
  exact .modify fun x hx => ⟨hx.responses, hx.flow⟩

/-- The flow ends with its response open, or every response is closed. -/
theorem answer_opens (auth : Auth) (history : List ℕ) :
    Triple (ClosedBut flow id) (answer auth rounds cap history id)
      (Ends (Sum.elim (ClosedBut flow) fun _ => AllClosed flow) fun _ => AllClosed flow) := by
  have hresume : Triple (ClosedBut flow id) (resume auth (some id))
      (Ends (fun _ => ClosedBut flow id) fun _ => AllClosed flow) :=
    Ends.mono (resume_opens auth) (fun _ hx => hx) (fun _ _ hx => hx) fun _ _ hx => hx.elim
  unfold answer
  refine Ends.bind hresume fun resumed => ?_
  cases resumed with
  | stops => exact .pure fun _ hx => hx
  | raises e =>
    -- The response that the flow was given is closed before the exception goes on.
    have hclose : Triple (ClosedBut flow id) (close id)
        (Ends (fun _ => AllClosed flow) fun _ => AllClosed flow) :=
      Ends.mono close_closes (fun _ hx => hx) (fun _ _ hx => hx) fun _ _ hx => hx.elim
    exact Ends.bind hclose fun _ => .raise fun _ hx => hx
  | yields next =>
    refine Ends.bind discardAndClose_closes fun _ => ?_
    exact Ends.bind (keeps_historyClosed history).ends fun _ => .pure fun _ hx => hx

/-- An auth step ends with the response open, or goes on with every response closed. -/
theorem authStep_opens (mode : Mode) (client : Client) (auth : Auth) (next : Request × List ℕ) :
    Triple (AllClosed flow) (authStep mode client auth rounds cap next)
      (Ends (Sum.elim (ClosedBut flow) fun _ => AllClosed flow) fun _ => AllClosed flow) :=
  Ends.bind (sendRedirectHops_opens client next.1 next.2) fun _ =>
    Ends.bind (handOver_opens mode auth) fun _ => answer_opens auth next.2

/-- The driver closes the auth flow on every way out, and returns with one response open at most. -/
theorem sendCapped_opens (mode : Mode) (client : Client) (request : Request) :
    Triple (AllClosed false) (sendCapped mode client rounds request cap)
      (Ends (ClosedBut true) fun _ => AllClosed true) := by
  have hexit : ∀ x : Exchange, ∀ id, ClosedBut false id x →
      ClosedBut true id { x with flowClosed := true } := fun x id hx => ⟨hx.others, fun _ => rfl⟩
  rw [sendCapped_eq]
  refine Ends.onExit (Q := ClosedBut false) (E := fun _ => AllClosed false) ?_
    (fun id => .modify fun x hx => hexit x id hx)
    fun e => .modify fun x hx => ⟨hx.responses, fun _ => rfl⟩
  refine Ends.bind (keeps_resumeFirst _).ends fun resumed => ?_
  cases resumed with
  | stops => exact .raise fun _ hx => hx
  | raises e => exact .raise fun _ hx => hx
  | yields first =>
    exact Ends.loop (J := fun _ => AllClosed false) (authStep_opens mode client _) rounds _

/-- The terminal closes every response. -/
theorem terminal_closes (mode : Mode) (client : Client) (request : Request) :
    Triple (AllClosed false) (terminal mode client rounds cap request)
      (Ends (fun _ => AllClosed true) fun _ => AllClosed true) := by
  unfold terminal
  refine Ends.bind (Q := fun _ => AllClosed true) ?_ fun id => ?_
  · refine Ends.catching (E := fun _ => AllClosed true) ?_ fun e => .raise fun _ hx => hx
    exact Ends.bind (sendCapped_opens mode client request) fun id => readCappedAndClose_closes mode
  · exact Ends.bind (keeps_raiseOnStatus id).ends fun _ => .pure fun _ hx => hx

/-- `stream()` closes every response, however its block is left. -/
theorem stream_closes (mode : Mode) (client : Client) (request : Request) (use : Use)
    (leaves : Option Exc) :
    Triple (AllClosed false) (stream mode client rounds cap request use leaves)
      (Ends (fun _ => AllClosed true) fun _ => AllClosed true) := by
  unfold stream
  refine Ends.catching (E := fun _ => AllClosed true) ?_ fun e => .raise fun _ hx => hx
  refine Ends.bind (Q := ClosedBut true) ?_ fun id => ?_
  · exact Ends.catching (E := fun _ => AllClosed true) (sendCapped_opens mode client request)
      fun e => .raise fun _ hx => hx
  refine Ends.onExit (Q := fun _ => ClosedBut true id) (E := fun _ => ClosedBut true id) ?_
    (fun _ => close_closes) fun _ => close_closes
  have hblock : Keeps (ClosedBut true id) (do
      update id fun r => r.use use
      leaveBlock leaves) := by
    refine (framed_closedBut.touched (touches_use use)).bind fun _ => ?_
    cases leaves with
    | some e => exact .raise
    | none => exact .pure
  refine Keeps.ends (Keeps.bind .get fun r => ?_)
  dsimp only
  split_ifs
  · refine (framed_closedBut.keeps_readCapped mode r.request).bind fun buffered => ?_
    exact (keeps_raiseOnStatus buffered).bind fun _ => hblock
  · exact hblock

end Driver

/-! ## The claim -/

/-- When a call has returned or raised, every response and the auth flow are closed; and when the
driver returns a response, every other one is. -/
theorem no_response_leaks (mode : Mode) (client : Client) (rounds cap : ℕ) (request : Request) :
    (∀ call : CappedCall, (call.run mode client rounds cap request .start).1 ≠ .pending →
      AllClosed true (call.run mode client rounds cap request .start).2) ∧
    ∀ id x, sendCapped mode client rounds request cap .start = (.ok id, x) → ClosedBut true id x := by
  have hstart : AllClosed false .start := ⟨fun d hd => absurd hd (Nat.not_lt_zero d), nofun⟩
  refine ⟨fun call => ?_, fun id x hx => ?_⟩
  · have hrun : Triple (AllClosed false) (call.run mode client rounds cap request)
        (Ends (fun _ => AllClosed true) fun _ => AllClosed true) := by
      cases call with
      | terminal =>
        exact Ends.bind (terminal_closes mode client request) fun _ => .pure fun _ hx => hx
      | stream use leaves => exact stream_closes mode client request use leaves
    have hends := hrun .start hstart
    intro hpending
    revert hends hpending
    cases (call.run mode client rounds cap request .start).1 with
    | ok _ => exact fun hends _ => hends
    | raised _ => exact fun hends _ => hends
    | pending => exact fun _ hpending => absurd rfl hpending
  · exact Ends.of_ok (sendCapped_opens mode client request) hstart hx

/-- A client that follows redirects, whose server redirects the requests that `redirects` says, and
replies to the others; every reply has a body of one byte. -/
def redirecting (maxRedirects : ℤ) (redirects : ℕ → Bool) : Client where
  followRedirects := true
  maxRedirects
  send n request := .ok
    { statusCode := if redirects n then 302 else 200
      nextRequest := if redirects n then some request else none
      chunks := fun m => if m = 0 then .chunk ⟨[0], [0]⟩ else .stop
      identity := by
        intro _ m c hc
        split at hc
        · cases hc
          rfl
        · cases hc }

/-- Two redirects: the terminal returns the third response, and all three are closed. -/
theorem no_response_leaks_redirects :
    (terminal .sync (redirecting 20 (· < 2)) 5 10 (requestOf "GET") .start).1.toOption = some 2 ∧
    AllClosed true
      (CappedCall.terminal.run .sync (redirecting 20 (· < 2)) 5 10 (requestOf "GET") .start).2 := by
  refine ⟨by decide +kernel, ?_⟩
  have hreturns : (CappedCall.terminal.run .sync (redirecting 20 (· < 2)) 5 10 (requestOf "GET")
      .start).1.toOption = some () := by decide +kernel
  refine (no_response_leaks .sync (redirecting 20 (· < 2)) 5 10 (requestOf "GET")).1 .terminal
    fun hpending => ?_
  rw [hpending] at hreturns
  cases hreturns

end Httpware.BodyCap
