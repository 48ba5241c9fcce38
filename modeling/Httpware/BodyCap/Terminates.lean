import Httpware.BodyCap.Closed
import Httpware.Lib.Rounds

/-!
# The driver ends

Each auth step starts its redirects from the history of the steps before it, so `max_redirects` bounds
the responses of one step and the number of steps, and redirects are thrown away in between: with `j`
steps made, one step more sends at most `M + 1 - j` requests, and the bound is the sum of these. `Within`
is the state of a call that has sent so many requests, with no history longer than `M`. The driver ends
because its outer loop lengthens the history and its inner loop the hops, if what is done with one
response ends.
-/

namespace Httpware.BodyCap

open Program (Triple Keeps Ends Result Grows Finishes Done)

/-! ## The number of requests -/

section Bound

/-- At most `s` requests were sent, and no response has more than `M` others as its history. -/
structure Within (M s : ℕ) (x : Exchange) : Prop where
  sent : x.sent.length ≤ s
  history : ∀ d, (x.responses d).history.length ≤ M

variable {M s id : ℕ} {x : Exchange}

theorem Within.mono {t : ℕ} (h : Within M s x) (hst : s ≤ t) : Within M t x :=
  ⟨h.sent.trans hst, h.history⟩

/-- A response with a history that is not too long. -/
theorem Within.set (h : Within M s x) {r : StreamedResponse} (hr : r.history.length ≤ M) :
    Within M s (x.set id r) := by
  refine ⟨h.sent, fun d => ?_⟩
  by_cases hd : d = id
  · subst hd
    rw [x.set_here]
    exact hr
  · rw [x.set_other hd]
    exact h.history d

/-- Reading sends nothing, and gives no response another history. -/
theorem framed_within : Framed id (Within M s) := by
  refine ⟨fun {f} hf => .modify fun x hx => hx.set ?_, fun {x r} hx _ hr => ?_⟩
  · rw [hf.history]
    exact hx.history id
  · have hset : Within M s (x.set x.count r) := hx.set (by rw [hr]; exact hx.history id)
    exact ⟨hset.sent, hset.history⟩

theorem keeps_setHistoryWithin {history : List ℕ} (h : history.length ≤ M) :
    Keeps (Within M s) (setHistory id history) := .modify fun _ hx => hx.set h

theorem keeps_resumeWithin (auth : Auth) (sent : Option ℕ) :
    Keeps (Within M s) (resume auth sent) := by
  refine Keeps.bind .get fun n => Keeps.bind ?_ fun _ => ?_
  · exact .modify fun x hx => ⟨hx.sent, hx.history⟩
  · cases sent with
    | none => exact .pure
    | some id => exact (framed_within.touched (touches_use _)).bind fun _ => .pure

/-- One request more. -/
theorem send_within (client : Client) (request : Request) :
    Triple (Within M s) (send client request) fun _ => Within M (s + 1) := by
  have hsent : Triple (Within M s)
      (Program.modify fun x => { x with sent := x.sent ++ [request] } : Call Unit)
      fun _ => Within M (s + 1) := by
    refine .modify fun x hx => ⟨?_, hx.history⟩
    rw [List.length_append]
    exact Nat.succ_le_succ hx.sent
  unfold send
  refine Triple.bind (R := fun _ => Within M s) (.get fun _ hx => hx) (fun sent => ?_)
    (fun _ _ hx => hx.mono (Nat.le_succ s)) fun _ hx => hx.mono (Nat.le_succ s)
  refine hsent.bind (fun _ => ?_) (fun _ _ hx => hx) fun _ hx => hx
  cases client.send sent.length request with
  | error e => exact .raise fun _ hx => hx
  | ok received =>
    intro x hx
    have hset : Within M (s + 1) (x.set x.count (received.streaming request)) :=
      hx.set (Nat.zero_le M)
    exact ⟨hset.sent, hset.history⟩

/-- The bound, with `j` auth steps made and `s` requests sent: the requests of a next step and of those
after it still fit. -/
def Budgeted (M j s : ℕ) : Prop := 2 * s + (M + 1 - j) * (M + 2 - j) ≤ (M + 1) * (M + 2)

/-- What one step may send fits. -/
theorem Budgeted.step {j : ℕ} (h : Budgeted M j s) :
    s + (M + 1 - j) ≤ (M + 1) * (M + 2) / 2 := by
  rw [Nat.le_div_iff_mul_le two_pos]
  unfold Budgeted at h
  rcases Nat.eq_zero_or_pos (M + 1 - j) with hzero | hpos
  · rw [hzero] at h ⊢
    omega
  · have htwo : (M + 1 - j) * 2 ≤ (M + 1 - j) * (M + 2 - j) :=
      Nat.mul_le_mul_left _ (by omega)
    omega

/-- After the step, what the others may send fits. -/
theorem Budgeted.next {j : ℕ} (h : Budgeted M j s) (hj : j ≤ M) :
    Budgeted M (j + 1) (s + (M + 1 - j)) := by
  unfold Budgeted at h ⊢
  obtain ⟨n, rfl⟩ := Nat.exists_eq_add_of_le hj
  have hcount : j + n + 1 - j = n + 1 := by omega
  have hcount' : j + n + 2 - j = n + 2 := by omega
  have hrest : j + n + 1 - (j + 1) = n := by omega
  have hrest' : j + n + 2 - (j + 1) = n + 1 := by omega
  rw [hcount, hcount'] at h
  rw [hrest, hrest', hcount]
  calc 2 * (s + (n + 1)) + n * (n + 1) = 2 * s + (n + 1) * (n + 2) := by ring
    _ ≤ _ := h

variable {client : Client} {rounds cap j : ℕ}

/-- What a hop finds: the requests of this step are counted by the hops. -/
def HopsWithin (M j s : ℕ) (next : Request × List ℕ) (x : Exchange) : Prop :=
  j ≤ next.2.length ∧ next.2.length ≤ M + 1 ∧ Within M (s + (next.2.length - j)) x

/-- A hop sends one request, or none. -/
theorem redirectHop_within (hmax : client.maxRedirects = M) (next : Request × List ℕ) :
    Triple (HopsWithin M j s next) (redirectHop client rounds cap next) fun
      | .ok (.inl _), x => j ≤ M ∧ Within M (s + (M + 1 - j)) x
      | .ok (.inr next'), x => HopsWithin M j s next' x
      | _, x => Within M (s + (M + 1 - j)) x := by
  unfold redirectHop
  dsimp only
  rw [hmax]
  split
  · -- Too many redirects.
    exact .raise fun x ⟨_, hle, hx⟩ => hx.mono (by omega)
  · rename_i hshort
    have hlen : next.2.length ≤ M := by omega
    by_cases hj : j ≤ next.2.length
    · -- One request more than the hops have counted, which the limit allows.
      have hlast : ∀ x, Within M (s + (next.2.length - j) + 1) x → Within M (s + (M + 1 - j)) x :=
        fun x hx => hx.mono (by omega)
      have hsend : Triple (HopsWithin M j s next) (send client next.1) fun _ =>
          Within M (s + (next.2.length - j) + 1) :=
        (send_within client next.1).consequence (fun _ hx => hx.2.2) fun _ _ hx => hx
      refine hsend.bind (fun id => ?_) (fun _ _ hx => hlast _ hx) fun _ hx => hlast _ hx
      refine Triple.bind (keeps_setHistoryWithin hlen) (fun _ => ?_) (fun _ _ hx => hlast _ hx)
        fun _ hx => hlast _ hx
      refine Triple.bind (R := fun _ => Within M (s + (next.2.length - j) + 1)) (.get fun _ hx => hx)
        (fun r => ?_) (fun _ _ hx => hlast _ hx) fun _ hx => hlast _ hx
      split
      · exact .pure fun x hx => ⟨by omega, hlast x hx⟩
      · split_ifs
        · refine Triple.bind framed_within.keeps_discardAndClose (fun _ => ?_)
            (fun _ _ hx => hlast _ hx) fun _ hx => hlast _ hx
          refine .pure fun x hx => ⟨?_, ?_, ?_⟩
          · rw [List.length_append]
            omega
          · rw [List.length_append, List.length_singleton]
            omega
          · rw [List.length_append, List.length_singleton]
            exact hx.mono (by omega)
        · exact .pure fun x hx => ⟨by omega, hlast x hx⟩
    · exact fun x hx => absurd hx.1 hj

/-- The redirects of one step send at most as many requests as the limit leaves. -/
theorem sendRedirectHops_within (hmax : client.maxRedirects = M) (request : Request)
    (history : List ℕ) (hlen : history.length ≤ M + 1) :
    Triple (Within M s) (sendRedirectHops client rounds request history cap) fun
      | .ok _, x => history.length ≤ M ∧ Within M (s + (M + 1 - history.length)) x
      | _, x => Within M (s + (M + 1 - history.length)) x := by
  rw [sendRedirectHops_eq]
  refine Triple.consequence (Triple.loop (J := HopsWithin M history.length s)
    (fun next => (redirectHop_within hmax next).consequence (fun _ hx => hx) fun r x hr => ?_)
    (fun next x hx => ?_) rounds _) (fun x hx => ?_) fun r x hr => hr
  · rcases r with (_ | _) | _ | _ <;> exact hr
  · obtain ⟨hj, hle, hx⟩ := hx
    exact hx.mono (by omega)
  · refine ⟨le_rfl, hlen, ?_⟩
    dsimp only
    rw [Nat.sub_self]
    exact hx

/-- What an auth step finds. -/
def StepsWithin (M : ℕ) (next : Request × List ℕ) (x : Exchange) : Prop :=
  next.2.length ≤ M + 1 ∧ ∃ s, Budgeted M next.2.length s ∧ Within M s x

/-- How an auth step ends. -/
def StepEnds (M : ℕ) : Result Exc (ℕ ⊕ Request × List ℕ) → Exchange → Prop
  | .ok (.inr next), x => StepsWithin M next x
  | _, x => Within M ((M + 1) * (M + 2) / 2) x

/-- The part of an auth step after its redirects, which sends nothing. -/
theorem stepRest_within (mode : Mode) (auth : Auth) {history : List ℕ} (hshort : history.length ≤ M)
    (hbudget : Budgeted M history.length s) :
    Triple (Within M (s + (M + 1 - history.length)))
      (handOver mode auth rounds id cap >>= answer auth rounds cap history) (StepEnds M) := by
  let t := s + (M + 1 - history.length)
  have hfits : ∀ x, Within M t x → Within M ((M + 1) * (M + 2) / 2) x := fun x hx =>
    hx.mono hbudget.step
  have hhandOver : Keeps (Within M t) (handOver mode auth rounds id cap) := by
    unfold handOver
    split_ifs
    · exact framed_within.keeps_readCappedAndClose mode
    · exact .pure
  refine Triple.bind hhandOver (fun id => ?_) (fun _ _ hx => hfits _ hx) fun _ hx => hfits _ hx
  unfold answer
  refine Triple.bind (keeps_resumeWithin auth (some id)) (fun resumed => ?_)
    (fun _ _ hx => hfits _ hx) fun _ hx => hfits _ hx
  cases resumed with
  | stops => exact .pure hfits
  | raises e =>
    exact Triple.bind framed_within.keeps_close (fun _ => .raise hfits) (fun _ _ hx => hfits _ hx)
      fun _ hx => hfits _ hx
  | yields nextRequest =>
    refine Triple.bind framed_within.keeps_discardAndClose (fun _ => ?_) (fun _ _ hx => hfits _ hx)
      fun _ hx => hfits _ hx
    refine Triple.bind (keeps_setHistoryWithin hshort) (fun _ => ?_) (fun _ _ hx => hfits _ hx)
      fun _ hx => hfits _ hx
    -- One history longer, and the requests of this step are paid for.
    refine .pure fun x hx => ⟨?_, t, ?_, hx⟩
    · rw [List.length_append]
      exact Nat.succ_le_succ hshort
    · rw [List.length_append]
      exact hbudget.next hshort

/-- An auth step leaves enough for the next one. -/
theorem authStep_within (mode : Mode) (auth : Auth) (hmax : client.maxRedirects = M)
    (next : Request × List ℕ) :
    Triple (StepsWithin M next) (authStep mode client auth rounds cap next) (StepEnds M) := by
  rintro x ⟨hlen, s, hbudget, hx⟩
  have hstep : Triple (Within M s) (authStep mode client auth rounds cap next) (StepEnds M) := by
    have hfits : ∀ x, Within M (s + (M + 1 - next.2.length)) x →
        Within M ((M + 1) * (M + 2) / 2) x := fun x hx => hx.mono hbudget.step
    refine Triple.bind (sendRedirectHops_within hmax next.1 next.2 hlen) (fun id => ?_)
      (fun _ _ hx => hfits _ hx) fun _ hx => hfits _ hx
    exact fun x hx => stepRest_within mode auth hx.1 hbudget x hx.2
  exact hstep x hx

/-- The driver is within the bound at every moment. -/
theorem sendCapped_within (mode : Mode) (request : Request) (hmax : client.maxRedirects = M) :
    Within M ((M + 1) * (M + 2) / 2) (sendCapped mode client rounds request cap .start).2 := by
  have hstart : Within M 0 .start := ⟨le_rfl, fun _ => Nat.zero_le M⟩
  have hrun : Triple (Within M 0) (sendCapped mode client rounds request cap) fun _ =>
      Within M ((M + 1) * (M + 2) / 2) := by
    rw [sendCapped_eq]
    refine Triple.onExit (R := fun _ => Within M ((M + 1) * (M + 2) / 2))
      (S := fun _ _ => Within M ((M + 1) * (M + 2) / 2)) ?_
      (fun _ _ => .modify fun x hx => ⟨hx.sent, hx.history⟩) (fun _ _ _ hx => hx)
      (fun _ _ _ hx => hx) (fun _ _ hx => hx) fun _ hx => hx
    have hfew : ∀ x, Within M 0 x → Within M ((M + 1) * (M + 2) / 2) x := fun x hx =>
      hx.mono (Nat.zero_le _)
    refine Triple.bind (keeps_resumeWithin _ none) (fun resumed => ?_) (fun _ _ hx => hfew _ hx)
      fun _ hx => hfew _ hx
    cases resumed with
    | stops => exact .raise hfew
    | raises e => exact .raise hfew
    | yields first =>
      -- Every auth step leaves enough for the longer history that it returns.
      refine Triple.consequence (Triple.loop (J := StepsWithin M) (fun next =>
        (authStep_within mode _ hmax next).consequence (fun _ hx => hx) fun r x hr => ?_)
        (fun next x hx => ?_) rounds _) (fun x hx => ?_) fun _ _ hx => hx
      · rcases r with (_ | _) | _ | _ <;> exact hr
      · obtain ⟨_, s, hbudget, hx⟩ := hx
        exact hx.mono (le_trans (Nat.le_add_right s _) hbudget.step)
      · exact ⟨Nat.zero_le _, 0, by rw [Budgeted]; simp, hx⟩
  exact hrun .start hstart

end Bound

/-! ## More rounds -/

section More

variable {id cap : ℕ} {β : Type}

theorem grows_forEach (stream : Stream) (b : β) (body : β → Chunk → Step β) :
    Grows fun rounds => stream.forEach rounds id b body := by
  induction stream generalizing β with
  | transport => exact Grows.loop (fun b => .const (pullRound id body b)) b
  | capped inner cap statusCode contentLength ih => exact (ih _ _).bind fun _ => .const _
  | bytes => exact .const _

theorem grows_iterBytes (b : β) (body : β → Bytes → Step β) :
    Grows fun rounds => iterBytes rounds id b body := by
  unfold iterBytes
  refine Grows.bind (.const _) fun r => ?_
  cases r.content with
  | some content => exact .const _
  | none =>
    dsimp only
    split_ifs
    · exact .const _
    · exact .const _
    · exact Grows.bind (.const _) fun _ => grows_forEach r.stream b _

theorem grows_read : Grows fun rounds => read rounds id := by
  unfold read
  refine Grows.bind (.const _) fun r => ?_
  cases r.content with
  | some content => exact .const _
  | none => exact (grows_iterBytes _ _).bind fun _ => .const _

theorem grows_discardAndClose : Grows fun rounds => discardAndClose rounds id cap := by
  unfold discardAndClose
  refine Grows.onExit (Grows.bind (.const _) fun r => ?_) _
  split_ifs
  · exact .const _
  · unfold discardWithinCap
    refine Grows.bind (.const _) fun r => ?_
    split_ifs
    · exact (grows_iterBytes _ _).bind fun _ => .const _
    · exact .const _

theorem grows_readCapped (mode : Mode) (request : Request) :
    Grows fun rounds => readCapped mode rounds id cap request := by
  unfold readCapped
  refine Grows.bind (.const _) fun _ => Grows.bind (.const _) fun r => ?_
  split_ifs
  · refine Grows.bind (.const _) fun contentLength => ?_
    unfold readThroughCappedStream
    refine Grows.bind (.const _) fun _ => ?_
    have hread : Grows fun rounds => (read rounds id).onRaise (close id) :=
      grows_read.catching fun _ => .const _
    exact hread.bind fun _ => .const _
  · refine Grows.bind (.const _) fun contentLength => ?_
    cases mode with
    | sync =>
      refine Grows.bind (.const _) fun r => Grows.bind ?_ fun _ => .const _
      exact (grows_iterBytes _ _).catching fun _ => .const _
    | async =>
      refine Grows.bind (.const _) fun r => ?_
      exact (grows_iterBytes _ _).bind fun _ => .const _
  · exact grows_read.bind fun _ => .const _

theorem grows_handOver (mode : Mode) (auth : Auth) :
    Grows fun rounds => handOver mode auth rounds id cap := by
  unfold handOver readCappedAndClose
  split_ifs
  · refine Grows.onExit (Grows.bind (.const _) fun r => ?_) _
    exact grows_readCapped mode r.request
  · exact .const _

end More

/-! ## Rounds enough -/

/-- A response as the transport handed it over, whatever its history. -/
def AsReceived (client : Client) (r : StreamedResponse) : Prop :=
  ∃ n request received history, client.send n request = .ok received ∧
    r = { received.streaming request with history }

/-- A response as it was handed over, or one that no loop reads. -/
def Settled (client : Client) (r : StreamedResponse) : Prop :=
  r.isClosed = true ∨ r.isStreamConsumed = true ∨ AsReceived client r

section Enough

variable {client : Client} {mode : Mode} {auth : Auth} {id cap M : ℕ}

/-- From such an exchange, the call ends. -/
def Terminates {α : Type} (P : Exchange → Prop) (p : Call α) : Prop :=
  Triple P p fun r _ => r ≠ .pending

namespace Terminates

variable {α γ : Type} {P : Exchange → Prop} {p : Call α} {f : α → Call γ}

/-- A call that always ends. -/
protected theorem of_always (h : ∀ x, (p x).1 ≠ .pending) : Terminates P p := fun x _ => h x

/-- What follows has no loop. -/
protected theorem bind (h : Terminates P p) (hf : ∀ a x, (f a x).1 ≠ .pending) :
    Terminates P (p >>= f) :=
  Triple.bind h (fun a x _ => hf a x) (fun _ _ _ => Result.raised_ne_pending _) fun _ hr =>
    absurd rfl hr

/-- A step before it has no loop. -/
protected theorem bind_of_keeps (h : Keeps P p) (hp : ∀ x, (p x).1 ≠ .pending)
    (hf : ∀ a, Terminates P (f a)) : Terminates P (p >>= f) := by
  have hboth : Triple P p fun r x => r ≠ .pending ∧ P x := fun x hx => ⟨hp x, h x hx⟩
  exact hboth.bind (fun a x hx => hf a x hx.2) (fun _ _ _ => Result.raised_ne_pending _) fun _ hr =>
    absurd rfl hr.1

/-- Nor has what handles its exceptions. -/
protected theorem catching {g : Exc → Call α} (h : Terminates P p)
    (hg : ∀ e x, (g e x).1 ≠ .pending) : Terminates P (p.catching g) :=
  Triple.catching h (fun _ _ hr => hr) (fun e x _ => hg e x) fun _ hr => hr

/-- Closing a response on exit is no loop. -/
protected theorem onExit_close (h : Terminates P p) : Terminates P (p.onExit (close id)) :=
  Triple.onExit h (S := fun r s _ => r ≠ .pending ∧ s = .ok ())
    (fun _ hr => .modify fun _ _ => ⟨hr, rfl⟩) (fun _ _ hr _ => hr) (fun _ _ _ hs => nomatch hs.2)
    (fun _ _ hs => nomatch hs.2) fun _ hr => hr

end Terminates

/-- Discarding a response ends where its loop does. -/
theorem discardAndClose_ends {P : Exchange → Prop} {rounds : ℕ}
    (h : ∀ body : ℕ → Bytes → Step ℕ, Terminates P (iterBytes rounds id 0 body)) :
    Terminates P (discardAndClose rounds id cap) := by
  refine Terminates.onExit_close (triple_each_response fun r => ?_)
  split_ifs
  · exact Terminates.of_always fun _ => Result.ok_ne_pending _
  · refine triple_each_response fun r => ?_
    split_ifs
    · exact (h _).bind fun _ _ => Result.ok_ne_pending _
    · exact Terminates.of_always fun _ => Result.ok_ne_pending _

/-- A loop over a body that is there has no rounds. -/
theorem iterBytes_of_content {rounds : ℕ} {β : Type} (b : β) (body : β → Bytes → Step β)
    {x : Exchange} {content : Content} (hcontent : (x.responses id).content = some content) :
    (iterBytes rounds id b body x).1 ≠ .pending := by
  rw [iterBytes, response_bind, hcontent]
  dsimp only
  cases decodedBody body b ⟨content.data, content.data⟩ with
  | next b' => exact Result.ok_ne_pending _
  | done b' => exact Result.ok_ne_pending _
  | raise e => exact Result.raised_ne_pending _

/-- No loop reads a response that is closed or consumed. -/
theorem iterBytes_unlooped {rounds : ℕ} {β : Type} (b : β) (body : β → Bytes → Step β) :
    Terminates (fun x => (x.responses id).isClosed = true ∨ (x.responses id).isStreamConsumed = true)
      (iterBytes rounds id b body) := by
  intro x h
  cases hcontent : (x.responses id).content with
  | some content => exact iterBytes_of_content b body hcontent
  | none =>
    rw [iterBytes, response_bind, hcontent]
    dsimp only
    cases hconsumed : (x.responses id).isStreamConsumed with
    | true => exact Result.raised_ne_pending _
    | false =>
      have hclosed : (x.responses id).isClosed = true := by simpa [hconsumed] using h
      rw [hclosed]
      exact Result.raised_ne_pending _

/-- Nor is it discarded in one. -/
theorem discardAndClose_unlooped {rounds : ℕ} :
    Terminates (fun x => (x.responses id).isClosed = true ∨ (x.responses id).isStreamConsumed = true)
      (discardAndClose rounds id cap) :=
  discardAndClose_ends fun body => iterBytes_unlooped 0 body

/-- A response that the flow used. -/
theorem Settled.use {r : StreamedResponse} (h : Settled client r) (use : Use) :
    Settled client (r.use use) := by
  unfold StreamedResponse.use
  split_ifs with hreads
  · exact .inr (.inl rfl)
  · rcases h with hclosed | hconsumed | hreceived
    · exact .inl (by simp [hclosed])
    · exact .inr (.inl hconsumed)
    · cases hcloses : use.closes with
      | true => exact .inl (by simp)
      | false =>
        refine .inr (.inr ?_)
        rw [show { r with isClosed := r.isClosed || false } = r by rw [Bool.or_false]]
        exact hreceived

/-- A reply of the server is a new response. -/
theorem send_received (request : Request) :
    Triple (fun _ => True) (send client request)
      (Done (fun id x => id < x.count ∧ ∃ n received, client.send n request = .ok received ∧
        x.responses id = received.streaming request) fun _ _ => True) := by
  rintro x -
  cases hreply : client.send x.sent.length request with
  | error e =>
    have hsend : send client request x =
        (.raised e, { x with sent := x.sent ++ [request] }) := by
      have hget : (Program.get Exchange.sent : Call _) x = (.ok x.sent, x) := rfl
      apply (Program.bind_of_ok hget).trans
      apply (Program.bind_of_ok rfl).trans
      rw [hreply]
      rfl
    rw [hsend]
    trivial
  | ok received =>
    have hsend : send client request x = new (received.streaming request)
        { x with sent := x.sent ++ [request] } := by
      have hget : (Program.get Exchange.sent : Call _) x = (.ok x.sent, x) := rfl
      apply (Program.bind_of_ok hget).trans
      apply (Program.bind_of_ok rfl).trans
      rw [hreply]
    rw [hsend]
    exact ⟨Nat.lt_succ_self _, _, received, hreply, x.set_here x.count _⟩

/-- Its history is set. -/
theorem setHistory_received (request : Request) (hops : List ℕ) :
    Triple (fun x => id < x.count ∧ ∃ n received, client.send n request = .ok received ∧
        x.responses id = received.streaming request) (setHistory id hops)
      (Done (fun _ x => id < x.count ∧ AsReceived client (x.responses id)) fun _ _ => True) := by
  refine .modify fun x ⟨hid, n, received, hreply, hhere⟩ => ⟨hid, ?_⟩
  rw [x.set_here, hhere]
  exact ⟨n, request, received, hops, hreply, rfl⟩

/-- What is done with one response ends: discarding a body, and handing a response to the auth flow. -/
structure Ending (mode : Mode) (client : Client) (auth : Auth) (cap : ℕ) : Prop where
  discards : ∀ x id, AsReceived client (x.responses id) →
    ∃ rounds, (discardAndClose rounds id cap x).1 ≠ .pending
  handsOver : ∀ x id, AsReceived client (x.responses id) →
    ∃ rounds, (handOver mode auth rounds id cap x).1 ≠ .pending

/-- Discarding a response that may have been used ends. -/
theorem discardAndClose_finishes (h : Ending mode client auth cap) :
    Finishes (fun x => Settled client (x.responses id)) (fun rounds => discardAndClose rounds id cap)
      (fun _ _ => True) fun _ _ => True := by
  refine .of_triple grows_discardAndClose (fun x hx => ?_) fun rounds x _ => ?_
  · rcases hx with hclosed | hconsumed | hreceived
    · exact ⟨0, discardAndClose_unlooped x (.inl hclosed)⟩
    · exact ⟨0, discardAndClose_unlooped x (.inr hconsumed)⟩
    · exact h.discards x id hreceived
  · cases (discardAndClose rounds id cap x).1 <;> trivial

/-- A hop ends, with a response or with one hop more. -/
theorem redirectHop_finishes (h : Ending mode client auth cap) (hmax : client.maxRedirects = M)
    (next : Request × List ℕ) :
    Finishes (fun _ => True) (fun rounds => redirectHop client rounds cap next)
      (Sum.elim
        (fun id x => next.2.length ≤ M ∧ id < x.count ∧ AsReceived client (x.responses id))
        fun next' _ => next.2.length ≤ M ∧ next'.2.length = next.2.length + 1)
      fun _ _ => True := by
  unfold redirectHop
  dsimp only
  rw [hmax]
  by_cases hlong : (next.2.length : ℤ) > M
  · simp only [if_pos hlong]
    exact .const (.raise fun _ _ => trivial)
  · simp only [if_neg hlong]
    have hshort : next.2.length ≤ M := by omega
    refine .bind (.const (send_received next.1)) fun id => ?_
    refine .bind (.const (setHistory_received next.1 next.2)) fun _ => ?_
    refine .get fun r => ?_
    -- A response that is not followed ends the hop.
    have hlast : Finishes (fun x => (id < x.count ∧ AsReceived client (x.responses id)) ∧
        x.responses id = r) (fun _ => (pure (.inl id) : Call (ℕ ⊕ Request × List ℕ)))
        (Sum.elim
          (fun id x => next.2.length ≤ M ∧ id < x.count ∧ AsReceived client (x.responses id))
          fun next' _ => next.2.length ≤ M ∧ next'.2.length = next.2.length + 1)
        fun _ _ => True := .const (.pure fun x hx => ⟨hshort, hx.1⟩)
    cases r.nextRequest with
    | none => exact hlast
    | some nextRequest =>
      dsimp only
      cases client.followRedirects with
      | false =>
        simp only [Bool.false_eq_true, not_false_eq_true, if_true]
        exact hlast
      | true =>
        simp only [not_true_eq_false, if_false]
        refine .bind ((discardAndClose_finishes h).mono (fun x hx => .inr (.inr hx.1.2))
          (fun _ _ hx => hx) fun _ _ hx => hx) fun _ => ?_
        refine .const (.pure fun x _ => ⟨hshort, ?_⟩)
        rw [List.length_append]
        rfl

/-- The redirects end. -/
theorem sendRedirectHops_finishes (h : Ending mode client auth cap) (hmax : client.maxRedirects = M)
    (request : Request) (history : List ℕ) :
    Finishes (fun _ => True) (fun rounds => sendRedirectHops client rounds request history cap)
      (fun id x => history.length ≤ M ∧ id < x.count ∧ AsReceived client (x.responses id))
      fun _ _ => True := by
  -- The variant is the number of hops that the limit leaves.
  let J : ℕ → Request × List ℕ → Exchange → Prop := fun k next _ =>
    k = M + 1 - next.2.length ∧ history.length ≤ next.2.length
  have hround : ∀ k next, Finishes (J k next) (fun rounds => redirectHop client rounds cap next)
      (Sum.elim (fun id x => history.length ≤ M ∧ id < x.count ∧ AsReceived client (x.responses id))
        fun next' x => ∃ k' < k, J k' next' x) fun _ _ => True := by
    intro k next
    have hhop := redirectHop_finishes h hmax next
    refine ⟨hhop.grows, fun x ⟨hk, hle⟩ => ?_⟩
    refine (hhop.mono (fun _ hx => hx) (fun d y hd => ?_) fun _ _ hx => hx).ends x trivial
    cases d with
    | inl id => exact ⟨hle.trans hd.1, hd.2⟩
    | inr next' =>
      obtain ⟨hshort, hlen⟩ := hd
      exact ⟨M + 1 - next'.2.length, by omega, rfl, by omega⟩
  have hloop := Finishes.loop hround (M + 1 - history.length) (request, history)
  exact hloop.mono (fun _ _ => ⟨rfl, le_rfl⟩) (fun _ _ hx => hx) fun _ _ hx => hx

/-- What the flow is sent can be discarded. -/
theorem handOver_finishes (h : Ending mode client auth cap) :
    Finishes (fun x => id < x.count ∧ AsReceived client (x.responses id))
      (fun rounds => handOver mode auth rounds id cap)
      (fun id x => Settled client (x.responses id)) fun _ _ => True := by
  refine .of_triple (grows_handOver mode auth) (fun x hx => h.handsOver x id hx.2) fun rounds => ?_
  have htrue : Framed id fun _ => True := ⟨fun _ _ _ => trivial, fun _ _ _ => trivial⟩
  unfold handOver
  split_ifs
  · refine Ends.mono (htrue.readCappedAndClose_buffered mode) (fun x hx => ⟨trivial, hx.1⟩)
      (fun id x hx => ?_) fun _ _ hx => hx
    exact .inl hx.2.2
  · exact .pure fun x hx => .inr (.inr hx.2)

/-- A resumption of the flow. -/
theorem resume_settled (sent : ℕ) :
    Triple (fun x => Settled client (x.responses sent)) (resume auth (some sent))
      (Done (fun _ x => Settled client (x.responses sent)) fun _ _ => True) := by
  intro x hx
  change Settled client ((Exchange.set _ sent _).responses sent)
  rw [Exchange.set_here]
  exact hx.use _

/-- The end of an auth step. -/
theorem answer_finishes (h : Ending mode client auth cap) (history : List ℕ) :
    Finishes (fun x => Settled client (x.responses id))
      (fun rounds => answer auth rounds cap history id)
      (Sum.elim (fun _ _ => True) fun next _ => next.2.length = history.length + 1)
      fun _ _ => True := by
  unfold answer
  refine .bind (.const (resume_settled id)) fun resumed => ?_
  cases resumed with
  | stops => exact .const (.pure fun _ _ => trivial)
  | raises e => exact .const fun _ _ => trivial
  | yields next =>
    refine .bind (discardAndClose_finishes h) fun _ => .const fun x _ => ?_
    exact List.length_append

/-- An auth step ends, with a response or with a longer history. -/
theorem authStep_finishes (h : Ending mode client auth cap) (hmax : client.maxRedirects = M)
    (next : Request × List ℕ) :
    Finishes (fun _ => True) (fun rounds => authStep mode client auth rounds cap next)
      (Sum.elim (fun _ _ => True) fun next' _ =>
        next.2.length ≤ M ∧ next'.2.length = next.2.length + 1) fun _ _ => True := by
  have hrest : ∀ id, Finishes (fun x => id < x.count ∧ AsReceived client (x.responses id))
      (fun rounds => handOver mode auth rounds id cap >>= answer auth rounds cap next.2)
      (Sum.elim (fun _ _ => True) fun next' _ => next'.2.length = next.2.length + 1)
      fun _ _ => True := fun id => .bind (handOver_finishes h) fun id => answer_finishes h next.2
  unfold authStep
  refine .bind (sendRedirectHops_finishes h hmax next.1 next.2) fun id => ?_
  refine .of_fact (hrest id).grows fun hshort => ?_
  refine (hrest id).mono (fun _ hx => hx) (fun d x hd => ?_) fun _ _ hx => hx
  cases d with
  | inl id => trivial
  | inr next' => exact ⟨hshort, hd⟩

/-- The driver ends. -/
theorem sendCapped_finishes (request : Request) (hmax : client.maxRedirects = M)
    (h : Ending mode client (requestAuth client request) cap) :
    Finishes (fun _ => True) (fun rounds => sendCapped mode client rounds request cap)
      (fun _ _ => True) fun _ _ => True := by
  -- The variant is the number of auth steps that the limit leaves.
  let J : ℕ → Request × List ℕ → Exchange → Prop := fun k next _ => k = M + 1 - next.2.length
  have hround : ∀ k next, Finishes (J k next)
      (fun rounds => authStep mode client (requestAuth client request) rounds cap next)
      (Sum.elim (fun _ _ => True) fun next' x => ∃ k' < k, J k' next' x) fun _ _ => True := by
    intro k next
    have hstep := authStep_finishes h hmax next
    refine ⟨hstep.grows, fun x hk => ?_⟩
    refine (hstep.mono (fun _ hx => hx) (fun d y hd => ?_) fun _ _ hx => hx).ends x trivial
    cases d with
    | inl id => trivial
    | inr next' =>
      obtain ⟨hshort, hlen⟩ := hd
      have hk' : k = M + 1 - next.2.length := hk
      exact ⟨M + 1 - next'.2.length, by omega, rfl⟩
  have hloop : ∀ first, Finishes (fun _ => True)
      (fun rounds => Program.loop (authStep mode client (requestAuth client request) rounds cap) rounds
        (first, [])) (fun _ _ => True) fun _ _ => True := fun first =>
    (Finishes.loop hround (M + 1) (first, [])).mono (fun _ _ => rfl) (fun _ _ hx => hx)
      fun _ _ hx => hx
  simp only [sendCapped_eq]
  refine .onExit (Q := fun _ _ => True) (E := fun _ _ => True) ?_ (fun _ => .modify fun _ _ => trivial)
    fun _ => .modify fun _ _ => trivial
  refine .bind (Q := fun _ _ => True) (.const fun _ _ => trivial) fun resumed => ?_
  cases resumed with
  | stops => exact .const (.raise fun _ _ => trivial)
  | raises e => exact .const (.raise fun _ _ => trivial)
  | yields first => exact hloop first

end Enough

/-! ## Bodies that end -/

section Bodies

variable {client : Client} {mode : Mode} {auth : Auth} {id cap m rounds : ℕ} {β : Type}

/-- A loop over chunks that end is over when they do. -/
theorem consume_ends {chunks : ℕ → Pull} {body : β → Chunk → Step β}
    (hends : ∀ c, chunks m ≠ .chunk c) {n : ℕ} (b : β) (hn : n ≤ m) (hrounds : m - n < rounds) :
    (consume chunks body rounds n b).result ≠ .pending := by
  induction rounds generalizing n b with
  | zero => omega
  | succ rounds ih =>
    rw [consume]
    cases hc : chunks n with
    | stop => exact Result.ok_ne_pending _
    | raised e => exact Result.raised_ne_pending _
    | chunk c =>
      dsimp only
      cases body b c with
      | next b' =>
        have hne : n ≠ m := by
          rintro rfl
          exact hends c hc
        exact ih b' (by omega) (by omega)
      | done b' => exact Result.ok_ne_pending _
      | raise e => exact Result.raised_ne_pending _

/-- And so is one through counting streams. -/
theorem Stream.consume_ends {chunks : ℕ → Pull} (stream : Stream) (b : β)
    (body : β → Chunk → Step β) (hends : ∀ c, chunks m ≠ .chunk c) (hrounds : m < rounds) :
    (stream.consume chunks rounds 0 b body).result ≠ .pending := by
  induction stream generalizing β with
  | transport => exact BodyCap.consume_ends hends b (Nat.zero_le m) hrounds
  | capped inner cap statusCode contentLength ih =>
    have hinner := ih (0, b) (cappedBody cap statusCode contentLength body)
    rw [Stream.consume]
    dsimp only
    revert hinner
    cases (inner.consume chunks rounds 0 (0, b)
      (cappedBody cap statusCode contentLength body)).result with
    | ok _ => exact fun _ => Result.ok_ne_pending _
    | raised _ => exact fun _ => Result.raised_ne_pending _
    | pending => exact fun hinner => absurd rfl hinner
  | bytes => exact Result.ok_ne_pending _

/-- A response that has not been read, with a body that has at most `m` chunks. -/
def EndsAt (m id : ℕ) (x : Exchange) : Prop :=
  (x.responses id).pulled = 0 ∧ ∀ c, (x.responses id).chunks m ≠ .chunk c

/-- A change that leaves the body. -/
theorem update_endsAt {f : StreamedResponse → StreamedResponse}
    (hpulled : ∀ r, (f r).pulled = r.pulled) (hchunks : ∀ r, (f r).chunks = r.chunks) :
    Keeps (EndsAt m id) (update id f) := by
  refine .modify fun x hx => ?_
  unfold EndsAt
  rw [x.set_here, hpulled, hchunks]
  exact hx

theorem iterBytes_ends (b : β) (body : β → Bytes → Step β) (hrounds : m < rounds) :
    Terminates (EndsAt m id) (iterBytes rounds id b body) := by
  intro x ⟨hpulled, hends⟩
  by_cases hread : (x.responses id).isClosed = true ∨ (x.responses id).isStreamConsumed = true
  · exact iterBytes_unlooped b body x hread
  · rw [not_or, Bool.not_eq_true, Bool.not_eq_true] at hread
    cases hcontent : (x.responses id).content with
    | some content => exact iterBytes_of_content b body hcontent
    | none =>
      rw [iterBytes_eq rounds b body hcontent hread.2 hread.1, hpulled]
      exact Stream.consume_ends _ b _ hends hrounds

theorem read_ends (hrounds : m < rounds) : Terminates (EndsAt m id) (read rounds id) := by
  refine triple_each_response fun r => ?_
  cases r.content with
  | some content => exact Terminates.of_always fun _ => Result.ok_ne_pending _
  | none => exact (iterBytes_ends _ _ hrounds).bind fun _ _ => Result.ok_ne_pending _

theorem reject_ne_pending (r : StreamedResponse) (x : Exchange) :
    (rejectIfDeclaredLengthExceedsCap r cap x).1 ≠ .pending := by
  unfold rejectIfDeclaredLengthExceedsCap
  split_ifs
  · exact Result.raised_ne_pending _
  · exact Result.ok_ne_pending _

theorem readCapped_ends (mode : Mode) (request : Request) (hrounds : m < rounds) :
    Terminates (EndsAt m id) (readCapped mode rounds id cap request) := by
  have hupdate : ∀ {α : Type} {f : StreamedResponse → StreamedResponse} {p : Unit → Call α},
      (∀ r, (f r).pulled = r.pulled) → (∀ r, (f r).chunks = r.chunks) →
        (∀ u, Terminates (EndsAt m id) (p u)) → Terminates (EndsAt m id) (update id f >>= p) :=
    fun hpulled hchunks =>
      Terminates.bind_of_keeps (update_endsAt hpulled hchunks) fun _ => Result.ok_ne_pending _
  refine hupdate (fun _ => rfl) (fun _ => rfl) fun _ => triple_each_response fun r => ?_
  split_ifs
  · refine Terminates.bind_of_keeps (keeps_reject r cap) (reject_ne_pending r) fun contentLength => ?_
    refine hupdate (fun _ => rfl) (fun _ => rfl) fun _ => ?_
    refine ((read_ends hrounds).catching fun e x => ?_).bind fun _ _ => Result.ok_ne_pending _
    exact Result.raised_ne_pending _
  · refine Terminates.bind_of_keeps (keeps_reject r cap) (reject_ne_pending r) fun contentLength => ?_
    cases mode with
    | sync =>
      refine triple_each_response fun r => ?_
      refine ((iterBytes_ends _ _ hrounds).catching fun e x => ?_).bind fun _ _ => Result.ok_ne_pending _
      cases e <;> exact Result.raised_ne_pending _
    | async =>
      refine triple_each_response fun r => ?_
      exact (iterBytes_ends _ _ hrounds).bind fun _ _ => Result.ok_ne_pending _
  · exact (read_ends hrounds).bind fun _ _ => Result.ok_ne_pending _

/-- Where every body ends or fails, what is done with a response ends. -/
theorem Ending.of_bodies (h : ∀ n request received, client.send n request = .ok received →
    ∃ m, ∀ c, received.chunks m ≠ .chunk c) : Ending mode client auth cap := by
  -- The body ends after `m` chunks, so `m + 1` rounds are enough for every loop over it.
  have hbody : ∀ x id, AsReceived client (x.responses id) → ∃ m, EndsAt m id x := by
    rintro x id ⟨n, request, received, history, hreply, hhere⟩
    obtain ⟨m, hm⟩ := h n request received hreply
    unfold EndsAt
    rw [hhere]
    exact ⟨m, rfl, hm⟩
  refine ⟨fun x id hreceived => ?_, fun x id hreceived => ?_⟩
  · obtain ⟨m, hm⟩ := hbody x id hreceived
    have hdiscard : Terminates (EndsAt m id) (discardAndClose (m + 1) id cap) :=
      discardAndClose_ends fun body => iterBytes_ends 0 body (Nat.lt_succ_self m)
    exact ⟨m + 1, hdiscard x hm⟩
  · obtain ⟨m, hm⟩ := hbody x id hreceived
    refine ⟨m + 1, ?_⟩
    unfold handOver
    split_ifs
    · have hread : Terminates (EndsAt m id) (readCappedAndClose mode (m + 1) id cap) :=
        Terminates.onExit_close (triple_each_response fun r =>
          readCapped_ends mode r.request (Nat.lt_succ_self m))
      exact hread x hm
    · exact Result.ok_ne_pending _

end Bodies

/-! ## Termination -/

/-- With a limit that is not negative, and if what is done with one response ends, the driver ends. At
every moment of every run it has sent at most so many requests, and recorded no history longer than
the limit; a hop beyond the limit sends nothing. -/
theorem sendCapped_terminates (mode : Mode) (client : Client) (request : Request) (cap : ℕ)
    (hmax : 0 ≤ client.maxRedirects) (hending : Ending mode client (requestAuth client request) cap) :
    (∃ enough, ∀ rounds ≥ enough,
      (sendCapped mode client rounds request cap .start).1 ≠ .pending) ∧
    ∀ rounds,
      ((sendCapped mode client rounds request cap .start).2.sent.length : ℤ) ≤
          (client.maxRedirects + 1) * (client.maxRedirects + 2) / 2 ∧
        (∀ d, (((sendCapped mode client rounds request cap .start).2.responses d).history.length : ℤ) ≤
          client.maxRedirects) ∧
        ∀ next x, (redirectHop client rounds cap next x).2.sent ≠ x.sent →
          (next.2.length : ℤ) ≤ client.maxRedirects := by
  obtain ⟨M, hM⟩ := Int.eq_ofNat_of_zero_le hmax
  have hfinishes := sendCapped_finishes request hM hending
  obtain ⟨enough, hdone⟩ := hfinishes.ends .start trivial
  have hwithin : ∀ rounds, Within M ((M + 1) * (M + 2) / 2)
      (sendCapped mode client rounds request cap .start).2 := fun _ =>
    sendCapped_within mode request hM
  refine ⟨⟨enough, fun rounds hrounds => ?_⟩, fun rounds => ⟨?_, fun d => ?_, fun next x hsent => ?_⟩⟩
  · rw [hfinishes.done_le hrounds hdone]
    exact hdone.ne_pending
  · rw [hM]
    exact_mod_cast (hwithin rounds).sent
  · rw [hM]
    exact_mod_cast (hwithin rounds).history d
  · -- A hop beyond the limit raises at once.
    by_contra hlong
    refine hsent ?_
    unfold redirectHop
    dsimp only
    rw [if_pos (not_le.mp hlong)]
    rfl

/-- A client whose server redirects every second request, and whose auth flow answers every response
with another request. -/
def relentless : Client :=
  { redirecting 2 (· % 2 = 0) with
    auth := some { flow := fun _ => { result := .yields (requestOf "GET") } } }

/-- With a limit of two redirects, the driver ends and sends at most six requests. -/
theorem sendCapped_terminates_relentless :
    (∃ enough, ∀ rounds ≥ enough,
      (sendCapped .async relentless rounds (requestOf "GET") 10 .start).1 ≠ .pending) ∧
    ∀ rounds, ((sendCapped .async relentless rounds (requestOf "GET") 10 .start).2.sent.length : ℤ) ≤
      6 := by
  have hending : Ending .async relentless (requestAuth relentless (requestOf "GET")) 10 := by
    refine .of_bodies fun n request received hreply => ⟨1, fun c => ?_⟩
    obtain rfl := Except.ok.inj hreply
    exact fun h => nomatch h
  obtain ⟨hends, hbound⟩ :=
    sendCapped_terminates .async relentless (requestOf "GET") 10 (by decide +kernel) hending
  exact ⟨hends, fun rounds => (hbound rounds).1⟩

end Httpware.BodyCap
