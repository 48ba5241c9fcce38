import Httpware.BodyCap.Closed

/-!
# The history of a capped call

`DriverRun` describes a run of the driver that returned: the responses that the auth flow was sent and
answered with another request, in order, and the redirects of the last auth step, in order. The
history of the response is the first list followed by the second, and each of these responses has the
earlier ones as its own history. The invariant of both loops is `Chained`: responses each of which
has the ones before it as its history. Redirects of earlier auth steps drop out, since the
response that ends an auth step gets a new history, and a response that is rebuilt keeps its history.
-/

namespace Httpware.BodyCap

open Program (Triple Keeps Ends)

/-! ## Runs -/

/-- A run of the redirects, which returns a response: the responses that were redirects. A hop makes
one response, whose number is the count of those before it. -/
inductive RedirectRun (client : Client) (rounds cap : ℕ) :
    Request × List ℕ → Exchange → List ℕ → ℕ → Exchange → Prop
  | last {next : Request × List ℕ} {x x' : Exchange} {id : ℕ}
      (hhop : redirectHop client rounds cap next x = (.ok (.inl id), x')) :
      RedirectRun client rounds cap next x [] id x'
  | redirect {next next' : Request × List ℕ} {x x' x'' : Exchange} {redirects : List ℕ} {id : ℕ}
      (hhop : redirectHop client rounds cap next x = (.ok (.inr next'), x'))
      (hrest : RedirectRun client rounds cap next' x' redirects id x'') :
      RedirectRun client rounds cap next x (x.count :: redirects) id x''

/-- A run of the auth flow, which returns a response: the responses that the flow was sent before, and
the redirects of the last step. -/
inductive AuthRun (mode : Mode) (client : Client) (auth : Auth) (rounds cap : ℕ) :
    Request × List ℕ → Exchange → List ℕ → List ℕ → ℕ → Exchange → Prop
  | last {next : Request × List ℕ} {x x₁ x₂ x₃ : Exchange} {redirects : List ℕ}
      {streaming id id' : ℕ}
      (hredirects : RedirectRun client rounds cap next x redirects streaming x₁)
      (hsent : handOver mode auth rounds streaming cap x₁ = (.ok id, x₂))
      (hanswer : answer auth rounds cap next.2 id x₂ = (.ok (.inl id'), x₃)) :
      AuthRun mode client auth rounds cap next x [] redirects id' x₃
  | step {next next' : Request × List ℕ} {x x₁ x₂ x₃ x' : Exchange} {dropped steps redirects : List ℕ}
      {streaming id id' : ℕ}
      (hredirects : RedirectRun client rounds cap next x dropped streaming x₁)
      (hsent : handOver mode auth rounds streaming cap x₁ = (.ok id, x₂))
      (hanswer : answer auth rounds cap next.2 id x₂ = (.ok (.inr next'), x₃))
      (hrest : AuthRun mode client auth rounds cap next' x₃ steps redirects id' x') :
      AuthRun mode client auth rounds cap next x (id :: steps) redirects id' x'

/-- A run of the driver, which returns a response. -/
def DriverRun (mode : Mode) (client : Client) (rounds cap : ℕ) (request : Request)
    (steps redirects : List ℕ) (id : ℕ) (x : Exchange) : Prop :=
  ∃ first x₀ x₁, resume (requestAuth client request) none .start = (.ok (.yields first), x₀) ∧
    AuthRun mode client (requestAuth client request) rounds cap (first, []) x₀ steps redirects id
      x₁ ∧ x = { x₁ with flowClosed := true }

section Runs

variable {client : Client} {rounds cap n id : ℕ} {next : Request × List ℕ} {x x' : Exchange}

/-- A loop of redirects that returns is a run of them. -/
theorem RedirectRun.of_loop
    (h : Program.loop (redirectHop client rounds cap) n next x = (.ok id, x')) :
    ∃ redirects, RedirectRun client rounds cap next x redirects id x' := by
  induction n generalizing next x with
  | zero => cases h
  | succ n ih =>
    rcases Program.loop_ok h with hlast | ⟨next', u, m, hm, hhop, hrest⟩
    · exact ⟨[], .last hlast⟩
    · obtain rfl := Nat.succ.inj hm
      obtain ⟨redirects, hrun⟩ := ih hrest
      exact ⟨_, .redirect hhop hrun⟩

/-- A loop of auth steps that returns is a run of them. -/
theorem AuthRun.of_loop {mode : Mode} {auth : Auth}
    (h : Program.loop (authStep mode client auth rounds cap) n next x = (.ok id, x')) :
    ∃ steps redirects, AuthRun mode client auth rounds cap next x steps redirects id x' := by
  induction n generalizing next x with
  | zero => cases h
  | succ n ih =>
    have hparts : ∀ {d u}, authStep mode client auth rounds cap next x = (.ok d, u) →
        ∃ redirects streaming id x₁ x₂, RedirectRun client rounds cap next x redirects streaming x₁ ∧
          handOver mode auth rounds streaming cap x₁ = (.ok id, x₂) ∧
          answer auth rounds cap next.2 id x₂ = (.ok d, u) := by
      intro d u hstep
      obtain ⟨streaming, x₁, hsend, hrest⟩ := Program.bind_ok hstep
      obtain ⟨sent, x₂, hsent, hanswer⟩ := Program.bind_ok hrest
      rw [sendRedirectHops_eq] at hsend
      obtain ⟨redirects, hrun⟩ := RedirectRun.of_loop hsend
      exact ⟨redirects, streaming, sent, x₁, x₂, hrun, hsent, hanswer⟩
    rcases Program.loop_ok h with hlast | ⟨next', u, m, hm, hstep, hrest⟩
    · obtain ⟨redirects, _, _, _, _, hrun, hsent, hanswer⟩ := hparts hlast
      exact ⟨[], redirects, .last hrun hsent hanswer⟩
    · obtain rfl := Nat.succ.inj hm
      obtain ⟨dropped, _, _, _, _, hrun, hsent, hanswer⟩ := hparts hstep
      obtain ⟨steps, redirects, hauth⟩ := ih hrest
      exact ⟨_, redirects, .step hrun hsent hanswer hauth⟩

/-- The driver returns at the end of a run. -/
theorem DriverRun.of_sendCapped {mode : Mode} {request : Request}
    (h : sendCapped mode client rounds request cap .start = (.ok id, x)) :
    ∃ steps redirects, DriverRun mode client rounds cap request steps redirects id x := by
  rw [sendCapped_eq] at h
  obtain ⟨x₁, hrun, hexit⟩ := Program.onExit_ok h
  obtain ⟨resumed, x₀, hresume, hloop⟩ := Program.bind_ok hrun
  cases resumed with
  | stops => cases hloop
  | raises e => cases hloop
  | yields first =>
    obtain ⟨steps, redirects, hauth⟩ := AuthRun.of_loop hloop
    cases hexit
    exact ⟨steps, redirects, first, x₀, x₁, hresume, hauth, rfl⟩

end Runs

/-! ## Responses that follow one another -/

/-- Each of these responses has the earlier ones as its history. -/
structure Chained (x : Exchange) (ids : List ℕ) : Prop where
  received : ∀ d ∈ ids, d < x.count
  history : ∀ i (h : i < ids.length), (x.responses ids[i]).history = ids.take i

section Chain

variable {x : Exchange} {ids ids' : List ℕ} {id : ℕ}

theorem Chained.nil (x : Exchange) : Chained x [] := ⟨nofun, nofun⟩

/-- An earlier part. -/
theorem Chained.earlier (h : Chained x (ids ++ ids')) : Chained x ids := by
  refine ⟨fun d hd => h.received d (List.mem_append_left _ hd), fun i hi => ?_⟩
  have hhistory := h.history i (by rw [List.length_append]; omega)
  rwa [List.getElem_append_left hi, List.take_append_of_le_length hi.le] at hhistory

/-- The last one. -/
theorem Chained.last (h : Chained x (ids ++ [id])) :
    id < x.count ∧ (x.responses id).history = ids := by
  refine ⟨h.received id (by simp), ?_⟩
  have hhistory := h.history ids.length (by simp)
  rwa [List.getElem_append_right le_rfl, List.take_left' rfl, List.getElem_singleton] at hhistory

/-- No response is in its own history. -/
theorem Chained.notMem (h : Chained x (ids ++ [id])) : id ∉ ids := by
  intro hmem
  obtain ⟨i, hi, rfl⟩ := List.getElem_of_mem hmem
  have hearlier := h.earlier.history i hi
  rw [h.last.2] at hearlier
  have hlength := congrArg List.length hearlier
  rw [List.length_take] at hlength
  omega

/-- One more, with the others as its history. -/
theorem Chained.append (h : Chained x ids) (hid : id < x.count)
    (hhistory : (x.responses id).history = ids) : Chained x (ids ++ [id]) := by
  refine ⟨fun d hd => ?_, fun i hi => ?_⟩
  · rcases List.mem_append.mp hd with hd | hd
    · exact h.received d hd
    · rw [List.mem_singleton.mp hd]
      exact hid
  · rw [List.length_append, List.length_singleton] at hi
    rcases Nat.lt_succ_iff_lt_or_eq.mp hi with hi | rfl
    · rw [List.getElem_append_left hi, List.take_append_of_le_length hi.le]
      exact h.history i hi
    · rw [List.getElem_append_right le_rfl, List.take_left' rfl, List.getElem_singleton]
      exact hhistory

/-- Changes that leave the histories of these responses. -/
theorem Chained.of_histories {x' : Exchange} (h : Chained x ids) (hcount : x.count ≤ x'.count)
    (hhistory : ∀ d ∈ ids, (x'.responses d).history = (x.responses d).history) :
    Chained x' ids := by
  refine ⟨fun d hd => lt_of_lt_of_le (h.received d hd) hcount, fun i hi => ?_⟩
  rw [hhistory _ (List.getElem_mem hi)]
  exact h.history i hi

/-- A response that is not among these is set. -/
theorem Chained.set (h : Chained x ids) (hid : id ∉ ids) (r : StreamedResponse) :
    Chained (x.set id r) ids := by
  refine h.of_histories le_rfl fun d hd => ?_
  rw [x.set_other (ne_of_mem_of_not_mem hd hid)]

/-- Reading a response changes no history. -/
theorem framed_chained : Framed id fun x => Chained x ids := by
  refine ⟨fun {f} hf => .modify fun x hx => hx.of_histories le_rfl fun d _ => ?_,
    fun {x r} hx _ _ => ?_⟩
  · by_cases hd : d = id
    · rw [hd, x.set_here]
      exact hf.history _
    · rw [x.set_other hd]
  · -- The response that is rebuilt has a new number.
    refine hx.of_histories (Nat.le_succ _) fun d hd => ?_
    change ((x.set x.count r).responses d).history = _
    rw [x.set_other (hx.received d hd).ne]

end Chain

/-! ## The driver -/

section Driver

variable {client : Client} {rounds cap id n : ℕ} {ids : List ℕ}

/-- A resumption of the auth flow changes no history. -/
theorem keeps_resumeChained (auth : Auth) :
    Keeps (fun x => Chained x ids) (resume auth (some id)) := by
  refine Keeps.bind .get fun n => Keeps.bind ?_ fun _ =>
    (framed_chained.touched (touches_use _)).bind fun _ => .pure
  exact .modify fun x hx => hx.of_histories le_rfl fun _ _ => rfl

/-- What the flow is sent has the history of the response. -/
theorem handOver_chained (mode : Mode) (auth : Auth) :
    Triple (fun x => Chained x (ids ++ [id])) (handOver mode auth rounds id cap)
      (Ends (fun id' x => Chained x (ids ++ [id'])) fun _ _ => True) := by
  unfold handOver
  split_ifs
  · refine Ends.mono (framed_chained.readCappedAndClose_buffered mode)
      (fun x hx => ⟨hx, hx.last.1⟩) (fun id' x hx => ?_) fun _ _ _ => trivial
    obtain ⟨hchained, hbuffered, -⟩ := hx
    exact hchained.earlier.append hbuffered.received (hbuffered.history.trans hchained.last.2)
  · exact .pure fun _ hx => hx

/-- A reply of the server is a new response. -/
theorem send_chained (request : Request) :
    Triple (fun x => Chained x ids ∧ x.count = n) (send client request)
      (Ends (fun id x => id = n ∧ Chained x ids ∧ id ∉ ids ∧ id < x.count) fun _ _ => True) := by
  have hsent : ∀ sent : List Request, Triple (fun x => (Chained x ids ∧ x.count = n) ∧ x.sent = sent)
      (Program.modify fun x => { x with sent := x.sent ++ [request] } : Call Unit)
      (Ends (fun _ x => Chained x ids ∧ x.count = n) fun _ _ => True) :=
    fun _ => .modify fun x hx => ⟨hx.1.1.of_histories le_rfl fun _ _ => rfl, hx.1.2⟩
  unfold send
  refine Ends.get fun sent => Ends.bind (hsent sent) fun _ => ?_
  split
  · exact .raise fun _ _ => trivial
  · rintro x ⟨hx, rfl⟩
    have hnew : x.count ∉ ids := fun hmem => absurd (hx.received _ hmem) (lt_irrefl _)
    exact ⟨rfl, (hx.set hnew _).of_histories (Nat.le_succ _) fun _ _ => rfl, hnew,
      Nat.lt_succ_self _⟩

/-- A response gets the others as its history. -/
theorem setHistory_chained :
    Triple (fun x => Chained x ids ∧ id ∉ ids ∧ id < x.count) (setHistory id ids)
      (Ends (fun _ x => Chained x (ids ++ [id])) fun _ _ => True) := by
  refine .modify fun x ⟨hx, hnew, hlt⟩ => (hx.set hnew _).append hlt ?_
  rw [x.set_here]

/-- A hop returns a response whose history is the hops before it, or adds one. -/
theorem redirectHop_chained (next : Request × List ℕ) :
    Triple (fun x => Chained x next.2 ∧ x.count = n) (redirectHop client rounds cap next)
      (Ends
        (Sum.elim
          (fun id x => Chained x (next.2 ++ [id]) ∧ (next.2.length : ℤ) ≤ client.maxRedirects)
          fun next' x => Chained x (next.2 ++ [n]) ∧ next'.2 = next.2 ++ [n])
        fun _ _ => True) := by
  unfold redirectHop
  dsimp only
  split
  · exact .raise fun _ _ => trivial
  · rename_i hlong
    refine Ends.bind (send_chained next.1) fun id => ?_
    refine Ends.bind (Q := fun _ x => id = n ∧ Chained x (next.2 ++ [id])) ?_ fun _ => ?_
    · rintro x ⟨hid, hx⟩
      exact ⟨hid, setHistory_chained x hx⟩
    refine Ends.get fun r => Triple.consequence (P := fun x => id = n ∧ Chained x (next.2 ++ [id]))
      ?_ (fun _ hx => hx.1) fun _ _ hx => hx
    have hshort : (next.2.length : ℤ) ≤ client.maxRedirects := not_lt.mp hlong
    split
    · exact .pure fun _ hx => ⟨hx.2, hshort⟩
    · split_ifs
      · have hdiscard : Keeps (fun x => id = n ∧ Chained x (next.2 ++ [id]))
            (discardAndClose rounds id cap) := (framed_chained.and _).keeps_discardAndClose
        refine Ends.bind (Ends.mono hdiscard.ends (fun _ hx => hx) (fun _ _ hx => hx)
          fun _ _ _ => trivial) fun _ => .pure fun x hx => ?_
        obtain ⟨rfl, hx⟩ := hx
        exact ⟨hx, rfl⟩
      · exact .pure fun _ hx => ⟨hx.2, hshort⟩

/-- A run of redirects adds them to the history. -/
theorem RedirectRun.chained {next : Request × List ℕ} {x x' : Exchange} {redirects : List ℕ}
    (hrun : RedirectRun client rounds cap next x redirects id x') (hx : Chained x next.2) :
    Chained x' (next.2 ++ redirects ++ [id]) ∧
      ((next.2 ++ redirects).length : ℤ) ≤ client.maxRedirects := by
  induction hrun with
  | last hhop =>
    have hends := Ends.of_ok (redirectHop_chained _) ⟨hx, rfl⟩ hhop
    rw [List.append_nil]
    exact hends
  | redirect hhop _ ih =>
    obtain ⟨hchained, hnext⟩ := Ends.of_ok (redirectHop_chained _) ⟨hx, rfl⟩ hhop
    have hrest := ih (hnext ▸ hchained)
    rw [hnext, ← List.append_cons] at hrest
    exact hrest

/-- The flow ends with its response, or the response becomes one of the auth steps. -/
theorem answer_chained (auth : Auth) (history redirects : List ℕ) :
    Triple (fun x => Chained x (history ++ redirects ++ [id])) (answer auth rounds cap history id)
      (Ends
        (Sum.elim (fun id' x => id' = id ∧ Chained x (history ++ redirects ++ [id]))
          fun next x => Chained x (history ++ [id]) ∧ next.2 = history ++ [id])
        fun _ _ => True) := by
  have hresume : Triple (fun x => Chained x (history ++ redirects ++ [id]))
      (resume auth (some id))
      (Ends (fun _ x => Chained x (history ++ redirects ++ [id])) fun _ _ => True) :=
    Ends.mono (keeps_resumeChained auth).ends (fun _ hx => hx) (fun _ _ hx => hx)
      fun _ _ _ => trivial
  unfold answer
  refine Ends.bind hresume fun resumed => ?_
  cases resumed with
  | stops => exact .pure fun _ hx => ⟨rfl, hx⟩
  | raises e =>
    refine Ends.bind (Q := fun _ _ => True) (.modify fun _ _ => trivial) fun _ => ?_
    exact .raise fun _ _ => trivial
  | yields next =>
    have hdiscard : Keeps (fun x => Chained x (history ++ redirects ++ [id]))
        (discardAndClose rounds id cap) := framed_chained.keeps_discardAndClose
    refine Ends.bind (Ends.mono hdiscard.ends (fun _ hx => hx) (fun _ _ hx => hx)
      fun _ _ _ => trivial) fun _ => ?_
    refine Ends.bind (Q := fun _ x => Chained x (history ++ [id])) ?_ fun _ =>
      .pure fun _ hx => ⟨hx, rfl⟩
    -- The redirects of the step drop out of the history.
    refine setHistory_chained.consequence (fun x hx => ?_) fun _ _ hx => hx
    have hnew : id ∉ history := fun hmem => hx.notMem (List.mem_append_left _ hmem)
    exact ⟨hx.earlier.earlier, hnew, hx.last.1⟩

/-- A run of the auth flow returns a response with its history. -/
theorem AuthRun.chained {mode : Mode} {auth : Auth} {next : Request × List ℕ} {x x' : Exchange}
    {steps redirects : List ℕ}
    (hrun : AuthRun mode client auth rounds cap next x steps redirects id x')
    (hx : Chained x next.2) :
    Chained x' (next.2 ++ steps ++ redirects ++ [id]) ∧
      ((next.2 ++ steps ++ redirects).length : ℤ) ≤ client.maxRedirects := by
  have hsend : ∀ {next : Request × List ℕ} {x x₁ x₂ : Exchange} {redirects : List ℕ}
      {streaming id : ℕ}, Chained x next.2 →
      RedirectRun client rounds cap next x redirects streaming x₁ →
      handOver mode auth rounds streaming cap x₁ = (.ok id, x₂) →
      Chained x₂ (next.2 ++ redirects ++ [id]) ∧
        ((next.2 ++ redirects).length : ℤ) ≤ client.maxRedirects := by
    intro next x x₁ x₂ redirects streaming id hx hredirects hsent
    obtain ⟨hchained, hshort⟩ := hredirects.chained hx
    have hends := Ends.of_ok (handOver_chained mode auth) hchained hsent
    exact ⟨hends, hshort⟩
  induction hrun with
  | last hredirects hsent hanswer =>
    obtain ⟨hchained, hshort⟩ := hsend hx hredirects hsent
    obtain ⟨rfl, hlast⟩ := Ends.of_ok (answer_chained auth _ _) hchained hanswer
    rw [List.append_nil]
    exact ⟨hlast, hshort⟩
  | step hredirects hsent hanswer _ ih =>
    obtain ⟨hchained, -⟩ := hsend hx hredirects hsent
    obtain ⟨hstep, hnext⟩ := Ends.of_ok (answer_chained auth _ _) hchained hanswer
    have hrest := ih (hnext ▸ hstep)
    rw [hnext, ← List.append_cons] at hrest
    exact hrest

end Driver

/-! ## The claim -/

/-- The history of a response is `history`, and each of these has the earlier ones as its own. -/
structure HasHistory (x : Exchange) (id : ℕ) (history : List ℕ) : Prop where
  own : (x.responses id).history = history
  earlier : ∀ i (h : i < history.length), (x.responses history[i]).history = history.take i

/-- What `Chained` says of the last one. -/
theorem Chained.hasHistory {x : Exchange} {ids : List ℕ} {id : ℕ} (h : Chained x (ids ++ [id])) :
    HasHistory x id ids := ⟨h.last.2, h.earlier.history⟩

/-- The response of every run has the auth steps and then the redirects of the last one as its
history, which the limit bounds, and so has the response whose body the terminal buffers. -/
theorem history_spec (mode : Mode) (client : Client) (rounds cap : ℕ) (request : Request) :
    (∀ id x, sendCapped mode client rounds request cap .start = (.ok id, x) →
      ∃ steps redirects, DriverRun mode client rounds cap request steps redirects id x ∧
        HasHistory x id (steps ++ redirects) ∧
        ((steps ++ redirects).length : ℤ) ≤ client.maxRedirects ∧
        ∀ id' x', readCappedAndClose mode rounds id cap x = (.ok id', x') →
          HasHistory x' id' (steps ++ redirects)) ∧
    ∀ id' x', terminal mode client rounds cap request .start = (.ok id', x') →
      ∃ id x steps redirects, DriverRun mode client rounds cap request steps redirects id x ∧
        HasHistory x id (steps ++ redirects) ∧
        readCappedAndClose mode rounds id cap x = (.ok id', x') ∧
        HasHistory x' id' (steps ++ redirects) := by
  have hsend : ∀ id x, sendCapped mode client rounds request cap .start = (.ok id, x) →
      ∃ steps redirects, DriverRun mode client rounds cap request steps redirects id x ∧
        Chained x (steps ++ redirects ++ [id]) ∧
        ((steps ++ redirects).length : ℤ) ≤ client.maxRedirects := by
    intro id x hx
    obtain ⟨steps, redirects, hrun⟩ := DriverRun.of_sendCapped hx
    have hparts := hrun
    obtain ⟨first, x₀, x₁, hresume, hauth, rfl⟩ := hparts
    obtain ⟨hchained, hshort⟩ := hauth.chained (Chained.nil x₀)
    exact ⟨steps, redirects, hrun, hchained.of_histories le_rfl fun _ _ => rfl, hshort⟩
  have hread : ∀ id x id' x' ids, Chained x (ids ++ [id]) →
      readCappedAndClose mode rounds id cap x = (.ok id', x') → Chained x' (ids ++ [id']) := by
    intro id x id' x' ids hx hread
    obtain ⟨hchained, hbuffered, -⟩ :=
      Ends.of_ok (framed_chained.readCappedAndClose_buffered mode) ⟨hx, hx.last.1⟩ hread
    exact hchained.earlier.append hbuffered.received (hbuffered.history.trans hchained.last.2)
  refine ⟨fun id x hx => ?_, fun id' x' hx' => ?_⟩
  · obtain ⟨steps, redirects, hrun, hchained, hshort⟩ := hsend id x hx
    exact ⟨steps, redirects, hrun, hchained.hasHistory, hshort, fun id' x' hbuffered =>
      (hread id x id' x' _ hchained hbuffered).hasHistory⟩
  · -- The terminal's buffer is the one of the driver's response.
    obtain ⟨buffered, x₁, hcatching, hrest⟩ := Program.bind_ok hx'
    obtain ⟨id, x, hx, hbuffered⟩ := Program.bind_ok (Program.catching_ok hcatching)
    obtain ⟨⟨⟩, x₂, hstatus, hreturn⟩ := Program.bind_ok hrest
    have hsame := Ends.of_ok (Keeps.ends (keeps_raiseOnStatus (I := (· = x₁)) buffered)) rfl hstatus
    subst hsame
    cases hreturn
    obtain ⟨steps, redirects, hrun, hchained, -⟩ := hsend id x hx
    exact ⟨id, x, steps, redirects, hrun, hchained.hasHistory, hbuffered,
      (hread id x _ _ _ hchained hbuffered).hasHistory⟩

/-- A client whose auth flow answers its first response with another request, and whose server
redirects every second request. -/
def twoStep : Client :=
  { redirecting 20 (· % 2 = 0) with
    auth := some
      { flow := fun n => { result := if n < 2 then .yields (requestOf "GET") else .stops } } }

/-- Two auth steps, each with a redirect: the first redirect is not in the history of the fourth
response. -/
theorem history_spec_twoStep :
    HasHistory (sendCapped .sync twoStep 5 (requestOf "GET") 10 .start).2 3 [1, 2] := by
  have hrun : sendCapped .sync twoStep 5 (requestOf "GET") 10 .start =
      (.ok 3, (sendCapped .sync twoStep 5 (requestOf "GET") 10 .start).2) :=
    Prod.ext (Program.Result.toOption_eq_some.mp (by decide +kernel)) rfl
  obtain ⟨steps, redirects, -, hhistory, -, -⟩ :=
    (history_spec .sync twoStep 5 10 (requestOf "GET")).1 3 _ hrun
  have hids : ((sendCapped .sync twoStep 5 (requestOf "GET") 10 .start).2.responses 3).history =
      [1, 2] := by decide +kernel
  rw [hhistory.own] at hids
  rw [hids] at hhistory
  exact hhistory

end Httpware.BodyCap
