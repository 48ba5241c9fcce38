import Httpware.Resilience.RetryCalls
import Httpware.StreamingBody.Request

/-!
# A body that cannot be replayed

`SentOnce` says of a request that no call through retry middleware hands it to `next` twice, whatever
the policy, the budget, and the outcomes, with any other calls at the same time. A marked request is
sent once, because `decide` refuses it without asking the budget and a call forwards no more than
its first attempt and one for each grant (`sentOnce_of_marked`). An unmarked one is sent twice under
the default policy with its own method (`not_sentOnce`). So `sent_once_iff` comes down to the two
detectors, and `overlooked` says which bodies they miss.
-/

namespace Httpware

/-- No call hands the request to `next` twice. -/
def SentOnce (request : Request) : Prop :=
  ∀ (cfg : RetryBudget.Config) (httpDate : HttpDate) (policy : CallId → RetryPolicy)
    (requests : CallId → Request) (c : CallId) (run : List ((CallId × RetryAction) × RetryOutput))
    (s : RetrySystem), requests c = request →
      (retryCalls cfg httpDate policy requests).Runs run s →
        ((Machine.ofParty c run).countP fun x => x.2.isForwarded) ≤ 1

/-! ## Marked requests -/

/-- `decide` refuses a marked request without asking the budget. -/
theorem RetryPolicy.decide_of_marked (p : RetryPolicy) (cfg : RetryBudget.Config)
    (httpDate : HttpDate) (budget : RetryBudget) (now : ℚ) (draw : Draw) (attempt : ℕ)
    {request : Request} (exc : Exc)
    (hmarked : request.extensions.lookup streamingBodyMarker = some true) :
    (p.decide cfg httpDate budget now draw attempt request exc).withdrawal = none := by
  unfold decide
  rw [hmarked]
  dsimp only
  split
  · rfl
  · rfl

/-- A call with a marked request is granted nothing. -/
theorem not_isGranted_of_marked {cfg : RetryBudget.Config} {httpDate : HttpDate} {p : RetryPolicy}
    {request : Request} {budget budget' : RetryBudget} {phase phase' : RetryPhase}
    {action : RetryAction} {o : RetryOutput}
    (hmarked : request.extensions.lookup streamingBodyMarker = some true)
    (h : retryStep cfg httpDate p request budget phase action = some (o, budget', phase')) :
    o.isGranted = false := by
  cases retryStep_cases h with
  | @decided attempt exc now draw =>
    rw [p.decide_of_marked cfg httpDate budget now draw attempt exc hmarked]
    rfl
  | _ => rfl

/-- A call starts once. -/
theorem RetryPhase.Accounts.started_le_one {maxAttempts : ℤ} {started forwarded granted : ℕ}
    {phase : RetryPhase} (h : phase.Accounts maxAttempts started forwarded granted) :
    started ≤ 1 := by
  cases phase <;> simp only [RetryPhase.Accounts] at h <;> omega

/-- A marked request is sent once. -/
theorem sentOnce_of_marked {request : Request}
    (hmarked : request.extensions.lookup streamingBodyMarker = some true) : SentOnce request := by
  rintro cfg httpDate policy requests c run s rfl hrun
  have hgranted : ((Machine.ofParty c run).countP fun x => x.2.isGranted) = 0 := by
    induction hrun with
    | nil => rfl
    | @snoc run s s' a o hrun hstep ih =>
      obtain ⟨d, action⟩ := a
      obtain ⟨budget, phase, hcall, rfl⟩ := retryCalls_step hstep
      rcases eq_or_ne d c with rfl | hdc
      · have ho := not_isGranted_of_marked hmarked hcall
        rw [Machine.ofParty_snoc_self, List.countP_append, ih]
        simp [ho]
      · rwa [Machine.ofParty_snoc_of_ne hdc]
  have hacc := accounts_of_runs hrun c
  calc ((Machine.ofParty c run).countP fun x => x.2.isForwarded)
      ≤ ((Machine.ofParty c run).countP fun x => x.2.isStarted) +
          (Machine.ofParty c run).countP fun x => x.2.isGranted := hacc.forwarded_le
    _ ≤ 1 := by
        rw [hgranted]
        exact hacc.started_le_one

/-! ## Unmarked requests -/

/-- The default policy, for one method. -/
def RetryPolicy.defaultFor (method : String) : RetryPolicy :=
  { RetryPolicy.default with
    retryMethods := [method]
    accepted := RetryPolicy.default.accepted }

/-- The first failure of an unmarked request is retried, where the budget grants it. -/
theorem RetryPolicy.decide_of_unmarked {method : String} {request : Request}
    (hmethod : request.method = method.toUpper)
    (hunmarked : request.extensions.lookup streamingBodyMarker = none) (cfg : RetryBudget.Config)
    (httpDate : HttpDate) (budget : RetryBudget) (now : ℚ) (draw : Draw) :
    (defaultFor method).decide cfg httpDate budget now draw 0 request .networkError =
      (defaultFor method).withdrawAndDelay cfg budget now draw 0 request .networkError none none := by
  have heligible : (defaultFor method).isRetryable request .networkError = true := by
    simp [isRetryable, statusResponse, methodEligible, defaultFor, hmethod]
  unfold decide
  dsimp only
  rw [heligible, hunmarked, if_neg (by simp), if_neg (by simp), if_neg (by simp [defaultFor, default])]
  unfold retryAfterOf statusResponse
  simp only [Option.bind_none, ite_self]

/-- A run under the policy `p` has handed the request to `next` `n` times, and the budget and the call
are here. -/
def Attempted (p : RetryPolicy) (request : Request) (n : ℕ) (budget : RetryBudget)
    (phase : RetryPhase) : Prop :=
  ∃ run s, (retryCalls RetryBudget.defaultConfig (fun _ => none) (fun _ => p)
      fun _ => request).Runs run s ∧ s.budget = budget ∧ s.calls 0 = phase ∧
    ((Machine.ofParty 0 run).countP fun x => x.2.isForwarded) = n

/-- One more step of the call. -/
theorem Attempted.step {p : RetryPolicy} {request : Request} {n : ℕ} {budget budget' : RetryBudget}
    {phase phase' : RetryPhase} (h : Attempted p request n budget phase) (action : RetryAction)
    {o : RetryOutput}
    (hstep : retryStep RetryBudget.defaultConfig (fun _ => none) p request budget phase action =
      some (o, budget', phase')) :
    Attempted p request (n + if o.isForwarded then 1 else 0) budget' phase' := by
  obtain ⟨run, s, hrun, rfl, rfl, rfl⟩ := h
  refine ⟨run ++ [((0, action), o)], ⟨budget', Function.update s.calls 0 phase'⟩,
    hrun.snoc ?_, rfl, ?_, ?_⟩
  · change Option.map _ (retryStep _ _ p request s.budget (s.calls 0) action) = _
    rw [hstep]
    rfl
  · exact Function.update_self (0 : CallId) phase' s.calls
  · rw [Machine.ofParty_snoc_self, List.countP_append, List.countP_singleton]

/-- The next attempt. -/
theorem Attempted.forward {p : RetryPolicy} {request : Request} {n attempt : ℕ}
    {budget : RetryBudget} (h : Attempted p request n budget (.ready attempt))
    (hleft : (attempt : ℤ) < p.maxAttempts) :
    Attempted p request (n + 1) budget (.attempting attempt) := by
  refine h.step .forward (o := .forwarded) ?_
  unfold retryStep
  exact if_pos hleft

/-- An unmarked request is sent twice: the first attempt fails, and the budget grants another. -/
theorem not_sentOnce {request : Request} (hupper : ∃ name : String, request.method = name.toUpper)
    (hunmarked : request.extensions.lookup streamingBodyMarker = none) : ¬ SentOnce request := by
  obtain ⟨method, hmethod⟩ := hupper
  let p := RetryPolicy.defaultFor method
  let deposited := RetryBudget.init.deposit RetryBudget.defaultConfig 0
  let withdrawn := (deposited.tryWithdraw RetryBudget.defaultConfig 0).2
  let draw : Draw := ⟨0, le_rfl, zero_le_one⟩
  have hmax : p.maxAttempts = 3 := rfl
  have hgranted : deposited.tryWithdraw RetryBudget.defaultConfig 0 = (true, withdrawn) :=
    Prod.ext (by decide +kernel) rfl
  obtain ⟨delay, hdecide⟩ : ∃ delay,
      p.decide RetryBudget.defaultConfig (fun _ => none) deposited 0 draw 0 request .networkError =
        ⟨.sleep delay, [], some true, withdrawn⟩ := by
    rw [RetryPolicy.decide_of_unmarked hmethod hunmarked]
    unfold RetryPolicy.withdrawAndDelay
    rw [hgranted]
    exact ⟨_, rfl⟩
  have hidle : Attempted p request 0 .init .idle := ⟨[], _, .nil, rfl, rfl, rfl⟩
  have hready : Attempted p request 0 deposited (.ready 0) := hidle.step (.start 0) rfl
  have hfirst : Attempted p request 1 deposited (.attempting 0) := hready.forward (by omega)
  have hdeciding : Attempted p request 1 deposited (.deciding 0 .networkError) :=
    hfirst.step (.finish (.raised .networkError)) rfl
  have hsleeping : Attempted p request 1 withdrawn (.sleeping 0 delay) := by
    refine hdeciding.step (.decide 0 draw) (o := .decided 0 (some true) []) ?_
    unfold retryStep
    dsimp only
    rw [hdecide]
  have hagain : Attempted p request 1 withdrawn (.ready 1) := hsleeping.step .wake rfl
  obtain ⟨run, s, hrun, -, -, hcount⟩ := hagain.forward (by omega)
  intro honce
  have hle := honce _ _ _ _ 0 run s rfl hrun
  omega

/-! ## What the detectors miss -/

/-- A value of an option that is a stream to the detector makes the options a stream. -/
theorem BodyOptions.isStreamingBody_source {mode : Mode} {options : BodyOptions} {body : Body}
    (hsource : options.source = some body) (h : options.isStreaming mode = false) :
    isStreamingBody mode (some body.type) = false := by
  unfold isStreaming at h
  rw [Bool.or_eq_false_iff, Bool.or_eq_false_iff] at h
  obtain ⟨⟨hcontent, hdata⟩, -⟩ := h
  unfold source at hsource
  split at hsource
  · next data hsome =>
    split_ifs at hsource
    · rwa [hsource] at hcontent
    · rw [hsome] at hdata
      rwa [← Option.some.inj hsource]
  · rwa [hsource] at hcontent

/-- A `ByteStream` gives the same bytes again. -/
theorem RequestStream.not_byteStream {stream : RequestStream} (h : stream.OneShot) :
    stream.isByteStream = false := by
  obtain ⟨n, hn⟩ := h
  cases stream with
  | byteStream data => exact absurd rfl hn
  | iterator passes => rfl
  | multipart parts => rfl

/-- A multipart body without a file that cannot seek gives the same bytes again. -/
theorem RequestStream.not_oneShot_multipart {parts : List Part}
    (h : ∀ data, Part.file data false ∉ parts) : ¬ (multipart parts).OneShot := by
  rintro ⟨n, hn⟩
  refine hn (List.flatMap_congr fun part hpart => ?_)
  cases part with
  | inMemory data => rfl
  | file data seekable =>
    cases seekable with
    | false => exact absurd hpart (h data)
    | true => simp [Part.pass]

/-- A one-shot body that the detector of the client misses is an async iterable in the sync client, or
has a file that cannot seek. -/
theorem overlooked {mode : Mode} {options : BodyOptions} {stream : RequestStream}
    (hencodes : Encodes options stream) (hshot : stream.OneShot)
    (h : options.isStreaming mode = false) :
    (mode = .sync ∧ ∃ body, options.source = some body ∧ body.type.hasIter = false) ∨
      ∃ files data, options.files = some files ∧ Part.file data false ∈ files.parts := by
  cases hencodes with
  | inMemory data _ _ => cases RequestStream.not_byteStream hshot
  | form data _ => cases RequestStream.not_byteStream hshot
  | @iterable body hsource _ hiter =>
    have hmissed := options.isStreamingBody_source hsource h
    have hother : body.type.isReplayable = false := by
      obtain ⟨n, hn⟩ := hshot
      by_contra hreplays
      exact hn (body.replays (by simpa using hreplays) n)
    refine .inl ?_
    cases mode with
    | sync =>
      refine ⟨rfl, body, hsource, ?_⟩
      simpa [isStreamingBody, isStreamingBodySync, hother] using hmissed
    | async =>
      have hnone : (body.type.hasIter || body.type.hasAiter) = false := by
        simpa [isStreamingBody, isStreamingBodyAsync, hother, and_comm] using hmissed
      rw [hnone] at hiter
      cases hiter
  | @multipart files fields hsource hfiles =>
    refine .inr ⟨files, ?_⟩
    by_contra hseek
    refine RequestStream.not_oneShot_multipart (fun data hmem => ?_) hshot
    rcases List.mem_append.mp hmem with hmem | hmem
    · obtain ⟨field, -, hfield⟩ := List.mem_map.mp hmem
      cases hfield
    · exact hseek ⟨data, hfiles, hmem⟩

/-! ## The claim -/

/-- A request that a client is given: by `send` or `send_with_response`, or by the options of a verb
method, from which httpx2 builds it. -/
inductive Supplied
  | send (request : BodyRequest)
  | verb (mode : Mode) (options : BodyOptions) (built : BodyRequest)
      (encodes : Encodes options built.stream)

namespace Supplied

/-- The request before the client marks it. -/
def given : Supplied → BodyRequest
  | send request => request
  | verb _ _ built _ => built

/-- The request that goes through the middleware. -/
def dispatched : Supplied → BodyRequest
  | send request => markStreamingBody request
  | verb mode options built _ => prepareRequest mode options built

/-- The body is a stream to the client: for `send`, it does not go by the name of a multipart body,
and for a verb method, one of the options is a stream to the detector. -/
def isDetected : Supplied → Bool
  | send request => !request.isMultipart
  | verb mode options _ _ => options.isStreaming mode

/-- A detected one-shot body is marked, and no other. -/
theorem lookup_dispatched {supplied : Supplied} (hshot : supplied.given.stream.OneShot)
    (hunmarked : supplied.given.extensions.lookup streamingBodyMarker = none) :
    supplied.dispatched.extensions.lookup streamingBodyMarker =
      if supplied.isDetected then some true else none := by
  cases supplied with
  | send request =>
    have hmark : (markStreamingBody request).extensions.lookup streamingBodyMarker =
        if request.isMultipart then none else some true :=
      lookup_markStreamingBody (RequestStream.not_byteStream hshot) hunmarked
    change (markStreamingBody request).extensions.lookup streamingBodyMarker =
      if !request.isMultipart then some true else none
    rw [hmark]
    cases request.isMultipart <;> rfl
  | verb mode options built encodes => exact lookup_prepareRequest mode options hunmarked

end Supplied

/-- A one-shot body is sent once, under every policy and whatever its attempts meet, if and only if
the client detects it. -/
theorem sent_once_iff (supplied : Supplied) (hshot : supplied.given.stream.OneShot)
    (hunmarked : supplied.given.extensions.lookup streamingBodyMarker = none) :
    SentOnce supplied.dispatched.toRequest ↔ supplied.isDetected = true := by
  have hlookup := Supplied.lookup_dispatched hshot hunmarked
  constructor
  · intro honce
    by_contra hmissed
    rw [if_neg hmissed] at hlookup
    exact not_sentOnce supplied.dispatched.upper hlookup honce
  · intro hdetected
    rw [if_pos hdetected] at hlookup
    exact sentOnce_of_marked hlookup

/-- A `POST` of a generator that yields one byte. -/
def generatorPost (headers : Headers) : BodyRequest where
  method := "POST"
  url := ⟨"https", "example.com", none, "example.com", "https://example.com/"⟩
  headers
  stream := .iterator fun n => if n = 0 then [1] else []
  upper := ⟨"POST", by decide +kernel⟩

/-- Given to `send`, it is sent once. -/
theorem sent_once_generator :
    SentOnce (Supplied.send (generatorPost [])).dispatched.toRequest :=
  (sent_once_iff (.send (generatorPost [])) ⟨1, by decide⟩ rfl).mpr (by decide +kernel)

/-- With a `Content-Type` of its own, which says that it is multipart, it is sent again. -/
theorem sent_again_multipart :
    (Supplied.send (generatorPost [("content-type", "multipart/form-data")])).given.stream.OneShot ∧
    ¬ SentOnce (Supplied.send
      (generatorPost [("content-type", "multipart/form-data")])).dispatched.toRequest :=
  ⟨⟨1, by decide⟩, not_sentOnce (Supplied.dispatched _).upper (by decide +kernel)⟩

end Httpware
