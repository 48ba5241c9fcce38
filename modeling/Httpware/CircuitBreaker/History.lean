import Mathlib.Data.List.DropRight
import Httpware.CircuitBreaker.Tickets

/-!
# The history of a circuit

A specification of the circuit breaker that keeps no counters and no tickets: a `History` is the
whole log of recorded outcomes, each with the period in which its call was admitted and the period in
which it was recorded, a period being the time between two state changes. Its machine says when the
state changes: from CLOSED by a rule on the outcomes of the current period (`TripRule`), from OPEN
with the first admission after `reset_timeout`, and from HALF_OPEN by the outcomes of its probes.

`Simulates` relates a circuit with its calls to a history, and `simulates_step` follows one step. It
asks of the trip mode only `Implements`: that what the mode keeps of a period's outcomes decides the
rule. The two modes are instances.
-/

namespace Httpware.CircuitBreakerState

open Python (Error Number)

/-! ## The specification -/

/-- The state of a circuit, with the time at which it opened. -/
inductive Condition
  | closed
  | opened (since : ℚ)
  | halfOpen

/-- The state without the time. -/
def Condition.state : Condition → CircuitState
  | closed => .CLOSED
  | opened _ => .OPEN
  | halfOpen => .HALF_OPEN

/-- The condition of CLOSED. -/
theorem Condition.eq_closed {condition : Condition} (h : condition.state = .CLOSED) :
    condition = .closed := by
  cases condition with
  | closed => rfl
  | opened since => cases h
  | halfOpen => cases h

/-- The condition of HALF_OPEN. -/
theorem Condition.eq_halfOpen {condition : Condition} (h : condition.state = .HALF_OPEN) :
    condition = .halfOpen := by
  cases condition with
  | closed => cases h
  | opened since => cases h
  | halfOpen => rfl

/-- The condition of OPEN, with the time at which it opened. -/
theorem Condition.eq_opened {condition : Condition} (h : condition.state = .OPEN) :
    ∃ since, condition = .opened since := by
  cases condition with
  | closed => cases h
  | opened since => exact ⟨since, rfl⟩
  | halfOpen => cases h

/-- A recorded outcome: the periods of the call's admission and of the record, the state at the
record, and the effective slot of the record. -/
structure Entry where
  admitted : ℕ
  recorded : ℕ
  state : CircuitState
  outcome : Outcome
  slot : ℤ

/-- A non-foreign outcome that was recorded while CLOSED, in the period of the call's admission. -/
def Entry.counts (e : Entry) : Bool :=
  e.admitted == e.recorded && e.state == .CLOSED && e.outcome != .foreign

/-- A counted failure. -/
def Entry.failed (e : Entry) : Bool := e.outcome = .failure

/-- Where a call is: an admitted call is unfinished until its outcome is recorded. -/
inductive HistoryCall
  | idle
  | waiting
  | admitted (period : ℕ)
  | ended

/-- The history of a circuit. `effective` is the largest slot of a counted outcome so far. -/
structure History where
  condition : Condition
  period : ℕ
  effective : Option ℤ
  log : List Entry
  calls : CallId → HistoryCall

/-- What makes a closed circuit open: a condition on the counted outcomes of its period, given the
effective slot. -/
structure TripRule where
  slotOf : ℚ → ℤ
  trips : ℤ → List Entry → Prop

/-- What a step shows. -/
inductive Seen
  | read (admitted : Bool)
  | admitted
  | halfOpened
  | rejected (retryAfter : Option Number)
  | recorded (outcome : Outcome)
  | failed (e : Error)

namespace History

/-- The history of a new circuit. -/
def init : History := ⟨.closed, 0, none, [], fun _ => .idle⟩

/-- The counted outcomes of a period. -/
def counted (period : ℕ) (log : List Entry) : List Entry :=
  log.filter fun e => e.recorded == period && e.counts

/-- The number of successes of a period's own calls. -/
def successes (period : ℕ) (log : List Entry) : ℕ :=
  log.countP fun e => e.admitted == period && e.recorded == period && e.outcome == .success

/-- A state change starts a new period. -/
def moveTo (h : History) (condition : Condition) : History :=
  { h with condition, period := h.period + 1 }

/-- The entry of an outcome that is recorded now. -/
def entry (rule : TripRule) (h : History) (admitted : ℕ) (outcome : Outcome) (clock : Readings) :
    Entry :=
  ⟨admitted, h.period, h.condition.state, outcome,
    RollingWindow.effectiveAt h.effective (rule.slotOf clock.outcome)⟩

/-- The history with one more entry. -/
def append (h : History) (e : Entry) : History :=
  { h with log := h.log ++ [e], effective := if e.counts then some e.slot else h.effective }

open Classical in
/-- The record of an outcome of a call that was admitted in the period `admitted`. -/
noncomputable def record (cfg : Config) (rule : TripRule) (h : History) (admitted : ℕ)
    (outcome : Outcome) (clock : Readings) : History :=
  let e := h.entry rule admitted outcome clock
  let h' := h.append e
  if admitted ≠ h.period then h'
  else
    match h.condition, outcome with
    | .closed, _ =>
      if e.counts ∧ rule.trips e.slot (counted h.period h'.log) then
        h'.moveTo (.opened clock.opened)
      else h'
    | .halfOpen, .failure => h'.moveTo (.opened clock.opened)
    | .halfOpen, .success =>
      if successes h.period h'.log = cfg.successThreshold then h'.moveTo .closed else h'
    | _, _ => h'

open Classical in
/-- One step of a call. -/
noncomputable def callStep (cfg : Config) (rule : TripRule) (h : History) :
    HistoryCall → CallAction → Option (Seen × History × HistoryCall)
  | .idle, .read =>
    match h.condition with
    | .closed => some (.read true, h, .admitted h.period)
    | _ => some (.read false, h, .waiting)
  | .waiting, .admitCall now =>
    match h.condition with
    | .closed => some (.admitted, h, .admitted h.period)
    | .opened since =>
      if Number.finite now < .finite since + cfg.resetTimeout then
        some (.rejected (some (.finite since + cfg.resetTimeout - .finite now)), h, .ended)
      else some (.halfOpened, h.moveTo .halfOpen, .admitted (h.period + 1))
    | .halfOpen =>
      -- A probe is unfinished.
      if ∃ d, h.calls d = .admitted h.period then some (.rejected none, h, .ended)
      else some (.admitted, h, .admitted h.period)
  | .admitted period, .finish ending clock =>
    some (.recorded (outcomeOf cfg ending), h.record cfg rule period (outcomeOf cfg ending) clock,
      .ended)
  | _, _ => none

/-- The specification: it shows what each step does and the state after it. -/
noncomputable def machine (cfg : Config) (rule : TripRule) :
    Machine History (CallId × CallAction) (Seen × CircuitState) where
  init := init
  step h a :=
    (h.callStep cfg rule (h.calls a.1) a.2).map fun r =>
      ((r.1, r.2.1.condition.state), { r.2.1 with calls := Function.update h.calls a.1 r.2.2 })

end History

/-- What the specification sees of a step: everything but the emission of events, without the numbers
on the tickets. -/
def CallResult.seen : CallResult → Option Seen
  | read ticket => some (.read ticket.isSome)
  | admitted _ => some .admitted
  | halfOpened _ => some .halfOpened
  | rejected retryAfter => some (.rejected retryAfter)
  | recorded outcome => some (.recorded outcome)
  | failed e => some (.failed e)
  | emitted _ => none

/-- A step as the specification sees it. -/
def visible (a : CallId × CallAction) (o : Shown) :
    Option ((CallId × CallAction) × (Seen × CircuitState)) :=
  o.result.seen.map fun seen => (a, seen, o.state)

/-! ## The simulation -/

/-- A call of the breaker and a call of the history: a ticket is of the period in which it was handed
out. -/
def CallMatches (phase : CallPhase) : HistoryCall → Prop
  | .idle => phase = .idle
  | .waiting => phase = .unticketed
  | .admitted period =>
    ∃ ticket : ℤ, phase.unrecorded = some ticket ∧
      (ticket = 2 * period ∨ ticket = 2 * period + 1)
  | .ended => phase.unrecorded = none ∧ phase ≠ .idle ∧ phase ≠ .unticketed

/-- What a trip mode needs, to decide `rule` from what it keeps of the counted outcomes of the current
period: `Tracks st effective outcomes` says that the circuit keeps it. -/
structure Implements (cfg : Config) (rule : TripRule)
    (Tracks : CircuitBreakerState → Option ℤ → List Entry → Prop) : Prop where
  /-- A new circuit has no outcomes. -/
  init : Tracks (init cfg) none []
  /-- Only the counter and the window matter. -/
  frame : ∀ {st st' effective outcomes}, Tracks st effective outcomes →
    st'.consecutiveFailures = st.consecutiveFailures → st'.window = st.window →
    Tracks st' effective outcomes
  /-- Something is kept while the circuit is not closed. -/
  opened : ∀ {st effective outcomes} (now), Tracks st effective outcomes →
    ∃ outcomes', Tracks (st.afterOpen now) effective outcomes'
  /-- A close forgets the outcomes. -/
  closed : ∀ {st st' effective outcomes}, Tracks st effective outcomes →
    st'.consecutiveFailures = 0 →
    st'.window = (if cfg.rateMode then st.window.map RollingWindow.clear else st.window) →
    Tracks st' effective []
  /-- Recording an outcome does not raise. -/
  ok : ∀ {st effective outcomes ticket outcome request clock e}, Tracks st effective outcomes →
    st.record cfg ticket outcome request clock ≠ .error e
  /-- A counted outcome trips the circuit exactly by the rule, and is kept otherwise. -/
  record : ∀ {st st' effective outcomes request clock events} {e : Entry},
    Tracks st effective outcomes → e.outcome ≠ .foreign →
    e.slot = RollingWindow.effectiveAt effective (rule.slotOf clock.outcome) →
    Records cfg st request clock st.epoch e.outcome events st' →
    (rule.trips e.slot (outcomes ++ [e]) ∧ ∃ window,
        st' = afterOpen { st with window } clock.opened ∧
        ∃ outcomes', Tracks st' (some e.slot) outcomes') ∨
      (¬ rule.trips e.slot (outcomes ++ [e]) ∧
        (∃ failures window, st' = { st with consecutiveFailures := failures, window }) ∧
        Tracks st' (some e.slot) (outcomes ++ [e]))

/-- A circuit and its history, but for the calls. -/
structure Agrees (Tracks : CircuitBreakerState → Option ℤ → List Entry → Prop)
    (st : CircuitBreakerState) (h : History) : Prop where
  /-- Two epochs a period. -/
  epoch : st.epoch = 2 * h.period
  /-- The same state. -/
  state : st.state = h.condition.state
  /-- The same time of the opening. -/
  openedAt : ∀ since, h.condition = .opened since → st.openedAt = since
  /-- The log has no entry of a later period. -/
  recorded_le : ∀ e ∈ h.log, e.recorded ≤ h.period
  /-- The successes in a row are those of the period's probes. -/
  successes : st.consecutiveSuccesses =
    if st.state = .HALF_OPEN then (History.successes h.period h.log : ℤ) else 0
  /-- While CLOSED, the trip mode keeps the outcomes of the period. -/
  tracks : ∃ outcomes, Tracks st h.effective outcomes ∧
    (h.condition = .closed → outcomes = History.counted h.period h.log)

/-- A circuit with its calls, and the history of both. -/
structure Simulates (Tracks : CircuitBreakerState → Option ℤ → List Entry → Prop) (s : System)
    (h : History) : Prop where
  circuit : Agrees Tracks s.circuit h
  calls : ∀ c, CallMatches (s.calls c) (h.calls c)

namespace History

/-- No entry of the log is counted in a later period. -/
theorem counted_of_lt {period : ℕ} {log : List Entry} (h : ∀ e ∈ log, e.recorded < period) :
    counted period log = [] := by
  refine List.filter_eq_nil_iff.mpr fun e he => ?_
  have := h e he
  simp only [Bool.and_eq_true, beq_iff_eq, not_and]
  omega

/-- No success of the log is one of a later period's own calls. -/
theorem successes_of_lt {period : ℕ} {log : List Entry} (h : ∀ e ∈ log, e.recorded < period) :
    successes period log = 0 := by
  refine List.countP_eq_zero.mpr fun e he => ?_
  have := h e he
  simp only [Bool.and_eq_true, beq_iff_eq, not_and]
  omega

/-- An entry that does not count leaves the counted outcomes alone. -/
theorem counted_append (period : ℕ) (log : List Entry) (e : Entry) :
    counted period (log ++ [e]) =
      counted period log ++ if e.recorded = period ∧ e.counts = true then [e] else [] := by
  unfold counted
  rw [List.filter_append]
  by_cases h : e.recorded = period ∧ e.counts = true <;> simp [h]

/-- The successes of a longer log. -/
theorem successes_append (period : ℕ) (log : List Entry) (e : Entry) :
    successes period (log ++ [e]) = successes period log +
      if e.admitted = period ∧ e.recorded = period ∧ e.outcome = .success then 1 else 0 := by
  unfold successes
  rw [List.countP_append, List.countP_singleton]
  simp [and_assoc]

/-- A record opens a closed circuit exactly when it is a counted outcome of the period with which the
rule trips. -/
theorem record_opens_iff (cfg : Config) (rule : TripRule) (h : History) (admitted : ℕ)
    (outcome : Outcome) (clock : Readings) :
    h.condition.state = .CLOSED ∧ (h.record cfg rule admitted outcome clock).condition.state = .OPEN ↔
      h.condition.state = .CLOSED ∧ admitted = h.period ∧ outcome ≠ .foreign ∧
        rule.trips (RollingWindow.effectiveAt h.effective (rule.slotOf clock.outcome))
          (counted h.period h.log ++ [h.entry rule admitted outcome clock]) := by
  refine and_congr_right fun hclosed => ?_
  have hcond := Condition.eq_closed hclosed
  unfold record
  by_cases hcurrent : admitted = h.period
  · subst hcurrent
    simp only [ne_eq, not_true_eq_false, if_false, hcond, true_and]
    generalize he : h.entry rule h.period outcome clock = e
    have hrecorded : e.recorded = h.period := by rw [← he]; rfl
    have hcounts : e.counts = true ↔ outcome ≠ .foreign := by
      rw [← he]
      simp [Entry.counts, entry, hcond, Condition.state]
    have hslot : e.slot = RollingWindow.effectiveAt h.effective (rule.slotOf clock.outcome) := by
      rw [← he]; rfl
    have hlog : e.counts = true → counted h.period (h.append e).log = counted h.period h.log ++ [e] := by
      intro hc
      change counted h.period (h.log ++ [e]) = _
      rw [counted_append, if_pos ⟨hrecorded, hc⟩]
    -- The record opens exactly where its own test says so.
    split_ifs with htrips
    · refine iff_of_true rfl ⟨hcounts.mp htrips.1, ?_⟩
      rw [← hslot, ← hlog htrips.1]
      exact htrips.2
    · refine iff_of_false ?_ fun hp => htrips ?_
      · change h.condition.state ≠ .OPEN
        rw [hclosed]
        simp
      · have hc := hcounts.mpr hp.1
        rw [hlog hc, hslot]
        exact ⟨hc, hp.2⟩
  · -- An entry of an earlier period is appended, and nothing else.
    rw [if_pos hcurrent]
    refine iff_of_false ?_ fun hp => hcurrent hp.1
    change h.condition.state ≠ .OPEN
    rw [hclosed]
    simp

end History

section Simulation

variable {cfg : Config} {rule : TripRule}
  {Tracks : CircuitBreakerState → Option ℤ → List Entry → Prop} {st st' : CircuitBreakerState}
  {h h' : History} {request : Request}

namespace Agrees

/-- The calls do not matter. -/
theorem of_calls (ha : Agrees Tracks st h) (calls : CallId → HistoryCall) :
    Agrees Tracks st { h with calls } :=
  ⟨ha.epoch, ha.state, ha.openedAt, ha.recorded_le, ha.successes, ha.tracks⟩

/-- The counts of the rejections and the probe slot do not matter. -/
theorem of_fields (hi : Implements cfg rule Tracks) (ha : Agrees Tracks st h)
    (hepoch : st'.epoch = st.epoch) (hstate : st'.state = st.state)
    (hopened : st'.openedAt = st.openedAt)
    (hsuccesses : st'.consecutiveSuccesses = st.consecutiveSuccesses)
    (hfailures : st'.consecutiveFailures = st.consecutiveFailures)
    (hwindow : st'.window = st.window) : Agrees Tracks st' h where
  epoch := hepoch.trans ha.epoch
  state := hstate.trans ha.state
  openedAt since hsince := hopened.trans (ha.openedAt since hsince)
  recorded_le := ha.recorded_le
  successes := by rw [hsuccesses, hstate, ha.successes]
  tracks := by
    obtain ⟨outcomes, htracks, hclosed⟩ := ha.tracks
    exact ⟨outcomes, hi.frame htracks hfailures hwindow, hclosed⟩

/-- The entries of a longer log are of the current period at most. -/
theorem recorded_le_append (ha : Agrees Tracks st h) {e : Entry} (hrecorded : e.recorded = h.period) :
    ∀ e' ∈ (h.append e).log, e'.recorded ≤ h.period := by
  intro e' he'
  rcases List.mem_append.mp he' with he' | he'
  · exact ha.recorded_le e' he'
  · rw [List.mem_singleton.mp he', hrecorded]

/-- An entry that is neither counted nor a success of the period's own calls changes nothing. -/
theorem append (ha : Agrees Tracks st h) {e : Entry} (hrecorded : e.recorded = h.period)
    (hcounts : e.counts = false) (hsuccess : ¬ (e.admitted = h.period ∧ e.outcome = .success)) :
    Agrees Tracks st (h.append e) where
  epoch := ha.epoch
  state := ha.state
  openedAt := ha.openedAt
  recorded_le := ha.recorded_le_append hrecorded
  successes := by
    have hnone : ¬ (e.admitted = h.period ∧ e.recorded = h.period ∧ e.outcome = .success) :=
      fun hp => hsuccess ⟨hp.1, hp.2.2⟩
    change _ = if _ then (History.successes h.period (h.log ++ [e]) : ℤ) else 0
    rw [History.successes_append, if_neg hnone]
    exact ha.successes
  tracks := by
    obtain ⟨outcomes, htracks, hclosed⟩ := ha.tracks
    refine ⟨outcomes, by simpa [History.append, hcounts] using htracks, fun hc => ?_⟩
    change outcomes = History.counted h.period (h.log ++ [e])
    rw [History.counted_append, if_neg (by simp [hcounts]), List.append_nil]
    exact hclosed hc

/-- A state change, in the circuit and in its history. -/
theorem moveTo {condition : Condition} (hle : ∀ e ∈ h.log, e.recorded ≤ h.period)
    (hepoch : st'.epoch = 2 * h.period + 2) (hstate : st'.state = condition.state)
    (hopened : ∀ since, condition = .opened since → st'.openedAt = since)
    (hsuccesses : st'.consecutiveSuccesses = 0)
    (htracks : ∃ outcomes, Tracks st' h.effective outcomes ∧
      (condition = .closed → outcomes = [])) :
    Agrees Tracks st' (h.moveTo condition) := by
  have hlt : ∀ e ∈ h.log, e.recorded < h.period + 1 := fun e he => Nat.lt_succ_of_le (hle e he)
  refine ⟨?_, hstate, hopened, fun e he => (hlt e he).le, ?_, ?_⟩
  · rw [hepoch]
    change 2 * (h.period : ℤ) + 2 = 2 * ((h.period + 1 : ℕ) : ℤ)
    push_cast
    ring
  · rw [hsuccesses]
    change (0 : ℤ) = if _ then ((History.successes (h.period + 1) h.log : ℕ) : ℤ) else 0
    rw [History.successes_of_lt hlt]
    simp
  · obtain ⟨outcomes, htracks, hclosed⟩ := htracks
    refine ⟨outcomes, htracks, fun hc => ?_⟩
    change outcomes = History.counted (h.period + 1) h.log
    rw [History.counted_of_lt hlt, hclosed hc]

/-- An opening with the last recorded outcome, in the circuit and in its history. -/
theorem opened (ha : Agrees Tracks st h) {e : Entry} (hrecorded : e.recorded = h.period) {now : ℚ}
    {outcomes : List Entry} (hepoch : st'.epoch = st.epoch + 2) (hstate : st'.state = .OPEN)
    (hopened : st'.openedAt = now) (hsuccesses : st'.consecutiveSuccesses = 0)
    (htracks : Tracks st' (h.append e).effective outcomes) :
    Agrees Tracks st' ((h.append e).moveTo (.opened now)) := by
  refine moveTo (ha.recorded_le_append hrecorded) ?_ hstate ?_ hsuccesses ⟨outcomes, htracks, nofun⟩
  · rw [hepoch, ha.epoch]
    rfl
  · rintro since hsince
    exact hopened.trans (Condition.opened.inj hsince)

/-- A counted outcome, in the circuit and in its history: the trip is the rule's. -/
theorem record_closed (hi : Implements cfg rule Tracks) (ha : Agrees Tracks st h)
    (hcond : h.condition = .closed) {outcome : Outcome} {clock : Readings}
    {events : Option (List Event)} (hne : outcome ≠ .foreign)
    (hrecord : Records cfg st request clock st.epoch outcome events st') :
    Agrees Tracks st' (h.record cfg rule h.period outcome clock) := by
  obtain ⟨outcomes, htracks, hcounted⟩ := ha.tracks
  obtain rfl := hcounted hcond
  generalize he : h.entry rule h.period outcome clock = e
  have hcounts : e.counts = true := by
    rw [← he]
    simp [Entry.counts, History.entry, hcond, Condition.state, hne]
  have hrecorded : e.recorded = h.period := by rw [← he]; rfl
  have heffective : (h.append e).effective = some e.slot := if_pos hcounts
  have hlog : History.counted h.period (h.append e).log =
      History.counted h.period h.log ++ [e] := by
    change History.counted h.period (h.log ++ [e]) = _
    rw [History.counted_append, if_pos ⟨hrecorded, hcounts⟩]
  have houtcome : e.outcome = outcome := by rw [← he]; rfl
  have hslot : e.slot = RollingWindow.effectiveAt h.effective (rule.slotOf clock.outcome) := by
    rw [← he]; rfl
  unfold History.record
  simp only [he, hcond, ne_eq, not_true_eq_false, if_false]
  rw [← houtcome] at hne hrecord
  have hmode := hi.record htracks hne hslot hrecord
  rcases hmode with ⟨htrips, window, rfl, outcomes', htracks'⟩ |
    ⟨hquiet, ⟨failures, window, rfl⟩, htracks'⟩
  · -- The rule trips the circuit.
    rw [if_pos (by rw [he, hlog]; exact ⟨hcounts, htrips⟩)]
    exact ha.opened hrecorded rfl rfl rfl rfl (by rw [heffective]; exact htracks')
  · -- The outcome is kept.
    rw [if_neg (by rw [he, hlog]; exact fun hp => hquiet hp.2)]
    have hstate : st.state = .CLOSED := by rw [ha.state, hcond]; rfl
    refine ⟨ha.epoch, ha.state, ha.openedAt, ha.recorded_le_append hrecorded, ?_,
      ⟨_, by rw [heffective]; exact htracks', fun _ => hlog.symm⟩⟩
    have hzero := ha.successes
    simp only [hstate, reduceCtorEq, if_false] at hzero ⊢
    exact hzero

/-- A probe's outcome, in the circuit and in its history. -/
theorem record_probe (hi : Implements cfg rule Tracks) (ha : Agrees Tracks st h)
    (hcond : h.condition = .halfOpen) (hbelow : st.consecutiveSuccesses < cfg.successThreshold)
    {outcome : Outcome} {clock : Readings} {events : Option (List Event)}
    (hrecord : Records cfg st request clock (st.epoch + 1) outcome events st') :
    Agrees Tracks st' (h.record cfg rule h.period outcome clock) := by
  have hstate : st.state = .HALF_OPEN := by rw [ha.state, hcond]; rfl
  generalize he : h.entry rule h.period outcome clock = e
  have hcounts : e.counts = false := by
    rw [← he]
    simp [Entry.counts, History.entry, hcond, Condition.state]
  have hadmitted : e.admitted = h.period := by rw [← he]; rfl
  have hrecorded : e.recorded = h.period := by rw [← he]; rfl
  have houtcome : e.outcome = outcome := by rw [← he]; rfl
  have heffective : (h.append e).effective = h.effective := by simp [History.append, hcounts]
  have hcount : st.consecutiveSuccesses = History.successes h.period h.log := by
    rw [ha.successes, if_pos hstate]
  have hsuccesses : outcome = .success →
      (History.successes h.period (h.append e).log : ℤ) = st.consecutiveSuccesses + 1 := by
    intro hs
    change (History.successes h.period (h.log ++ [e]) : ℤ) = _
    rw [History.successes_append, if_pos ⟨hadmitted, hrecorded, houtcome.trans hs⟩, hcount]
    push_cast
    rfl
  obtain ⟨outcomes, htracks, -⟩ := ha.tracks
  unfold History.record
  simp only [he, hcond, ne_eq, not_true_eq_false, if_false]
  generalize hticket : st.epoch + 1 = ticket at hrecord
  cases hrecord with
  | stale _ hprobe => exact absurd hticket.symm hprobe
  | probeForeign =>
    refine (ha.append hrecorded hcounts ?_).of_fields hi rfl rfl rfl rfl rfl rfl
    rw [houtcome]
    simp
  | probeSucceeded hlt =>
    -- One success more, below the threshold.
    have hsucc := hsuccesses rfl
    dsimp only
    rw [if_neg (by omega)]
    refine ⟨ha.epoch, ha.state, ha.openedAt, ha.recorded_le_append hrecorded, ?_,
      ⟨outcomes, by rw [heffective]; exact hi.frame htracks rfl rfl, fun hc => ?_⟩⟩
    · simp only [hstate, if_true]
      exact hsucc.symm
    · rw [show (h.append e).condition = h.condition from rfl, hcond] at hc
      cases hc
  | probeClosed hge =>
    have hsucc : (History.successes h.period (h.append e).log : ℤ) = cfg.successThreshold := by
      rw [hsuccesses rfl]
      omega
    dsimp only
    rw [if_pos hsucc]
    refine moveTo (ha.recorded_le_append hrecorded) ?_ rfl nofun rfl
      ⟨[], by rw [heffective]; exact hi.closed htracks rfl rfl, fun _ => rfl⟩
    change st.epoch + 2 = 2 * (h.period : ℤ) + 2
    rw [ha.epoch]
  | probeFailed =>
    have hframe : Tracks { st with probeInFlight := false } _ _ := hi.frame htracks rfl rfl
    obtain ⟨outcomes', htracks'⟩ := hi.opened clock.opened hframe
    exact ha.opened hrecorded rfl rfl rfl rfl (by rw [heffective]; exact htracks')
  | _ => omega

end Agrees

/-- A step of the history that shows the same as a visible step of the breaker. -/
theorem follows (seen : Seen) (h' : History) (call : HistoryCall) {s : System} {c : CallId}
    {action : CallAction} {o : Shown} {phase : CallPhase}
    (hcalls : ∀ d, CallMatches (s.calls d) (h.calls d))
    (hstep : h.callStep cfg rule (h.calls c) action = some (seen, h', call))
    (hseen : o.result.seen = some seen) (hstate : o.state = h'.condition.state)
    (ha : Agrees Tracks st' h') (hmatch : CallMatches phase call) :
    (History.machine cfg rule).Follows (Simulates Tracks)
      ⟨st', Function.update s.calls c phase⟩ h (visible (c, action) o) := by
  rw [visible, hseen]
  refine ⟨{ h' with calls := Function.update h.calls c call }, ?_, ha.of_calls _, fun d => ?_⟩
  · simp [History.machine, hstep, hstate]
  · by_cases hd : d = c
    · subst hd
      simpa using hmatch
    · simpa [hd] using hcalls d

/-- A step that is not visible leaves the history where it is. -/
theorem follows_none {s : System} {c : CallId} {action : CallAction} {o : Shown} {phase : CallPhase}
    (hs : Simulates Tracks s h) (hseen : o.result.seen = none)
    (hsame : phase.unrecorded = (s.calls c).unrecorded)
    (hbefore : s.calls c ≠ .idle ∧ s.calls c ≠ .unticketed)
    (hafter : phase ≠ .idle ∧ phase ≠ .unticketed) :
    (History.machine cfg rule).Follows (Simulates Tracks)
      ⟨s.circuit, Function.update s.calls c phase⟩ h (visible (c, action) o) := by
  rw [visible, hseen]
  refine ⟨hs.circuit, fun d => ?_⟩
  by_cases hd : d = c
  · subst hd
    simp only [Function.update_self]
    have hmatch := hs.calls d
    cases hcall : h.calls d with
    | idle => rw [hcall] at hmatch; exact absurd hmatch hbefore.1
    | waiting => rw [hcall] at hmatch; exact absurd hmatch hbefore.2
    | admitted period =>
      rw [hcall] at hmatch
      obtain ⟨ticket, hticket, hperiod⟩ := hmatch
      exact ⟨ticket, hsame.trans hticket, hperiod⟩
    | ended =>
      rw [hcall] at hmatch
      exact ⟨hsame.trans hmatch.1, hafter⟩
  · simpa [hd] using hs.calls d

namespace CallMatches

variable {phase : CallPhase} {call : HistoryCall}

/-- The history of a call that has not begun. -/
theorem eq_idle (hm : CallMatches phase call) (hphase : phase = .idle) : call = .idle := by
  subst hphase
  cases call with
  | idle => rfl
  | waiting => cases hm
  | admitted period => obtain ⟨_, h, -⟩ := hm; cases h
  | ended => exact absurd rfl hm.2.1

/-- The history of a call that found no ticket. -/
theorem eq_waiting (hm : CallMatches phase call) (hphase : phase = .unticketed) :
    call = .waiting := by
  subst hphase
  cases call with
  | idle => cases hm
  | waiting => rfl
  | admitted period => obtain ⟨_, h, -⟩ := hm; cases h
  | ended => exact absurd rfl hm.2.2

/-- The history of a call that has a ticket. -/
theorem eq_admitted (hm : CallMatches phase call) {ticket : ℤ}
    (hphase : phase.unrecorded = some ticket) :
    ∃ period : ℕ, call = .admitted period ∧ (ticket = 2 * period ∨ ticket = 2 * period + 1) := by
  cases call with
  | idle => rw [show phase = .idle from hm] at hphase; cases hphase
  | waiting => rw [show phase = .unticketed from hm] at hphase; cases hphase
  | admitted period =>
    obtain ⟨ticket', h, hperiod⟩ := hm
    rw [hphase, Option.some.injEq] at h
    exact ⟨period, rfl, h ▸ hperiod⟩
  | ended => rw [hm.1] at hphase; cases hphase

/-- A call that has ended is over whether it emits events first or not. -/
theorem afterSection_ended {events : Option (List Event)} {emitting : List Event → CallPhase}
    (hemitting : ∀ events, CallMatches (emitting events) .ended) (hm : CallMatches phase .ended) :
    CallMatches (afterSection events emitting phase) .ended := by
  cases events with
  | none => exact hm
  | some events => exact hemitting events

end CallMatches

/-- The condition of a history from the state of its circuit. -/
theorem Agrees.eq_closed (ha : Agrees Tracks st h) (hstate : st.state = .CLOSED) :
    h.condition = .closed :=
  Condition.eq_closed (ha.state.symm.trans hstate)

/-- The condition of a history from the state of its circuit. -/
theorem Agrees.eq_halfOpen (ha : Agrees Tracks st h) (hstate : st.state = .HALF_OPEN) :
    h.condition = .halfOpen :=
  Condition.eq_halfOpen (ha.state.symm.trans hstate)

/-- The condition of a history from the state of its circuit. -/
theorem Agrees.eq_opened (ha : Agrees Tracks st h) (hstate : st.state = .OPEN) :
    h.condition = .opened st.openedAt := by
  obtain ⟨since, hc⟩ := Condition.eq_opened (ha.state.symm.trans hstate)
  rw [hc, ha.openedAt since hc]

/-- A probe is unfinished in the history exactly when the slot is taken. -/
theorem Simulates.probe {s : System} (hs : Simulates Tracks s h)
    (ht : Tickets cfg s.circuit fun c => (s.calls c).unrecorded)
    (hstate : s.circuit.state = .HALF_OPEN) :
    (∃ d, h.calls d = .admitted h.period) ↔ s.circuit.probeInFlight = true := by
  rw [ht.probe]
  refine exists_congr fun d => ?_
  have hepoch := hs.circuit.epoch
  constructor
  · intro hd
    have hmatch := hs.calls d
    rw [hd] at hmatch
    obtain ⟨ticket, hticket, hperiod⟩ := hmatch
    rw [hticket, Option.some.injEq]
    -- The epoch itself is the ticket of CLOSED.
    rcases hperiod with hperiod | hperiod
    · have hclosed := ht.closed d (hticket.trans (by rw [hperiod, hepoch]))
      rw [hstate] at hclosed
      cases hclosed
    · omega
  · intro hd
    obtain ⟨period, hcall, hperiod⟩ := (hs.calls d).eq_admitted hd
    rw [hcall]
    congr 1
    omega

/-- The unlocked read of `closed_ticket`, in the history. -/
theorem simulates_read {s : System} {c : CallId} {o : Shown} {phase : CallPhase}
    (hs : Simulates Tracks s h) (ht : Tickets cfg s.circuit fun c => (s.calls c).unrecorded)
    (hidle : s.calls c = .idle)
    (hread : (∃ ticket, s.circuit.closedTicket = some ticket ∧ phase = .inNext ticket ∧
        o = ⟨.read (some ticket), [], s.circuit.state⟩) ∨
      (s.circuit.closedTicket = none ∧ phase = .unticketed ∧ o = ⟨.read none, [], s.circuit.state⟩)) :
    (History.machine cfg rule).Follows (Simulates Tracks)
      ⟨s.circuit, Function.update s.calls c phase⟩ h (visible (c, .read) o) := by
  have hcall := (hs.calls c).eq_idle hidle
  rcases hread with ⟨ticket, hticket, rfl, rfl⟩ | ⟨hticket, rfl, rfl⟩
  · obtain ⟨hstate, hepoch⟩ := ht.of_closedTicket hticket
    have hcond := hs.circuit.eq_closed hstate
    refine follows (.read true) h (.admitted h.period) hs.calls ?_ rfl
      hs.circuit.state hs.circuit ⟨ticket, rfl, .inl ?_⟩
    · simp [History.callStep, hcall, hcond]
    · rw [hepoch, hs.circuit.epoch]
  · have hnot : h.condition ≠ .closed := by
      intro hcond
      apply ht.not_closed hticket
      rw [hs.circuit.state, hcond]
      rfl
    refine follows (.read false) h .waiting hs.calls ?_ rfl
      hs.circuit.state hs.circuit rfl
    rw [hcall, History.callStep]
    cases hc : h.condition with
    | closed => exact absurd hc hnot
    | opened since => rfl
    | halfOpen => rfl

/-- A rejection leaves what the history sees of the circuit alone. -/
theorem Agrees.rejects (hi : Implements cfg rule Tracks) (ha : Agrees Tracks st h) {now : ℚ}
    {retryAfter : Option Number} {message : String} {events : Option (List Event)}
    (hreject : Rejects cfg st request now retryAfter message events st') :
    st'.state = st.state ∧ Agrees Tracks st' h := by
  cases hreject <;> exact ⟨rfl, ha.of_fields hi rfl rfl rfl rfl rfl rfl⟩

/-- An admission that gives a ticket, in the history. -/
theorem simulates_admitted (hi : Implements cfg rule Tracks) {s : System} {c : CallId}
    {now : ℚ} {ticket : ℤ} (hs : Simulates Tracks s h)
    (ht : Tickets cfg s.circuit fun c => (s.calls c).unrecorded)
    (hwaiting : s.calls c = .unticketed)
    (hadmission : Admits cfg s.circuit request now (.ticket ticket) st') :
    (History.machine cfg rule).Follows (Simulates Tracks)
      ⟨st', Function.update s.calls c (.inNext ticket)⟩ h
      (visible (c, .admitCall now) ⟨.admitted ticket, [], st'.state⟩) := by
  have hcall := (hs.calls c).eq_waiting hwaiting
  have hepoch := hs.circuit.epoch
  cases hadmission with
  | closed hticket =>
    obtain ⟨hstate, hticket⟩ := ht.of_closedTicket hticket
    have hcond := hs.circuit.eq_closed hstate
    refine follows .admitted h (.admitted h.period) hs.calls ?_ rfl
      hs.circuit.state hs.circuit ⟨ticket, rfl, .inl (hticket.trans hepoch)⟩
    simp [History.callStep, hcall, hcond]
  | probe hnone hopen hfree =>
    have hstate := ht.eq_halfOpen hnone hopen
    have hcond := hs.circuit.eq_halfOpen hstate
    have hprobe : ¬ ∃ d, h.calls d = .admitted h.period := by
      rw [hs.probe ht hstate, hfree]
      exact Bool.false_ne_true
    refine follows .admitted h (.admitted h.period) hs.calls ?_ rfl
      hs.circuit.state (hs.circuit.of_fields hi rfl rfl rfl rfl rfl rfl) ⟨_, rfl, .inr ?_⟩
    · rw [hcall, History.callStep, hcond]
      dsimp only
      rw [if_neg hprobe]
    · rw [hepoch]

/-- The move to HALF_OPEN, in the history. -/
theorem simulates_halfOpened {s : System} {c : CallId} {now : ℚ} {ticket : ℤ}
    {events : Option (List Event)} (hi : Implements cfg rule Tracks) (hs : Simulates Tracks s h)
    (hwaiting : s.calls c = .unticketed)
    (hadmission : Admits cfg s.circuit request now (.halfOpened ticket events) st') :
    (History.machine cfg rule).Follows (Simulates Tracks)
      ⟨st', Function.update s.calls c
        (afterSection events (.emittingHalfOpen ticket) (.inNext ticket))⟩ h
      (visible (c, .admitCall now) ⟨.halfOpened ticket, events.getD [], st'.state⟩) := by
  have hcall := (hs.calls c).eq_waiting hwaiting
  have hepoch := hs.circuit.epoch
  cases hadmission with
  | halfOpened _ hopen hlate =>
    have hcond := hs.circuit.eq_opened hopen
    rw [Number.finite_sub_lt_iff] at hlate
    obtain ⟨outcomes, htracks, -⟩ := hs.circuit.tracks
    have hzero : s.circuit.consecutiveSuccesses = 0 := by
      rw [hs.circuit.successes, hopen]
      rfl
    -- The probe is admitted in the period that starts here.
    refine follows .halfOpened (h.moveTo .halfOpen) (.admitted (h.period + 1)) hs.calls ?_ rfl rfl
      (.moveTo hs.circuit.recorded_le (by dsimp only; rw [hepoch]) rfl nofun hzero
        ⟨outcomes, hi.frame htracks rfl rfl, nofun⟩) ⟨_, rfl, .inr ?_⟩
    · rw [hcall, History.callStep, hcond]
      dsimp only
      rw [if_neg hlate]
    · rw [hepoch]
      push_cast
      ring

/-- A rejection, in the history. -/
theorem simulates_rejected {s : System} {c : CallId} {now : ℚ} {retryAfter : Option Number}
    {events : Option (List Event)} (hi : Implements cfg rule Tracks) (hs : Simulates Tracks s h)
    (ht : Tickets cfg s.circuit fun c => (s.calls c).unrecorded)
    (hwaiting : s.calls c = .unticketed)
    (hadmission : Admits cfg s.circuit request now (.rejected retryAfter events) st') :
    (History.machine cfg rule).Follows (Simulates Tracks)
      ⟨st', Function.update s.calls c (afterSection events (.emittingRejection retryAfter)
        (.finished (.rejected retryAfter)))⟩ h
      (visible (c, .admitCall now) ⟨.rejected retryAfter, events.getD [], st'.state⟩) := by
  have hcall := (hs.calls c).eq_waiting hwaiting
  have hover : CallMatches (afterSection events (.emittingRejection retryAfter)
      (.finished (.rejected retryAfter))) .ended :=
    .afterSection_ended (fun _ => ⟨rfl, nofun, nofun⟩) ⟨rfl, nofun, nofun⟩
  cases hadmission with
  | rejectedOpen _ hopen hearly hreject =>
    obtain ⟨hstate, hagrees⟩ := hs.circuit.rejects hi hreject
    have hcond := hs.circuit.eq_opened hopen
    -- The time left is positive, so `max(0, …)` is that time.
    have hpos := Number.sub_finite_pos hearly
    have hleft := Number.sub_finite_sub s.circuit.openedAt now cfg.resetTimeout
    rw [Number.pyMax_of_lt hpos, hleft] at hover ⊢
    rw [Number.finite_sub_lt_iff] at hearly
    refine follows _ h .ended hs.calls ?_ rfl (hstate.trans hs.circuit.state) hagrees hover
    rw [hcall, History.callStep, hcond]
    dsimp only
    rw [if_pos hearly]
  | rejectedProbe hnone hopen hprobe hreject =>
    obtain ⟨hstate, hagrees⟩ := hs.circuit.rejects hi hreject
    have hhalf := ht.eq_halfOpen hnone hopen
    have hcond := hs.circuit.eq_halfOpen hhalf
    have hsome : ∃ d, h.calls d = .admitted h.period := (hs.probe ht hhalf).mpr hprobe
    refine follows _ h .ended hs.calls ?_ rfl (hstate.trans hs.circuit.state) hagrees hover
    rw [hcall, History.callStep, hcond]
    dsimp only
    rw [if_pos hsome]

/-- The record of an outcome, in the history. -/
theorem simulates_recorded {s : System} {c : CallId} {ticket : ℤ} {ending : Ending}
    {clock : Readings} {events : Option (List Event)} (hi : Implements cfg rule Tracks)
    (hs : Simulates Tracks s h) (ht : Tickets cfg s.circuit fun c => (s.calls c).unrecorded)
    (hphase : s.calls c = .inNext ticket)
    (hrecord : Records cfg s.circuit request clock ticket (outcomeOf cfg ending) events st') :
    (History.machine cfg rule).Follows (Simulates Tracks)
      ⟨st', Function.update s.calls c
        (afterSection events (.emittingRecord ending) (.finished (.next ending)))⟩ h
      (visible (c, .finish ending clock)
        ⟨.recorded (outcomeOf cfg ending), events.getD [], st'.state⟩) := by
  have hticket : (s.calls c).unrecorded = some ticket := by rw [hphase]; rfl
  obtain ⟨period, hcall, hperiod⟩ := (hs.calls c).eq_admitted hticket
  have hepoch := hs.circuit.epoch
  have hover : CallMatches (afterSection events (.emittingRecord ending)
      (.finished (.next ending))) .ended :=
    .afterSection_ended (fun _ => ⟨rfl, nofun, nofun⟩) ⟨rfl, nofun, nofun⟩
  have hagrees : Agrees Tracks st' (h.record cfg rule period (outcomeOf cfg ending) clock) := by
    generalize outcomeOf cfg ending = outcome at hrecord
    by_cases hcurrent : ticket = s.circuit.epoch
    · -- The period of CLOSED.
      subst hcurrent
      obtain rfl : period = h.period := by omega
      have hcond := hs.circuit.eq_closed (ht.closed c hticket)
      by_cases hne : outcome = .foreign
      · subst hne
        have hsame : st' = s.circuit := by
          generalize hepoch' : s.circuit.epoch = ticket at hrecord
          cases hrecord with
          | stale _ _ => rfl
          | foreign => rfl
          | windowed hne _ _ _ _ => exact absurd rfl hne
          | rateTripped hne _ _ _ _ => exact absurd rfl hne
          | probeForeign => omega
        subst hsame
        unfold History.record
        simp only [ne_eq, not_true_eq_false, if_false, hcond]
        rw [if_neg (by simp [Entry.counts, History.entry])]
        exact hs.circuit.append rfl (by simp [Entry.counts, History.entry])
          (by simp [History.entry])
      · exact hs.circuit.record_closed hi hcond hne hrecord
    · by_cases hprobe : ticket = s.circuit.epoch + 1
      · -- The period of HALF_OPEN.
        subst hprobe
        obtain rfl : period = h.period := by omega
        have hcond := hs.circuit.eq_halfOpen (ht.halfOpen c hticket)
        exact hs.circuit.record_probe hi hcond ht.successes.2 hrecord
      · -- An earlier period.
        have hearlier : period ≠ h.period := by omega
        have hsame : st' = s.circuit := by
          cases hrecord with
          | stale _ _ => rfl
          | _ => first | exact absurd rfl hcurrent | exact absurd rfl hprobe
        subst hsame
        unfold History.record
        rw [if_pos hearlier]
        exact hs.circuit.append rfl (by simp [Entry.counts, History.entry, hearlier])
          fun hp => hearlier hp.1
  refine follows _ _ .ended hs.calls ?_ rfl hagrees.state hagrees hover
  rw [hcall]
  rfl

/-- The history follows every step of the breaker. -/
theorem simulates_step (hi : Implements cfg rule Tracks) {s : System} {c : CallId}
    {action : CallAction} {o : Shown} {phase : CallPhase} (hs : Simulates Tracks s h)
    (ht : Tickets cfg s.circuit fun c => (s.calls c).unrecorded)
    (hstep : CallSteps cfg request s.circuit (s.calls c) action o st' phase) :
    (History.machine cfg rule).Follows (Simulates Tracks)
      ⟨st', Function.update s.calls c phase⟩ h (visible (c, action) o) := by
  generalize hbefore : s.calls c = before at hstep
  cases hstep with
  | readTicket hticket => exact simulates_read hs ht hbefore (.inl ⟨_, hticket, rfl, rfl⟩)
  | readNone hticket => exact simulates_read hs ht hbefore (.inr ⟨hticket, rfl, rfl⟩)
  | admitted hadmission => exact simulates_admitted hi hs ht hbefore hadmission
  | halfOpened hadmission => exact simulates_halfOpened hi hs hbefore hadmission
  | rejected hadmission => exact simulates_rejected hi hs ht hbefore hadmission
  | recorded hrecord => exact simulates_recorded hi hs ht hbefore hrecord
  | failed herror =>
    obtain ⟨outcomes, htracks, -⟩ := hs.circuit.tracks
    exact absurd herror (hi.ok htracks)
  | @emittedHalfOpen _ _ escapes =>
    cases escapes <;>
      exact follows_none hs rfl (by rw [hbefore]; rfl) (by rw [hbefore]; exact ⟨nofun, nofun⟩)
        ⟨nofun, nofun⟩
  | @emittedRejection _ _ escapes =>
    cases escapes <;>
      exact follows_none hs rfl (by rw [hbefore]; rfl) (by rw [hbefore]; exact ⟨nofun, nofun⟩)
        ⟨nofun, nofun⟩
  | @emittedRecord _ _ escapes =>
    cases escapes <;>
      exact follows_none hs rfl (by rw [hbefore]; rfl) (by rw [hbefore]; exact ⟨nofun, nofun⟩)
        ⟨nofun, nofun⟩

end Simulation

/-- Every run of the breaker, as the specification sees it, is a run of the specification. -/
theorem refines {cfg : Config} {rule : TripRule}
    {Tracks : CircuitBreakerState → Option ℤ → List Entry → Prop} (hi : Implements cfg rule Tracks)
    {request : CallId → Request} {run : List ((CallId × CallAction) × Shown)} {s : System}
    (hrun : (calls cfg request).Runs run s) :
    ∃ h, (History.machine cfg rule).Runs (run.filterMap fun x => visible x.1 x.2) h ∧
      Simulates Tracks s h := by
  refine Machine.Runs.project visible ?_ ?_ hrun
  · refine ⟨⟨rfl, rfl, nofun, nofun, rfl, [], hi.init, fun _ => rfl⟩, fun _ => rfl⟩
  · rintro run s ⟨c, action⟩ o s' h hrun hs hstep
    obtain ⟨st, phase, hcases, rfl⟩ := step_cases hrun hstep
    exact simulates_step hi hs (tickets_of_runs hrun) hcases

/-- The next record of a run, in the breaker and in the specification. -/
theorem record_follows {cfg : Config} {rule : TripRule}
    {Tracks : CircuitBreakerState → Option ℤ → List Entry → Prop} (hi : Implements cfg rule Tracks)
    {request : CallId → Request} {run : List ((CallId × CallAction) × Shown)} {s s' : System}
    {h : History} (hrun : (calls cfg request).Runs run s) (hs : Simulates Tracks s h) {c : CallId}
    {ending : Ending} {clock : Readings} {o : Shown}
    (hstep : (calls cfg request).step s (c, .finish ending clock) = some (o, s')) :
    ∃ period, h.calls c = .admitted period ∧ s'.circuit.state =
      (h.record cfg rule period (outcomeOf cfg ending) clock).condition.state := by
  obtain ⟨st, phase, hcases, rfl⟩ := step_cases hrun hstep
  have hfollows := simulates_step hi hs (tickets_of_runs hrun) hcases
  generalize hbefore : s.calls c = before at hcases
  cases hcases with
  | recorded _ =>
    obtain ⟨h', hspec, hs'⟩ := hfollows
    have hmatch := hs.calls c
    rw [hbefore] at hmatch
    obtain ⟨period, hcall, -⟩ := hmatch.eq_admitted rfl
    refine ⟨period, hcall, ?_⟩
    simp only [History.machine, hcall, History.callStep, Option.map_some, Option.some.injEq,
      Prod.mk.injEq] at hspec
    obtain ⟨-, rfl⟩ := hspec
    exact hs'.circuit.state
  | failed herror =>
    obtain ⟨outcomes, htracks, -⟩ := hs.circuit.tracks
    exact absurd herror (hi.ok htracks)

end Httpware.CircuitBreakerState
