import Httpware.Lib.Machine
import Httpware.Observability

/-!
# The total deadline

`AsyncTimeout` of `middleware/resilience/timeout.py`, over `asyncio.timeout` and the task that runs the
call. A task counts the requests to cancel it (`task.cancelling()`). A deadline that expires is one more
request, and `asyncio.timeout` takes it back when its block is left; it turns the `CancelledError` into
a `TimeoutError` if the count is then no higher than when the block was entered.

`task` is one task with any number of these blocks around what it runs, since a chain may hold several
`AsyncTimeout`s and the program may have timeouts of its own around the call. Deadlines expire and the
task is cancelled at any moment, and the code in between may catch what leaves a block and go on.
-/

namespace Httpware.AsyncTimeout

open Python (Number)

/-- `AsyncTimeout.__init__`: the text of the `ValueError` that it raises. -/
def validateTimeout (timeout : Number) : Except String Unit :=
  if ¬ timeout.isFinite ∨ timeout ≤ .finite 0 then .error "timeout must be a finite number > 0"
  else .ok ()

/-- A timeout that the constructor accepts. -/
structure Config where
  timeout : Number
  accepted : validateTimeout timeout = .ok ()

/-- An accepted timeout is a positive number of seconds. -/
theorem Config.timeout_pos (cfg : Config) : ∃ q : ℚ, 0 < q ∧ cfg.timeout = .finite q := by
  have h := cfg.accepted
  unfold validateTimeout at h
  split_ifs at h with hbad
  obtain ⟨hfinite, hpos⟩ := not_or.mp hbad
  have hq := Number.eq_finite_toRat (not_not.mp hfinite)
  refine ⟨cfg.timeout.toRat, ?_, hq⟩
  rw [hq, Number.finite_le_finite] at hpos
  exact not_le.mp hpos

/-- The event of an expired deadline. -/
def exceededEvent (cfg : Config) (request : Request) : Event where
  name := "timeout.exceeded"
  level := WARNING
  message := "overall timeout exceeded"
  attributes :=
    [("timeout", .number cfg.timeout), ("method", .text request.method),
      ("url", .text request.url.text)]

/-- The exceptions from elsewhere that derive from `builtins.TimeoutError` and from
`asyncio.CancelledError`. -/
structure Kinds where
  isTimeoutError : String → Bool
  isCancelledError : String → Bool
  timeoutError : isTimeoutError "TimeoutError" = true
  cancelledError : isCancelledError "CancelledError" = true
  disjoint : ∀ name, isCancelledError name = true → isTimeoutError name = false

/-- `except TimeoutError` catches it; httpware's own `TimeoutError` is one. -/
def Kinds.isTimeout (kinds : Kinds) : Exc → Bool
  | .timeoutError => true
  | .other name => kinds.isTimeoutError name
  | _ => false

/-- It is a `CancelledError`. -/
def Kinds.isCancelled (kinds : Kinds) : Exc → Bool
  | .other name => kinds.isCancelledError name
  | _ => false

/-- A `CancelledError` is no `TimeoutError`. -/
theorem Kinds.not_isTimeout {kinds : Kinds} {e : Exc} (h : kinds.isCancelled e = true) :
    kinds.isTimeout e = false := by
  cases e with
  | other name => exact kinds.disjoint name h
  | _ => cases h

/-- What leaves a block is an exception of the kind. -/
def raisedAnd (p : Exc → Bool) : Ending → Bool
  | .returned _ => false
  | .raised e => p e

/-! ## A block under a deadline -/

/-- A call of an `AsyncTimeout` that is inside its block. `others` is a record for the proofs: somebody
else has asked for the task's cancellation since the block was entered. -/
structure Block where
  cfg : Config
  request : Request
  /-- `_cancelling`, the requests when the block was entered. -/
  cancelling : ℕ
  /-- The deadline has expired (`expired()`). -/
  expiring : Bool := false
  others : Bool := false

/-- `asyncio.timeout.__aexit__`: the count of the task's requests, and what leaves the block. -/
def Block.aexit (kinds : Kinds) (l : Block) (cancelling : ℕ) (ending : Ending) : ℕ × Ending :=
  if l.expiring then
    if cancelling - 1 ≤ l.cancelling ∧ raisedAnd kinds.isCancelled ending then
      (cancelling - 1, .raised (.other "TimeoutError"))
    else (cancelling - 1, ending)
  else (cancelling, ending)

/-- The `except` clause of `AsyncTimeout.__call__`; `escapes` is the exception of a handler of the
event, if one raises. -/
def Block.exceptClause (kinds : Kinds) (l : Block) (escapes : Option Exc) (ending : Ending) :
    List Event × Ending :=
  if raisedAnd kinds.isTimeout ending ∧ l.expiring then
    ([exceededEvent l.cfg l.request], .raised (escapes.getD .timeoutError))
  else ([], ending)

/-! ## The task -/

/-- What a task does: it runs code inside the innermost block, or something leaves that block. -/
inductive Control
  | running
  | leaving (ending : Ending)

/-- A task: its requests for cancellation, and its blocks, the innermost first. -/
structure Task where
  cancelling : ℕ
  blocks : List Block
  control : Control

/-- What can happen to a task. -/
inductive Action
  /-- The code calls an `AsyncTimeout`. -/
  | enter (cfg : Config) (request : Request)
  /-- The deadline of the block number `i` expires; the innermost block is number 0. -/
  | expire (i : ℕ)
  /-- Somebody else cancels the task. -/
  | cancel
  /-- The code ends. -/
  | finish (ending : Ending)
  /-- The innermost block is left. -/
  | leave (escapes : Option Exc)
  /-- The code between two blocks catches what left the inner one, and goes on. -/
  | resume

/-- The deadline of a block expires: for the blocks inside, somebody else has cancelled the task. -/
def expireAt : ℕ → List Block → Option (List Block)
  | _, [] => none
  | 0, l :: ls => if l.expiring then none else some ({ l with expiring := true } :: ls)
  | i + 1, l :: ls => (expireAt i ls).map fun ls => { l with others := true } :: ls

/-- One step of a task. -/
def taskStep (kinds : Kinds) (s : Task) : Action → Option (List Event × Task)
  | .enter cfg request =>
    match s.control with
    | .running => some ([], { s with blocks := ⟨cfg, request, s.cancelling, false, false⟩ :: s.blocks })
    | .leaving _ => none
  | .expire i =>
    (expireAt i s.blocks).map fun blocks => ([], { s with cancelling := s.cancelling + 1, blocks })
  | .cancel =>
    some ([], { s with
      cancelling := s.cancelling + 1
      blocks := s.blocks.map fun l => { l with others := true } })
  | .finish ending =>
    match s.control with
    | .running => some ([], { s with control := .leaving ending })
    | .leaving _ => none
  | .leave escapes =>
    match s.blocks, s.control with
    | l :: ls, .leaving ending =>
      let left := l.aexit kinds s.cancelling ending
      let caught := l.exceptClause kinds escapes left.2
      some (caught.1, ⟨left.1, ls, .leaving caught.2⟩)
    | _, _ => none
  | .resume =>
    match s.control with
    | .running => none
    | .leaving _ => some ([], { s with control := .running })

/-- A task and its deadlines. -/
def task (kinds : Kinds) : Machine Task Action (List Event) where
  init := ⟨0, [], .running⟩
  step := taskStep kinds

/-- The expired deadlines of some blocks. -/
def expirings (blocks : List Block) : ℕ := blocks.countP Block.expiring

/-- The request is somebody else's. -/
def Action.isCancel : Action → Bool
  | cancel => true
  | _ => false

/-- How often somebody else has cancelled the task. -/
def cancels (run : List (Action × List Event)) : ℕ := run.countP fun x => x.1.isCancel

/-- A longer run. -/
theorem cancels_snoc (run : List (Action × List Event)) (a : Action) (o : List Event) :
    cancels (run ++ [(a, o)]) = cancels run + if a.isCancel then 1 else 0 := by
  simp [cancels]

/-- The expired deadlines of a block and of those around it. -/
theorem expirings_cons (l : Block) (ls : List Block) :
    expirings (l :: ls) = expirings ls + if l.expiring then 1 else 0 := by
  simp [expirings, List.countP_cons]

/-- The ways in which a task can take a step. -/
inductive TaskSteps (kinds : Kinds) (s : Task) : Action → List Event → Task → Prop
  | entered (cfg : Config) (request : Request) (h : s.control = .running) :
      TaskSteps kinds s (.enter cfg request) []
        { s with blocks := ⟨cfg, request, s.cancelling, false, false⟩ :: s.blocks }
  | expired {i : ℕ} {blocks : List Block} (h : expireAt i s.blocks = some blocks) :
      TaskSteps kinds s (.expire i) [] { s with cancelling := s.cancelling + 1, blocks }
  | cancelled :
      TaskSteps kinds s .cancel []
        { s with
          cancelling := s.cancelling + 1
          blocks := s.blocks.map fun l => { l with others := true } }
  | finished (ending : Ending) (h : s.control = .running) :
      TaskSteps kinds s (.finish ending) [] { s with control := .leaving ending }
  | left {l : Block} {ls : List Block} {ending : Ending} (escapes : Option Exc)
      (hblocks : s.blocks = l :: ls) (hcontrol : s.control = .leaving ending) :
      TaskSteps kinds s (.leave escapes)
        (l.exceptClause kinds escapes (l.aexit kinds s.cancelling ending).2).1
        ⟨(l.aexit kinds s.cancelling ending).1, ls,
          .leaving (l.exceptClause kinds escapes (l.aexit kinds s.cancelling ending).2).2⟩
  | resumed {ending : Ending} (h : s.control = .leaving ending) :
      TaskSteps kinds s .resume [] { s with control := .running }

/-- A task takes a step in one of the listed ways. -/
theorem taskStep_cases {kinds : Kinds} {s s' : Task} {a : Action} {o : List Event}
    (h : taskStep kinds s a = some (o, s')) : TaskSteps kinds s a o s' := by
  unfold taskStep at h
  split at h
  · split at h
    · next hcontrol =>
      cases h
      exact .entered _ _ hcontrol
    · cases h
  · obtain ⟨blocks, hblocks, hr⟩ := Option.map_eq_some_iff.mp h
    cases hr
    exact .expired hblocks
  · cases h
    exact .cancelled
  · split at h
    · next hcontrol =>
      cases h
      exact .finished _ hcontrol
    · cases h
  · split at h
    · next hblocks hcontrol =>
      cases h
      exact .left _ hblocks hcontrol
    · cases h
  · split at h
    · cases h
    · next hcontrol =>
      cases h
      exact .resumed hcontrol

/-! ## The count of the requests -/

/-- What the blocks have written down, when somebody else has cancelled the task `n` times: the count
has grown since then if and only if somebody else, an enclosing deadline included, has asked. -/
def Recorded (n : ℕ) : List Block → Prop
  | [] => True
  | l :: ls => l.cancelling ≤ n + expirings ls ∧
      (l.others = false ↔ l.cancelling = n + expirings ls) ∧ Recorded n ls

/-- A deadline expires: one request more, and the blocks inside it know. -/
theorem Recorded.expire {n i : ℕ} {blocks blocks' : List Block} (h : Recorded n blocks)
    (hexpire : expireAt i blocks = some blocks') :
    Recorded n blocks' ∧ expirings blocks' = expirings blocks + 1 := by
  induction blocks generalizing i blocks' with
  | nil => cases i <;> cases hexpire
  | cons l ls ih =>
    obtain ⟨hle, hothers, hrest⟩ := h
    cases i with
    | zero =>
      rw [expireAt] at hexpire
      split_ifs at hexpire with hexpiring
      cases hexpire
      refine ⟨⟨hle, hothers, hrest⟩, ?_⟩
      simp [expirings_cons, hexpiring]
    | succ i =>
      obtain ⟨ls', hls, rfl⟩ := Option.map_eq_some_iff.mp hexpire
      obtain ⟨hrest', hcount⟩ := ih hrest hls
      refine ⟨⟨?_, ?_, hrest'⟩, ?_⟩
      · change l.cancelling ≤ n + expirings ls'
        omega
      · -- The count is past what the block has written down.
        change true = false ↔ l.cancelling = n + expirings ls'
        simp only [Bool.true_eq_false, false_iff]
        omega
      · rw [expirings_cons, expirings_cons, hcount]
        exact Nat.add_right_comm _ _ _

/-- Somebody else cancels the task: every block knows. -/
theorem Recorded.cancel {n : ℕ} {blocks : List Block} (h : Recorded n blocks) :
    Recorded (n + 1) (blocks.map fun l => { l with others := true }) ∧
      expirings (blocks.map fun l => { l with others := true }) = expirings blocks := by
  induction blocks with
  | nil => exact ⟨trivial, rfl⟩
  | cons l ls ih =>
    obtain ⟨hle, -, hrest⟩ := h
    obtain ⟨hrest', hcount⟩ := ih hrest
    refine ⟨⟨?_, ?_, hrest'⟩, ?_⟩
    · rw [hcount]
      change l.cancelling ≤ _
      omega
    · rw [hcount]
      change true = false ↔ l.cancelling = _
      simp only [Bool.true_eq_false, false_iff]
      omega
    · rw [List.map_cons, expirings_cons, expirings_cons, hcount]

/-- The invariant of the count: somebody else's requests, and those of the deadlines that have expired
and whose blocks have not been left. -/
structure Balanced (n : ℕ) (s : Task) : Prop where
  cancelling : s.cancelling = n + expirings s.blocks
  recorded : Recorded n s.blocks

/-- What is left of the count when a block is left. -/
theorem Block.aexit_cancelling (kinds : Kinds) (l : Block) (cancelling : ℕ) (ending : Ending) :
    (l.aexit kinds cancelling ending).1 = cancelling - if l.expiring then 1 else 0 := by
  unfold Block.aexit
  split_ifs <;> rfl

/-- The count after a step. -/
theorem Balanced.step {kinds : Kinds} {n : ℕ} {s s' : Task} {a : Action} {o : List Event}
    (h : Balanced n s) (hstep : TaskSteps kinds s a o s') :
    Balanced (n + if a.isCancel then 1 else 0) s' := by
  obtain ⟨hcancelling, hrecorded⟩ := h
  cases hstep with
  | entered cfg request hcontrol =>
    refine ⟨?_, ?_, ?_, hrecorded⟩
    · change s.cancelling = n + expirings _
      rw [expirings_cons, hcancelling]
      rfl
    · exact hcancelling.le
    · exact ⟨fun _ => hcancelling, fun _ => rfl⟩
  | @expired i blocks hblocks =>
    obtain ⟨hrecorded', hcount⟩ := hrecorded.expire hblocks
    refine ⟨?_, hrecorded'⟩
    change s.cancelling + 1 = n + expirings blocks
    omega
  | cancelled =>
    obtain ⟨hrecorded', hcount⟩ := hrecorded.cancel
    refine ⟨?_, hrecorded'⟩
    change s.cancelling + 1 = n + 1 + expirings (s.blocks.map fun l => { l with others := true })
    omega
  | finished ending hcontrol => exact ⟨hcancelling, hrecorded⟩
  | @left l ls ending escapes hblocks hcontrol =>
    rw [hblocks] at hcancelling hrecorded
    refine ⟨?_, hrecorded.2.2⟩
    change (l.aexit kinds s.cancelling ending).1 = n + expirings ls
    rw [Block.aexit_cancelling, hcancelling, expirings_cons]
    omega
  | resumed hcontrol => exact ⟨hcancelling, hrecorded⟩

/-- The count after every run. -/
theorem balanced_of_runs {kinds : Kinds} {run : List (Action × List Event)} {s : Task}
    (h : (task kinds).Runs run s) : Balanced (cancels run) s := by
  refine h.invariant (I := fun run s => Balanced (cancels run) s) ?_ ?_
  · exact ⟨rfl, trivial⟩
  · intro run s a o s' _ hI hstep
    rw [cancels_snoc]
    exact hI.step (taskStep_cases hstep)

/-! ## What leaves a block -/

/-- A block raises the `TimeoutError` of its own deadline: the deadline has expired, and what leaves the
block is a `TimeoutError`, or a `CancelledError` that nobody else has asked for. -/
def Block.Expires (kinds : Kinds) (l : Block) (ending : Ending) : Prop :=
  l.expiring = true ∧ (raisedAnd kinds.isTimeout ending = true ∨
    raisedAnd kinds.isCancelled ending = true ∧ l.others = false)

/-- What leaves is no `TimeoutError` if it is a `CancelledError`. -/
theorem raisedAnd_not_isTimeout {kinds : Kinds} {ending : Ending}
    (h : raisedAnd kinds.isCancelled ending = true) : raisedAnd kinds.isTimeout ending = false := by
  cases ending with
  | returned response => cases h
  | raised e => exact Kinds.not_isTimeout h

/-- What a block makes of what leaves it, where its count tells whether somebody else has asked. -/
theorem Block.leave_spec (kinds : Kinds) (l : Block) (cancelling : ℕ) (ending : Ending)
    (escapes : Option Exc)
    (hothers : l.expiring = true → (cancelling - 1 ≤ l.cancelling ↔ l.others = false)) :
    let caught := l.exceptClause kinds escapes (l.aexit kinds cancelling ending).2
    (l.Expires kinds ending →
      caught = ([exceededEvent l.cfg l.request], .raised (escapes.getD .timeoutError))) ∧
    (¬ l.Expires kinds ending → caught = ([], ending)) := by
  have htimeout : raisedAnd kinds.isTimeout (.raised (.other "TimeoutError")) = true :=
    kinds.timeoutError
  unfold Block.aexit Block.exceptClause Block.Expires
  by_cases hexpiring : l.expiring = true
  · by_cases hcancelled : raisedAnd kinds.isCancelled ending = true
    · -- A `CancelledError` becomes a `TimeoutError` unless somebody else has asked for it.
      have hnot := raisedAnd_not_isTimeout hcancelled
      cases hl : l.others with
      | false => simp [hexpiring, hcancelled, hnot, htimeout, (hothers hexpiring).mpr hl]
      | true =>
        have hmore : ¬ cancelling - 1 ≤ l.cancelling := fun hle => by
          simp [(hothers hexpiring).mp hle] at hl
        simp [hexpiring, hcancelled, hnot, hmore]
    · cases ht : raisedAnd kinds.isTimeout ending <;> simp [hexpiring, hcancelled, ht]
  · simp [hexpiring]

/-- The count tells the innermost block whether somebody else has asked. -/
theorem Balanced.others {n : ℕ} {s : Task} {l : Block} {ls : List Block} (h : Balanced n s)
    (hblocks : s.blocks = l :: ls) :
    l.expiring = true → (s.cancelling - 1 ≤ l.cancelling ↔ l.others = false) := by
  intro hexpiring
  obtain ⟨hcancelling, hrecorded⟩ := h
  rw [hblocks] at hcancelling hrecorded
  rw [expirings_cons, if_pos hexpiring] at hcancelling
  have hle := hrecorded.1
  rw [hrecorded.2.1]
  omega

/-- An `AsyncTimeout` is exact in every run: when its block is left, it raises its own `TimeoutError`,
with its event, if and only if its deadline has expired and what leaves is a `TimeoutError`, or a
`CancelledError` that neither an enclosing deadline nor anybody else has asked for; anything else it
passes on as it is. And it takes back the request that its deadline made: the task's count is at every
moment the number of other cancellations and of the expired deadlines whose blocks are still open. -/
theorem timeout_exact {kinds : Kinds} {run : List (Action × List Event)} {s : Task}
    (h : (task kinds).Runs run s) :
    s.cancelling = cancels run + expirings s.blocks ∧
    ∀ l ls ending escapes, s.blocks = l :: ls → s.control = .leaving ending →
      ∃ events caught,
        (task kinds).step s (.leave escapes) =
          some (events, ⟨cancels run + expirings ls, ls, .leaving caught⟩) ∧
        (l.Expires kinds ending → events = [exceededEvent l.cfg l.request] ∧
          caught = .raised (escapes.getD .timeoutError)) ∧
        (¬ l.Expires kinds ending → events = [] ∧ caught = ending) := by
  have hbalanced := balanced_of_runs h
  refine ⟨hbalanced.cancelling, fun l ls ending escapes hblocks hcontrol => ?_⟩
  obtain ⟨hexpires, hpasses⟩ :=
    Block.leave_spec kinds l s.cancelling ending escapes (hbalanced.others hblocks)
  let caught := l.exceptClause kinds escapes (l.aexit kinds s.cancelling ending).2
  refine ⟨caught.1, caught.2, ?_, fun hl => ?_, fun hl => ?_⟩
  · -- The count that is left is that of the blocks around.
    have hleft : (l.aexit kinds s.cancelling ending).1 = cancels run + expirings ls := by
      rw [Block.aexit_cancelling, hbalanced.cancelling, hblocks, expirings_cons]
      omega
    change taskStep kinds s (.leave escapes) = _
    rw [taskStep, hblocks, hcontrol, ← hleft]
  · exact Prod.mk.inj (hexpires hl)
  · exact Prod.mk.inj (hpasses hl)

/-! ## Nested deadlines -/

/-- The blocks are left one after the other, with nothing in between: the events, and what leaves the
last one. -/
def leaveAll (kinds : Kinds) (n : ℕ) : List Block → Ending → List Event × Ending
  | [], ending => ([], ending)
  | l :: ls, ending =>
    let caught := l.exceptClause kinds none (l.aexit kinds (n + expirings (l :: ls)) ending).2
    (caught.1 ++ (leaveAll kinds n ls caught.2).1, (leaveAll kinds n ls caught.2).2)

/-- Leaving them is a run of the task. -/
theorem leaveAll_runs (kinds : Kinds) (n : ℕ) (blocks : List Block) (ending : Ending) :
    ∃ run, (task kinds).RunsFrom ⟨n + expirings blocks, blocks, .leaving ending⟩ run
        ⟨n, [], .leaving (leaveAll kinds n blocks ending).2⟩ ∧
      run.map Prod.fst = List.replicate blocks.length (.leave none) ∧
      run.flatMap Prod.snd = (leaveAll kinds n blocks ending).1 := by
  induction blocks generalizing ending with
  | nil => exact ⟨[], .nil, rfl, rfl⟩
  | cons l ls ih =>
    let caught := l.exceptClause kinds none (l.aexit kinds (n + expirings (l :: ls)) ending).2
    obtain ⟨run, hrun, hactions, hevents⟩ := ih caught.2
    have hleft : (l.aexit kinds (n + expirings (l :: ls)) ending).1 = n + expirings ls := by
      rw [Block.aexit_cancelling, expirings_cons]
      omega
    have hstep : (task kinds).step ⟨n + expirings (l :: ls), l :: ls, .leaving ending⟩ (.leave none) =
        some (caught.1, ⟨n + expirings ls, ls, .leaving caught.2⟩) := by
      rw [← hleft]
      rfl
    refine ⟨(.leave none, caught.1) :: run, .cons hstep hrun, ?_, ?_⟩
    · rw [List.map_cons, hactions]
      rfl
    · rw [List.flatMap_cons, hevents]
      rfl

/-- Blocks whose deadlines have not expired pass everything on. -/
theorem leaveAll_quiet (kinds : Kinds) (n : ℕ) {blocks : List Block} (h : expirings blocks = 0)
    (ending : Ending) : leaveAll kinds n blocks ending = ([], ending) := by
  induction blocks with
  | nil => rfl
  | cons l ls ih =>
    rw [expirings_cons] at h
    have hls : expirings ls = 0 := by omega
    have hexpiring : l.expiring = false := by
      by_contra hl
      rw [Bool.not_eq_false] at hl
      simp [hl] at h
    rw [leaveAll]
    simp [Block.aexit, Block.exceptClause, hexpiring, ih hls]

/-- What one block does to a `CancelledError`, where the blocks were entered before anybody asked. -/
theorem exceptClause_cancelled {kinds : Kinds} {n : ℕ} {l : Block} {ls : List Block} {ending : Ending}
    (hfresh : l.cancelling = 0) (hrecorded : Recorded n (l :: ls))
    (hcancelled : raisedAnd kinds.isCancelled ending = true) :
    l.exceptClause kinds none (l.aexit kinds (n + expirings (l :: ls)) ending).2 =
      if l.expiring = true ∧ n + expirings ls = 0 then
        ([exceededEvent l.cfg l.request], .raised .timeoutError)
      else ([], ending) := by
  have hothers : l.others = false ↔ n + expirings ls = 0 := by
    rw [hrecorded.2.1, hfresh]
    exact eq_comm
  have hcount : l.expiring = true →
      (n + expirings (l :: ls) - 1 ≤ l.cancelling ↔ l.others = false) := by
    intro hl
    rw [hothers, expirings_cons, if_pos hl, hfresh]
    omega
  obtain ⟨hexpires, hpasses⟩ :=
    Block.leave_spec kinds l (n + expirings (l :: ls)) ending none hcount
  have hnot := raisedAnd_not_isTimeout hcancelled
  split_ifs with hl
  · exact hexpires ⟨hl.1, .inr ⟨hcancelled, hothers.mpr hl.2⟩⟩
  · apply hpasses
    rintro ⟨hexpiring, hor⟩
    rcases hor with htimeout | ⟨-, hfalse⟩
    · rw [hnot] at htimeout
      cases htimeout
    · exact hl ⟨hexpiring, hothers.mp hfalse⟩

/-- The outermost of the blocks whose deadlines have expired. -/
def outermostExpired (blocks : List Block) : Option Block := (blocks.filter Block.expiring).getLast?

/-- A `CancelledError` passes blocks that were entered before anybody asked: somebody else's request goes
through them all, and the request of deadlines alone is answered by the outermost of these. -/
theorem leaveAll_cancelled {kinds : Kinds} {n : ℕ} {blocks : List Block} {ending : Ending}
    (hfresh : ∀ l ∈ blocks, l.cancelling = 0) (hrecorded : Recorded n blocks)
    (hcancelled : raisedAnd kinds.isCancelled ending = true) :
    (0 < n → leaveAll kinds n blocks ending = ([], ending)) ∧
      (n = 0 → ∀ l, outermostExpired blocks = some l →
        leaveAll kinds n blocks ending = ([exceededEvent l.cfg l.request], .raised .timeoutError)) := by
  induction blocks with
  | nil => exact ⟨fun _ => rfl, fun _ l hl => by simp [outermostExpired] at hl⟩
  | cons l ls ih =>
    obtain ⟨hothers, hown⟩ := ih (fun l' hl' => hfresh l' (List.mem_cons_of_mem _ hl')) hrecorded.2.2
    have hclause := exceptClause_cancelled (hfresh l List.mem_cons_self) hrecorded hcancelled
    by_cases hl : l.expiring = true ∧ n + expirings ls = 0
    · -- The block is the outermost expired one, and those around it pass its error on.
      have hls : expirings ls = 0 := by omega
      rw [if_pos hl] at hclause
      refine ⟨fun hn => by omega, fun _ l' hl' => ?_⟩
      have hfilter : ls.filter Block.expiring = [] := by
        rwa [← List.length_eq_zero_iff, ← List.countP_eq_length_filter]
      have hsame : l = l' := by
        simpa [outermostExpired, List.filter_cons_of_pos hl.1, hfilter] using hl'
      subst hsame
      simp only [leaveAll, hclause, leaveAll_quiet kinds n hls, List.append_nil]
    · rw [if_neg hl] at hclause
      have hrest : leaveAll kinds n (l :: ls) ending = leaveAll kinds n ls ending := by
        simp only [leaveAll, hclause, List.nil_append]
      rw [hrest]
      refine ⟨hothers, fun hn l' hl' => hown hn l' ?_⟩
      by_cases hexpiring : l.expiring = true
      · -- There are expired blocks around this one, so the last of them is the same.
        have hls : ls.filter Block.expiring ≠ [] := by
          intro hfilter
          have hcount : expirings ls = 0 := by
            rw [expirings, List.countP_eq_length_filter, hfilter]
            rfl
          exact hl ⟨hexpiring, by omega⟩
        rw [outermostExpired, List.filter_cons_of_pos hexpiring, List.getLast?_cons_of_ne_nil hls] at hl'
        exact hl'
      · rwa [outermostExpired, List.filter_cons_of_neg hexpiring] at hl'

/-- The step calls an `AsyncTimeout`. -/
def Action.isEnter : Action → Bool
  | enter _ _ => true
  | _ => false

/-- The step asks for the cancellation of the task. -/
def Action.asks : Action → Bool
  | expire _ => true
  | cancel => true
  | _ => false

/-- The blocks were entered before anybody asked for the cancellation of the task. -/
def EntersFirst (run : List (Action × List Event)) : Prop :=
  run.Pairwise fun x y => x.1.asks = true → y.1.isEnter = false

/-- An expired deadline changes nothing that a block has written down. -/
theorem expireAt_cancelling {i : ℕ} {blocks blocks' : List Block}
    (h : expireAt i blocks = some blocks') :
    blocks'.map Block.cancelling = blocks.map Block.cancelling := by
  induction blocks generalizing i blocks' with
  | nil => cases i <;> cases h
  | cons l ls ih =>
    cases i with
    | zero =>
      rw [expireAt] at h
      split_ifs at h
      cases h
      rfl
    | succ i =>
      obtain ⟨ls', hls, rfl⟩ := Option.map_eq_some_iff.mp h
      rw [List.map_cons, List.map_cons, ih hls]

/-- What the blocks of a task have written down after a step, and the count after one that does not
ask. -/
theorem TaskSteps.cancelling {kinds : Kinds} {s s' : Task} {a : Action} {o : List Event}
    (h : TaskSteps kinds s a o s') :
    (∀ n ∈ s'.blocks.map Block.cancelling,
      n ∈ s.blocks.map Block.cancelling ∨ a.isEnter = true ∧ n = s.cancelling) ∧
    (a.asks = false → s'.cancelling ≤ s.cancelling) := by
  cases h with
  | entered cfg request hcontrol =>
    refine ⟨fun n hn => ?_, fun _ => le_rfl⟩
    rcases List.mem_cons.mp hn with rfl | hn
    · exact .inr ⟨rfl, rfl⟩
    · exact .inl hn
  | expired hblocks => exact ⟨fun n hn => .inl (expireAt_cancelling hblocks ▸ hn), nofun⟩
  | cancelled =>
    refine ⟨fun n hn => .inl ?_, nofun⟩
    rwa [List.map_map] at hn
  | finished ending hcontrol => exact ⟨fun n hn => .inl hn, fun _ => le_rfl⟩
  | @left l ls ending escapes hblocks hcontrol =>
    refine ⟨fun n hn => .inl ?_, fun _ => ?_⟩
    · rw [hblocks]
      exact List.mem_cons_of_mem _ hn
    · change (l.aexit kinds s.cancelling ending).1 ≤ s.cancelling
      rw [Block.aexit_cancelling]
      omega
  | resumed hcontrol => exact ⟨fun n hn => .inl hn, fun _ => le_rfl⟩

/-- Such blocks have written down no requests. -/
theorem fresh_of_runs {kinds : Kinds} {run : List (Action × List Event)} {s : Task}
    (h : (task kinds).Runs run s) (hfirst : EntersFirst run) : ∀ l ∈ s.blocks, l.cancelling = 0 := by
  have key : EntersFirst run → (∀ n ∈ s.blocks.map Block.cancelling, n = 0) ∧
      ((∀ x ∈ run, x.1.asks = false) → s.cancelling = 0) := by
    refine h.invariant (I := fun run s => EntersFirst run →
      (∀ n ∈ s.blocks.map Block.cancelling, n = 0) ∧
        ((∀ x ∈ run, x.1.asks = false) → s.cancelling = 0)) ?_ ?_
    · exact fun _ => ⟨fun _ hn => (List.not_mem_nil hn).elim, fun _ => rfl⟩
    · intro run s a o s' _ ih hstep hfirst
      obtain ⟨hbefore, -, hlast⟩ := List.pairwise_append.mp hfirst
      obtain ⟨hblocks, hquiet⟩ := ih hbefore
      obtain ⟨hwritten, hcount⟩ := (taskStep_cases hstep).cancelling
      constructor
      · intro n hn
        rcases hwritten n hn with hold | ⟨henter, rfl⟩
        · exact hblocks n hold
        · -- Nobody has asked before a block that is entered.
          apply hquiet
          intro x hx
          have hno := hlast x hx (a, o) (List.mem_singleton.mpr rfl)
          by_contra hasks
          rw [hno (by simpa using hasks)] at henter
          cases henter
      · intro hall
        have hbefore' := hquiet fun x hx => hall x (List.mem_append_left _ hx)
        have hle := hcount (hall (a, o) (by simp))
        omega
  exact fun l hl => (key hfirst).1 l.cancelling (List.mem_map_of_mem hl)

/-- Nested deadlines, with no code in between: when the code inside ends with the `CancelledError` that
was asked for, the blocks can be left one after the other, and the task's count is then that of the other
cancellations. If there is one of these, the `CancelledError` leaves them all, without an event; if only
deadlines have expired, in whatever order, the outermost of them raises its `TimeoutError`, and its event
is the only one. -/
theorem nested_deadlines {kinds : Kinds} {run : List (Action × List Event)} {s : Task} {ending : Ending}
    (h : (task kinds).Runs run s) (hfirst : EntersFirst run) (hcontrol : s.control = .leaving ending)
    (hcancelled : raisedAnd kinds.isCancelled ending = true) :
    ∃ run' s', (task kinds).RunsFrom s run' s' ∧
      run'.map Prod.fst = List.replicate s.blocks.length (.leave none) ∧
      s'.blocks = [] ∧ s'.cancelling = cancels run ∧
      (0 < cancels run → s'.control = .leaving ending ∧ run'.flatMap Prod.snd = []) ∧
      (cancels run = 0 → ∀ l, outermostExpired s.blocks = some l →
        s'.control = .leaving (.raised .timeoutError) ∧
          run'.flatMap Prod.snd = [exceededEvent l.cfg l.request]) := by
  have hbalanced := balanced_of_runs h
  have hfresh := fresh_of_runs h hfirst
  obtain ⟨hothers, hown⟩ := leaveAll_cancelled hfresh hbalanced.recorded hcancelled
  obtain ⟨run', hrun', hactions, hevents⟩ := leaveAll_runs kinds (cancels run) s.blocks ending
  rw [← hbalanced.cancelling, ← hcontrol] at hrun'
  refine ⟨run', _, hrun', hactions, rfl, rfl, fun hn => ?_, fun hn l hl => ?_⟩
  · rw [hevents, hothers hn]
    exact ⟨rfl, rfl⟩
  · rw [hevents, hown hn l hl]
    exact ⟨rfl, rfl⟩

/-! ## Two deadlines -/

/-- The classes of asyncio alone. -/
def standardKinds : Kinds where
  isTimeoutError name := name = "TimeoutError"
  isCancelledError name := name = "CancelledError"
  timeoutError := by decide
  cancelledError := by decide
  disjoint name h := by
    rw [of_decide_eq_true h]
    decide

/-- A second. -/
def second : Config := ⟨.finite 1, by decide⟩

/-- Half a minute. -/
def halfMinute : Config := ⟨.finite 30, by decide⟩

/-- A request of the program. -/
def request : Request := { method := "GET", url := ⟨"https", "a", none, "a", "https://a/"⟩ }

/-- Both deadlines expire, the inner one first, and the code inside is cancelled. -/
def bothExpire : List Action :=
  [.enter halfMinute request, .enter second request, .expire 0, .expire 1,
    .finish (.raised (.other "CancelledError"))]

/-- The task before its blocks are left. -/
def bothExpired : Task :=
  ⟨2, [⟨second, request, 0, true, true⟩, ⟨halfMinute, request, 0, true, false⟩],
    .leaving (.raised (.other "CancelledError"))⟩

/-- That is where the actions lead. -/
theorem bothExpire_runs :
    (task standardKinds).Runs (bothExpire.zip (List.replicate 5 [])) bothExpired := by
  obtain ⟨s, hrun, rfl⟩ := Machine.exists_runs_of_observe (task standardKinds) id bothExpire
    (List.replicate 5 []) bothExpired rfl
  exact hrun

/-- The inner block passes the `CancelledError` on, since the outer deadline has asked for it too. -/
theorem timeout_exact_inner : ∃ events caught,
    (task standardKinds).step bothExpired (.leave none) =
      some (events, ⟨1, [⟨halfMinute, request, 0, true, false⟩], .leaving caught⟩) ∧
    events = [] ∧ caught = .raised (.other "CancelledError") := by
  obtain ⟨events, caught, hstep, -, hpasses⟩ :=
    (timeout_exact bothExpire_runs).2 _ _ _ none rfl rfl
  refine ⟨events, caught, hstep, hpasses ?_⟩
  rintro ⟨-, htimeout | ⟨-, hothers⟩⟩
  · cases htimeout
  · cases hothers

/-- Of both, the outer one raises. -/
theorem nested_deadlines_outer : ∃ run s, (task standardKinds).RunsFrom bothExpired run s ∧
    s.control = .leaving (.raised .timeoutError) ∧
      run.flatMap Prod.snd = [exceededEvent halfMinute request] := by
  obtain ⟨run, s, hrun, -, -, -, -, hown⟩ :=
    nested_deadlines bothExpire_runs (by simp [EntersFirst, bothExpire, Action.asks, Action.isEnter])
      rfl rfl
  exact ⟨run, s, hrun, hown rfl _ rfl⟩

end Httpware.AsyncTimeout
