import Mathlib.Tactic.Common

/-!
# Programs with exceptions and loops that may not end

A program runs from a state and ends with a value, with an exception, or not within the rounds that
its loops were given (`pending`); the state that it has reached is there in each case, so a statement
about the state after every number of rounds is a statement about every moment of an endless run.
`onExit`, `onRaise` and `catching` are Python's `try` statements, and `loop` its `while True`.

`Triple` is partial correctness with the exceptional and the unfinished results in the postcondition,
with one rule for each way of building a program. `Ends` is a postcondition of the programs that have
ended, and `Keeps` an invariant, which needs no postconditions in between. `Raises` is an invariant with
the exceptions that may leave.
-/

namespace Program

/-- How a program ends. -/
inductive Result (ε α : Type)
  | ok (a : α)
  | raised (e : ε)
  /-- A loop has used up its rounds. -/
  | pending
deriving DecidableEq

/-- A function of the value. -/
def Result.map {ε α β : Type} (f : α → β) : Result ε α → Result ε β
  | ok a => ok (f a)
  | raised e => raised e
  | pending => pending

/-- The value of a program that returned. -/
def Result.toOption {ε α : Type} : Result ε α → Option α
  | ok a => some a
  | _ => none

/-- A program that returned has a value. -/
theorem Result.toOption_eq_some {ε α : Type} {r : Result ε α} {a : α} :
    r.toOption = some a ↔ r = ok a := by
  cases r with
  | ok b => exact ⟨fun h => congrArg ok (Option.some.inj h), fun h => congrArg some (ok.inj h)⟩
  | raised e => exact ⟨(nomatch ·), (nomatch ·)⟩
  | pending => exact ⟨(nomatch ·), (nomatch ·)⟩

theorem Result.ok_ne_pending {ε α : Type} (a : α) : (ok a : Result ε α) ≠ pending := nofun

theorem Result.raised_ne_pending {ε α : Type} (e : ε) : (raised e : Result ε α) ≠ pending := nofun

end Program

/-- A program over states `σ` with exceptions `ε`. -/
def Program (σ ε α : Type) : Type := σ → Program.Result ε α × σ

namespace Program

variable {σ ε α β : Type}

/-- Returns a value. -/
protected def pure (a : α) : Program σ ε α := fun s => (.ok a, s)

/-- Goes on with the value of a program that returned. -/
protected def bind (p : Program σ ε α) (f : α → Program σ ε β) : Program σ ε β := fun s =>
  match p s with
  | (.ok a, s) => f a s
  | (.raised e, s) => (.raised e, s)
  | (.pending, s) => (.pending, s)

instance : Monad (Program σ ε) where
  pure := Program.pure
  bind := Program.bind

/-- `raise e`. -/
def raise (e : ε) : Program σ ε α := fun s => (.raised e, s)

/-- No more rounds. -/
def pending : Program σ ε α := fun s => (.pending, s)

/-- Reads from the state. -/
def get (f : σ → α) : Program σ ε α := fun s => (.ok (f s), s)

/-- Writes the state. -/
def modify (f : σ → σ) : Program σ ε Unit := fun s => (.ok (), f s)

/-- `try: p finally: cleanup`. -/
def onExit (p : Program σ ε α) (cleanup : Program σ ε Unit) : Program σ ε α := fun s =>
  match p s with
  -- The loop is still running: the exit has not been reached.
  | (.pending, s) => (.pending, s)
  | (r, s) =>
    match cleanup s with
    | (.ok (), s) => (r, s)
    | (.raised e, s) => (.raised e, s)
    | (.pending, s) => (.pending, s)

/-- `try: p except e: handler(e)`. -/
def catching (p : Program σ ε α) (handler : ε → Program σ ε α) : Program σ ε α := fun s =>
  match p s with
  | (.raised e, s) => handler e s
  | (r, s) => (r, s)

/-- `try: p except BaseException: cleanup; raise`. -/
def onRaise (p : Program σ ε α) (cleanup : Program σ ε Unit) : Program σ ε α :=
  p.catching fun e => cleanup >>= fun _ => raise e

/-- `while True`, for a number of rounds: a round returns (`inl`), or goes around with new values of
the loop's variables (`inr`). -/
def loop (round : β → Program σ ε (α ⊕ β)) : ℕ → β → Program σ ε α
  | 0, _ => pending
  | rounds + 1, b => do
    match ← round b with
    | .inl a => pure a
    | .inr b => loop round rounds b

/-! ## Sequences -/

section Sequence

variable {p : Program σ ε α} {f : α → Program σ ε β} {s t : σ}

/-- A sequence whose first part returns. -/
theorem bind_of_ok {a : α} (h : p s = (.ok a, t)) : (p >>= f) s = f a t := by
  change Program.bind p f s = f a t
  rw [Program.bind, h]

/-- A sequence whose first part raises. -/
theorem bind_of_raised {e : ε} (h : p s = (.raised e, t)) : (p >>= f) s = (.raised e, t) := by
  change Program.bind p f s = _
  rw [Program.bind, h]

/-- A sequence whose first part is still running. -/
theorem bind_of_pending (h : p s = (.pending, t)) : (p >>= f) s = (.pending, t) := by
  change Program.bind p f s = _
  rw [Program.bind, h]

/-- A sequence that returns has a first part that returns. -/
theorem bind_ok {b : β} (h : (p >>= f) s = (.ok b, t)) :
    ∃ a u, p s = (.ok a, u) ∧ f a u = (.ok b, t) := by
  change Program.bind p f s = _ at h
  unfold Program.bind at h
  generalize hp : p s = ending at h
  rcases ending with ⟨a | e | _, u⟩
  · exact ⟨a, u, rfl, h⟩
  · cases h
  · cases h

/-- A `try` with a `finally` whose body has ended. -/
theorem onExit_of_ended {cleanup : Program σ ε Unit} {r : Result ε α} {u : σ} (h : p s = (r, t))
    (hr : r ≠ .pending) (hcleanup : cleanup t = (.ok (), u)) : p.onExit cleanup s = (r, u) := by
  unfold Program.onExit
  rw [h]
  cases r with
  | pending => exact absurd rfl hr
  | _ =>
    dsimp only
    rw [hcleanup]

/-- A `try` with a `finally` whose body is still running. -/
theorem onExit_of_pending {cleanup : Program σ ε Unit} (h : p s = (.pending, t)) :
    p.onExit cleanup s = (.pending, t) := by
  unfold Program.onExit
  rw [h]

/-- A `try` with a handler whose body is still running. -/
theorem catching_of_pending {q : ε → Program σ ε α} (h : p s = (.pending, t)) :
    p.catching q s = (.pending, t) := by
  rw [Program.catching, h]

/-- A `try` with a handler whose body returns. -/
theorem catching_of_ok {q : ε → Program σ ε α} {a : α} (h : p s = (.ok a, t)) :
    p.catching q s = (.ok a, t) := by
  rw [Program.catching, h]

/-- A `try` with a handler whose body raises. -/
theorem catching_of_raised {q : ε → Program σ ε α} {e : ε} (h : p s = (.raised e, t)) :
    p.catching q s = q e t := by
  rw [Program.catching, h]

end Sequence

/-- A `try` with a `finally` that returns: both parts have returned. -/
theorem onExit_ok {p : Program σ ε α} {cleanup : Program σ ε Unit} {s t : σ} {a : α}
    (h : p.onExit cleanup s = (.ok a, t)) : ∃ u, p s = (.ok a, u) ∧ cleanup u = (.ok (), t) := by
  unfold Program.onExit at h
  generalize hp : p s = ending at h
  rcases ending with ⟨b | e | _, u⟩
  · dsimp only at h
    generalize hc : cleanup u = after at h
    rcases after with ⟨_ | _ | _, v⟩
    · cases h
      exact ⟨u, rfl, hc⟩
    · cases h
    · cases h
  · dsimp only at h
    generalize cleanup u = after at h
    rcases after with ⟨_ | _ | _, v⟩ <;> cases h
  · cases h

/-- A `try` whose handler only raises, and that returns. -/
theorem catching_ok {p : Program σ ε α} {g : ε → ε} {s t : σ} {a : α}
    (h : p.catching (fun e => raise (g e)) s = (.ok a, t)) : p s = (.ok a, t) := by
  unfold Program.catching at h
  generalize hp : p s = ending at h
  rcases ending with ⟨b | e | _, u⟩
  · exact h
  · cases h
  · cases h

/-- A loop that returns has a first round that returned, and returns or goes around. -/
theorem loop_ok {round : β → Program σ ε (α ⊕ β)} {rounds : ℕ} {b : β} {s t : σ} {a : α}
    (h : loop round rounds b s = (.ok a, t)) :
    round b s = (.ok (.inl a), t) ∨ ∃ b' u n, rounds = n + 1 ∧ round b s = (.ok (.inr b'), u) ∧
      loop round n b' u = (.ok a, t) := by
  cases rounds with
  | zero => cases h
  | succ n =>
    obtain ⟨d, u, hround, hrest⟩ := bind_ok h
    cases d with
    | inl a' =>
      cases hrest
      exact .inl hround
    | inr b' => exact .inr ⟨b', u, n, rfl, hround, hrest⟩

/-! ## Triples -/

/-- Run from a state with `P`, the program ends as `Q` says. -/
def Triple (P : σ → Prop) (p : Program σ ε α) (Q : Result ε α → σ → Prop) : Prop :=
  ∀ s, P s → Q (p s).1 (p s).2

namespace Triple

variable {P P' : σ → Prop} {Q Q' : Result ε α → σ → Prop} {p : Program σ ε α}

/-- The rule of consequence. -/
theorem consequence (h : Triple P p Q) (hP : ∀ s, P' s → P s) (hQ : ∀ r s, Q r s → Q' r s) :
    Triple P' p Q' := fun s hs => hQ _ _ (h s (hP s hs))

/-- A value. -/
theorem pure {a : α} (h : ∀ s, P s → Q (.ok a) s) : Triple P (Pure.pure a) Q := h

/-- An exception. -/
theorem raise {e : ε} (h : ∀ s, P s → Q (.raised e) s) : Triple P (Program.raise e) Q := h

/-- A reading. -/
theorem get {f : σ → α} (h : ∀ s, P s → Q (.ok (f s)) s) : Triple P (Program.get f) Q := h

/-- A writing. -/
theorem modify {f : σ → σ} {Q : Result ε Unit → σ → Prop} (h : ∀ s, P s → Q (.ok ()) (f s)) :
    Triple P (Program.modify f) Q := h

/-- A sequence. -/
theorem bind {R : Result ε α → σ → Prop} {f : α → Program σ ε β} {Q : Result ε β → σ → Prop}
    (h : Triple P p R) (hok : ∀ a, Triple (R (.ok a)) (f a) Q)
    (hraised : ∀ e s, R (.raised e) s → Q (.raised e) s)
    (hpending : ∀ s, R .pending s → Q .pending s) : Triple P (p >>= f) Q := by
  intro s hs
  have hp := h s hs
  change Q (Program.bind p f s).1 (Program.bind p f s).2
  unfold Program.bind
  generalize p s = ending at hp ⊢
  rcases ending with ⟨_ | _ | _, t⟩
  · exact hok _ t hp
  · exact hraised _ t hp
  · exact hpending t hp

/-- A `try` with a handler. -/
theorem catching {R : Result ε α → σ → Prop} {handler : ε → Program σ ε α} (h : Triple P p R)
    (hok : ∀ a s, R (.ok a) s → Q (.ok a) s)
    (hraised : ∀ e, Triple (R (.raised e)) (handler e) Q)
    (hpending : ∀ s, R .pending s → Q .pending s) : Triple P (p.catching handler) Q := by
  intro s hs
  have hp := h s hs
  unfold Program.catching
  generalize p s = ending at hp ⊢
  rcases ending with ⟨_ | _ | _, t⟩
  · exact hok _ t hp
  · exact hraised _ t hp
  · exact hpending t hp

/-- A `try` with a `finally`: `S` holds after the cleanup, for the ending `r` that is kept unless the
cleanup raises. -/
theorem onExit {R : Result ε α → σ → Prop} {S : Result ε α → Result ε Unit → σ → Prop}
    {cleanup : Program σ ε Unit} (h : Triple P p R)
    (hcleanup : ∀ r, r ≠ .pending → Triple (R r) cleanup (S r))
    (hok : ∀ r s, r ≠ .pending → S r (.ok ()) s → Q r s)
    (hraised : ∀ r e s, S r (.raised e) s → Q (.raised e) s)
    (hcleaning : ∀ r s, S r .pending s → Q .pending s)
    (hpending : ∀ s, R .pending s → Q .pending s) : Triple P (p.onExit cleanup) Q := by
  intro s hs
  have hp := h s hs
  have hend : ∀ r t, r ≠ .pending → R r t →
      Q (match cleanup t with
        | (.ok (), u) => (r, u)
        | (.raised e, u) => (.raised e, u)
        | (.pending, u) => (.pending, u)).1
        (match cleanup t with
        | (.ok (), u) => (r, u)
        | (.raised e, u) => (.raised e, u)
        | (.pending, u) => (.pending, u)).2 := by
    intro r t hr hrt
    have ht := hcleanup r hr t hrt
    generalize cleanup t = after at ht ⊢
    rcases after with ⟨_ | _ | _, u⟩
    · exact hok r u hr ht
    · exact hraised r _ u ht
    · exact hcleaning r u ht
  unfold Program.onExit
  generalize p s = ending at hp ⊢
  rcases ending with ⟨a | e | _, t⟩
  · exact hend (.ok a) t nofun hp
  · exact hend (.raised e) t nofun hp
  · exact hpending t hp

/-- A loop, whose invariant `J` speaks of its variables. -/
theorem loop {J : β → σ → Prop} {round : β → Program σ ε (α ⊕ β)}
    (h : ∀ b, Triple (J b) (round b) fun
      | .ok (.inl a), s => Q (.ok a) s
      | .ok (.inr b), s => J b s
      | .raised e, s => Q (.raised e) s
      | .pending, s => Q .pending s)
    (hpending : ∀ b s, J b s → Q .pending s) :
    ∀ rounds b, Triple (J b) (Program.loop round rounds b) Q := by
  intro rounds
  induction rounds with
  -- No rounds are left: the loop is where the invariant holds.
  | zero => exact fun b s hs => hpending b s hs
  | succ rounds ih =>
    intro b
    -- One round, and then the rounds that remain, for the new values of the variables.
    refine (h b).bind (fun x => ?_) (fun _ _ hr => hr) fun _ hr => hr
    cases x with
    | inl a => exact fun s hs => hs
    | inr b => exact ih b

end Triple

/-! ## Programs that have ended -/

/-- A program has ended with `Q` of its value, or with `E` of its exception; nothing is said of one
that is still running. -/
def Ends (Q : α → σ → Prop) (E : ε → σ → Prop) : Result ε α → σ → Prop
  | .ok a, s => Q a s
  | .raised e, s => E e s
  | .pending, _ => True

namespace Ends

variable {P : σ → Prop} {Q : α → σ → Prop} {E : ε → σ → Prop} {p : Program σ ε α}

/-- The rule of consequence. -/
theorem mono {P' : σ → Prop} {Q' : α → σ → Prop} {E' : ε → σ → Prop} (h : Triple P p (Ends Q E))
    (hP : ∀ s, P' s → P s) (hQ : ∀ a s, Q a s → Q' a s) (hE : ∀ e s, E e s → E' e s) :
    Triple P' p (Ends Q' E') :=
  h.consequence hP fun r s hs => by
    cases r with
    | ok a => exact hQ a s hs
    | raised e => exact hE e s hs
    | pending => trivial

/-- Nothing is asked of the ending. -/
theorem any : Triple P p (Ends (fun _ _ => True) fun _ _ => True) := by
  intro s _
  generalize p s = ending
  rcases ending with ⟨_ | _ | _, t⟩
  · exact trivial
  · exact trivial
  · exact trivial

/-- What holds after a run that returned. -/
theorem of_ok {s t : σ} {a : α} (h : Triple P p (Ends Q E)) (hs : P s) (hp : p s = (.ok a, t)) :
    Q a t := by
  have hends := h s hs
  rw [hp] at hends
  exact hends

/-- What holds after a run that raised. -/
theorem of_raised {s t : σ} {e : ε} (h : Triple P p (Ends Q E)) (hs : P s)
    (hp : p s = (.raised e, t)) : E e t := by
  have hends := h s hs
  rw [hp] at hends
  exact hends

/-- A sequence. -/
theorem bind {R : β → σ → Prop} {f : α → Program σ ε β} (h : Triple P p (Ends Q E))
    (hf : ∀ a, Triple (Q a) (f a) (Ends R E)) : Triple P (p >>= f) (Ends R E) :=
  Triple.bind h hf (fun _ _ hs => hs) fun _ hs => hs

/-- A value that is looked at. -/
theorem get {f : σ → α} {g : α → Program σ ε β} {R : β → σ → Prop}
    (h : ∀ a, Triple (fun s => P s ∧ f s = a) (g a) (Ends R E)) :
    Triple P (Program.get f >>= g) (Ends R E) := fun s hs => h (f s) s ⟨hs, rfl⟩

/-- A `try` with a handler. -/
theorem catching {E' : ε → σ → Prop} {handler : ε → Program σ ε α} (h : Triple P p (Ends Q E))
    (hh : ∀ e, Triple (E e) (handler e) (Ends Q E')) : Triple P (p.catching handler) (Ends Q E') :=
  Triple.catching h (fun _ _ hs => hs) hh fun _ hs => hs

/-- A `try` with a `finally`, whose cleanup does not raise. -/
theorem onExit {Q' : α → σ → Prop} {E' : ε → σ → Prop} {cleanup : Program σ ε Unit}
    (h : Triple P p (Ends Q E))
    (hok : ∀ a, Triple (Q a) cleanup (Ends (fun _ => Q' a) fun _ _ => False))
    (hraised : ∀ e, Triple (E e) cleanup (Ends (fun _ => E' e) fun _ _ => False)) :
    Triple P (p.onExit cleanup) (Ends Q' E') := by
  refine Triple.onExit h (S := fun r => Ends (fun _ => Ends Q' E' r) fun _ _ => False) ?_
    (fun _ _ _ hs => hs) (fun _ _ _ hs => hs.elim) (fun _ _ _ => trivial) fun _ hs => hs
  intro r hr
  cases r with
  | ok a => exact hok a
  | raised e => exact hraised e
  | pending => exact absurd rfl hr

/-- A loop, whose invariant `J` speaks of its variables. -/
theorem loop {J : β → σ → Prop} {round : β → Program σ ε (α ⊕ β)}
    (h : ∀ b, Triple (J b) (round b) (Ends (Sum.elim Q J) E)) (rounds : ℕ) (b : β) :
    Triple (J b) (Program.loop round rounds b) (Ends Q E) := by
  refine Triple.loop (fun b => ?_) (fun _ _ _ => trivial) rounds b
  refine (h b).consequence (fun _ hs => hs) fun r s hs => ?_
  rcases r with (_ | _) | _ | _ <;> exact hs

end Ends

/-! ## Invariants -/

/-- A program keeps an invariant, however it ends. -/
def Keeps (I : σ → Prop) (p : Program σ ε α) : Prop := Triple I p fun _ => I

namespace Keeps

variable {I : σ → Prop} {p : Program σ ε α}

theorem pure {a : α} : Keeps I (Pure.pure a : Program σ ε α) := fun _ hs => hs

theorem raise {e : ε} : Keeps I (Program.raise e : Program σ ε α) := fun _ hs => hs

theorem get {f : σ → α} : Keeps I (Program.get f : Program σ ε α) := fun _ hs => hs

theorem modify {f : σ → σ} (h : ∀ s, I s → I (f s)) : Keeps I (Program.modify f : Program σ ε Unit) :=
  h

/-- What it keeps holds when it has ended. -/
theorem ends (h : Keeps I p) : Triple I p (Ends (fun _ => I) fun _ => I) :=
  Triple.consequence h (fun _ hs => hs) fun r _ hs => by
    cases r with
    | ok _ => exact hs
    | raised _ => exact hs
    | pending => trivial

/-- The same, where the exceptions do not matter. -/
theorem ends_ok (h : Keeps I p) : Triple I p (Ends (fun _ => I) fun _ _ => True) :=
  Ends.mono h.ends (fun _ hs => hs) (fun _ _ hs => hs) fun _ _ _ => trivial

/-- A sequence of programs that keep it. -/
theorem bind {f : α → Program σ ε β} (h : Keeps I p) (hf : ∀ a, Keeps I (f a)) :
    Keeps I (p >>= f) :=
  Triple.bind h hf (fun _ _ hs => hs) fun _ hs => hs

/-- A `try` whose handler keeps it. -/
theorem catching {handler : ε → Program σ ε α} (h : Keeps I p) (hh : ∀ e, Keeps I (handler e)) :
    Keeps I (p.catching handler) :=
  Triple.catching h (fun _ _ hs => hs) hh fun _ hs => hs

/-- A cleanup that keeps it, on every exception. -/
theorem onRaise {cleanup : Program σ ε Unit} (h : Keeps I p) (hc : Keeps I cleanup) :
    Keeps I (p.onRaise cleanup) :=
  h.catching fun _ => hc.bind fun _ => raise

/-- A cleanup that keeps it, on every exit. -/
theorem onExit {cleanup : Program σ ε Unit} (h : Keeps I p) (hc : Keeps I cleanup) :
    Keeps I (p.onExit cleanup) :=
  Triple.onExit h (fun _ _ => hc) (fun _ _ _ hs => hs) (fun _ _ _ hs => hs) (fun _ _ hs => hs)
    fun _ hs => hs

/-- A loop whose rounds keep it. -/
theorem loop {round : β → Program σ ε (α ⊕ β)} (h : ∀ b, Keeps I (round b)) (rounds : ℕ) (b : β) :
    Keeps I (Program.loop round rounds b) := by
  refine Triple.loop (J := fun _ => I) (fun b => ?_) (fun _ _ hs => hs) rounds b
  refine (h b).consequence (fun _ hs => hs) fun r s hs => ?_
  rcases r with (_ | _) | _ | _ <;> exact hs

end Keeps

/-! ## The exceptions that may leave -/

/-- A program keeps an invariant, and raises only exceptions of `E`. -/
def Raises (I : σ → Prop) (E : ε → Prop) (p : Program σ ε α) : Prop :=
  Triple I p (Ends (fun _ => I) fun e s => I s ∧ E e)

namespace Raises

variable {I : σ → Prop} {E E' : ε → Prop} {p : Program σ ε α}

theorem pure {a : α} : Raises I E (Pure.pure a : Program σ ε α) := fun _ hs => hs

theorem raise {e : ε} (h : E e) : Raises I E (Program.raise e : Program σ ε α) := fun _ hs => ⟨hs, h⟩

theorem get {f : σ → α} : Raises I E (Program.get f : Program σ ε α) := fun _ hs => hs

theorem modify {f : σ → σ} (h : ∀ s, I s → I (f s)) :
    Raises I E (Program.modify f : Program σ ε Unit) := h

/-- A sequence. -/
theorem bind {f : α → Program σ ε β} (h : Raises I E p) (hf : ∀ a, Raises I E (f a)) :
    Raises I E (p >>= f) := Ends.bind h hf

/-- A value that is looked at, with what the invariant says of it. -/
theorem get_bind {f : σ → α} {g : α → Program σ ε β} {P : α → Prop} (hP : ∀ s, I s → P (f s))
    (h : ∀ a, P a → Raises I E (g a)) : Raises I E (Program.get f >>= g) :=
  fun s hs => h (f s) (hP s hs) s hs

/-- A `try` with a handler, for the exceptions that may come to it. -/
theorem catching {handler : ε → Program σ ε α} (h : Raises I E p)
    (hh : ∀ e, E e → Raises I E' (handler e)) : Raises I E' (p.catching handler) :=
  Ends.catching h fun e s hs => hh e hs.2 s hs.1

/-- A `try` whose cleanup does not raise, before the exception goes on. -/
theorem onRaise {cleanup : Program σ ε Unit} (h : Raises I E p)
    (hc : Raises I E cleanup) : Raises I E (p.onRaise cleanup) :=
  h.catching fun _ he => hc.bind fun _ => raise he

/-- A `try` with a `finally`, whose cleanup does not raise. -/
theorem onExit {cleanup : Program σ ε Unit} (h : Raises I E p)
    (hc : Raises I (fun _ => False) cleanup) : Raises I E (p.onExit cleanup) := by
  refine Ends.onExit h (fun _ => ?_) fun e => ?_
  · exact Ends.mono hc (fun _ hs => hs) (fun _ _ hs => hs) fun _ _ hs => hs.2
  · intro s hs
    have hcleaned := hc s hs.1
    revert hcleaned
    cases (cleanup s).1 with
    | ok _ => exact fun hcleaned => ⟨hcleaned, hs.2⟩
    | raised _ => exact fun hcleaned => hcleaned.2
    | pending => exact fun _ => trivial

/-- A loop whose rounds raise only such exceptions. -/
theorem loop {round : β → Program σ ε (α ⊕ β)} (h : ∀ b, Raises I E (round b)) (rounds : ℕ) (b : β) :
    Raises I E (Program.loop round rounds b) := by
  refine Ends.loop (J := fun _ => I) (fun b => ?_) rounds b
  refine Ends.mono (h b) (fun _ hs => hs) (fun d _ hs => ?_) fun _ _ hs => hs
  cases d with
  | inl _ => exact hs
  | inr _ => exact hs

end Raises

end Program
