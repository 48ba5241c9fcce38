import Httpware.Lib.Program

/-!
# Programs that come to an end

A program whose loops run for a number of rounds is given as a family over that number. More rounds
change nothing once it has ended (`Grows`), so the rounds that two parts need can be brought together,
and `Finishes` is total correctness: with rounds enough the program ends, as the postconditions say.
The rule for a loop takes a variant, a number that every round that goes around makes smaller.
-/

namespace Program

variable {σ ε α β : Type}

/-- More rounds change nothing of a run that has ended. -/
def Grows (p : ℕ → Program σ ε α) : Prop :=
  ∀ m n, m ≤ n → ∀ s, (p m s).1 ≠ .pending → p n s = p m s

/-- A program has ended, with `Q` of its value or with `E` of its exception. -/
def Done (Q : α → σ → Prop) (E : ε → σ → Prop) : Result ε α → σ → Prop
  | .ok a, s => Q a s
  | .raised e, s => E e s
  | .pending, _ => False

/-- With rounds enough, the program ends. -/
structure Finishes (P : σ → Prop) (p : ℕ → Program σ ε α) (Q : α → σ → Prop) (E : ε → σ → Prop) :
    Prop where
  grows : Grows p
  ends : ∀ s, P s → ∃ n, Done Q E (p n s).1 (p n s).2

/-- What has ended is not still running. -/
theorem Done.ne_pending {Q : α → σ → Prop} {E : ε → σ → Prop} {r : Result ε α} {s : σ}
    (h : Done Q E r s) : r ≠ .pending := by
  rintro rfl
  exact h

/-! ## More rounds -/

namespace Grows

variable {p : ℕ → Program σ ε α}

/-- A program without a loop. -/
theorem const (p : Program σ ε α) : Grows fun _ => p := fun _ _ _ _ _ => rfl

/-- A sequence. -/
theorem bind {f : ℕ → α → Program σ ε β} (hp : Grows p) (hf : ∀ a, Grows fun n => f n a) :
    Grows fun n => p n >>= f n := by
  intro m n hmn s hends
  change ((p m >>= f m) s).1 ≠ .pending at hends
  change (p n >>= f n) s = (p m >>= f m) s
  cases hm : p m s with
  | mk r t =>
    have hsame : (p m s).1 ≠ .pending → p n s = p m s := hp m n hmn s
    rw [hm] at hsame
    cases r with
    | ok a =>
      rw [bind_of_ok hm] at hends
      rw [bind_of_ok hm, bind_of_ok (hsame nofun)]
      exact hf a m n hmn t hends
    | raised e => rw [bind_of_raised hm, bind_of_raised (hsame nofun)]
    | pending =>
      rw [bind_of_pending hm] at hends
      exact absurd rfl hends

/-- A `try` with a handler. -/
theorem catching {q : ℕ → ε → Program σ ε α} (hp : Grows p) (hq : ∀ e, Grows fun n => q n e) :
    Grows fun n => (p n).catching (q n) := by
  intro m n hmn s hends
  change ((p m).catching (q m) s).1 ≠ .pending at hends
  change (p n).catching (q n) s = (p m).catching (q m) s
  cases hm : p m s with
  | mk r t =>
    have hsame : (p m s).1 ≠ .pending → p n s = p m s := hp m n hmn s
    rw [hm] at hsame
    cases r with
    | ok a => rw [catching_of_ok hm, catching_of_ok (hsame nofun)]
    | raised e =>
      rw [catching_of_raised hm] at hends
      rw [catching_of_raised hm, catching_of_raised (hsame nofun)]
      exact hq e m n hmn t hends
    | pending =>
      rw [Program.catching, hm] at hends
      exact absurd rfl hends

/-- A `try` with a `finally` without a loop. -/
theorem onExit (hp : Grows p) (cleanup : Program σ ε Unit) :
    Grows fun n => (p n).onExit cleanup := by
  intro m n hmn s hends
  change ((p m).onExit cleanup s).1 ≠ .pending at hends
  change (p n).onExit cleanup s = (p m).onExit cleanup s
  have hsame := hp m n hmn s
  cases hm : (p m s).1 with
  | ok a => rw [Program.onExit, Program.onExit, hsame (by rw [hm]; nofun)]
  | raised e => rw [Program.onExit, Program.onExit, hsame (by rw [hm]; nofun)]
  | pending =>
    have hpending : ((p m).onExit cleanup s).1 = .pending := by
      rw [Program.onExit, show p m s = (.pending, (p m s).2) from Prod.ext hm rfl]
    exact absurd hpending hends

/-- A loop, whose number of rounds may grow by itself. -/
theorem loop_le {round : ℕ → β → Program σ ε (α ⊕ β)} (h : ∀ b, Grows fun n => round n b) {m n : ℕ}
    (hmn : m ≤ n) {i j : ℕ} (hij : i ≤ j) (b : β) (s : σ)
    (hends : (loop (round m) i b s).1 ≠ .pending) :
    loop (round n) j b s = loop (round m) i b s := by
  induction i generalizing j b s with
  | zero => exact absurd rfl hends
  | succ i ih =>
    obtain ⟨j, rfl⟩ := Nat.exists_eq_add_one_of_ne_zero (Nat.ne_zero_of_lt hij)
    have hsame : (round m b s).1 ≠ .pending → round n b s = round m b s := h b m n hmn s
    cases hm : round m b s with
    | mk r t =>
      rw [hm] at hsame
      rw [loop] at hends ⊢
      cases r with
      | ok d =>
        rw [bind_of_ok hm] at hends
        rw [loop, bind_of_ok (hsame nofun), bind_of_ok hm]
        cases d with
        | inl a => rfl
        | inr b' => exact ih (Nat.le_of_succ_le_succ hij) b' t hends
      | raised e => rw [loop, bind_of_raised (hsame nofun), bind_of_raised hm]
      | pending =>
        rw [bind_of_pending hm] at hends
        exact absurd rfl hends

/-- A loop. -/
theorem loop {round : ℕ → β → Program σ ε (α ⊕ β)} (h : ∀ b, Grows fun n => round n b) (b : β) :
    Grows fun n => Program.loop (round n) n b :=
  fun _ _ hmn s hends => loop_le h hmn hmn b s hends

end Grows

/-! ## Rounds enough -/

namespace Finishes

variable {P : σ → Prop} {Q : α → σ → Prop} {E : ε → σ → Prop} {p : ℕ → Program σ ε α}

/-- The rule of consequence. -/
theorem mono {P' : σ → Prop} {Q' : α → σ → Prop} {E' : ε → σ → Prop} (h : Finishes P p Q E)
    (hP : ∀ s, P' s → P s) (hQ : ∀ a s, Q a s → Q' a s) (hE : ∀ e s, E e s → E' e s) :
    Finishes P' p Q' E' := by
  refine ⟨h.grows, fun s hs => ?_⟩
  obtain ⟨n, hn⟩ := h.ends s (hP s hs)
  refine ⟨n, ?_⟩
  revert hn
  cases (p n s).1 with
  | ok a => exact hQ a _
  | raised e => exact hE e _
  | pending => exact fun hn => hn

/-- A program that ends, and ends as is known of it after every number of rounds. -/
theorem of_triple (hgrows : Grows p) (hends : ∀ s, P s → ∃ n, (p n s).1 ≠ .pending)
    (h : ∀ n, Triple P (p n) (Ends Q E)) : Finishes P p Q E := by
  refine ⟨hgrows, fun s hs => ?_⟩
  obtain ⟨n, hn⟩ := hends s hs
  refine ⟨n, ?_⟩
  have hpost := h n s hs
  revert hn hpost
  cases (p n s).1 with
  | ok a => exact fun _ hpost => hpost
  | raised e => exact fun _ hpost => hpost
  | pending => exact fun hn _ => absurd rfl hn

/-- A program without a loop. -/
theorem const {p : Program σ ε α} (h : Triple P p (Done Q E)) : Finishes P (fun _ => p) Q E :=
  ⟨.const p, fun s hs => ⟨0, h s hs⟩⟩

/-- An ending stays the same with more rounds. -/
theorem done_le (h : Finishes P p Q E) {m n : ℕ} (hmn : m ≤ n) {s : σ}
    (hends : Done Q E (p m s).1 (p m s).2) : p n s = p m s :=
  h.grows m n hmn s hends.ne_pending

/-- A fact that is not about the state. -/
theorem of_fact {A : Prop} (hgrows : Grows p) (h : A → Finishes P p Q E) :
    Finishes (fun s => A ∧ P s) p Q E := ⟨hgrows, fun s hs => (h hs.1).ends s hs.2⟩

/-- A sequence. -/
theorem bind {R : β → σ → Prop} {f : ℕ → α → Program σ ε β} (h : Finishes P p Q E)
    (hf : ∀ a, Finishes (Q a) (fun n => f n a) R E) : Finishes P (fun n => p n >>= f n) R E := by
  refine ⟨h.grows.bind fun a => (hf a).grows, fun s hs => ?_⟩
  obtain ⟨m, hm⟩ := h.ends s hs
  cases hp : p m s with
  | mk r t =>
    rw [hp] at hm
    cases r with
    | ok a =>
      -- Rounds enough for both parts.
      obtain ⟨n, hn⟩ := (hf a).ends t hm
      refine ⟨max m n, ?_⟩
      have hfirst : p (max m n) s = (.ok a, t) := by
        rw [h.grows m (max m n) (Nat.le_max_left _ _) s (by rw [hp]; nofun), hp]
      change Done R E ((p (max m n) >>= f (max m n)) s).1 ((p (max m n) >>= f (max m n)) s).2
      rw [bind_of_ok hfirst, (hf a).done_le (Nat.le_max_right m n) hn]
      exact hn
    | raised e =>
      refine ⟨m, ?_⟩
      rw [bind_of_raised hp]
      exact hm
    | pending => exact absurd hm id

/-- A value that is looked at. -/
theorem get {f : σ → α} {g : ℕ → α → Program σ ε β} {R : β → σ → Prop}
    (h : ∀ a, Finishes (fun s => P s ∧ f s = a) (fun n => g n a) R E) :
    Finishes P (fun n => Program.get f >>= g n) R E := by
  refine ⟨(Grows.const _).bind fun a => (h a).grows, fun s hs => ?_⟩
  obtain ⟨n, hn⟩ := (h (f s)).ends s ⟨hs, rfl⟩
  exact ⟨n, hn⟩

/-- A `try` with a `finally` without a loop, whose cleanup does not raise. -/
theorem onExit {Q' : α → σ → Prop} {E' : ε → σ → Prop} {cleanup : Program σ ε Unit}
    (h : Finishes P p Q E) (hok : ∀ a, Triple (Q a) cleanup (Done (fun _ => Q' a) fun _ _ => False))
    (hraised : ∀ e, Triple (E e) cleanup (Done (fun _ => E' e) fun _ _ => False)) :
    Finishes P (fun n => (p n).onExit cleanup) Q' E' := by
  refine ⟨h.grows.onExit cleanup, fun s hs => ?_⟩
  obtain ⟨n, hn⟩ := h.ends s hs
  refine ⟨n, ?_⟩
  unfold Program.onExit
  generalize p n s = ending at hn ⊢
  rcases ending with ⟨a | e | _, t⟩
  · have hafter := hok a t hn
    dsimp only
    generalize cleanup t = after at hafter ⊢
    rcases after with ⟨_ | _ | _, u⟩
    · exact hafter
    · exact hafter.elim
    · exact hafter.elim
  · have hafter := hraised e t hn
    dsimp only
    generalize cleanup t = after at hafter ⊢
    rcases after with ⟨_ | _ | _, u⟩
    · exact hafter
    · exact hafter.elim
    · exact hafter.elim
  · exact absurd hn id

/-- A loop with the variant `k`, whose invariant `J` speaks of the loop's variables: a round ends the
loop, or goes around with a smaller variant. -/
theorem loop {J : ℕ → β → σ → Prop} {round : ℕ → β → Program σ ε (α ⊕ β)}
    (h : ∀ k b, Finishes (J k b) (fun n => round n b)
      (Sum.elim Q fun b s => ∃ k' < k, J k' b s) E) (k : ℕ) (b : β) :
    Finishes (J k b) (fun n => Program.loop (round n) n b) Q E := by
  have hgrows : ∀ b, Grows fun n => round n b := fun b => (h 0 b).grows
  refine ⟨.loop hgrows b, ?_⟩
  induction k using Nat.strongRecOn generalizing b with
  | ind k ih =>
    intro s hs
    obtain ⟨m, hm⟩ := (h k b).ends s hs
    cases hround : round m b s with
    | mk r t =>
      rw [hround] at hm
      -- A first round with more rounds for what is inside it, and for the loop.
      have hfirst : ∀ n, m ≤ n → r ≠ .pending → round n b s = (r, t) := by
        intro n hmn hr
        have hsame : (round m b s).1 ≠ .pending → round n b s = round m b s := hgrows b m n hmn s
        rw [hround] at hsame
        exact hsame hr
      cases r with
      | ok d =>
        cases d with
        | inl a =>
          refine ⟨m + 1, ?_⟩
          rw [Program.loop, bind_of_ok (hfirst (m + 1) (Nat.le_succ m) nofun)]
          exact hm
        | inr b' =>
          obtain ⟨k', hk', hJ⟩ := hm
          obtain ⟨n, hn⟩ := ih k' hk' b' t hJ
          refine ⟨max m n + 1, ?_⟩
          have hrest : Program.loop (round (max m n + 1)) (max m n) b' t =
              Program.loop (round n) n b' t :=
            Grows.loop_le hgrows (by omega) (Nat.le_max_right m n) b' t hn.ne_pending
          rw [Program.loop, bind_of_ok (hfirst (max m n + 1) (by omega) nofun)]
          dsimp only
          rw [hrest]
          exact hn
      | raised e =>
        refine ⟨m + 1, ?_⟩
        rw [Program.loop, bind_of_raised (hfirst (m + 1) (Nat.le_succ m) nofun)]
        exact hm
      | pending => exact absurd hm id

end Finishes

end Program
