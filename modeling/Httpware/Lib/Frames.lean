import Httpware.Lib.Program

/-!
# Frames that wait for a program

A frame is what is still to be done when an inner program has ended: it goes on with the value, or
handles the exception (`Frame.around`). A station takes a request in: it replaces the request or
raises, and it leaves a frame for the way out. Stations around a terminal program are nested programs
(`nest`); `travel` does the same work without nesting, in two passes: `inbound` takes the request
through the stations and piles up their frames, and `unwind` lets the outcome leave the frames one by
one, the innermost first. `nest_eq_travel` says that the two are the same program.
-/

namespace Program

variable {σ ε α ρ : Type}

/-- What waits for a program to end. -/
structure Frame (σ ε α : Type) where
  returned : α → Program σ ε α
  raised : ε → Program σ ε α

namespace Frame

/-- The frame that lets every outcome through. -/
def through : Frame σ ε α := ⟨pure, raise⟩

/-- A program with a frame around it. -/
def around (frame : Frame σ ε α) (p : Program σ ε α) : Program σ ε α := fun s =>
  match p s with
  | (.ok a, s) => frame.returned a s
  | (.raised e, s) => frame.raised e s
  | (.pending, s) => (.pending, s)

/-- A frame that goes on with the value is a sequence. -/
theorem around_raise (f : α → Program σ ε α) (p : Program σ ε α) :
    (⟨f, raise⟩ : Frame σ ε α).around p = p >>= f := by
  funext s
  change _ = Program.bind p f s
  unfold around Program.bind
  generalize p s = ending
  rcases ending with ⟨a | e | _, t⟩ <;> rfl

/-- A frame that handles the exception is a `try`. -/
theorem around_pure (handler : ε → Program σ ε α) (p : Program σ ε α) :
    (⟨pure, handler⟩ : Frame σ ε α).around p = p.catching handler := by
  funext s
  unfold around Program.catching
  generalize p s = ending
  rcases ending with ⟨a | e | _, t⟩ <;> rfl

/-- The frame that lets every outcome through changes nothing. -/
@[simp]
theorem around_through (p : Program σ ε α) : through.around p = p := by
  funext s
  unfold around through
  generalize p s = ending
  rcases ending with ⟨a | e | _, t⟩ <;> rfl

end Frame

/-- The way out: an outcome leaves the frames, the first one first. -/
def unwind : List (Frame σ ε α) → Result ε α × σ → Result ε α × σ
  | [], outcome => outcome
  | frame :: frames, (.ok a, s) => unwind frames (frame.returned a s)
  | frame :: frames, (.raised e, s) => unwind frames (frame.raised e s)
  | _ :: _, (.pending, s) => (.pending, s)

/-- A program that is still running leaves no frame. -/
theorem unwind_pending (frames : List (Frame σ ε α)) (s : σ) :
    unwind frames (.pending, s) = (.pending, s) := by
  cases frames <;> rfl

/-- The first frame is left with the outcome of the program that it is around. -/
theorem unwind_cons (frame : Frame σ ε α) (frames : List (Frame σ ε α)) (p : Program σ ε α) (s : σ) :
    unwind (frame :: frames) (p s) = unwind frames (frame.around p s) := by
  unfold Frame.around
  generalize p s = ending
  rcases ending with ⟨a | e | _, t⟩
  · rfl
  · rfl
  · exact (unwind_pending frames t).symm

/-- An exception that every frame raises again leaves them all at once. -/
theorem unwind_raised {frames : List (Frame σ ε α)} {e : ε}
    (h : ∀ frame ∈ frames, frame.raised e = raise e) (s : σ) :
    unwind frames (.raised e, s) = (.raised e, s) := by
  induction frames with
  | nil => rfl
  | cons frame frames ih =>
    have hframe : frame.raised e s = (.raised e, s) := by
      rw [h frame List.mem_cons_self]
      rfl
    have hrest := ih fun f hf => h f (List.mem_cons_of_mem _ hf)
    calc unwind (frame :: frames) (.raised e, s)
      _ = unwind frames (frame.raised e s) := rfl
      _ = unwind frames (.raised e, s) := by rw [hframe]
      _ = (.raised e, s) := hrest

/-- The frames are left one after the other. -/
theorem unwind_append (inner outer : List (Frame σ ε α)) (outcome : Result ε α × σ) :
    unwind (inner ++ outer) outcome = unwind outer (unwind inner outcome) := by
  induction inner generalizing outcome with
  | nil => rfl
  | cons frame inner ih =>
    obtain ⟨a | e | _, s⟩ := outcome
    · exact ih (frame.returned a s)
    · exact ih (frame.raised e s)
    · exact (unwind_pending outer s).symm

/-! ## Stations -/

/-- What a station does with a request. -/
abbrev Station (σ ε ρ α : Type) := ρ → Program σ ε (ρ × Frame σ ε α)

/-- The stations around a terminal program, the first one outermost. -/
def nest (terminal : ρ → Program σ ε α) : List (Station σ ε ρ α) → ρ → Program σ ε α
  | [], request => terminal request
  | station :: stations, request => do
    let (request, frame) ← station request
    frame.around (nest terminal stations request)

/-- The way in: the request that the stations let through, or the exception that one of them raised,
with the frames that they have piled up. -/
def inbound : List (Station σ ε ρ α) → List (Frame σ ε α) → ρ → σ →
    Result ε ρ × List (Frame σ ε α) × σ
  | [], frames, request, s => (.ok request, frames, s)
  | station :: stations, frames, request, s =>
    match station request s with
    | (.ok (request, frame), s) => inbound stations (frame :: frames) request s
    | (.raised e, s) => (.raised e, frames, s)
    | (.pending, s) => (.pending, frames, s)

/-- What the stations' frames are, the piled up ones are. -/
theorem forall_mem_inbound {P : Frame σ ε α → Prop} {stations : List (Station σ ε ρ α)}
    (h : ∀ station ∈ stations, ∀ request s inner frame t,
      station request s = (.ok (inner, frame), t) → P frame)
    {frames : List (Frame σ ε α)} (hframes : ∀ frame ∈ frames, P frame) (request : ρ) (s : σ) :
    ∀ frame ∈ (inbound stations frames request s).2.1, P frame := by
  induction stations generalizing frames request s with
  | nil => exact hframes
  | cons station stations ih =>
    unfold inbound
    generalize hentered : station request s = entered
    rcases entered with ⟨⟨inner, frame⟩ | e | _, t⟩
    · apply ih
      · exact fun other hother => h other (List.mem_cons_of_mem _ hother)
      · intro f hf
        rcases List.mem_cons.mp hf with rfl | hf
        · exact h station List.mem_cons_self request s inner f t hentered
        · exact hframes f hf
    · exact hframes
    · exact hframes

/-- The turn: the terminal program runs on the request that came through. -/
def turn (terminal : ρ → Program σ ε α) :
    Result ε ρ × List (Frame σ ε α) × σ → List (Frame σ ε α) × (Result ε α × σ)
  | (.ok request, frames, s) => (frames, terminal request s)
  | (.raised e, frames, s) => (frames, .raised e, s)
  | (.pending, frames, s) => (frames, .pending, s)

/-- The way in, the turn, and the way out. -/
def travel (terminal : ρ → Program σ ε α) (stations : List (Station σ ε ρ α))
    (frames : List (Frame σ ε α)) (request : ρ) : Program σ ε α := fun s =>
  let turned := turn terminal (inbound stations frames request s)
  unwind turned.1 turned.2

/-- The nested stations do what the two passes do, with any frames around both. -/
theorem unwind_nest (terminal : ρ → Program σ ε α) (stations : List (Station σ ε ρ α))
    (frames : List (Frame σ ε α)) (request : ρ) (s : σ) :
    unwind frames (nest terminal stations request s) =
      travel terminal stations frames request s := by
  induction stations generalizing frames request s with
  | nil => rfl
  | cons station stations ih =>
    unfold travel inbound
    -- The first station lets a request through, raises, or is still running.
    generalize hentered : station request s = entered
    rcases entered with ⟨⟨inner, frame⟩ | e | _, t⟩
    · have hnest : nest terminal (station :: stations) request s =
          frame.around (nest terminal stations inner) t := bind_of_ok hentered
      rw [hnest, ← unwind_cons]
      exact ih (frame :: frames) inner t
    · have hnest : nest terminal (station :: stations) request s = (.raised e, t) :=
        bind_of_raised hentered
      rw [hnest]
      rfl
    · have hnest : nest terminal (station :: stations) request s = (.pending, t) :=
        bind_of_pending hentered
      rw [hnest]
      rfl

/-- The nested stations are the two passes. -/
theorem nest_eq_travel (terminal : ρ → Program σ ε α) (stations : List (Station σ ε ρ α)) :
    nest terminal stations = travel terminal stations [] := by
  funext request s
  exact unwind_nest terminal stations [] request s

end Program
