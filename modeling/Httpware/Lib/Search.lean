import Mathlib.Algebra.BigOperators.Group.Finset.Basic
import Mathlib.Algebra.Order.BigOperators.Group.Finset
import Mathlib.Logic.Relation

/-!
# Searching a finite graph with a stack

A search keeps the nodes that it has visited and a stack of nodes to visit. It ends at the first target
that it takes from the stack, or when the stack is empty; a node may lie on the stack many times, and is
expanded once. `run_spec` is its total correctness: with rounds enough for every node and edge it ends,
and it finds a target exactly when one can be reached.
-/

/-- A search under way. The top of the stack comes first. -/
structure Search (α : Type*) where
  seen : List α
  stack : List α

namespace Search

variable {α : Type*} [DecidableEq α]

/-- One round: whether the search has ended without a target, or the search after the round. The
successors of a node are pushed one after the other. -/
def round (next : α → List α) (target : α → Bool) (s : Search α) : Bool ⊕ Search α :=
  match s.stack with
  | [] => .inl true
  | node :: stack =>
    if target node then .inl false
    else if node ∈ s.seen then .inr ⟨s.seen, stack⟩
    else .inr ⟨node :: s.seen, (next node).reverse ++ stack⟩

/-- The rounds of a search, and no answer when they are used up. -/
def run (next : α → List α) (target : α → Bool) : ℕ → Search α → Option Bool
  | 0, _ => none
  | rounds + 1, s =>
    match s.round next target with
    | .inl answer => some answer
    | .inr s' => run next target rounds s'

/-- A search from a node. -/
def start (root : α) : Search α := ⟨[], [root]⟩

/-- A node can be reached from another along successors. -/
abbrev Reaches (next : α → List α) : α → α → Prop := Relation.ReflTransGen fun m n => n ∈ next m

variable {next : α → List α} {target : α → Bool} {root : α} {s s' : Search α}

/-- The ways in which a round can go. -/
inductive Rounds (next : α → List α) (target : α → Bool) (s : Search α) : Bool ⊕ Search α → Prop
  /-- The stack is empty. -/
  | exhausted (h : s.stack = []) : Rounds next target s (.inl true)
  /-- The node is a target. -/
  | found {node : α} {stack : List α} (h : s.stack = node :: stack) (htarget : target node = true) :
      Rounds next target s (.inl false)
  /-- The node was visited before. -/
  | skipped {node : α} {stack : List α} (h : s.stack = node :: stack) (hseen : node ∈ s.seen) :
      Rounds next target s (.inr ⟨s.seen, stack⟩)
  /-- The node is expanded. -/
  | expanded {node : α} {stack : List α} (h : s.stack = node :: stack) (htarget : target node = false)
      (hseen : node ∉ s.seen) :
      Rounds next target s (.inr ⟨node :: s.seen, (next node).reverse ++ stack⟩)

/-- A round goes in one of these ways. -/
theorem round_cases (next : α → List α) (target : α → Bool) (s : Search α) :
    Rounds next target s (s.round next target) := by
  unfold round
  cases hstack : s.stack with
  | nil => exact .exhausted hstack
  | cons node stack =>
    dsimp only
    split_ifs with htarget hseen
    · exact .found hstack htarget
    · exact .skipped hstack hseen
    · exact .expanded hstack (Bool.eq_false_iff.mpr htarget) hseen

/-! ## Correctness -/

/-- What a search knows: the stack can be reached, no visited node is a target, and the successors of
the visited nodes, like the root, are visited or on the stack. -/
structure Knows (next : α → List α) (target : α → Bool) (root : α) (s : Search α) : Prop where
  reached : ∀ n ∈ s.stack, Reaches next root n
  noTarget : ∀ n ∈ s.seen, target n = false
  root : root ∈ s.seen ∨ root ∈ s.stack
  closed : ∀ m ∈ s.seen, ∀ n ∈ next m, n ∈ s.seen ∨ n ∈ s.stack

omit [DecidableEq α] in
/-- It knows this at the start. -/
theorem knows_start (next : α → List α) (target : α → Bool) (root : α) :
    Knows next target root (start root) where
  reached n hn := by
    rw [List.mem_singleton.mp hn]
  noTarget n hn := absurd hn List.not_mem_nil
  root := .inr (List.mem_singleton_self root)
  closed m hm := absurd hm List.not_mem_nil

omit [DecidableEq α] in
/-- A node of the stack is the top or below it. -/
theorem mem_stack {node n : α} {stack : List α} (hstack : s.stack = node :: stack) :
    n ∈ s.stack ↔ n = node ∨ n ∈ stack := by
  rw [hstack, List.mem_cons]

/-- A round keeps what the search knows. -/
theorem Knows.round (h : Knows next target root s) (hround : s.round next target = .inr s') :
    Knows next target root s' := by
  have hcases := round_cases next target s
  rw [hround] at hcases
  cases hcases with
  | @skipped node stack hstack hseen =>
    -- What was the top of the stack is visited.
    have hmoved : ∀ n, n ∈ s.seen ∨ n ∈ s.stack → n ∈ s.seen ∨ n ∈ stack := by
      intro n hn
      rcases hn with hn | hn
      · exact .inl hn
      · rcases (mem_stack hstack).mp hn with rfl | hn
        · exact .inl hseen
        · exact .inr hn
    exact ⟨fun n hn => h.reached n ((mem_stack hstack).mpr (.inr hn)), h.noTarget, hmoved _ h.root,
      fun m hm n hn => hmoved n (h.closed m hm n hn)⟩
  | @expanded node stack hstack htarget hseen =>
    have hnode : Reaches next root node := h.reached node ((mem_stack hstack).mpr (.inl rfl))
    have hmoved : ∀ n, n ∈ s.seen ∨ n ∈ s.stack →
        n ∈ node :: s.seen ∨ n ∈ (next node).reverse ++ stack := by
      intro n hn
      rcases hn with hn | hn
      · exact .inl (List.mem_cons_of_mem _ hn)
      · rcases (mem_stack hstack).mp hn with rfl | hn
        · exact .inl List.mem_cons_self
        · exact .inr (List.mem_append_right _ hn)
    refine ⟨fun n hn => ?_, fun n hn => ?_, hmoved _ h.root, fun m hm n hn => ?_⟩
    · rcases List.mem_append.mp hn with hn | hn
      · exact hnode.tail (List.mem_reverse.mp hn)
      · exact h.reached n ((mem_stack hstack).mpr (.inr hn))
    · rcases List.mem_cons.mp hn with rfl | hn
      · exact htarget
      · exact h.noTarget n hn
    · rcases List.mem_cons.mp hm with rfl | hm
      · exact .inr (List.mem_append_left _ (List.mem_reverse.mpr hn))
      · exact hmoved n (h.closed m hm n hn)

/-- A search that knows this answers right. -/
theorem Knows.answer (h : Knows next target root s) {answer : Bool}
    (hround : s.round next target = .inl answer) :
    answer = false ↔ ∃ n, Reaches next root n ∧ target n = true := by
  have hcases := round_cases next target s
  rw [hround] at hcases
  cases hcases with
  | @found node stack hstack htarget =>
    exact iff_of_true rfl ⟨node, h.reached node ((mem_stack hstack).mpr (.inl rfl)), htarget⟩
  | exhausted hstack =>
    -- Nothing is on the stack, so all that can be reached is visited.
    have hseen : ∀ n, n ∈ s.seen ∨ n ∈ s.stack → n ∈ s.seen := by
      intro n hn
      rw [hstack] at hn
      exact hn.resolve_right List.not_mem_nil
    have hall : ∀ n, Reaches next root n → n ∈ s.seen := by
      intro n hn
      induction hn with
      | refl => exact hseen root h.root
      | tail _ hedge ih => exact hseen _ (h.closed _ ih _ hedge)
    refine iff_of_false Bool.true_eq_false.mp fun ⟨n, hn, htarget⟩ => ?_
    rw [h.noTarget n (hall n hn)] at htarget
    cases htarget

/-! ## Termination -/

variable [Fintype α]

/-- What is left to do: the stack, and the edges of the nodes that have not been visited. -/
def weight (next : α → List α) (s : Search α) : ℕ :=
  s.stack.length + ∑ n with n ∉ s.seen, (next n).length

/-- A round that goes around does one thing of it. -/
theorem weight_round (h : s.round next target = .inr s') :
    s'.weight next + 1 = s.weight next := by
  have hcases := round_cases next target s
  rw [h] at hcases
  cases hcases with
  | skipped hstack _ =>
    unfold weight
    dsimp only
    rw [hstack, List.length_cons]
    omega
  | @expanded node stack hstack _ hseen =>
    -- The edges of the node move to the stack.
    have hsplit : ∑ n with n ∉ s.seen, (next n).length =
        (next node).length + ∑ n with n ∉ node :: s.seen, (next n).length := by
      have hmem : node ∈ Finset.univ.filter fun n => n ∉ s.seen := by simpa using hseen
      rw [← Finset.add_sum_erase _ _ hmem]
      congr 2
      ext n
      simp [not_or]
    unfold weight
    dsimp only
    rw [hstack, hsplit, List.length_cons, List.length_append, List.length_reverse]
    omega

/-- A search that has rounds enough ends, and answers right. -/
theorem run_of_knows {rounds : ℕ} (h : Knows next target root s)
    (hrounds : s.weight next < rounds) :
    ∃ answer, run next target rounds s = some answer ∧
      (answer = false ↔ ∃ n, Reaches next root n ∧ target n = true) := by
  induction rounds generalizing s with
  | zero => exact absurd hrounds (Nat.not_lt_zero _)
  | succ rounds ih =>
    unfold run
    cases hround : s.round next target with
    | inl answer => exact ⟨answer, rfl, h.answer hround⟩
    | inr s' =>
      have hweight := weight_round hround
      exact ih (h.round hround) (by omega)

/-- The search from a node answers whether no target can be reached from it, with any number of rounds
that is enough for all nodes and edges. -/
theorem run_spec (next : α → List α) (target : α → Bool) (root : α) :
    ∃ answer, (∀ rounds, ∑ n, (next n).length + 2 ≤ rounds →
        run next target rounds (start root) = some answer) ∧
      (answer = false ↔ ∃ n, Reaches next root n ∧ target n = true) := by
  have hknows := knows_start next target root
  have hweight : (start root).weight next = 1 + ∑ n, (next n).length := by
    simp [weight, start]
  obtain ⟨answer, -, hiff⟩ := run_of_knows hknows (Nat.lt_succ_self _)
  refine ⟨answer, fun rounds hrounds => ?_, hiff⟩
  have henough : (start root).weight next < rounds := by omega
  obtain ⟨answer', hrun, hiff'⟩ := run_of_knows hknows henough
  -- Both answers say the same.
  have hagree : answer' = false ↔ answer = false := hiff'.trans hiff.symm
  have hsame : answer' = answer := by
    cases answer with
    | false => exact hagree.mpr rfl
    | true => exact Bool.eq_true_of_not_eq_false (mt hagree.mp Bool.true_eq_false.mp)
  rw [hrun, hsame]

end Search
