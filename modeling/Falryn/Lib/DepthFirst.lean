import Mathlib

/-!
# Depth-first search for a cycle

The textbook search: a node is unmarked, being visited, or done, and meeting a node that is being
visited is a cycle.  Recursion is bounded by fuel, one unit for each unmarked node, so it never runs
out on a graph whose nodes are the ones counted.

What it answers is worked out in `FrameCycles`, from the loop over a stack that it is the recursive
form of.
-/

namespace DepthFirst

variable {α : Type*} [DecidableEq α]

inductive Mark where
  | visiting
  | done

/-- Visit one node after the other, until a cycle is found. -/
def visitAll {μ : Type*} (visit : μ → α → Option (List α) × μ) :
    μ → List α → Option (List α) × μ
  | m, [] => (none, m)
  | m, x :: xs =>
    match visit m x with
    | (some cycle, m') => (some cycle, m')
    | (none, m') => visitAll visit m' xs

/-- Visit a node below a stack of nodes being visited. -/
def visit (succ : α → List α) : ℕ → List α → (α → Option Mark) → α →
    Option (List α) × (α → Option Mark)
  | 0, _, m, _ => (none, m)
  | fuel + 1, stack, m, x =>
    match m x with
    | some .done => (none, m)
    | some .visiting => (some (if x ∈ stack then stack.drop (stack.idxOf x) else stack), m)
    | none =>
      match visitAll (visit succ fuel (stack ++ [x])) (Function.update m x (some .visiting))
          (succ x) with
      | (some cycle, m') => (some cycle, m')
      | (none, m') => (none, Function.update m' x (some .done))

/-- A cycle among the nodes, if the search finds one. -/
def findCycle (succ : α → List α) (nodes : List α) : Option (List α) :=
  (visitAll (visit succ (nodes.length + 1) []) (fun _ => none) nodes).1

/-- One node depends on another directly. -/
def Succ (succ : α → List α) (y x : α) : Prop := y ∈ succ x

/-- How many of the nodes have no mark yet. -/
def unmarked (nodes : List α) (m : α → Option Mark) : ℕ := nodes.countP fun x => m x = none

section Marks

variable {succ : α → List α} {nodes : List α}

variable {m : α → Option Mark}

omit [DecidableEq α] in
theorem unmarked_le (nodes : List α) {m' : α → Option Mark} (h : ∀ x, m' x = none → m x = none) :
    unmarked nodes m' ≤ unmarked nodes m :=
  List.countP_mono_left fun x _ hx => by
    rw [decide_eq_true_eq] at hx ⊢
    exact h x hx

variable {x : α}

theorem marked_update {mark : Mark} (y : α)
    (h : Function.update m x (some mark) y = none) : m y = none := by
  by_cases hyx : y = x
  · subst hyx
    rw [Function.update_self] at h
    cases h
  · rwa [Function.update_of_ne hyx] at h

theorem unmarked_update_lt (hx : m x = none) (hmem : x ∈ nodes)
    (mark : Mark) : unmarked nodes (Function.update m x (some mark)) < unmarked nodes m := by
  obtain ⟨before, after, rfl⟩ := List.append_of_mem hmem
  have hle : ∀ part : List α, unmarked part (Function.update m x (some mark)) ≤ unmarked part m :=
    fun part => unmarked_le part marked_update
  have hbefore := hle before
  have hafter := hle after
  unfold unmarked at *
  rw [List.countP_append, List.countP_append, List.countP_cons, List.countP_cons,
    if_neg (by rw [Function.update_self]; simp), if_pos (by simp [hx])]
  omega

omit [DecidableEq α] in
theorem visitAll_marked {v : (α → Option Mark) → α → Option (List α) × (α → Option Mark)}
    (hv : ∀ m x y, (v m x).2 y = none → m y = none) : ∀ (xs : List α) (m : α → Option Mark) (y : α),
    (visitAll v m xs).2 y = none → m y = none := by
  intro xs
  induction xs with
  | nil => exact fun _ _ h => h
  | cons x xs ih =>
    intro m y h
    rw [visitAll] at h
    rcases hfirst : v m x with ⟨_ | _, m'⟩
    · rw [hfirst] at h
      exact hv m x y (hfirst ▸ ih m' y h)
    · rw [hfirst] at h
      exact hv m x y (hfirst ▸ h)

/-- A visit takes no mark away. -/
theorem visit_marked (fuel : ℕ) : ∀ (stack : List α) (m : α → Option Mark) (x y : α),
    (visit succ fuel stack m x).2 y = none → m y = none := by
  induction fuel with
  | zero => exact fun _ _ _ _ h => h
  | succ fuel ih =>
    intro stack m x y h
    rw [visit] at h
    rcases hmark : m x with _ | _ | _
    · rw [hmark] at h
      have hall := visitAll_marked (ih (stack ++ [x])) (succ x)
        (Function.update m x (some .visiting)) y
      rcases hchildren : visitAll (visit succ fuel (stack ++ [x]))
          (Function.update m x (some .visiting)) (succ x) with ⟨_ | _, m'⟩ <;>
        rw [hchildren] at h hall
      · exact marked_update y (hall (marked_update y h))
      · exact marked_update y (hall h)
    all_goals
      rw [hmark] at h
      exact h

omit [DecidableEq α] in
/-- An accessible node lies on no cycle. -/
theorem not_transGen_self (h : Acc (Succ succ) x) : ¬ Relation.TransGen (Succ succ) x x := by
  have h' : Acc (Relation.TransGen (Succ succ)) x := h.transGen
  clear h
  induction h' with
  | intro x _ ih => exact fun hx => ih x hx hx

end Marks

end DepthFirst
