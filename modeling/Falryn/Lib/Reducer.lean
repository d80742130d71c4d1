import Falryn.Lib.StateMachine

/-!
# Runs of a reducer

A reducer is a state machine to which every event can happen: its step is a function, and its runs are
folds.  A condition along a run is then a condition on every place where the run can be cut.
-/

namespace StateMachine

variable {σ ε : Type*}

/-- The step of a reducer. -/
def always (f : σ → ε → σ) (s : σ) (e : ε) : Option σ := some (f s e)

variable {f : σ → ε → σ} {P : σ → ε → Prop} {es : List ε} {s : σ}

theorem along_always_cons {e : ε} :
    Along (always f) P s (e :: es) ↔ P s e ∧ Along (always f) P (f s e) es := by
  refine and_congr_right fun _ => ⟨fun h => h (f s e) rfl, fun h _ hs' => ?_⟩
  cases hs'
  exact h

theorem along_always_append {es' : List ε} :
    Along (always f) P s (es ++ es') ↔ Along (always f) P s es ∧ Along (always f) P (es.foldl f s) es' := by
  induction es generalizing s with
  | nil => simp [Along]
  | cons _ es ih => rw [List.cons_append, along_always_cons, along_always_cons, ih, List.foldl_cons, and_assoc]

/-- A condition that holds of each event of a run in every state. -/
theorem along_of_forall_mem (h : ∀ e ∈ es, ∀ s, P s e) (s : σ) : Along (always f) P s es := by
  induction es generalizing s with
  | nil => trivial
  | cons e es ih =>
    obtain ⟨he, hes⟩ := List.forall_mem_cons.1 h
    exact along_always_cons.2 ⟨he s, ih hes (f s e)⟩

end StateMachine
