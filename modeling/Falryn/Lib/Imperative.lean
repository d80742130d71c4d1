import Mathlib

/-!
# Programs with a state that can be refused

A program reads and writes a state and may stop early with an error.  What it wrote before it stopped
stays written: nothing is rolled back unless the program does so.  A program's `outcome` from a state
is what it returns and the state it leaves; the lemmas take the outcome of a program apart along its
statements.
-/

/-- A program over the states `σ` that may stop with an error of type `ε`. -/
abbrev Imperative (σ ε : Type) := ExceptT ε (StateM σ)

namespace Imperative

variable {σ ε α β : Type}

/-- What a program returns from a state, and the state it leaves. -/
def outcome (p : Imperative σ ε α) (s : σ) : Except ε α × σ := p.run.run s

/-- A check that reads nothing and writes nothing. -/
def check (x : Except ε α) : Imperative σ ε α := ExceptT.mk (pure x)

@[simp] theorem outcome_pure (a : α) (s : σ) :
    outcome (pure a : Imperative σ ε α) s = (.ok a, s) := rfl

@[simp] theorem outcome_get (s : σ) : outcome (get : Imperative σ ε σ) s = (.ok s, s) := rfl

@[simp] theorem outcome_modify (f : σ → σ) (s : σ) :
    outcome (modify f : Imperative σ ε PUnit) s = (.ok ⟨⟩, f s) := rfl

@[simp] theorem outcome_check (x : Except ε α) (s : σ) :
    outcome (check x : Imperative σ ε α) s = (x, s) := rfl

/-- A program goes on from where its first statement left it, unless that was refused. -/
theorem outcome_bind (p : Imperative σ ε α) (f : α → Imperative σ ε β) (s : σ) :
    outcome (p >>= f) s =
      match outcome p s with
      | (.ok a, s') => outcome (f a) s'
      | (.error e, s') => (.error e, s') := by
  show (match (p.run.run s : Except ε α × σ) with
    | (x, s') => (ExceptT.bindCont f x).run s' : Except ε β × σ) = _
  rw [outcome]
  rcases (p.run.run s : Except ε α × σ) with ⟨_ | _, _⟩ <;> rfl

/-- After a statement that went through. -/
theorem outcome_bind_ok {p : Imperative σ ε α} {f : α → Imperative σ ε β} {s s' : σ} {a : α}
    (h : outcome p s = (.ok a, s')) : outcome (p >>= f) s = outcome (f a) s' := by
  rw [outcome_bind, h]

/-- A loop of checks is one check. -/
theorem outcome_forM_check (l : List α) (p : α → Imperative σ ε PUnit) (f : α → Except ε PUnit)
    (s : σ) (hp : ∀ a, outcome (p a) s = (f a, s)) : outcome (l.forM p) s = (l.forM f, s) := by
  induction l with
  | nil => rfl
  | cons a l ih =>
    show outcome (p a >>= fun _ => l.forM p) s = (f a >>= fun _ => l.forM f, s)
    rw [outcome_bind, hp]
    rcases f a with e | _
    · rfl
    · exact ih

/-- A loop of writes writes one after the other. -/
theorem outcome_forM_modify (l : List α) (p : α → Imperative σ ε PUnit) (f : σ → α → σ)
    (hp : ∀ a s, outcome (p a) s = (.ok ⟨⟩, f s a)) (s : σ) :
    outcome (l.forM p) s = (.ok ⟨⟩, l.foldl f s) := by
  induction l generalizing s with
  | nil => rfl
  | cons a l ih =>
    show outcome (p a >>= fun _ => l.forM p) s = _
    rw [outcome_bind_ok (hp a s), ih, List.foldl_cons]

end Imperative
