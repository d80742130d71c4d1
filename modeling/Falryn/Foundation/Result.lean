import Mathlib

/-!
# Results

The repository's `Result<Value, Error>` is `Except`.  A function that returns early with an error is
written in the `Except` monad, its guards with `refuseIf`; the lemmas here take a computation that
succeeded apart again, one statement at a time.
-/

namespace Falryn

/-- `if (condition) return err(error);` -/
def refuseIf {ε : Type} (condition : Prop) [Decidable condition] (error : ε) : Except ε Unit :=
  if condition then .error error else .ok ()

variable {ε : Type} {u : Unit}

/-- A guard that succeeds was not taken. -/
theorem refuseIf_ok {c : Prop} [Decidable c] {e : ε} : refuseIf c e = .ok u ↔ ¬ c := by
  by_cases h : c <;> simp [refuseIf, h]

variable {α : Type} {β : Type} {x : Except ε α} {a : α} {l : List α} {f : α → Except ε Unit}

/-- A bind that succeeds is two successes. -/
theorem except_bind_ok {f : α → Except ε β} {b : β} :
    (x >>= f) = .ok b ↔ ∃ a, x = .ok a ∧ f a = .ok b := by
  cases x with
  | error | ok a => simp [bind, Except.bind]

theorem except_pure_ok {b : α} : (pure a : Except ε α) = .ok b ↔ b = a := by
  simp [pure, Except.pure, eq_comm]

theorem toOption_eq_some : x.toOption = some a ↔ x = .ok a := by
  cases x with
  | error => exact ⟨nofun, nofun⟩
  | ok => exact ⟨fun h => by cases h; rfl, fun h => by cases h; rfl⟩

theorem mapM_ok_iff {f : α → Except ε β} {l' : List β} :
    l.mapM f = .ok l' ↔ List.Forall₂ (fun a b => f a = .ok b) l l' := by
  induction l generalizing l' with
  | nil => simp [pure, Except.pure, eq_comm]
  | cons a l ih =>
    rw [List.mapM_cons, except_bind_ok]
    constructor
    · rintro ⟨b, hb, h⟩
      obtain ⟨bs, hbs, h⟩ := except_bind_ok.1 h
      cases h
      exact .cons hb (ih.1 hbs)
    · intro h
      cases h with
      | cons hb hrest => exact ⟨_, hb, except_bind_ok.2 ⟨_, ih.2 hrest, rfl⟩⟩

theorem forM_ok (h : ∀ a ∈ l, f a = .ok ()) : l.forM f = .ok () := by
  induction l with
  | nil => rfl
  | cons a l ih =>
    have hrest := ih fun b hb => h b (List.mem_cons_of_mem _ hb)
    change (f a >>= fun _ => l.forM f) = .ok ()
    exact except_bind_ok.2 ⟨(), h a List.mem_cons_self, hrest⟩

/-- A loop of checks that went through made every check. -/
theorem forM_ok_mem (h : l.forM f = .ok u) : ∀ a ∈ l, f a = .ok () := by
  induction l with
  | nil => nofun
  | cons b l ih =>
    change (f b >>= fun _ => l.forM f) = .ok u at h
    obtain ⟨_, hb, hrest⟩ := except_bind_ok.1 h
    intro a ha
    rcases List.mem_cons.1 ha with rfl | ha
    · exact hb
    · exact ih hrest a ha

/-- What every step of a loop preserves, the loop preserves. -/
theorem foldlM_ok_invariant {σ : Type} {f : σ → α → Except ε σ} {P : σ → Prop}
    (hstep : ∀ s, ∀ a ∈ l, ∀ s', P s → f s a = .ok s' → P s') :
    ∀ {s s' : σ}, P s → l.foldlM f s = .ok s' → P s' := by
  induction l with
  | nil =>
    intro s s' hs h
    cases h
    exact hs
  | cons a l ih =>
    intro s s' hs h
    rw [List.foldlM_cons] at h
    obtain ⟨s₁, hfirst, hrest⟩ := except_bind_ok.1 h
    exact ih (fun s b hb => hstep s b (List.mem_cons_of_mem _ hb))
      (hstep s a List.mem_cons_self s₁ hs hfirst) hrest

end Falryn
