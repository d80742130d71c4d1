import Mathlib

/-!
# Runs of a state machine

A machine is a step function that answers `none` to an event that cannot happen in a state.  A run is
a list of events, taken one after the other.  The rules of this file lift what one step does to what
every run does; the model of a program instantiates them with its own `step`.
-/

namespace StateMachine

variable {σ ε : Type*}

/-- The state after a list of events, if each of them can happen when its turn comes. -/
def run (step : σ → ε → Option σ) : σ → List ε → Option σ
  | s, [] => some s
  | s, e :: es => (step s e).bind fun s' => run step s' es

@[simp] theorem run_nil (step : σ → ε → Option σ) (s : σ) : run step s [] = some s := rfl

example : run (fun s e => if e ≤ s then some (s - e) else none) 5 [2, 3] = some 0 := by simp [run]

variable {step : σ → ε → Option σ} {s t : σ} {es : List ε} {e : ε} {es' : List ε}

theorem run_cons :
    run step s (e :: es) = some t ↔ ∃ s', step s e = some s' ∧ run step s' es = some t := by
  rw [run, Option.bind_eq_some_iff]

theorem run_append : run step s (es ++ es') = some t ↔
      ∃ s', run step s es = some s' ∧ run step s' es' = some t := by
  induction es generalizing s with
  | nil => simp
  | cons _ es ih =>
    rw [List.cons_append, run_cons]
    constructor
    · rintro ⟨s₁, h₁, h₂⟩
      obtain ⟨s₂, h₃, h₄⟩ := ih.1 h₂
      exact ⟨s₂, run_cons.2 ⟨s₁, h₁, h₃⟩, h₄⟩
    · rintro ⟨s₂, h₁, h₂⟩
      obtain ⟨s₁, h₃, h₄⟩ := run_cons.1 h₁
      exact ⟨s₁, h₃, ih.2 ⟨s₂, h₄, h₂⟩⟩

variable {I : σ → Prop}

/-- **The invariant rule.**  What every step with an allowed event preserves, every run of allowed
events preserves. -/
theorem run_preserves (allowed : ε → Prop)
    (hstep : ∀ s e s', I s → allowed e → step s e = some s' → I s') :
    ∀ {es : List ε} {s t : σ}, I s → (∀ e ∈ es, allowed e) → run step s es = some t → I t := by
  intro es
  induction es with
  | nil =>
    intro s t hs _ h
    cases h
    exact hs
  | cons e es ih =>
    intro s t hs hall h
    obtain ⟨s', hs', h⟩ := run_cons.1 h
    obtain ⟨he, hall⟩ := List.forall_mem_cons.1 hall
    exact ih (hstep s e s' hs he hs') hall h

/-- The invariant rule where every event is allowed. -/
theorem run_invariant (hstep : ∀ s e s', I s → step s e = some s' → I s') (hs : I s)
    (h : run step s es = some t) : I t :=
  run_preserves (fun _ => True) (fun s e s' hs _ => hstep s e s' hs) hs
    (fun _ _ => trivial) h

/-- **The first step that leads to `P`.**  A run that starts where `P` does not hold and ends where it
does takes a step that leads to it. -/
theorem run_first {P : σ → Prop} (hs : ¬ P s) (ht : P t) (h : run step s es = some t) :
    ∃ es₁ e es₂ s₁ s₂, es = es₁ ++ e :: es₂ ∧ run step s es₁ = some s₁ ∧ ¬ P s₁
      ∧ step s₁ e = some s₂ ∧ P s₂ ∧ run step s₂ es₂ = some t := by
  induction es generalizing s with
  | nil =>
    cases h
    exact absurd ht hs
  | cons e es ih =>
    obtain ⟨s', hs', h⟩ := run_cons.1 h
    by_cases hp : P s'
    · exact ⟨[], e, es, s, s', rfl, rfl, hs, hs', hp, h⟩
    · obtain ⟨es₁, e₁, es₂, s₁, s₂, rfl, h₁, hrest⟩ := ih hp h
      exact ⟨e :: es₁, e₁, es₂, s₁, s₂, rfl, run_cons.2 ⟨s', hs', h₁⟩, hrest⟩

theorem run_concat :
    run step s (es ++ [e]) = some t ↔ ∃ s', run step s es = some s' ∧ step s' e = some t := by
  simp only [run_append, run_cons, run_nil, Option.some.injEq, exists_eq_right]

/-- **The last time that `Q` held.**  If `Q` holds at first, and every step keeps what `m` observes or
leads to `Q`, then `m` observes in the end what it did at some moment when `Q` held. -/
theorem run_since {μ : Type*} {Q : σ → Prop} {m : σ → μ}
    (hkeep : ∀ s e s', I s → step s e = some s' → I s')
    (hstep : ∀ s e s', I s → step s e = some s' → m s' = m s ∨ Q s') (hs : I s) (hq : Q s) :
    ∀ {es : List ε} {t : σ}, run step s es = some t →
      ∃ es₁ es₂ s₁, es = es₁ ++ es₂ ∧ run step s es₁ = some s₁ ∧ Q s₁ ∧ m t = m s₁ := by
  intro es
  induction es using List.reverseRecOn with
  | nil =>
    intro t h
    cases h
    exact ⟨[], [], s, rfl, rfl, hq, rfl⟩
  | append_singleton es e ih =>
    intro t h
    obtain ⟨s', hs', he⟩ := run_concat.1 h
    rcases hstep s' e t (run_invariant hkeep hs hs') he with hsame | hlast
    · obtain ⟨es₁, es₂, s₁, rfl, hrun, hq₁, hm⟩ := ih hs'
      exact ⟨es₁, es₂ ++ [e], s₁, by rw [List.append_assoc], hrun, hq₁, hsame.trans hm⟩
    · exact ⟨es ++ [e], [], t, by rw [List.append_nil], h, hlast, rfl⟩

/-! ## Conditions along a run -/

/-- Every event of a run finds a state in which `P` holds of it. -/
def Along (step : σ → ε → Option σ) (P : σ → ε → Prop) : σ → List ε → Prop
  | _, [] => True
  | s, e :: es => P s e ∧ ∀ s', step s e = some s' → Along step P s' es

instance Along.decidable (step : σ → ε → Option σ) (P : σ → ε → Prop)
    [∀ s e, Decidable (P s e)] : ∀ (es : List ε) (s : σ), Decidable (Along step P s es)
  | [], _ => .isTrue trivial
  | e :: es, s =>
    match h : step s e with
    | none => decidable_of_iff (P s e) ⟨fun hp => ⟨hp, fun s' hs' => by rw [h] at hs'; cases hs'⟩,
        And.left⟩
    | some s' =>
      have := Along.decidable step P es s'
      decidable_of_iff (P s e ∧ Along step P s' es)
        ⟨fun hp => ⟨hp.1, fun s'' hs'' => by rw [h] at hs''; cases hs''; exact hp.2⟩,
          fun hp => ⟨hp.1, hp.2 s' h⟩⟩

variable {P : σ → ε → Prop} {Q : σ → ε → Prop}

theorem along_append : Along step P s (es ++ es') ↔
      Along step P s es ∧ ∀ t, run step s es = some t → Along step P t es' := by
  induction es generalizing s with
  | nil =>
    refine ⟨fun h => ⟨trivial, fun t ht => ?_⟩, fun h => h.2 s rfl⟩
    cases ht
    exact h
  | cons _ es ih =>
    constructor
    · rintro ⟨hp, hrest⟩
      refine ⟨⟨hp, fun s' hs' => (ih.1 (hrest s' hs')).1⟩, fun t ht => ?_⟩
      obtain ⟨s', hs', ht⟩ := run_cons.1 ht
      exact (ih.1 (hrest s' hs')).2 t ht
    · rintro ⟨⟨hp, hfirst⟩, hrest⟩
      refine ⟨hp, fun s' hs' => ih.2 ⟨hfirst s' hs', fun t ht => ?_⟩⟩
      exact hrest t (run_cons.2 ⟨s', hs', ht⟩)

/-- A condition that follows from one that is met along a run. -/
theorem along_mono (h : ∀ s e, P s e → Q s e) :
    ∀ {es : List ε} {s : σ}, Along step P s es → Along step Q s es := by
  intro es
  induction es with
  | nil => exact fun _ => trivial
  | cons e es ih => exact fun {s} hall => ⟨h s e hall.1, fun s' hs' => ih (hall.2 s' hs')⟩

/-- A condition that holds of every event is met along every run. -/
theorem along_of_forall (h : ∀ s e, P s e) : ∀ {es : List ε} {s : σ}, Along step P s es := by
  intro es
  induction es with
  | nil => exact trivial
  | cons e es ih => exact fun {s} => ⟨h s e, fun _ _ => ih⟩

/-- **The invariant rule for a condition.**  What every step that meets a condition preserves, every
run all of whose steps meet it preserves. -/
theorem run_along_preserves (hkeep : ∀ s e s', I s → P s e → step s e = some s' → I s') :
    ∀ {es : List ε} {s t : σ}, I s → Along step P s es → run step s es = some t → I t := by
  intro es
  induction es with
  | nil =>
    intro s t hs _ h
    cases h
    exact hs
  | cons e es ih =>
    intro s t hs hall h
    obtain ⟨s', hs', h⟩ := run_cons.1 h
    exact ih (hkeep s e s' hs hall.1 hs') (hall.2 s' hs') h

/-- **The rule for an exact condition.**  If steps that meet a condition keep `I`, a step that does
not leads from `I` to `J`, and nothing leads out of `J`, then a run that starts in `I` ends in `I` if
all its steps meet the condition, and in `J` if not. -/
theorem run_along {J : σ → Prop} (hkeep : ∀ s e s', I s → P s e → step s e = some s' → I s')
    (hleave : ∀ s e s', I s → ¬ P s e → step s e = some s' → J s')
    (hstay : ∀ s e s', J s → step s e = some s' → J s') :
    ∀ {es : List ε} {s t : σ}, I s → run step s es = some t →
      (Along step P s es ∧ I t) ∨ (¬ Along step P s es ∧ J t) := by
  intro es
  induction es with
  | nil =>
    intro s t hs h
    cases h
    exact .inl ⟨trivial, hs⟩
  | cons e es ih =>
    intro s t hs h
    obtain ⟨s', hs', h⟩ := run_cons.1 h
    by_cases hp : P s e
    · rcases ih (hkeep s e s' hs hp hs') h with ⟨hall, ht⟩ | ⟨hnot, ht⟩
      · refine .inl ⟨⟨hp, fun _ hs'' => ?_⟩, ht⟩
        rw [hs'] at hs''
        cases hs''
        exact hall
      · exact .inr ⟨fun hall => hnot (hall.2 s' hs'), ht⟩
    · exact .inr ⟨fun hall => hp hall.1, run_invariant hstay (hleave s e s' hs hp hs') h⟩

/-- Two conditions that agree wherever an invariant holds agree along every run. -/
theorem along_congr
    (hkeep : ∀ s e s', I s → step s e = some s' → I s') (heq : ∀ s e, I s → (P s e ↔ Q s e)) :
    ∀ {es : List ε} {s : σ}, I s → (Along step P s es ↔ Along step Q s es) := by
  intro es
  induction es with
  | nil => exact fun _ => Iff.rfl
  | cons e es ih =>
    intro s hs
    refine and_congr (heq s e hs) (forall_congr' fun s' => ?_)
    exact imp_congr_right fun hs' => ih (hkeep s e s' hs hs')

/-- **The rule for an exact condition on the states of a run.**  If a step keeps `I` exactly when it
meets a condition, then `I` holds in every state of a run that starts in it exactly when all its
steps meet the condition. -/
theorem run_take_iff_along (hstep : ∀ s e s', I s → step s e = some s' → (I s' ↔ P s e)) :
    ∀ {es : List ε} {s t : σ}, I s → run step s es = some t →
      ((∀ k s', run step s (es.take k) = some s' → I s') ↔ Along step P s es) := by
  intro es
  induction es with
  | nil =>
    intro s t hs _
    refine ⟨fun _ => trivial, fun _ k s' h => ?_⟩
    rw [List.take_nil] at h
    cases h
    exact hs
  | cons e es ih =>
    intro s t hs h
    obtain ⟨s₁, hs₁, h⟩ := run_cons.1 h
    constructor
    · intro hall
      have hI : I s₁ := hall 1 s₁ (run_cons.2 ⟨s₁, hs₁, rfl⟩)
      refine ⟨(hstep s e s₁ hs hs₁).1 hI, fun s' hs' => ?_⟩
      rw [hs₁] at hs'
      cases hs'
      exact (ih hI h).1 fun k s' hk => hall (k + 1) s' (run_cons.2 ⟨s₁, hs₁, hk⟩)
    · rintro ⟨hp, hrest⟩ k s' hk
      have hI : I s₁ := (hstep s e s₁ hs hs₁).2 hp
      rcases k with _ | k
      · cases hk
        exact hs
      · obtain ⟨s₂, hs₂, hk⟩ := run_cons.1 hk
        rw [hs₁] at hs₂
        cases hs₂
        exact (ih hI h).2 (hrest s₁ hs₁) k s' hk

end StateMachine
