import Falryn.Runtime.ShutdownRuns

/-!
# A shutdown ends, unless a participant throws

From every stage of a shutdown the coordinator comes to its report by steps of its own and by letting
time pass, whatever the participants' promises do: a phase that is not over when its deadline comes is
given up.  A participant that throws when it is called ends the sequence instead: nothing catches
what it throws, and the phases after it never run.
-/

namespace Falryn.Runtime.ShutdownCoordinator

open Orchestration StateMachine

variable {c c' : ShutdownCoordinator} {sequence : Sequence} {run : PhaseRun}
  {rest : List ShutdownPhase} {error : Thrown}

/-! ## The steps of the coordinator -/

/-- The coordinator goes on, or time passes. -/
def Event.IsOwn : Event → Prop
  | .returns | .wakes _ | .resumes | .tick _ => True
  | _ => False

/-- The coordinator comes from one state to another by itself. -/
def Reaches (c c' : ShutdownCoordinator) : Prop :=
  ∃ events, (∀ event ∈ events, Event.IsOwn event) ∧ StateMachine.run step c events = some c'

theorem Reaches.refl (c : ShutdownCoordinator) : Reaches c c :=
  ⟨[], fun _ h => (by cases h), rfl⟩

theorem Reaches.trans {c₁ c₂ c₃ : ShutdownCoordinator} (h : Reaches c₁ c₂) (h' : Reaches c₂ c₃) :
    Reaches c₁ c₃ := by
  obtain ⟨events, hown, hrun⟩ := h
  obtain ⟨events', hown', hrun'⟩ := h'
  refine ⟨events ++ events', fun event hevent => ?_, run_append.2 ⟨c₂, hrun, hrun'⟩⟩
  rcases List.mem_append.1 hevent with hevent | hevent
  · exact hown event hevent
  · exact hown' event hevent

theorem Reaches.single {event : Event} (hstep : c.step event = some c') (hown : Event.IsOwn event) :
    Reaches c c' :=
  ⟨[event], List.forall_mem_singleton.2 hown, run_cons.2 ⟨c', hstep, rfl⟩⟩

/-- The coordinator comes by itself to the end of the phase it is in. -/
def EndsPhase (c : ShutdownCoordinator) (rest : List ShutdownPhase) : Prop :=
  ∃ c' sequence, Reaches c c' ∧ c'.stage = .between sequence ∧ sequence.rest = rest

theorem EndsPhase.of_reaches (h : Reaches c c') (hends : EndsPhase c' rest) : EndsPhase c rest := by
  obtain ⟨c'', sequence, h', hstage⟩ := hends
  exact ⟨c'', sequence, h.trans h', hstage⟩

theorem endsPhase_endPhase (c : ShutdownCoordinator) (sequence : Sequence) (run : PhaseRun)
    (timedOut : Bool) : EndsPhase (c.endPhase sequence run timedOut) sequence.rest :=
  ⟨_, _, .refl _, rfl, rfl⟩

/-- The coordinator waits until the deadline at most. -/
theorem endsPhase_armed (hs : c.stage = .waiting sequence run false) :
    EndsPhase c sequence.rest := by
  by_cases hnone : run.outstanding = 0
  · have hstep : c.step (.wakes .settled) = some (c.endPhase sequence run false) := by
      simp [step, wakes, hs, hnone]
    exact .of_reaches (.single hstep trivial) (endsPhase_endPhase ..)
  · have hparked : c.IsParked := by
      rw [IsParked, hs]
      exact ⟨Nat.pos_of_ne_zero hnone, rfl⟩
    have htick : c.step (.tick (run.deadline - c.clock)) =
        some { c with clock := c.clock + (run.deadline - c.clock) } := by
      rw [step, if_pos hparked]
    have hlate : run.deadline ≤ c.clock + (run.deadline - c.clock) := by omega
    have hwake : step { c with clock := c.clock + (run.deadline - c.clock) } (.wakes .expired) =
        some (endPhase { c with clock := c.clock + (run.deadline - c.clock) } sequence run true) := by
      simp [step, wakes, hs, hlate]
    exact .of_reaches ((Reaches.single htick trivial).trans (.single hwake trivial))
      (endsPhase_endPhase ..)

theorem endsPhase_loopHead (c : ShutdownCoordinator) (sequence : Sequence) (run : PhaseRun) :
    EndsPhase (c.loopHead sequence run) sequence.rest := by
  rw [loopHead]
  split
  · exact endsPhase_armed rfl
  · exact endsPhase_endPhase ..

theorem endsPhase_waiting {rearmed : Bool} (hs : c.stage = .waiting sequence run rearmed) :
    EndsPhase c sequence.rest := by
  rcases rearmed with _ | _
  · exact endsPhase_armed hs
  · have hstep : c.step (.wakes .rearm) = some (c.loopHead sequence run) := by
      simp [step, wakes, hs]
    exact .of_reaches (.single hstep trivial) (endsPhase_loopHead ..)

theorem endsPhase_callNext (todo : List ShutdownParticipant) (c : ShutdownCoordinator)
    (sequence : Sequence) (run : PhaseRun) :
    EndsPhase (c.callNext sequence run todo) sequence.rest := by
  induction todo generalizing c with
  | nil => exact endsPhase_loopHead ..
  | cons p todo ih =>
    have hstep : step (c.callNext sequence run (p :: todo)) .returns =
        some (callNext { c with
          stage := .calling sequence run (p :: todo)
          pending := p :: c.pending
          log := .called p :: c.log } sequence run todo) := rfl
    exact .of_reaches (.single hstep trivial) (ih _)

/-- The coordinator comes by itself to its report. -/
def Finishes (c : ShutdownCoordinator) : Prop :=
  ∃ c' report, Reaches c c' ∧ c'.stage = .finished report

theorem Finishes.of_reaches (h : Reaches c c') (hfinishes : Finishes c') : Finishes c := by
  obtain ⟨c'', report, h', hstage⟩ := hfinishes
  exact ⟨c'', report, h.trans h', hstage⟩

theorem finishes_between (rest : List ShutdownPhase) (hs : c.stage = .between sequence)
    (hrest : sequence.rest = rest) : Finishes c := by
  induction rest generalizing c sequence with
  | nil =>
    have hstep : c.step .resumes = some (c.finish sequence) := by
      simp [step, resumes, nextPhase, hs, hrest]
    exact ⟨_, _, .single hstep trivial, rfl⟩
  | cons phase rest ih =>
    have hstep : c.step .resumes = some (c.beginPhase { sequence with rest } phase) := by
      simp [step, resumes, nextPhase, hs, hrest]
    obtain ⟨c', sequence', hreaches, hs', hrest'⟩ :
        EndsPhase (c.beginPhase { sequence with rest } phase) rest := endsPhase_callNext ..
    exact .of_reaches ((Reaches.single hstep trivial).trans hreaches) (ih hs' hrest')

theorem Finishes.of_endsPhase (h : EndsPhase c rest) : Finishes c := by
  obtain ⟨c', sequence, hreaches, hs, hrest⟩ := h
  exact .of_reaches hreaches (finishes_between rest hs hrest)

/-- **A shutdown that has not been thrown out of its sequence ends.** -/
theorem Orderly.finishes (h : Orderly c) (hstarted : c.isShuttingDown = true) :
    Finishes c := by
  have hstage := h.atStage
  rw [isShuttingDown] at hstarted
  rcases hs : c.stage with _ | ⟨sequence, run, todo⟩ | ⟨sequence, run, rearmed⟩ | sequence |
    report | error
  case idle =>
    rw [hs] at hstarted
    cases hstarted
  all_goals rw [hs] at hstage
  case calling =>
    rcases todo with _ | ⟨p, todo⟩
    · exact absurd rfl hstage.2.2
    · have hstep : c.step .returns = some (callNext
          { c with pending := p :: c.pending, log := .called p :: c.log } sequence run todo) := by
        rw [ShutdownCoordinator.step, returns, hs]
      exact .of_endsPhase (.of_reaches (.single hstep trivial) (endsPhase_callNext ..))
  case waiting => exact .of_endsPhase (endsPhase_waiting hs)
  case between => exact finishes_between sequence.rest hs rfl
  case finished => exact ⟨c, report, .refl c, hs⟩
  case rejected => cases hstage

/-! ## A participant that throws -/

theorem rejected_step (hs : c.stage = .rejected error) {event : Event}
    (hstep : c.step event = some c') : c'.stage = .rejected error := by
  rcases event with p | level | level | operation | span | _ | error' | ⟨p, s⟩ | waited | _
  all_goals rw [step] at hstep
  case register =>
    split at hstep
    next hok =>
      rw [register, isShuttingDown, hs] at hok
      cases hok
    · cases hstep
      exact hs
  case shutdown =>
    rw [shutdown, hs] at hstep
    cases hstep
    exact hs
  case escalate =>
    cases hstep
    rw [raiseLevel]
    split
    · exact hs
    · show rearm c.stage = .rejected error
      rw [hs]
      rfl
  case scope =>
    cases hstep
    exact hs
  case tick =>
    split at hstep
    · cases hstep
      exact hs
    · cases hstep
  case settles =>
    rw [settles, hs] at hstep
    dsimp only at hstep
    split at hstep
    · cases hstep
      rfl
    · cases hstep
  case wakes =>
    unfold wakes at hstep
    rw [hs] at hstep
    cases waited <;> cases hstep
  case returns =>
    rw [returns, hs] at hstep
    cases hstep
  case throws =>
    rw [throws, hs] at hstep
    cases hstep
  case resumes =>
    rw [resumes, hs] at hstep
    cases hstep

/-- After a participant threw, the promise of `shutdown` is rejected for good. -/
theorem rejected_of_throws {events : List Event} (hmem : .throws error ∈ events)
    (hrun : StateMachine.run step c events = some c') : ∃ error, c'.stage = .rejected error := by
  obtain ⟨before, after, rfl⟩ := List.append_of_mem hmem
  obtain ⟨c₁, -, hrun⟩ := run_append.1 hrun
  obtain ⟨c₂, hstep, hrun⟩ := run_cons.1 hrun
  have hrejected : c₂.stage = .rejected error := by
    rw [step, throws] at hstep
    split at hstep
    · cases hstep; rfl
    · cases hstep
  exact ⟨error, run_invariant (I := fun c => c.stage = .rejected error)
    (fun _ _ _ hs hstep => rejected_step hs hstep) hrejected hrun⟩

/-! ## The whole shutdown -/

/-- A participant of one phase settles after the shutdown was forced and before its phase is given
up. -/
def forcedDrain : List Event :=
  [.register ⟨"drain", .drainEvents⟩, .shutdown none, .resumes, .resumes, .resumes, .returns,
    .tick 100, .escalate .forced, .wakes .rearm, .tick 20,
    .settles ⟨"drain", .drainEvents⟩ .fulfilled, .wakes .settled, .resumes, .resumes, .resumes,
    .resumes, .resumes, .resumes, .resumes]

end Falryn.Runtime.ShutdownCoordinator
