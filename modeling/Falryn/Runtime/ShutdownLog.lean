import Falryn.Runtime.ShutdownCoordinator

/-!
# What a shutdown leaves in its log

A log is lawful if everything in it is justified by what stands before it: a phase begins when all
before it have ended, a participant is called once and in its own phase, a wait is never armed for
later than it was, and a phase ends when all its participants have settled or its deadline has
passed.
-/

namespace Falryn.Runtime.ShutdownCoordinator

open Orchestration

/-! ## Reading a log -/

/-- The participants that were registered, in order. -/
def registeredIn : List Mark → List ShutdownParticipant
  | [] => []
  | .registered participant :: past => registeredIn past ++ [participant]
  | _ :: past => registeredIn past

/-- The phases that began, in order. -/
def begunIn : List Mark → List ShutdownPhase
  | [] => []
  | .began phase _ :: past => begunIn past ++ [phase]
  | _ :: past => begunIn past

/-- The participants that were called, in order. -/
def calledIn : List Mark → List ShutdownParticipant
  | [] => []
  | .called participant :: past => calledIn past ++ [participant]
  | _ :: past => calledIn past

/-- The phases that ended, in order. -/
def endedIn : List Mark → List ShutdownPhase
  | [] => []
  | .ended phase _ _ :: past => endedIn past ++ [phase]
  | _ :: past => endedIn past

/-- When the level last rose. -/
def lastRaised : List Mark → ℕ
  | [] => 0
  | .raised _ instant :: _ => instant
  | _ :: past => lastRaised past

/-- How a participant settled. -/
def settlementIn (participant : ShutdownParticipant) : List Mark → Option ParticipantSettlement
  | [] => none
  | .settled other settlement :: past =>
    if other = participant then some settlement else settlementIn participant past
  | _ :: past => settlementIn participant past

/-- The participants of a phase, in the order of their registration. -/
def ofPhase (participants : List ShutdownParticipant) (phase : ShutdownPhase) :
    List ShutdownParticipant :=
  participants.filter fun participant => participant.phase = phase

variable {phase : ShutdownPhase} {p : ShutdownParticipant}

theorem mem_ofPhase {participants : List ShutdownParticipant} : p ∈ ofPhase participants phase ↔ p ∈ participants ∧ p.phase = phase := by
  rw [ofPhase, List.mem_filter, decide_eq_true_iff]

/-- What a log lets a report say of a participant. -/
def observed (log : List Mark) (participant : ShutdownParticipant) : ParticipantReport :=
  ((settlementIn participant log).map (settledReport participant)).getD
    ⟨participant.name, .timedOut, none⟩

theorem settlementIn_isSome {log : List Mark} :
    (settlementIn p log).isSome ↔ ∃ s, .settled p s ∈ log := by
  induction log with
  | nil => simp [settlementIn]
  | cons m _ ih =>
    rcases m with _ | _ | _ | _ | _ | ⟨other, s⟩ | _
    case settled =>
      rw [settlementIn]
      by_cases h : other = p
      · rw [if_pos h]
        exact ⟨fun _ => ⟨s, by rw [h]; exact List.mem_cons_self⟩, fun _ => rfl⟩
      · rw [if_neg h, ih]
        refine exists_congr fun _ => ?_
        rw [List.mem_cons, or_iff_right]
        intro heq
        cases heq
        exact h rfl
    all_goals simp [settlementIn, ih]

/-! ## Lawful logs -/

/-- What must have happened before a mark. -/
def Justified (past : List Mark) : Mark → Prop
  | .registered participant => begunIn past = [] ∧ participant ∉ registeredIn past
  | .raised _ _ => True
  | .began phase _ => begunIn past ++ [phase] <+: shutdownPhases ∧ ∀ q ∈ begunIn past, q ∈ endedIn past
  | .called participant =>
    participant ∈ registeredIn past ∧ participant ∉ calledIn past ∧
      (begunIn past).getLast? = some participant.phase ∧ participant.phase ∉ endedIn past
  | .armed phase deadline => ∀ earlier, .armed phase earlier ∈ past → deadline ≤ earlier
  | .settled participant _ => participant ∈ calledIn past ∧ ∀ s, .settled participant s ∉ past
  | .ended phase deadline instant =>
    phase ∈ begunIn past ∧ phase ∉ endedIn past ∧
      (∀ earlier, .armed phase earlier ∈ past → deadline ≤ earlier) ∧
      (deadline ≤ instant ∨
        ∀ p ∈ registeredIn past, p.phase = phase → ∃ s, .settled p s ∈ past)

/-- Every mark of the log is justified by those before it. -/
def Lawful : List Mark → Prop
  | [] => True
  | m :: past => Justified past m ∧ Lawful past

theorem Lawful.mem_calledIn {s : ParticipantSettlement} :
    ∀ {log : List Mark}, Lawful log → .settled p s ∈ log → p ∈ calledIn log := by
  intro log
  induction log with
  | nil => exact fun _ h => (by cases h)
  | cons m _ ih =>
    intro hlawful hmem
    rcases List.mem_cons.1 hmem with rfl | hmem
    · exact hlawful.1.1
    · have hp := ih hlawful.2 hmem
      rcases m with _ | _ | _ | _ | _ | _ | _
      case called => exact List.mem_append_left _ hp
      all_goals exact hp

/-- A phase report says what was seen of its participants when the phase ended. -/
def Faithful (participants : List ShutdownParticipant) (log : List Mark) (report : PhaseReport) :
    Prop :=
  ∃ newer older deadline, log = newer ++ .ended report.phase deadline report.endedAt :: older ∧
    report.participants = (ofPhase participants report.phase).map (observed older)

theorem Faithful.cons {participants : List ShutdownParticipant} {log : List Mark}
    {report : PhaseReport} (h : Faithful participants log report) (m : Mark) :
    Faithful participants (m :: log) report := by
  obtain ⟨newer, older, deadline, rfl, hreports⟩ := h
  exact ⟨m :: newer, older, deadline, rfl, hreports⟩

/-! ## The place in the sequence -/

/-- How far a sequence has come: the phases that ended have a report each, `current` has begun, and of
its participants those in `calledNow` were called. -/
structure Place (participants : List ShutdownParticipant) (log : List Mark) (sequence : Sequence)
    (current : List ShutdownPhase) (calledNow : List ShutdownParticipant) : Prop where
  phases : sequence.phases.map PhaseReport.phase ++ current ++ sequence.rest = shutdownPhases
  begun : begunIn log = sequence.phases.map PhaseReport.phase ++ current
  ended : endedIn log = sequence.phases.map PhaseReport.phase
  called : calledIn log =
    (sequence.phases.map PhaseReport.phase).flatMap (ofPhase participants) ++ calledNow
  faithful : ∀ report ∈ sequence.phases, Faithful participants log report
  armed : ∀ phase deadline, .armed phase deadline ∈ log → phase ∈ begunIn log

/-- The marks that move no sequence. -/
def Mark.IsAside : Mark → Prop
  | .raised .. | .armed .. | .settled .. => True
  | _ => False

variable {participants calledNow : List ShutdownParticipant} {log : List Mark} {m : Mark}
  {sequence : Sequence} {current : List ShutdownPhase}

theorem begunIn_aside (hm : Mark.IsAside m) : begunIn (m :: log) = begunIn log := by
  rcases m with _ | _ | _ | _ | _ | _ | _ <;> first | rfl | cases hm

theorem endedIn_aside (hm : Mark.IsAside m) : endedIn (m :: log) = endedIn log := by
  rcases m with _ | _ | _ | _ | _ | _ | _ <;> first | rfl | cases hm

theorem calledIn_aside (hm : Mark.IsAside m) : calledIn (m :: log) = calledIn log := by
  rcases m with _ | _ | _ | _ | _ | _ | _ <;> first | rfl | cases hm

theorem Place.aside (h : Place participants log sequence current calledNow) (hm : Mark.IsAside m)
    (harmed : ∀ phase deadline, m = .armed phase deadline → phase ∈ begunIn log) :
    Place participants (m :: log) sequence current calledNow where
  phases := h.phases
  begun := by rw [begunIn_aside hm, h.begun]
  ended := by rw [endedIn_aside hm, h.ended]
  called := by rw [calledIn_aside hm, h.called]
  faithful := fun report hreport => (h.faithful report hreport).cons m
  armed := by
    intro phase deadline hmem
    rw [begunIn_aside hm]
    rcases List.mem_cons.1 hmem with heq | hmem
    · exact harmed phase deadline heq.symm
    · exact h.armed phase deadline hmem

variable {rest : List ShutdownPhase}

theorem Place.not_armed (h : Place participants log sequence [] calledNow) (hrest : sequence.rest = phase :: rest) (deadline : ℕ) :
    .armed phase deadline ∉ log := by
  intro hmem
  have hbegun := h.armed phase deadline hmem
  have hnodup := nodup_shutdownPhases
  rw [← h.phases, hrest, List.append_nil] at hnodup
  rw [h.begun, List.append_nil] at hbegun
  exact List.disjoint_of_nodup_append hnodup hbegun List.mem_cons_self

theorem Place.began (h : Place participants log sequence [] []) (hrest : sequence.rest = phase :: rest) (instant : ℕ) :
    Place participants (.began phase instant :: log) { sequence with rest } [phase] [] where
  phases := by
    rw [← h.phases, hrest, List.append_nil, List.append_assoc]
    rfl
  begun := by
    rw [begunIn, h.begun, List.append_nil]
  ended := h.ended
  called := h.called
  faithful := fun report hreport => (h.faithful report hreport).cons _
  armed := by
    intro q deadline hmem
    rcases List.mem_cons.1 hmem with heq | hmem
    · cases heq
    · exact List.mem_append_left _ (h.armed q deadline hmem)

theorem Place.justified_began (h : Place participants log sequence [] []) (hrest : sequence.rest = phase :: rest) (instant : ℕ) :
    Justified log (.began phase instant) := by
  refine ⟨⟨rest, ?_⟩, fun _ hq => ?_⟩
  · rw [h.begun, ← h.phases, hrest, List.append_nil, List.append_assoc]
    rfl
  · rw [h.begun, List.append_nil] at hq
    rw [h.ended]
    exact hq

theorem Place.not_ended
    (h : Place participants log sequence [phase] calledNow) : phase ∉ endedIn log := by
  intro hmem
  have hnodup := nodup_shutdownPhases
  rw [← h.phases, List.append_assoc] at hnodup
  rw [h.ended] at hmem
  exact List.disjoint_of_nodup_append hnodup hmem List.mem_cons_self

theorem Place.mem_begunIn
    (h : Place participants log sequence [phase] calledNow) : phase ∈ begunIn log := by
  rw [h.begun]
  exact List.mem_append_right _ List.mem_cons_self

/-- A participant of the current phase was called if it is among those called now. -/
theorem Place.mem_calledIn
    (h : Place participants log sequence [phase] calledNow) (hp : p.phase = phase) :
    p ∈ calledIn log ↔ p ∈ calledNow := by
  rw [h.called, List.mem_append, or_iff_right]
  rw [List.mem_flatMap]
  rintro ⟨q, hq, hpq⟩
  rw [← h.ended, ← (mem_ofPhase.1 hpq).2, hp] at hq
  exact h.not_ended hq

theorem Place.call (h : Place participants log sequence [phase] calledNow) :
    Place participants (.called p :: log) sequence [phase] (calledNow ++ [p]) where
  phases := h.phases
  begun := h.begun
  ended := h.ended
  called := by rw [calledIn, h.called, List.append_assoc]
  faithful := fun report hreport => (h.faithful report hreport).cons _
  armed := by
    intro q deadline hmem
    rcases List.mem_cons.1 hmem with heq | hmem
    · cases heq
    · exact h.armed q deadline hmem

theorem Place.end (report : PhaseReport) {deadline : ℕ}
    (h : Place participants log sequence [phase] (ofPhase participants phase))
    (hphase : report.phase = phase)
    (hreports : report.participants = (ofPhase participants phase).map (observed log)) :
    Place participants (.ended phase deadline report.endedAt :: log)
      { sequence with phases := sequence.phases ++ [report] } [] [] where
  phases := by rw [List.map_append, List.map_singleton, hphase, List.append_nil, h.phases]
  begun := by
    show begunIn log = _
    rw [h.begun, List.map_append, List.map_singleton, hphase, List.append_nil]
  ended := by rw [endedIn, h.ended, List.map_append, List.map_singleton, hphase]
  called := by
    show calledIn log = _
    rw [h.called, List.map_append, List.map_singleton, hphase, List.flatMap_append,
      List.append_nil, List.flatMap_singleton]
  faithful := by
    intro other hother
    rcases List.mem_append.1 hother with hother | hother
    · exact (h.faithful other hother).cons _
    · rw [List.mem_singleton.1 hother]
      refine ⟨[], log, deadline, ?_, ?_⟩
      · rw [hphase]
        rfl
      · rw [hphase]
        exact hreports
  armed := by
    intro q d hmem
    rcases List.mem_cons.1 hmem with heq | hmem
    · cases heq
    · exact h.armed q d hmem

end Falryn.Runtime.ShutdownCoordinator
