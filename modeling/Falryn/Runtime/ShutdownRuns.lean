import Falryn.Runtime.ShutdownLog

/-!
# Runs of the shutdown coordinator

What every event keeps, unless it is a participant that throws when it is called: the log is lawful,
the local variables of `runPhase` are what the log says, and the deadline of a phase is no later than
the grace of the level after the phase began or the level rose, whichever was last.
-/

namespace Falryn.Runtime.ShutdownCoordinator

open Orchestration StateMachine

/-! ## The invariant -/

/-- What holds in every stage. -/
structure Base (c : ShutdownCoordinator) : Prop where
  lawful : Lawful c.log
  registered : registeredIn c.log = c.participants
  nodup : c.participants.Nodup
  sound : ∀ tree, c.scopeTree = some tree → ScopeTree.Sound tree
  pending : ∀ p, p ∈ c.pending ↔ p ∈ calledIn c.log ∧ settlementIn p c.log = none
  raised : lastRaised c.log ≤ c.clock

/-- What holds while a phase runs and the participants in `todo` are still to be called. -/
structure InPhase (c : ShutdownCoordinator) (sequence : Sequence) (run : PhaseRun)
    (todo : List ShutdownParticipant) : Prop where
  place : ∃ done, Place c.participants c.log sequence [run.phase] done ∧
    ofPhase c.participants run.phase = done ++ todo
  phaseParticipants : run.phaseParticipants = ofPhase c.participants run.phase
  reports : ∀ p ∈ run.phaseParticipants,
    run.reports.get p.name = (settlementIn p c.log).map (settledReport p)
  outstanding : run.outstanding =
    run.phaseParticipants.countP fun p => (settlementIn p c.log).isNone
  armed : ∀ deadline, .armed run.phase deadline ∈ c.log → run.deadline ≤ deadline
  began : .began run.phase run.startedAt ∈ c.log

/-- The deadline that is in force is at most the grace of the level after the phase began or the level
last rose; if the level has just risen, no time has passed since. -/
def Punctual (c : ShutdownCoordinator) : Prop :=
  match c.stage with
  | .waiting _ run false =>
    .began run.phase run.startedAt ∈ c.log ∧
      run.deadline ≤ max run.startedAt (lastRaised c.log) + graceForLevel c.currentLevel
  | .waiting _ _ true => c.clock = lastRaised c.log
  | _ => True

/-- What holds of the finished shutdown. -/
structure Complete (c : ShutdownCoordinator) (report : ShutdownReport) : Prop where
  /-- The phases ran, each once and in order. -/
  begun : begunIn c.log = shutdownPhases
  ended : endedIn c.log = shutdownPhases
  phases : report.phases.map PhaseReport.phase = shutdownPhases
  /-- Every participant was called once, and nobody else was. -/
  called : (calledIn c.log).Perm c.participants
  /-- Every participant has one status, which says what was seen of it when its phase ended. -/
  faithful : ∀ phaseReport ∈ report.phases, Faithful c.participants c.log phaseReport
  uncertain : report.outcome = .uncertain ↔
    ∃ phaseReport ∈ report.phases, ∃ participant ∈ phaseReport.participants,
      participant.status = .timedOut
  failed : (∃ effect, report.outcome = .failed effect) ↔
    (∀ phaseReport ∈ report.phases, ∀ participant ∈ phaseReport.participants,
      participant.status ≠ .timedOut) ∧
    ∃ phaseReport ∈ report.phases, ∃ participant ∈ phaseReport.participants,
      participant.status = .failed
  /-- No scope is left that has not settled. -/
  settled : ∀ tree, c.scopeTree = some tree → ScopeTree.AllTerminal tree

/-- What holds in each stage. -/
def AtStage (c : ShutdownCoordinator) : Stage → Prop
  | .idle => begunIn c.log = [] ∧ endedIn c.log = [] ∧ calledIn c.log = [] ∧
      ∀ phase deadline, .armed phase deadline ∉ c.log
  | .calling sequence run todo => InPhase c sequence run todo ∧
      c.clock = run.startedAt ∧ todo ≠ []
  | .waiting sequence run rearmed => InPhase c sequence run [] ∧
      (rearmed = false →
        run.deadline ≤ max run.startedAt (lastRaised c.log) + graceForLevel c.currentLevel) ∧
      (rearmed = true → c.clock = lastRaised c.log)
  | .between sequence => Place c.participants c.log sequence [] []
  | .finished report => Complete c report
  | .rejected _ => False

/-- The invariant of a run in which no participant throws when it is called. -/
structure Orderly (c : ShutdownCoordinator) : Prop where
  base : Base c
  atStage : AtStage c c.stage

variable {c c' : ShutdownCoordinator} {sequence : Sequence} {run : PhaseRun}
  {todo : List ShutdownParticipant} {m : Mark} {unfinished : List String}
  {failures : List ParticipantReport}

theorem Orderly.punctual (h : Orderly c) : Punctual c := by
  have hstage := h.atStage
  rw [Punctual]
  rcases hs : c.stage with _ | _ | ⟨sequence, run, _ | _⟩ | _ | _ | _
  all_goals rw [hs] at hstage
  case waiting.false => exact ⟨hstage.1.began, hstage.2.1 rfl⟩
  case waiting.true => exact hstage.2.2 rfl
  all_goals exact trivial

/-! ## The end of a phase -/

theorem InPhase.participantReports (h : InPhase c sequence run todo) :
    participantReports run = (ofPhase c.participants run.phase).map (observed c.log) := by
  rw [ShutdownCoordinator.participantReports, ← h.phaseParticipants]
  refine List.map_congr_left fun p hp => ?_
  rw [h.reports p hp, observed]

theorem InPhase.settled (h : InPhase c sequence run todo) (hnone : run.outstanding = 0) :
    ∀ p ∈ c.participants, p.phase = run.phase → ∃ s, .settled p s ∈ c.log := by
  intro p hp hphase
  rw [h.outstanding, List.countP_eq_zero] at hnone
  have hsome := hnone p (by rw [h.phaseParticipants]; exact mem_ofPhase.2 ⟨hp, hphase⟩)
  rw [← settlementIn_isSome]
  simpa [Option.isSome_iff_ne_none] using hsome

theorem InPhase.justified_ended (hbase : Base c) (h : InPhase c sequence run [])
    (hend : run.deadline ≤ c.clock ∨ run.outstanding = 0) :
    Justified c.log (.ended run.phase run.deadline c.clock) := by
  obtain ⟨done, hplace, -⟩ := h.place
  refine ⟨hplace.mem_begunIn, hplace.not_ended, h.armed, ?_⟩
  rcases hend with hend | hend
  · exact .inl hend
  · rw [hbase.registered]
    exact .inr (h.settled hend)

theorem orderly_endPhase (hbase : Base c) (h : InPhase c sequence run [])
    (hend : run.deadline ≤ c.clock ∨ run.outstanding = 0) (timedOut : Bool) :
    Orderly (c.endPhase sequence run timedOut) := by
  obtain ⟨done, hplace, hdone⟩ := h.place
  rw [List.append_nil] at hdone
  refine ⟨⟨⟨h.justified_ended hbase hend, hbase.lawful⟩, hbase.registered, hbase.nodup,
    hbase.sound, hbase.pending, hbase.raised⟩, ?_⟩
  rw [← hdone] at hplace
  exact hplace.end (c.phaseReport run timedOut) rfl h.participantReports

/-! ## The head of the loop -/

theorem InPhase.aside (h : InPhase c sequence run todo) {deadline : ℕ} (hparticipants : c'.participants = c.participants)
    (hlog : c'.log = m :: c.log) (hm : Mark.IsAside m)
    (hsettled : ∀ p, settlementIn p (m :: c.log) = settlementIn p c.log)
    (hdeadline : deadline ≤ run.deadline)
    (harmed : ∀ phase d, m = .armed phase d → phase = run.phase ∧ deadline ≤ d) :
    InPhase c' sequence { run with deadline } todo := by
  obtain ⟨done, hplace, hdone⟩ := h.place
  refine ⟨⟨done, ?_, ?_⟩, ?_, ?_, ?_, ?_, ?_⟩
  · rw [hparticipants, hlog]
    refine hplace.aside hm fun phase d heq => ?_
    rw [(harmed phase d heq).1]
    exact hplace.mem_begunIn
  · rw [hparticipants]
    exact hdone
  · rw [hparticipants]
    exact h.phaseParticipants
  · intro p hp
    rw [hlog, hsettled]
    exact h.reports p hp
  · simp only [hlog, hsettled]
    exact h.outstanding
  · intro d hd
    rw [hlog] at hd
    rcases List.mem_cons.1 hd with heq | hd
    · exact (harmed _ d heq.symm).2
    · exact hdeadline.trans (h.armed d hd)
  · rw [hlog]
    exact List.mem_cons_of_mem _ h.began

theorem orderly_loopHead (hbase : Base c) (h : InPhase c sequence run [])
    (hclock : c.clock ≤ max run.startedAt (lastRaised c.log)) :
    Orderly (c.loopHead sequence run) := by
  rw [loopHead]
  split
  next =>
    dsimp only
    generalize hd : (if c.clock + graceForLevel c.currentLevel < run.deadline then
      c.clock + graceForLevel c.currentLevel else run.deadline) = deadline
    have hle : deadline ≤ run.deadline ∧ deadline ≤ c.clock + graceForLevel c.currentLevel := by
      rw [← hd]
      split <;> omega
    refine ⟨⟨⟨fun earlier hearlier => hle.1.trans (h.armed earlier hearlier), hbase.lawful⟩,
      hbase.registered, hbase.nodup, hbase.sound, hbase.pending, hbase.raised⟩, ?_, ?_, ?_⟩
    · refine h.aside rfl rfl trivial (fun _ => rfl) hle.1 ?_
      rintro phase d heq
      cases heq
      exact ⟨rfl, le_rfl⟩
    · intro _
      exact hle.2.trans (Nat.add_le_add_right hclock _)
    · exact fun hfalse => (by cases hfalse)
  next hnone => exact orderly_endPhase hbase h (.inr (Nat.eq_zero_of_not_pos hnone)) false

/-! ## Calling the participants -/

theorem orderly_callNext (hbase : Base c) (h : InPhase c sequence run todo)
    (hclock : c.clock = run.startedAt) : Orderly (c.callNext sequence run todo) := by
  rcases todo with _ | ⟨p, todo⟩
  · exact orderly_loopHead hbase h (by rw [hclock]; exact le_max_left _ _)
  · refine ⟨⟨hbase.lawful, hbase.registered, hbase.nodup, hbase.sound, hbase.pending,
      hbase.raised⟩, ?_, hclock, List.cons_ne_nil _ _⟩
    exact ⟨h.place, h.phaseParticipants, h.reports, h.outstanding, h.armed, h.began⟩

theorem sound_builtIn (hbase : Base c) (phase : ShutdownPhase) :
    ∀ tree, c.builtIn phase = some tree → ScopeTree.Sound tree := by
  intro tree htree
  rw [builtIn] at htree
  split at htree
  · obtain ⟨before, hbefore, rfl⟩ := Option.map_eq_some_iff.1 htree
    exact (hbase.sound before hbefore).apply _
  · exact hbase.sound tree htree

theorem orderly_beginPhase (hbase : Base c) (h : Place c.participants c.log sequence [] [])
    {phase : ShutdownPhase} {rest : List ShutdownPhase} (hrest : sequence.rest = phase :: rest) :
    Orderly (c.beginPhase { sequence with rest } phase) := by
  have hfresh : ∀ p ∈ ofPhase c.participants phase, settlementIn p c.log = none := by
    intro p hp
    rw [← Option.not_isSome_iff_eq_none, settlementIn_isSome]
    rintro ⟨s, hs⟩
    have hcalled := hbase.lawful.mem_calledIn hs
    rw [h.called, List.append_nil, List.mem_flatMap] at hcalled
    obtain ⟨q, hq, hpq⟩ := hcalled
    have hnodup := nodup_shutdownPhases
    rw [← h.phases, hrest, List.append_nil] at hnodup
    refine List.disjoint_of_nodup_append hnodup hq ?_
    rw [← (mem_ofPhase.1 hpq).2, (mem_ofPhase.1 hp).2]
    exact List.mem_cons_self
  refine orderly_callNext ⟨⟨h.justified_began hrest c.clock, hbase.lawful⟩, hbase.registered,
    hbase.nodup, sound_builtIn hbase phase, hbase.pending, hbase.raised⟩
    ⟨⟨[], h.began hrest c.clock, rfl⟩, rfl, ?_, ?_, ?_, List.mem_cons_self⟩ rfl
  · intro p hp
    have hnone : settlementIn p (.began phase c.clock :: c.log) = none := hfresh p hp
    show OrderedMap.empty.get p.name = _
    rw [hnone]
    rfl
  · refine (List.countP_eq_length.2 fun p hp => ?_).symm
    have hnone : settlementIn p (.began phase c.clock :: c.log) = none := hfresh p hp
    show (settlementIn p (.began phase c.clock :: c.log)).isNone = true
    rw [hnone]
    rfl
  · intro deadline hmem
    rcases List.mem_cons.1 hmem with heq | hmem
    · cases heq
    · exact absurd hmem (h.not_armed hrest deadline)

/-! ## The end of the sequence -/

/-- Calling the participants of one phase after the other calls each of them once. -/
theorem perm_flatMap_ofPhase (participants : List ShutdownParticipant)
    (hnodup : participants.Nodup) :
    (shutdownPhases.flatMap (ofPhase participants)).Perm participants := by
  rw [List.perm_ext_iff_of_nodup _ hnodup]
  · intro p
    rw [List.mem_flatMap]
    refine ⟨fun ⟨q, _, hp⟩ => (mem_ofPhase.1 hp).1, fun hp => ?_⟩
    exact ⟨p.phase, mem_shutdownPhases _, mem_ofPhase.2 ⟨hp, rfl⟩⟩
  · refine List.nodup_flatMap.2 ⟨fun q _ => hnodup.filter _, ?_⟩
    refine nodup_shutdownPhases.imp fun {q q'} hne => ?_
    intro p hp hp'
    exact hne ((mem_ofPhase.1 hp).2.symm.trans (mem_ofPhase.1 hp').2)

theorem shutdownOutcome_eq_uncertain :
    shutdownOutcome unfinished failures = .uncertain ↔ unfinished ≠ [] := by
  rw [shutdownOutcome, ← List.length_pos_iff]
  split
  next h => simp [h]
  next h => split <;> simp [h]

theorem shutdownOutcome_eq_failed :
    (∃ effect, shutdownOutcome unfinished failures = .failed effect) ↔
      unfinished = [] ∧ failures ≠ [] := by
  rw [shutdownOutcome, ← List.length_pos_iff, ← List.length_eq_zero_iff]
  split
  next h => simp [h.ne']
  next h =>
    rw [Nat.eq_zero_of_not_pos h]
    split
    next h' => simp [h']
    next h' => simp [h']

theorem orderly_finish (hbase : Base c) (h : Place c.participants c.log sequence [] [])
    (hrest : sequence.rest = []) : Orderly (c.finish sequence) := by
  have hphases := h.phases
  rw [hrest, List.append_nil, List.append_nil] at hphases
  refine ⟨⟨hbase.lawful, hbase.registered, hbase.nodup, ?_, hbase.pending, hbase.raised⟩,
    ?_, ?_, hphases, ?_, h.faithful, ?_, ?_, ?_⟩
  · intro tree htree
    obtain ⟨before, hbefore, rfl⟩ := Option.map_eq_some_iff.1 htree
    exact (hbase.sound before hbefore).apply _
  · rw [← hphases]
    show begunIn c.log = _
    rw [h.begun, List.append_nil]
  · rw [← hphases]
    exact h.ended
  · show (calledIn c.log).Perm c.participants
    rw [h.called, hphases, List.append_nil]
    exact perm_flatMap_ofPhase _ hbase.nodup
  · show shutdownOutcome _ _ = .uncertain ↔ _
    rw [shutdownOutcome_eq_uncertain]
    simp only [ne_eq, List.map_eq_nil_iff, List.filter_eq_nil_iff, List.mem_flatMap]
    grind
  · show (∃ effect, shutdownOutcome _ _ = .failed effect) ↔ _
    rw [shutdownOutcome_eq_failed]
    simp only [ne_eq, List.map_eq_nil_iff, List.filter_eq_nil_iff, List.mem_flatMap]
    grind
  · intro tree htree
    obtain ⟨before, hbefore, rfl⟩ := Option.map_eq_some_iff.1 htree
    exact ScopeTree.allTerminal_forceSettleUnacknowledged (hbase.sound before hbefore) c.clock

theorem orderly_nextPhase (hbase : Base c) (h : Place c.participants c.log sequence [] []) :
    Orderly (c.nextPhase sequence) := by
  rw [nextPhase]
  split
  next hrest => exact orderly_finish hbase h hrest
  next hrest => exact orderly_beginPhase hbase h hrest

/-! ## Escalation -/

theorem Complete.aside {report : ShutdownReport} (h : Complete c report)
    (hparticipants : c'.participants = c.participants) (hlog : c'.log = m :: c.log)
    (hm : Mark.IsAside m) (htree : c'.scopeTree = c.scopeTree) : Complete c' report where
  begun := by rw [hlog, begunIn_aside hm, h.begun]
  ended := by rw [hlog, endedIn_aside hm, h.ended]
  phases := h.phases
  called := by
    rw [hlog, calledIn_aside hm, hparticipants]
    exact h.called
  faithful := by
    intro phaseReport hmem
    rw [hlog, hparticipants]
    exact (h.faithful phaseReport hmem).cons m
  uncertain := h.uncertain
  failed := h.failed
  settled := by
    rw [htree]
    exact h.settled

theorem orderly_raiseLevel (h : Orderly c) (level : ShutdownLevel) :
    Orderly (c.raiseLevel level) := by
  obtain ⟨hbase, hstage⟩ := h
  rw [raiseLevel]
  split
  · exact ⟨hbase, hstage⟩
  · refine ⟨⟨⟨trivial, hbase.lawful⟩, hbase.registered, hbase.nodup, hbase.sound, hbase.pending,
      le_rfl⟩, ?_⟩
    rcases hs : c.stage with _ | ⟨sequence, run, todo⟩ | ⟨sequence, run, rearmed⟩ | sequence |
      report | error
    all_goals rw [hs] at hstage
    case idle =>
      obtain ⟨hbegun, hended, hcalled, harmed⟩ := hstage
      refine ⟨hbegun, hended, hcalled, fun phase d hmem => ?_⟩
      rcases List.mem_cons.1 hmem with heq | hmem
      · cases heq
      · exact harmed phase d hmem
    case calling =>
      refine ⟨?_, hstage.2⟩
      exact hstage.1.aside rfl rfl trivial (fun _ => rfl) le_rfl fun _ _ heq => (by cases heq)
    case waiting =>
      refine ⟨?_, fun hfalse => (by cases hfalse), fun _ => rfl⟩
      exact hstage.1.aside rfl rfl trivial (fun _ => rfl) le_rfl fun _ _ heq => (by cases heq)
    case between =>
      exact Place.aside hstage trivial fun _ _ heq => (by cases heq)
    case finished => exact Complete.aside hstage rfl rfl trivial rfl
    case rejected => cases hstage

/-! ## What participants do -/

theorem orderly_returns (h : Orderly c) (hstep : c.returns = some c') : Orderly c' := by
  obtain ⟨hbase, hstage⟩ := h
  rw [returns] at hstep
  split at hstep
  next run p _ hs =>
    cases hstep
    rw [hs] at hstage
    obtain ⟨hphase, hclock, -⟩ := hstage
    obtain ⟨done, hplace, hdone⟩ := hphase.place
    have hp : p ∈ ofPhase c.participants run.phase := by
      rw [hdone]
      exact List.mem_append_right _ List.mem_cons_self
    obtain ⟨hmem, hpphase⟩ := mem_ofPhase.1 hp
    have hnew : p ∉ calledIn c.log := by
      rw [hplace.mem_calledIn hpphase]
      have hnodup : (ofPhase c.participants run.phase).Nodup := hbase.nodup.filter _
      rw [hdone] at hnodup
      exact fun hdone => List.disjoint_of_nodup_append hnodup hdone List.mem_cons_self
    have hunsettled : settlementIn p c.log = none := by
      rw [← Option.not_isSome_iff_eq_none, settlementIn_isSome]
      exact fun ⟨s, hs⟩ => hnew (hbase.lawful.mem_calledIn hs)
    refine orderly_callNext ⟨⟨⟨?_, hnew, ?_, ?_⟩, hbase.lawful⟩, hbase.registered, hbase.nodup,
      hbase.sound, ?_, hbase.raised⟩ ⟨⟨done ++ [p], hplace.call, ?_⟩, hphase.phaseParticipants,
      hphase.reports, hphase.outstanding, ?_, List.mem_cons_of_mem _ hphase.began⟩ hclock
    · rw [hbase.registered]
      exact hmem
    · rw [hplace.begun, List.getLast?_append_of_ne_nil _ (List.cons_ne_nil _ _), hpphase]
      rfl
    · rw [hpphase]
      exact hplace.not_ended
    · intro q
      show q ∈ p :: c.pending ↔ q ∈ calledIn c.log ++ [p] ∧ settlementIn q c.log = none
      rw [List.mem_cons, List.mem_append, List.mem_singleton, hbase.pending q, or_comm, or_and_right]
      refine or_congr Iff.rfl ⟨fun heq => ⟨heq, ?_⟩, And.left⟩
      rw [heq]
      exact hunsettled
    · rw [List.append_assoc]
      exact hdone
    · intro d hd
      rcases List.mem_cons.1 hd with heq | hd
      · cases heq
      · exact hphase.armed d hd
  · cases hstep

theorem settlementIn_settled (p q : ShutdownParticipant) (s : ParticipantSettlement) (log : List Mark) :
    settlementIn q (.settled p s :: log) =
      if p = q then some s else settlementIn q log := rfl

variable {p : ShutdownParticipant}

/-- The handler writes the report of its participant and counts it off. -/
theorem InPhase.handled (hbase : Base c) (h : InPhase c sequence run []) (hp : p ∈ c.pending) (hphase : p.phase = run.phase) (s : ParticipantSettlement)
    (hparticipants : c'.participants = c.participants) (hlog : c'.log = .settled p s :: c.log) :
    InPhase c' sequence
      { run with
        reports := run.reports.set p.name (settledReport p s)
        outstanding := run.outstanding - 1 } [] := by
  obtain ⟨done, hplace, hdone⟩ := h.place
  obtain ⟨hcalled, hunsettled⟩ := (hbase.pending p).1 hp
  have hmem : p ∈ run.phaseParticipants := by
    rw [h.phaseParticipants, hdone, List.append_nil]
    exact (hplace.mem_calledIn hphase).1 hcalled
  have hnodup : run.phaseParticipants.Nodup := by
    rw [h.phaseParticipants]
    exact hbase.nodup.filter _
  refine ⟨⟨done, ?_, ?_⟩, ?_, ?_, ?_, ?_, ?_⟩
  · rw [hparticipants, hlog]
    exact hplace.aside trivial fun _ _ heq => (by cases heq)
  · rw [hparticipants]
    exact hdone
  · rw [hparticipants]
    exact h.phaseParticipants
  · intro q hq
    rw [hlog, settlementIn_settled, OrderedMap.get_set]
    by_cases heq : p = q
    · rw [if_pos heq, if_pos (by rw [heq]), heq]
      rfl
    · have hqphase : q.phase = run.phase := by
        rw [h.phaseParticipants] at hq
        exact (mem_ofPhase.1 hq).2
      have hname : q.name ≠ p.name := by
        intro hname
        obtain ⟨pname, pphase⟩ := p
        obtain ⟨qname, qphase⟩ := q
        cases hname
        cases hqphase.trans hphase.symm
        exact heq rfl
      rw [if_neg heq, if_neg hname]
      exact h.reports q hq
  · -- one participant fewer has not settled
    show run.outstanding - 1 = _
    rw [h.outstanding, hlog]
    obtain ⟨before, after, hsplit⟩ := List.append_of_mem hmem
    show _ = run.phaseParticipants.countP _
    rw [hsplit] at hnodup ⊢
    have hne : ∀ q ∈ before ++ after, p ≠ q := by
      rw [List.nodup_middle, List.nodup_cons] at hnodup
      exact fun q hq heq => hnodup.1 (heq ▸ hq)
    have hcount : ∀ l : List ShutdownParticipant, (∀ q ∈ l, p ≠ q) →
        (l.countP fun q => (settlementIn q (.settled p s :: c.log)).isNone) =
          l.countP fun q => (settlementIn q c.log).isNone := by
      intro l hl
      refine List.countP_congr fun q hq => ?_
      rw [settlementIn_settled, if_neg (hl q hq)]
    rw [List.countP_append, List.countP_append, List.countP_cons, List.countP_cons,
      hcount before fun q hq => hne q (List.mem_append_left _ hq),
      hcount after fun q hq => hne q (List.mem_append_right _ hq),
      settlementIn_settled, if_pos rfl, hunsettled]
    rfl
  · intro d hd
    rw [hlog] at hd
    rcases List.mem_cons.1 hd with heq | hd
    · cases heq
    · exact h.armed d hd
  · rw [hlog]
    exact List.mem_cons_of_mem _ h.began

theorem orderly_settles (h : Orderly c) {s : ParticipantSettlement}
    (hstep : c.settles p s = some c') : Orderly c' := by
  obtain ⟨hbase, hstage⟩ := h
  have hnext : (∀ sequence run todo, c.stage ≠ .calling sequence run todo) ∧ p ∈ c.pending ∧
      c' = { c with
        stage := handle p s c.stage
        pending := c.pending.filter fun other => other ≠ p
        log := .settled p s :: c.log } := by
    rw [settles] at hstep
    split at hstep
    · cases hstep
    next hcalling =>
      split at hstep
      next hp =>
        cases hstep
        exact ⟨hcalling, hp, rfl⟩
      · cases hstep
  obtain ⟨hcalling, hp, rfl⟩ := hnext
  obtain ⟨hcalled, hunsettled⟩ := (hbase.pending p).1 hp
  refine ⟨⟨⟨⟨hcalled, fun s' hs' => ?_⟩, hbase.lawful⟩, hbase.registered, hbase.nodup, hbase.sound,
    ?_, hbase.raised⟩, ?_⟩
  · have hsome := settlementIn_isSome.2 ⟨s', hs'⟩
    rw [hunsettled] at hsome
    cases hsome
  · intro q
    show q ∈ c.pending.filter _ ↔ q ∈ calledIn c.log ∧ settlementIn q (.settled p s :: c.log) = none
    rw [List.mem_filter, hbase.pending q, settlementIn_settled]
    by_cases heq : p = q
    · simp [heq]
    · simp [heq, Ne.symm heq]
  · rcases hs : c.stage with _ | ⟨sequence, run, todo⟩ | ⟨sequence, run, rearmed⟩ | sequence |
      report | error
    all_goals rw [hs] at hstage
    case idle =>
      rw [hstage.2.2.1] at hcalled
      cases hcalled
    case calling => exact absurd hs (hcalling _ _ _)
    case waiting =>
      obtain ⟨hphase, hearly, hrearmed⟩ := hstage
      rw [handle]
      split
      next heq => exact ⟨hphase.handled hbase hp heq s rfl rfl, hearly, hrearmed⟩
      next hne =>
        obtain ⟨done, hplace, hdone⟩ := hphase.place
        have hother : ∀ q ∈ run.phaseParticipants,
            settlementIn q (.settled p s :: c.log) = settlementIn q c.log := by
          intro q hq
          rw [hphase.phaseParticipants] at hq
          rw [settlementIn_settled, if_neg]
          rintro rfl
          exact hne (mem_ofPhase.1 hq).2
        refine ⟨⟨⟨done, hplace.aside trivial fun _ _ heq => (by cases heq), hdone⟩,
          hphase.phaseParticipants, ?_, ?_, ?_, List.mem_cons_of_mem _ hphase.began⟩, hearly,
          hrearmed⟩
        · intro q hq
          rw [hother q hq]
          exact hphase.reports q hq
        · rw [hphase.outstanding]
          refine List.countP_congr fun q hq => ?_
          rw [hother q hq]
        · intro d hd
          rcases List.mem_cons.1 hd with heq | hd
          · cases heq
          · exact hphase.armed d hd
    case between => exact Place.aside hstage trivial fun _ _ heq => (by cases heq)
    case finished => exact Complete.aside hstage rfl rfl trivial rfl
    case rejected => cases hstage

/-! ## Every event -/

theorem orderly_wakes (h : Orderly c) {waited : Waited} (hstep : c.wakes waited = some c') :
    Orderly c' := by
  obtain ⟨hbase, hstage⟩ := h
  unfold wakes at hstep
  split at hstep
  next sequence run rearmed hs =>
    rw [hs] at hstage
    split at hstep
    next hnone =>
      cases hstep
      exact orderly_endPhase hbase hstage.1 (.inr hnone) false
    · cases hstep
  next sequence run rearmed hs =>
    rw [hs] at hstage
    split at hstep
    next hexpired =>
      cases hstep
      exact orderly_endPhase hbase hstage.1 (.inl hexpired) true
    · cases hstep
  next sequence run hs =>
    rw [hs] at hstage
    cases hstep
    refine orderly_loopHead hbase hstage.1 ?_
    rw [hstage.2.2 rfl]
    exact le_max_right _ _
  · cases hstep

theorem orderly_register (h : Orderly c) (hok : c.register p = .ok c') : Orderly c' := by
  obtain ⟨hbase, hstage⟩ := h
  rw [register] at hok
  split at hok
  · cases hok
  next hidle =>
    split at hok
    · cases hok
    · split at hok
      · cases hok
      next hclash =>
        cases hok
        have hs : c.stage = .idle := by
          rw [isShuttingDown] at hidle
          split at hidle
          next hs => exact hs
          · exact absurd rfl hidle
        rw [hs] at hstage
        obtain ⟨hbegun, hended, hcalled, harmed⟩ := hstage
        have hnew : p ∉ c.participants := by
          intro hmem
          refine hclash (List.any_eq_true.2 ⟨p, hmem, ?_⟩)
          simp
        refine ⟨⟨⟨⟨hbegun, ?_⟩, hbase.lawful⟩, ?_, ?_, hbase.sound, hbase.pending, hbase.raised⟩, ?_⟩
        · rw [hbase.registered]
          exact hnew
        · rw [registeredIn, hbase.registered]
        · exact hbase.nodup.append (List.nodup_singleton p) (List.disjoint_singleton.2 hnew)
        · rw [hs]
          refine ⟨hbegun, hended, hcalled, fun phase d hmem => ?_⟩
          rcases List.mem_cons.1 hmem with heq | hmem
          · cases heq
          · exact harmed phase d hmem

theorem orderly_scope (h : Orderly c) (operation : ScopeTree.Operation) :
    Orderly { c with scopeTree := c.scopeTree.map fun tree => tree.apply operation } := by
  obtain ⟨hbase, hstage⟩ := h
  refine ⟨⟨hbase.lawful, hbase.registered, hbase.nodup, ?_, hbase.pending, hbase.raised⟩, ?_⟩
  · intro tree htree
    obtain ⟨before, hbefore, rfl⟩ := Option.map_eq_some_iff.1 htree
    exact (hbase.sound before hbefore).apply operation
  · rcases hs : c.stage with _ | ⟨sequence, run, todo⟩ | ⟨sequence, run, rearmed⟩ | sequence |
      report | error
    all_goals rw [hs] at hstage
    case finished =>
      refine ⟨hstage.begun, hstage.ended, hstage.phases, hstage.called, hstage.faithful,
        hstage.uncertain, hstage.failed, fun tree htree => ?_⟩
      obtain ⟨before, hbefore, rfl⟩ := Option.map_eq_some_iff.1 htree
      exact ((hstage.settled before hbefore).apply (hbase.sound before hbefore) operation).1
    case calling =>
      exact ⟨⟨hstage.1.place, hstage.1.phaseParticipants, hstage.1.reports, hstage.1.outstanding,
        hstage.1.armed, hstage.1.began⟩, hstage.2⟩
    case waiting =>
      exact ⟨⟨hstage.1.place, hstage.1.phaseParticipants, hstage.1.reports, hstage.1.outstanding,
        hstage.1.armed, hstage.1.began⟩, hstage.2⟩
    all_goals exact hstage

theorem orderly_tick (h : Orderly c) (hparked : c.IsParked) (span : ℕ) :
    Orderly { c with clock := c.clock + span } := by
  obtain ⟨hbase, hstage⟩ := h
  refine ⟨⟨hbase.lawful, hbase.registered, hbase.nodup, hbase.sound, hbase.pending,
    hbase.raised.trans (Nat.le_add_right _ _)⟩, ?_⟩
  rw [IsParked] at hparked
  rcases hs : c.stage with _ | ⟨sequence, run, todo⟩ | ⟨sequence, run, rearmed⟩ | sequence |
    report | error
  all_goals rw [hs] at hstage hparked
  case waiting =>
    refine ⟨⟨hstage.1.place, hstage.1.phaseParticipants, hstage.1.reports, hstage.1.outstanding,
      hstage.1.armed, hstage.1.began⟩, hstage.2.1, fun htrue => ?_⟩
    rw [hparked.2] at htrue
    cases htrue
  case finished =>
    exact ⟨hstage.begun, hstage.ended, hstage.phases, hstage.called, hstage.faithful,
      hstage.uncertain, hstage.failed, hstage.settled⟩
  case idle => exact hstage
  case rejected => cases hstage
  all_goals cases hparked

theorem orderly_run (h : Orderly c) (hs : c.stage = .idle) (level : ShutdownLevel) :
    Orderly (c.run level) := by
  have hraised := orderly_raiseLevel h level
  have hidle : (c.raiseLevel level).stage = .idle := by
    rw [raiseLevel]
    split
    · exact hs
    · show rearm c.stage = .idle
      rw [hs]
      rfl
  obtain ⟨hbase, hstage⟩ := hraised
  rw [hidle] at hstage
  obtain ⟨hbegun, hended, hcalled, harmed⟩ := hstage
  have hplace : Place (c.raiseLevel level).participants (c.raiseLevel level).log
      ⟨(c.raiseLevel level).clock, [], shutdownPhases⟩ [] [] :=
    ⟨rfl, hbegun, hended, hcalled, fun _ hreport => (by cases hreport),
      fun phase d hmem => absurd hmem (harmed phase d)⟩
  exact orderly_nextPhase hbase hplace

/-- **One event.**  Everything that can happen keeps the coordinator orderly, except a participant that
throws when it is called. -/
theorem Orderly.step (h : Orderly c) {event : Event} (hthrows : ∀ error, event ≠ .throws error)
    (hstep : c.step event = some c') : Orderly c' := by
  rcases event with p | level | level | operation | span | _ | error | ⟨p, s⟩ | waited | _
  all_goals rw [ShutdownCoordinator.step] at hstep
  case register =>
    split at hstep
    next hok =>
      cases hstep
      exact orderly_register h hok
    · cases hstep
      exact h
  case shutdown =>
    rw [shutdown] at hstep
    split at hstep
    next hs =>
      cases hstep
      exact orderly_run h hs _
    · split at hstep
      · cases hstep
      · cases hstep
        exact h
    · cases hstep
      exact h
  case escalate =>
    cases hstep
    exact orderly_raiseLevel h level
  case scope =>
    cases hstep
    exact orderly_scope h operation
  case tick =>
    split at hstep
    next hparked =>
      cases hstep
      exact orderly_tick h hparked span
    · cases hstep
  case returns => exact orderly_returns h hstep
  case throws => exact absurd rfl (hthrows error)
  case settles => exact orderly_settles h hstep
  case wakes => exact orderly_wakes h hstep
  case resumes =>
    rw [resumes] at hstep
    split at hstep
    next hs =>
      cases hstep
      have hstage := h.atStage
      rw [hs] at hstage
      exact orderly_nextPhase h.base hstage
    · cases hstep

/-- The coordinator of a runtime, with a new scope tree or without one. -/
def start (clock : ℕ) (rootScopeId : ScopeId) (rootDeadline : Option Deadline) (withTree : Bool) :
    ShutdownCoordinator :=
  create clock rootScopeId
    (if withTree then some (ScopeTree.create rootScopeId rootDeadline clock) else none)

theorem orderly_start (clock : ℕ) (rootScopeId : ScopeId) (rootDeadline : Option Deadline)
    (withTree : Bool) : Orderly (start clock rootScopeId rootDeadline withTree) := by
  refine ⟨⟨trivial, rfl, List.nodup_nil, ?_, ?_, Nat.zero_le _⟩, rfl, rfl, rfl, ?_⟩
  · intro tree htree
    rcases withTree with _ | _
    · cases htree
    · cases htree
      exact ScopeTree.sound_create rootScopeId rootDeadline clock
  · exact fun _ => ⟨fun hp => (by cases hp), fun hp => (by cases hp.1)⟩
  · exact fun _ _ hmem => (by cases hmem)

end Falryn.Runtime.ShutdownCoordinator
