import Falryn.Orchestration.WorkflowState
import Falryn.Tools.ToolPipeline

/-!
# Sealing a task

What a supervisor makes of an execution that ended (`process-task-supervisor.ts`) and whether the task
accepts it.  A captured process, an agent and a workflow report in three ways: `terminalFacts` reads a
capture report, and an agent or a workflow brings its own outcome and effect.  These two are merged
without a look at each other, while `processTaskTerminalSchema` has two rules about the pair: what
completed has an effect that is known, and what is uncertain has an uncertain effect.
-/

namespace Falryn.Orchestration.Settlement

open Tools

/-! ## Capture reports -/

/-- The reasons of a capture that ended uncertain. -/
inductive UncertainCapture where
  | artifactIngestFailed
  | unconfirmedExit
  | ownershipUnavailable
  | ownedDescendantsRemained
  | ownerPersistenceFailed

inductive ProcessCaptureStop where
  | exited
  | timedOut
  | cancelled
  | captureExceeded
  | uncertain (reason : UncertainCapture)

/-- `PROCESS_KILL_STAGES`. -/
inductive ProcessKillStage where
  | none
  | terminate
  | kill
  | unconfirmed
  deriving DecidableEq

/-- What a supervisor reads of a `ProcessCaptureReport`. -/
structure ProcessCaptureReport where
  pid : Option ℕ
  stop : ProcessCaptureStop
  killStage : ProcessKillStage
  exitCode : Option ℤ
  signal : Option String
  /-- `stdout.omittedBytes`. -/
  stdoutOmitted : ℕ
  /-- `stderr.omittedBytes`. -/
  stderrOmitted : ℕ

/-- How a process ended, as the host's runtime tells it. -/
structure ProcessCaptureExit where
  exitCode : Option ℤ
  signal : Option String
  /-- An exit code is a small integer. -/
  safe : ∀ code ∈ exitCode, IsSafeInteger code
  /-- A signal goes by its name. -/
  named : ∀ name ∈ signal, isIdentity name

/-- A capture on the host (`host-process-capture.ts`): what asked it to stop, and when. -/
structure HostCapture where
  pid : Option ℕ
  exit : ProcessCaptureExit
  /-- The requests to stop before the task is told of its process. -/
  before : List ProcessCaptureStop
  /-- Why the task was not told of its process. -/
  untold : Option UncertainCapture
  /-- The requests to stop after that. -/
  after : List ProcessCaptureStop
  descendantsRemained : Bool
  spillFailed : Bool
  killStage : ProcessKillStage
  stdoutOmitted : ℕ
  stderrOmitted : ℕ
  /-- Nobody asks a process to have exited. -/
  asked : ∀ reason ∈ before ++ after, reason ≠ .exited

/-- `stopFor`: the first request to stop stands, except that an uncertain one replaces it. -/
def stopFor (ended : Option ProcessCaptureStop) (reason : ProcessCaptureStop) :
    Option ProcessCaptureStop :=
  match ended, reason with
  | some _, .uncertain _ => some reason
  | some ended, _ => some ended
  | none, _ => some reason

namespace HostCapture

/-- The requests to stop, in their order. -/
def requests (capture : HostCapture) : List ProcessCaptureStop :=
  capture.before ++ (capture.untold.map ProcessCaptureStop.uncertain).toList ++ capture.after

/-- `ended` once the requests to stop are in. -/
def ended (capture : HostCapture) : Option ProcessCaptureStop :=
  let ended := capture.requests.foldl stopFor none
  if capture.descendantsRemained then some (ended.getD (.uncertain .ownedDescendantsRemained))
  else ended

/-- The stop that `finish` of the collector reports. -/
def stop (capture : HostCapture) : ProcessCaptureStop :=
  if capture.killStage = .unconfirmed then .uncertain .unconfirmedExit
  else if capture.spillFailed then .uncertain .artifactIngestFailed
  else capture.ended.getD .exited

/-- The task was told of its process: nothing asked to stop before, and telling it did not fail. -/
def Told (capture : HostCapture) : Prop := capture.before = [] ∧ capture.untold = none

/-- The report of a capture. -/
def report (capture : HostCapture) : ProcessCaptureReport :=
  ⟨capture.pid, capture.stop, capture.killStage, capture.exit.exitCode, capture.exit.signal,
    capture.stdoutOmitted, capture.stderrOmitted⟩

end HostCapture

/-! ## Captures that exited -/

theorem stopFor_isSome (ended : Option ProcessCaptureStop) (reason : ProcessCaptureStop) :
    (stopFor ended reason).isSome = true := by
  cases ended <;> cases reason <;> rfl

theorem stopFor_eq_or (ended : Option ProcessCaptureStop) (reason : ProcessCaptureStop) :
    stopFor ended reason = ended ∨ stopFor ended reason = some reason := by
  cases ended <;> cases reason <;> simp [stopFor]

variable {requests : List ProcessCaptureStop}

/-- A request to stop that is in stays in. -/
theorem foldl_stopFor_eq_none : ∀ {ended : Option ProcessCaptureStop},
      requests.foldl stopFor ended = none ↔ ended = none ∧ requests = [] := by
  induction requests with
  | nil => simp
  | cons reason requests ih =>
    intro ended
    have := stopFor_isSome ended reason
    rw [List.foldl_cons, ih]
    aesop

/-- What stands at the end was asked for. -/
theorem foldl_stopFor_mem {reason : ProcessCaptureStop} :
    ∀ {ended : Option ProcessCaptureStop}, requests.foldl stopFor ended = some reason →
      ended = some reason ∨ reason ∈ requests := by
  induction requests with
  | nil => exact fun h => .inl h
  | cons request requests ih =>
    intro ended h
    rcases ih h with h | h
    · rcases stopFor_eq_or ended request with heq | heq
      · exact .inl (heq ▸ h)
      · exact .inr (by simp [Option.some.inj (heq ▸ h)])
    · exact .inr (List.mem_cons_of_mem _ h)

namespace HostCapture
variable {capture : HostCapture}

theorem requests_ne_exited {reason : ProcessCaptureStop} (h : reason ∈ capture.requests) :
    reason ≠ .exited := by
  rcases List.mem_append.1 h with h | hafter
  · rcases List.mem_append.1 h with hbefore | huntold
    · exact capture.asked _ (List.mem_append_left _ hbefore)
    · cases hreason : capture.untold <;> simp_all
  · exact capture.asked _ (List.mem_append_right _ hafter)

theorem ended_ne_exited : capture.ended ≠ some .exited := by
  have hnot : capture.requests.foldl stopFor none ≠ some .exited := fun h => by
    rcases foldl_stopFor_mem h with h | h
    · cases h
    · exact requests_ne_exited h rfl
  unfold ended
  cases h : capture.requests.foldl stopFor none <;> split_ifs <;> simp_all

/-- **A capture that reports an exit told the task of its process.** -/
theorem told_of_exited (h : capture.stop = .exited) : capture.Told := by
  have hended : capture.ended = none := by
    unfold stop at h
    split_ifs at h
    have hnot := capture.ended_ne_exited
    cases hsome : capture.ended <;> simp_all
  have hfold : capture.requests.foldl stopFor none = none := by
    unfold ended at hended
    split_ifs at hended
    exact hended
  have hempty := (foldl_stopFor_eq_none.1 hfold).2
  cases huntold : capture.untold <;> simp_all [requests, Told]

end HostCapture

/-! ## What an execution reports -/

/-- An outcome with its effect: `executionTerminal`. -/
structure ExecutionTerminal where
  outcome : TerminalOutcomeKind
  effect : EffectCertainty

/-- What the run of a task ends with. -/
structure ExecutionResult where
  outcome : ToolStatus
  capture : Option ProcessCaptureReport
  executionTerminal : Option ExecutionTerminal

/-- The facts of a terminal: all but `sealedAt` and `result`. -/
structure TerminalFacts where
  outcome : TerminalOutcomeKind
  effect : EffectCertainty
  reason : TerminalReason
  exitCode : Option ℤ
  signal : Option String
  outputComplete : Bool

/-- Everything that was written was kept. -/
def outputComplete (capture : Option ProcessCaptureReport) (failure : Option String) : Bool :=
  match capture with
  | none => false
  | some report =>
    report.stdoutOmitted == 0 && report.stderrOmitted == 0
      && decide (report.killStage ≠ .unconfirmed)
      && (match report.stop with | .uncertain _ => false | _ => true) && failure.isNone

/-- `${executionKind}-failed`. -/
def failedReason : ExecutionKind → TerminalReason
  | .workflow => .workflowFailed
  | _ => .agentFailed

/-- How it ended, what it did and why: the part of a terminal the producers tell. -/
abbrev Verdict := TerminalOutcomeKind × EffectCertainty × TerminalReason

/-- What `terminalFacts` makes of an agent or a workflow. -/
def orchestrationVerdict (kind : ExecutionKind) (outcome : ToolStatus) : Verdict :=
  match outcome with
  | .completed => (.completed, outcome.effect, kind.completedReason)
  | .uncertain _ => (.uncertain, .uncertain, .ownershipUncertain)
  | .cancelled effect => (.cancelled, effect, .cancelled)
  | .timedOut effect => (.timedOut, effect, .timedOut)
  | _ => (.failed, outcome.effect, failedReason kind)

/-- What `terminalFacts` makes of a capture report. -/
def captureVerdict (report : ProcessCaptureReport) : Verdict :=
  let effect := if report.pid.isNone then .none else .partial_
  if report.killStage = .unconfirmed then (.uncertain, .uncertain, .unconfirmedExit)
  else
    match report.stop with
    | .exited =>
      if report.exitCode = some 0 ∧ report.signal = none then (.completed, .completed, .exited)
      else (.failed, effect, .exited)
    | .cancelled => (.cancelled, effect, .cancelled)
    | .timedOut => (.timedOut, effect, .timedOut)
    | .captureExceeded => (.failed, effect, .captureExceeded)
    | .uncertain .unconfirmedExit => (.uncertain, .uncertain, .unconfirmedExit)
    | .uncertain _ => (.uncertain, .uncertain, .ownershipUncertain)

/-- What `terminalFacts` makes of a process without a capture. -/
def uncapturedVerdict : ToolStatus → Verdict
  | .cancelled _ => (.cancelled, .none, .cancelled)
  | _ => (.failed, .none, .spawnFailed)

/-- `evidence`, under a verdict. -/
def evidenced (capture : Option ProcessCaptureReport) (failure : Option String)
    (verdict : Verdict) : TerminalFacts :=
  { outcome := verdict.1, effect := verdict.2.1, reason := verdict.2.2
    exitCode := capture.bind (·.exitCode), signal := capture.bind (·.signal)
    outputComplete := outputComplete capture failure }

def terminalFacts (capture : Option ProcessCaptureReport) (outcome : ToolStatus)
    (failure : Option String) (kind : ExecutionKind) : TerminalFacts :=
  if failure ≠ none then
    evidenced capture failure (.uncertain, .uncertain, .persistenceUnavailable)
  else if kind.Orchestrated then
    let (outcome, effect, reason) := orchestrationVerdict kind outcome
    { outcome, effect, reason, exitCode := none, signal := none, outputComplete := true }
  else
    match capture with
    | none => evidenced none failure (uncapturedVerdict outcome)
    | some report => evidenced (some report) failure (captureVerdict report)

def orchestrationReason (kind : ExecutionKind) : TerminalOutcomeKind → TerminalReason
  | .cancelled => .cancelled
  | .timedOut => .timedOut
  | .completed => kind.completedReason
  | _ => failedReason kind

/-! ## Settling -/

/-- The kind `settle` goes by: whatever is neither a workflow nor an agent is a process. -/
def settledKind (task : ProcessTaskSnapshot) : ExecutionKind :=
  if task.kind.Orchestrated then task.kind else .process

/-- The facts `settle` seals a task with. -/
def settledFacts (task : ProcessTaskSnapshot) (result : ExecutionResult) (failure : Option String) :
    TerminalFacts :=
  let observed := terminalFacts result.capture result.outcome failure (settledKind task)
  match result.executionTerminal with
  | some terminal =>
    if task.kind.Orchestrated ∧ failure = none then
      { observed with
        outcome := terminal.outcome
        effect := terminal.effect
        reason := orchestrationReason task.kind terminal.outcome }
    else observed
  | none => observed

/-- The terminal `settle` seals a task with. -/
def sealedTerminal (task : ProcessTaskSnapshot) (result : ExecutionResult) (failure : Option String)
    (saved : Option ProcessTaskArtifact) (sealedAt : ℕ) : ProcessTaskTerminal :=
  let facts := settledFacts task result failure
  { outcome := facts.outcome, effect := facts.effect, reason := facts.reason
    exitCode := facts.exitCode, signal := facts.signal, sealedAt, result := saved
    outputComplete := some facts.outputComplete }

def fence (task : ProcessTaskSnapshot) : ProcessTaskFence :=
  ⟨task.handle, task.supervisor.runId, task.revision⟩

/-- The transition `settle` asks for. -/
def settle (task : ProcessTaskSnapshot) (result : ExecutionResult) (failure : Option String)
    (saved : Option ProcessTaskArtifact) (sealedAt : ℕ) :
    Except TransitionRefusal ProcessTaskSnapshot :=
  transitionProcessTask task (fence task)
    (.sealed (sealedTerminal task result failure saved sealedAt)) sealedAt

/-! ## The executions -/

/-- What a supervisor reads of a `SealedAgentResult`: its schema leaves the pair open. -/
structure SealedAgentResult where
  outcome : TerminalOutcomeKind
  effect : EffectCertainty

def workflowEffect (record : WorkflowRecord) : EffectCertainty :=
  if record.nodes.any fun node => node.effect = .uncertain then .uncertain
  else if record.nodes.any fun node => node.effect = .partial_ then .partial_
  else if record.nodes.any fun node => node.effect = .completed then .completed
  else .none

/-- The outcome a workflow action reads off the record that drive returned. -/
def workflowOutcome (record : WorkflowRecord) : TerminalOutcomeKind :=
  match record.state with
  | .completed => .completed
  | .uncertain => .uncertain
  | .cancelled => .cancelled
  | .timedOut => .timedOut
  | _ => .failed

/-- The executions a supervisor settles. -/
inductive Execution where
  /-- A process whose capture ended. -/
  | captured (capture : HostCapture) (outcome : ToolStatus)
  /-- A process that was never captured. -/
  | uncaptured (outcome : ToolStatus)
  | agent (result : SealedAgentResult)
  /-- An agent that ended before it had a result. -/
  | agentEnded (outcome : ToolStatus)
  | workflow (record : WorkflowRecord)
  /-- A workflow that drive could not bring to an end. -/
  | workflowStopped (code : String)
  /-- A workflow whose wait ended with an error. -/
  | workflowUnwaited (record : WorkflowRecord)

namespace Execution

/-- The kind of the task that runs it. -/
def kind : Execution → ExecutionKind
  | captured _ _ | uncaptured _ => .process
  | agent _ | agentEnded _ => .agent
  | workflow _ | workflowStopped _ | workflowUnwaited _ => .workflow

/-- What the run of the task ends with. -/
def result : Execution → ExecutionResult
  | captured capture outcome => ⟨outcome, some capture.report, none⟩
  | uncaptured outcome => ⟨outcome, none, none⟩
  | agent result => ⟨.completed, none, some ⟨result.outcome, result.effect⟩⟩
  | agentEnded outcome => ⟨outcome, none, none⟩
  | workflow record => ⟨.completed, none, some ⟨workflowOutcome record, workflowEffect record⟩⟩
  | workflowStopped code => ⟨.unavailable code, none, some ⟨.uncertain, .uncertain⟩⟩
  | workflowUnwaited record =>
    ⟨.unavailable "workflow-wait-owner-unavailable", none, some ⟨.failed, workflowEffect record⟩⟩

/-- The outcome of an agent or a workflow and its effect agree: what completed did not leave its
effect open, and what is uncertain did. -/
def Coherent : Execution → Prop
  | agent result =>
    (result.outcome = .completed → result.effect ≠ .uncertain)
      ∧ (result.outcome = .uncertain → result.effect = .uncertain)
  | workflow record =>
    (record.state = .completed → ∀ node ∈ record.nodes, node.effect ≠ .uncertain)
      ∧ (record.state = .uncertain → ∃ node ∈ record.nodes, node.effect = .uncertain)
  | _ => True

end Execution

/-! ## Terminals that agree -/

section
variable {terminal : ProcessTaskTerminal}

theorem agrees_of_not_completed (hreason : ¬ terminal.OrchestrationCompleted)
    (houtcome : terminal.outcome ≠ .completed)
    (heffect : terminal.outcome = .uncertain → terminal.effect = .uncertain) : terminal.Agrees := by
  rw [ProcessTaskTerminal.Agrees, if_neg (hreason ·.1)]
  split_ifs with h
  exact heffect h

/-- What an agent or a workflow that completed must bring. -/
theorem agrees_orchestrated (hreason : terminal.OrchestrationCompleted)
    (houtcome : terminal.outcome = .completed) :
    terminal.Agrees ↔ terminal.effect ≠ .uncertain ∧ terminal.exitCode = none
      ∧ terminal.signal = none ∧ terminal.result ≠ none := by
  have hquestion : terminal.reason ≠ .questionSettled := by
    rcases hreason with h | h <;> simp [h]
  simp [ProcessTaskTerminal.Agrees, hreason, houtcome, hquestion]

/-- What a process that exited must bring. -/
theorem agrees_exited (hreason : terminal.reason = .exited) (houtcome : terminal.outcome = .completed) :
    terminal.Agrees ↔ terminal.effect = .completed ∧ terminal.exitCode = some 0
      ∧ terminal.signal = none ∧ terminal.result ≠ none := by
  simp [ProcessTaskTerminal.Agrees, ProcessTaskTerminal.OrchestrationCompleted, hreason, houtcome]

end

/-! ## Tasks that take a terminal -/

section
variable {task next : ProcessTaskSnapshot} {terminal : ProcessTaskTerminal}

/-- What a transition asks of a terminal that completed is what the schema of the task asks of it. -/
theorem completesAs_iff (hkind : task.kind ≠ .question) :
    task.CompletesAs terminal ↔ terminal.outcome ≠ .completed
      ∨ if task.kind.Orchestrated then terminal.reason = task.kind.completedReason
        else task.process ≠ none ∧ terminal.reason = .exited := by
  unfold ProcessTaskSnapshot.CompletesAs
  cases h : task.kind with
  | question => exact absurd h hkind
  | process => simp [ExecutionKind.Orchestrated, ExecutionKind.completedReason, and_comm]
  | agent | workflow => simp [ExecutionKind.Orchestrated, ExecutionKind.completedReason]

/-- **A task that is sealed is a task.** -/
theorem schema_sealed (htask : task.Schema) (hkind : task.kind ≠ .question)
    (hrevision : task.revision < 2 ^ 53 - 1) (hterminal : terminal.Schema)
    (hquestion : terminal.reason ≠ .questionSettled) (hsealed : task.createdAt ≤ terminal.sealedAt)
    (hcompletes : task.CompletesAs terminal) : (task.changed (.sealed terminal)).Schema := by
  obtain ⟨⟨hhandle, -, hrest⟩, ⟨hprocess, -⟩, hdeadline, -, hsupervisor, hnone, -, -⟩ := htask
  have hnext : IsSafeInteger ((task.revision + 1 : ℕ) : ℤ) := isSafeInteger_natCast.2 hrevision
  refine ⟨⟨hhandle, ⟨Nat.succ_pos _, hnext⟩, hrest⟩, ⟨hprocess, ?_⟩, hdeadline, ?_, hsupervisor,
    hnone, ?_, ?_⟩
  · simpa [ProcessTaskSnapshot.changed] using hterminal
  · rw [ProcessTaskSnapshot.changed_kind, if_neg hkind]
    simpa [ProcessTaskSnapshot.changed] using hquestion
  · exact .inl (by simp [ProcessTaskSnapshot.changed])
  · have : (task.changed (.sealed terminal)).CompletesAs terminal := hcompletes
    simpa [ProcessTaskSnapshot.changed] using ⟨hsealed, this⟩

end

/-! ## The facts of a settled task -/

section
variable {task next : ProcessTaskSnapshot} {result : ExecutionResult} {failure : Option String}
  {saved : Option ProcessTaskArtifact} {sealedAt : ℕ}

/-- Under a lease that holds, a task that is settling is sealed with a terminal that has its schema
and completes as the task does. -/
theorem settle_ok (hstate : task.state = .settling) (hkind : task.kind ≠ .question)
    (hleased : sealedAt < task.supervisor.leaseExpiresAt) (hsafe : IsSafeInteger sealedAt) :
    settle task result failure saved sealedAt = .ok next ↔
      (task.revision < 2 ^ 53 - 1 ∧ task.createdAt ≤ sealedAt)
        ∧ (sealedTerminal task result failure saved sealedAt).Schema
        ∧ task.CompletesAs (sealedTerminal task result failure saved sealedAt)
        ∧ next = task.changed (.sealed (sealedTerminal task result failure saved sealedAt)) := by
  rw [settle, transitionProcessTask_ok, completesAs_iff hkind]
  constructor
  · rintro ⟨hadmits, ⟨-, -, hschema, hcompletes⟩, hnext⟩
    exact ⟨⟨hadmits.below, Int.ofNat_le.1 hadmits.created⟩, hschema, hcompletes, hnext⟩
  · rintro ⟨⟨hbelow, hcreated⟩, hschema, hcompletes, hnext⟩
    refine ⟨⟨rfl, rfl, hbelow, rfl, Int.ofNat_lt.2 hleased, ?_, hsafe, Int.ofNat_le.2 hcreated⟩,
      ⟨hstate, rfl, hschema, hcompletes⟩, hnext⟩
    rw [hstate]
    exact ProcessTaskState.noConfusion

/-- The exit code and the signal of a terminal are those of a capture. -/
theorem terminalFacts_evidence (failure : Option String) (capture : Option ProcessCaptureReport)
    (outcome : ToolStatus) (kind : ExecutionKind) :
    (∀ code ∈ (terminalFacts capture outcome failure kind).exitCode,
        ∃ report ∈ capture, code ∈ report.exitCode)
      ∧ ∀ signal ∈ (terminalFacts capture outcome failure kind).signal,
        ∃ report ∈ capture, signal ∈ report.signal := by
  unfold terminalFacts
  split_ifs with hfailure hkind
  · simp [evidenced, Option.bind_eq_some_iff]
  · simp
  · cases capture <;> simp [evidenced]

theorem settledFacts_evidence :
    (settledFacts task result failure).exitCode
        = (terminalFacts result.capture result.outcome failure (settledKind task)).exitCode
      ∧ (settledFacts task result failure).signal
        = (terminalFacts result.capture result.outcome failure (settledKind task)).signal := by
  unfold settledFacts
  split
  · split_ifs <;> exact ⟨rfl, rfl⟩
  · exact ⟨rfl, rfl⟩

end

/-! ## Which executions can be sealed -/

variable {kind : ExecutionKind} {terminal : ProcessTaskTerminal}

/-- **An agent or a workflow** that brings its own outcome and effect agrees with itself or not. -/
theorem agrees_orchestrationReason
    (hkind : kind.Orchestrated) (hreason : terminal.reason = orchestrationReason kind terminal.outcome)
    (hexit : terminal.exitCode = none) (hsignal : terminal.signal = none)
    (hresult : terminal.result ≠ none) :
    terminal.Agrees ↔ (terminal.outcome = .completed → terminal.effect ≠ .uncertain)
      ∧ (terminal.outcome = .uncertain → terminal.effect = .uncertain) := by
  by_cases houtcome : terminal.outcome = .completed
  · have hcompleted : terminal.OrchestrationCompleted := by
      rw [ProcessTaskTerminal.OrchestrationCompleted, hreason, houtcome]
      rcases hkind with rfl | rfl <;> simp [orchestrationReason, ExecutionKind.completedReason]
    simp [agrees_orchestrated hcompleted houtcome, houtcome, hexit, hsignal, hresult]
  · have hcompleted : ¬ terminal.OrchestrationCompleted := by
      rw [ProcessTaskTerminal.OrchestrationCompleted, hreason]
      rcases hkind with rfl | rfl <;> cases h : terminal.outcome <;>
        simp_all [orchestrationReason, failedReason]
    refine ⟨fun h => ⟨(absurd · houtcome), fun huncertain => ?_⟩, fun h => ?_⟩
    · simpa [ProcessTaskTerminal.Agrees, hcompleted, huncertain] using h
    · exact agrees_of_not_completed hcompleted houtcome h.2

/-- A verdict of something that did not complete, under a reason of its own. -/
def Verdict.Open (verdict : Verdict) : Prop :=
  verdict.1 ≠ .completed ∧ (verdict.1 = .uncertain → verdict.2.1 = .uncertain)
    ∧ verdict.2.2 ∉ [.agentCompleted, .workflowCompleted, .questionSettled]

/-- A process completed by exiting with nothing said against it, or it did not complete. -/
theorem captureVerdict_cases (report : ProcessCaptureReport) :
    (captureVerdict report = (.completed, .completed, .exited) ∧ report.stop = .exited
        ∧ report.exitCode = some 0 ∧ report.signal = none) ∨ (captureVerdict report).Open := by
  by_cases hkill : report.killStage = .unconfirmed
  · exact .inr (by simp [captureVerdict, hkill, Verdict.Open])
  · cases hstop : report.stop with
    | exited =>
      by_cases hexit : report.exitCode = some 0 ∧ report.signal = none
      · exact .inl (by simp [captureVerdict, hkill, hstop, hexit])
      · exact .inr (by simp [captureVerdict, hkill, hstop, hexit, Verdict.Open])
    | uncertain reason =>
      cases reason <;> exact .inr (by simp [captureVerdict, hkill, hstop, Verdict.Open])
    | _ => exact .inr (by simp [captureVerdict, hkill, hstop, Verdict.Open])

theorem uncapturedVerdict_open (outcome : ToolStatus) : (uncapturedVerdict outcome).Open := by
  cases outcome <;> simp [uncapturedVerdict, Verdict.Open]

/-- An agent without a result of its own agrees with itself. -/
theorem orchestrationVerdict_cases (hkind : kind.Orchestrated) (outcome : ToolStatus) :
    orchestrationVerdict kind outcome = (.completed, .completed, kind.completedReason)
      ∨ (orchestrationVerdict kind outcome).Open := by
  cases outcome with
  | completed => exact .inl rfl
  | _ =>
    right
    rcases hkind with rfl | rfl <;> simp [orchestrationVerdict, failedReason, Verdict.Open]

/-- A terminal with an open verdict is taken by every task. -/
theorem Verdict.Open.seals {verdict : Verdict} (h : verdict.Open)
    (houtcome : terminal.outcome = verdict.1) (heffect : terminal.effect = verdict.2.1)
    (hreason : terminal.reason = verdict.2.2) (task : ProcessTaskSnapshot) :
    terminal.Agrees ∧ task.CompletesAs terminal ∧ terminal.reason ≠ .questionSettled := by
  obtain ⟨hcompleted, huncertain, hlisted⟩ := h
  rw [← houtcome] at hcompleted
  rw [← houtcome, ← heffect] at huncertain
  rw [← hreason] at hlisted
  simp only [List.mem_cons, List.not_mem_nil, or_false, not_or] at hlisted
  exact ⟨agrees_of_not_completed (not_or.2 ⟨hlisted.1, hlisted.2.1⟩) hcompleted huncertain,
    .inl hcompleted, hlisted.2.2⟩

/-- A task is the task of an execution: it is of that kind, and it knows the process it was told of. -/
structure Execution.RunsIn (execution : Execution) (task : ProcessTaskSnapshot) : Prop where
  kind : task.kind = execution.kind
  process : ∀ capture outcome, execution = .captured capture outcome → capture.Told →
    task.process ≠ none

section
variable {task : ProcessTaskSnapshot} {execution : Execution} {failure : Option String}
  {artifact : ProcessTaskArtifact} {sealedAt : ℕ}

theorem Execution.kind_ne_question (execution : Execution) : execution.kind ≠ .question := by
  cases execution <;> exact ExecutionKind.noConfusion

variable (task sealedAt) in
/-- The terminal of a task whose output could not be kept. -/
theorem seals_of_failure (hfailure : failure ≠ none) (result : ExecutionResult)
    (saved : Option ProcessTaskArtifact) :
    (sealedTerminal task result failure saved sealedAt).Agrees
      ∧ task.CompletesAs (sealedTerminal task result failure saved sealedAt)
      ∧ (sealedTerminal task result failure saved sealedAt).reason ≠ .questionSettled := by
  have hfacts : settledFacts task result failure
      = evidenced result.capture failure (.uncertain, .uncertain, .persistenceUnavailable) := by
    unfold settledFacts terminalFacts
    cases result.executionTerminal <;> simp [hfailure]
  have hopen : Verdict.Open (.uncertain, .uncertain, .persistenceUnavailable) := by
    simp [Verdict.Open]
  refine hopen.seals ?_ ?_ ?_ task
  all_goals simp [sealedTerminal, hfacts, evidenced]

theorem completesAs_of_reason (hkind : task.kind.Orchestrated) {terminal : ProcessTaskTerminal}
    (hreason : terminal.outcome = .completed → terminal.reason = task.kind.completedReason) :
    task.CompletesAs terminal := by
  by_cases houtcome : terminal.outcome = .completed
  · refine .inr ⟨hreason houtcome, fun hprocess => ?_⟩
    rcases hkind with h | h <;> simp [hprocess] at h
  · exact .inl houtcome

variable (artifact sealedAt) in
/-- An agent or a workflow that brings its own outcome and effect. -/
theorem seals_of_terminal (hkind : task.kind.Orchestrated) (outcome : ToolStatus)
    (terminal : ExecutionTerminal) :
    let sealed := sealedTerminal task ⟨outcome, none, some terminal⟩ none (some artifact) sealedAt
    (sealed.Agrees ↔ (terminal.outcome = .completed → terminal.effect ≠ .uncertain)
        ∧ (terminal.outcome = .uncertain → terminal.effect = .uncertain))
      ∧ task.CompletesAs sealed ∧ sealed.reason ≠ .questionSettled := by
  intro sealed
  have hfacts : settledFacts task ⟨outcome, none, some terminal⟩ none
      = ⟨terminal.outcome, terminal.effect, orchestrationReason task.kind terminal.outcome, none, none,
        true⟩ := by
    simp [settledFacts, terminalFacts, settledKind, hkind]
  have houtcome : sealed.outcome = terminal.outcome := by simp [sealed, sealedTerminal, hfacts]
  have heffect : sealed.effect = terminal.effect := by simp [sealed, sealedTerminal, hfacts]
  have hreason : sealed.reason = orchestrationReason task.kind sealed.outcome := by
    simp [sealed, sealedTerminal, hfacts]
  refine ⟨?_, completesAs_of_reason hkind fun h => by rw [hreason, h]; rfl, ?_⟩
  · rw [← houtcome, ← heffect]
    exact agrees_orchestrationReason hkind hreason (by simp [sealed, sealedTerminal, hfacts])
      (by simp [sealed, sealedTerminal, hfacts]) (by simp [sealed, sealedTerminal])
  · rw [hreason]
    rcases hkind with h | h <;> cases sealed.outcome <;>
      simp [h, orchestrationReason, failedReason, ExecutionKind.completedReason]

variable (artifact sealedAt) in
/-- An agent without a result of its own. -/
theorem seals_of_ended (hkind : task.kind.Orchestrated) (outcome : ToolStatus) :
    let sealed := sealedTerminal task ⟨outcome, none, none⟩ none (some artifact) sealedAt
    sealed.Agrees ∧ task.CompletesAs sealed ∧ sealed.reason ≠ .questionSettled := by
  intro sealed
  have hfacts : settledFacts task ⟨outcome, none, none⟩ none
      = ⟨(orchestrationVerdict task.kind outcome).1, (orchestrationVerdict task.kind outcome).2.1,
        (orchestrationVerdict task.kind outcome).2.2, none, none, true⟩ := by
    simp [settledFacts, terminalFacts, settledKind, hkind]
  rcases orchestrationVerdict_cases hkind outcome with h | hopen
  · have hreason : sealed.reason = task.kind.completedReason := by
      simp [sealed, sealedTerminal, hfacts, h]
    have hcompleted : sealed.OrchestrationCompleted := by
      rw [ProcessTaskTerminal.OrchestrationCompleted, hreason]
      rcases hkind with h | h <;> simp [h, ExecutionKind.completedReason]
    refine ⟨(agrees_orchestrated hcompleted ?_).2 ?_, completesAs_of_reason hkind fun _ => hreason, ?_⟩
    · simp [sealed, sealedTerminal, hfacts, h]
    · simp [sealed, sealedTerminal, hfacts, h]
    · rw [hreason]
      rcases hkind with h | h <;> simp [h, ExecutionKind.completedReason]
  · exact hopen.seals (by simp [sealed, sealedTerminal, hfacts])
      (by simp [sealed, sealedTerminal, hfacts]) (by simp [sealed, sealedTerminal, hfacts]) task

variable (artifact sealedAt) in
/-- A process. -/
theorem seals_of_process (hkind : task.kind = .process) (outcome : ToolStatus)
    (capture : Option HostCapture)
    (hprocess : ∀ host ∈ capture, host.Told → task.process ≠ none) :
    let sealed := sealedTerminal task ⟨outcome, capture.map HostCapture.report, none⟩ none
      (some artifact) sealedAt
    sealed.Agrees ∧ task.CompletesAs sealed ∧ sealed.reason ≠ .questionSettled := by
  intro sealed
  cases capture with
  | none =>
    have hfacts : settledFacts task ⟨outcome, none, none⟩ none
        = evidenced none none (uncapturedVerdict outcome) := by
      simp [settledFacts, terminalFacts, settledKind, hkind, ExecutionKind.Orchestrated]
    exact (uncapturedVerdict_open outcome).seals (by simp [sealed, sealedTerminal, hfacts, evidenced])
      (by simp [sealed, sealedTerminal, hfacts, evidenced])
      (by simp [sealed, sealedTerminal, hfacts, evidenced]) task
  | some capture =>
    have hfacts : settledFacts task ⟨outcome, some capture.report, none⟩ none
        = evidenced (some capture.report) none (captureVerdict capture.report) := by
      simp [settledFacts, terminalFacts, settledKind, hkind, ExecutionKind.Orchestrated]
    rcases captureVerdict_cases capture.report with ⟨hverdict, hstop, hexit, hsignal⟩ | hopen
    · have htold : task.process ≠ none :=
        hprocess capture rfl (HostCapture.told_of_exited hstop)
      have hreason : sealed.reason = .exited := by
        simp [sealed, sealedTerminal, hfacts, evidenced, hverdict]
      refine ⟨(agrees_exited hreason ?_).2 ?_, .inr ⟨?_, fun _ => htold⟩, by simp [hreason]⟩
      · simp [sealed, sealedTerminal, hfacts, evidenced, hverdict]
      · simp [sealed, sealedTerminal, hfacts, evidenced, hverdict, hexit, hsignal]
      · rw [hreason, hkind]
        rfl
    · exact hopen.seals (by simp [sealed, sealedTerminal, hfacts, evidenced])
        (by simp [sealed, sealedTerminal, hfacts, evidenced])
        (by simp [sealed, sealedTerminal, hfacts, evidenced]) task

variable {record : WorkflowRecord}

/-- What a workflow did is uncertain as soon as one of its nodes is. -/
theorem workflowEffect_eq_uncertain :
    workflowEffect record = .uncertain ↔ ∃ node ∈ record.nodes, node.effect = .uncertain := by
  unfold workflowEffect
  split_ifs with h₁ h₂ h₃
  all_goals simp_all

theorem workflowOutcome_eq_completed :
    workflowOutcome record = .completed ↔ record.state = .completed := by
  cases h : record.state <;> simp [workflowOutcome, h]

theorem workflowOutcome_eq_uncertain :
    workflowOutcome record = .uncertain ↔ record.state = .uncertain := by
  cases h : record.state <;> simp [workflowOutcome, h]

variable (failure artifact sealedAt) in
/-- **A terminal is right for its task** exactly when the execution agrees with itself, or when its
output could not be kept. -/
theorem seals_iff (hruns : execution.RunsIn task) :
    let sealed := sealedTerminal task execution.result failure (some artifact) sealedAt
    (sealed.Agrees ∧ task.CompletesAs sealed ↔ failure ≠ none ∨ execution.Coherent)
      ∧ sealed.reason ≠ .questionSettled := by
  intro sealed
  by_cases hfailure : failure = none
  · subst hfailure
    have hkind := hruns.kind
    cases execution with
    | captured capture outcome =>
      obtain ⟨hagrees, hcompletes, hreason⟩ := seals_of_process artifact sealedAt
        hkind outcome (some capture) fun _ hhost htold => by
          cases hhost
          exact hruns.process capture outcome rfl htold
      exact ⟨iff_of_true ⟨hagrees, hcompletes⟩ (.inr trivial), hreason⟩
    | uncaptured outcome =>
      obtain ⟨hagrees, hcompletes, hreason⟩ := seals_of_process artifact sealedAt
        hkind outcome none nofun
      exact ⟨iff_of_true ⟨hagrees, hcompletes⟩ (.inr trivial), hreason⟩
    | agent result =>
      obtain ⟨hagrees, hcompletes, hreason⟩ := seals_of_terminal artifact sealedAt
        (.inl hkind) .completed ⟨result.outcome, result.effect⟩
      refine ⟨⟨fun h => .inr (hagrees.1 h.1), fun h => ⟨hagrees.2 ?_, hcompletes⟩⟩, hreason⟩
      exact h.resolve_left (not_not.2 rfl)
    | agentEnded outcome =>
      obtain ⟨hagrees, hcompletes, hreason⟩ := seals_of_ended artifact sealedAt
        (.inl hkind) outcome
      exact ⟨iff_of_true ⟨hagrees, hcompletes⟩ (.inr trivial), hreason⟩
    | workflow record =>
      obtain ⟨hagrees, hcompletes, hreason⟩ := seals_of_terminal artifact sealedAt
        (.inr hkind) .completed
        ⟨workflowOutcome record, workflowEffect record⟩
      have hcoherent : (Execution.workflow record).Coherent ↔
          (workflowOutcome record = .completed → workflowEffect record ≠ .uncertain)
            ∧ (workflowOutcome record = .uncertain → workflowEffect record = .uncertain) := by
        simp [Execution.Coherent, workflowOutcome_eq_completed, workflowOutcome_eq_uncertain,
          workflowEffect_eq_uncertain]
      rw [hcoherent]
      refine ⟨⟨fun h => .inr (hagrees.1 h.1), fun h => ⟨hagrees.2 ?_, hcompletes⟩⟩, hreason⟩
      exact h.resolve_left (not_not.2 rfl)
    | workflowStopped code =>
      obtain ⟨hagrees, hcompletes, hreason⟩ := seals_of_terminal artifact sealedAt
        (.inr hkind) (.unavailable code) ⟨.uncertain, .uncertain⟩
      exact ⟨iff_of_true ⟨hagrees.2 (by simp), hcompletes⟩ (.inr trivial), hreason⟩
    | workflowUnwaited record =>
      obtain ⟨hagrees, hcompletes, hreason⟩ := seals_of_terminal artifact sealedAt
        (.inr hkind) (.unavailable "workflow-wait-owner-unavailable")
        ⟨.failed, workflowEffect record⟩
      exact ⟨iff_of_true ⟨hagrees.2 (by simp), hcompletes⟩ (.inr trivial), hreason⟩
  · obtain ⟨hagrees, hcompletes, hreason⟩ := seals_of_failure task sealedAt hfailure
      execution.result (some artifact)
    exact ⟨iff_of_true ⟨hagrees, hcompletes⟩ (.inl hfailure), hreason⟩

variable (task execution failure) in
/-- The exit code and the signal of a capture have their formats. -/
theorem sealedTerminal_formats (hartifact : artifact.Schema) (hsafe : IsSafeInteger sealedAt) :
    (sealedTerminal task execution.result failure (some artifact) sealedAt).Formats := by
  have hevidence := terminalFacts_evidence failure execution.result.capture
    execution.result.outcome (settledKind task)
  have hreport : ∀ report ∈ execution.result.capture,
      (∀ code ∈ report.exitCode, IsSafeInteger code)
        ∧ ∀ signal ∈ report.signal, isIdentity signal := by
    intro report hreport
    cases execution with
    | captured capture outcome =>
      cases hreport
      exact ⟨capture.exit.safe, capture.exit.named⟩
    | _ => cases hreport
  refine ⟨fun code hcode => ?_, fun signal hsignal => ?_, decide_eq_true hsafe, fun _ hsaved => ?_⟩
  · rw [sealedTerminal, settledFacts_evidence.1] at hcode
    obtain ⟨report, hcapture, hcode⟩ := hevidence.1 code hcode
    exact (hreport report hcapture).1 code hcode
  · rw [sealedTerminal, settledFacts_evidence.2] at hsignal
    obtain ⟨report, hcapture, hsignal⟩ := hevidence.2 signal hsignal
    exact (hreport report hcapture).2 signal hsignal
  · cases hsaved
    exact hartifact

/-- **A finished execution is sealed** exactly when the revisions of its task are not exhausted, the
clock is not behind its creation, and its outcome and its effect agree. -/
theorem settle_seals_iff (hruns : execution.RunsIn task) (htask : task.Schema)
    (hstate : task.state = .settling) (hleased : sealedAt < task.supervisor.leaseExpiresAt)
    (hartifact : artifact.Schema) :
    (∃ next, settle task execution.result failure (some artifact) sealedAt = .ok next ∧ next.Schema) ↔
      (task.revision < 2 ^ 53 - 1 ∧ task.createdAt ≤ sealedAt)
        ∧ (failure ≠ none ∨ execution.Coherent) := by
  have hkind : task.kind ≠ .question := hruns.kind ▸ execution.kind_ne_question
  have hexpires : task.supervisor.leaseExpiresAt ≤ 2 ^ 53 - 1 :=
    isSafeInteger_natCast.1 (of_decide_eq_true htask.1.2.2.2.1.2.2)
  have hsafe : IsSafeInteger sealedAt := isSafeInteger_natCast.2 (hleased.le.trans hexpires)
  have hformats := sealedTerminal_formats task execution failure hartifact hsafe
  obtain ⟨hseals, hreason⟩ := seals_iff failure artifact sealedAt hruns
  constructor
  · rintro ⟨next, hok, -⟩
    obtain ⟨hbounds, hterminal, hcompletes, -⟩ := (settle_ok hstate hkind hleased hsafe).1 hok
    exact ⟨hbounds, hseals.1 ⟨hterminal.2, hcompletes⟩⟩
  · rintro ⟨hbounds, hcoherent⟩
    obtain ⟨hagrees, hcompletes⟩ := hseals.2 hcoherent
    refine ⟨_, (settle_ok hstate hkind hleased hsafe).2 ⟨hbounds, ⟨hformats, hagrees⟩, hcompletes, rfl⟩,
      ?_⟩
    exact schema_sealed htask hkind hbounds.1 ⟨hformats, hagrees⟩ hreason hbounds.2 hcompletes

end

/-- A background agent that is settling. -/
def settlingAgent : ProcessTaskSnapshot where
  executionKind := some .agent
  handle := ⟨"task-1", "generation-1"⟩
  revision := 3
  owner := ⟨"session-1", "workspace-1", "turn-1", "invocation-1", "attempt-1", 1, "resource-1"⟩
  supervisor := ⟨"run-1", some ⟨.linux, 4242, "birth-1"⟩, 15000⟩
  attachment := .background
  createdAt := 0
  deadline := 60000
  inputDigest := String.ofList (List.replicate 64 'a')
  outputMode := .raw
  state := .settling
  process := none
  terminal := none

/-- The result of an agent, kept as an artifact. -/
def agentArtifact : ProcessTaskArtifact :=
  ⟨"artifact-1", "sha-256:" ++ String.ofList (List.replicate 64 'b'), 512⟩

theorem settlingAgent_schema : settlingAgent.Schema := by decide

theorem agentArtifact_schema : agentArtifact.Schema := by decide

theorem agentEffect_runsIn (result : SealedAgentResult) :
    (Execution.agent result).RunsIn settlingAgent :=
  ⟨rfl, fun _ _ h => Execution.noConfusion h⟩

/-- An agent that completed its turn after a call of uncertain effect is not sealed, although its
result was kept and its lease holds. -/
theorem not_settle_seals :
    ¬ ∀ (task : ProcessTaskSnapshot) (execution : Execution) (artifact : ProcessTaskArtifact)
        (sealedAt : ℕ), execution.RunsIn task → task.Schema → task.state = .settling →
      sealedAt < task.supervisor.leaseExpiresAt → task.createdAt ≤ sealedAt →
      task.revision < 2 ^ 53 - 1 → artifact.Schema →
        ∃ next, settle task execution.result none (some artifact) sealedAt = .ok next ∧ next.Schema := by
  intro hall
  obtain ⟨next, hok, -⟩ := hall settlingAgent (.agent ⟨.completed, .uncertain⟩) agentArtifact 9000
    (agentEffect_runsIn _) settlingAgent_schema rfl (by decide) (by decide) (by decide)
    agentArtifact_schema
  have hrefused : settle settlingAgent (Execution.agent ⟨.completed, .uncertain⟩).result none
      (some agentArtifact) 9000 = .error .invalidTransition := by decide
  rw [hrefused] at hok
  cases hok

/-- An agent that completed with a known effect is sealed. -/
theorem settle_seals_agent :
    ∃ next, settle settlingAgent (Execution.agent ⟨.completed, .partial_⟩).result none
      (some agentArtifact) 9000 = .ok next ∧ next.Schema :=
  (settle_seals_iff (agentEffect_runsIn _) settlingAgent_schema rfl (by decide)
    agentArtifact_schema).2 ⟨by decide, .inr ⟨fun _ => by decide, nofun⟩⟩

end Falryn.Orchestration.Settlement
