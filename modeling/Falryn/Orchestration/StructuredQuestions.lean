import Falryn.Orchestration.QuestionStore

/-!
# Structured questions

What an owner, a presenter and the deadline do to one question (`structured-questions.ts`).  Every one
of them changes the record in one transaction of the store, on the record it finds there.  A presenter
is admitted first, on the record as it is then, and changes the record later.  The clock is read twice
where a question may turn out to be expired: once to see, and once for the time of the settlement.
-/

namespace Falryn.Orchestration

section
variable (ports : QuestionPorts)

/-! ## Answers in order -/

/-- The options of a selection in order. -/
def ItemAnswer.sorted : ItemAnswer → ItemAnswer
  | .selection itemId optionIds => .selection itemId (optionIds.mergeSort fun a b => decide (a ≤ b))
  | answer => answer

/-- The answer a presenter's answer is compared as. -/
def QuestionAnswer.normalized (answer : QuestionAnswer) : QuestionAnswer :=
  (answer.map ItemAnswer.sorted).mergeSort fun a b => ports.precedes a.itemId b.itemId

/-! ## Changes of a record -/

namespace QuestionRecord

def settle (record : QuestionRecord) (kind : QuestionTerminal) (digest : String)
    (answer : Option QuestionAnswer) (settledAt : ℕ) : QuestionRecord :=
  let retained := decide (kind = .answered ∧ record.input.retention = .answer
    ∧ record.input.sensitivity = .normal)
  { record with
    revision := record.revision + 1
    state := .settled kind
    settlement := some
      { id := "answer:" ++ ports.hash (.handle record.input.handle), kind, settledAt, digest
        answer := if retained then answer else none, retained } }

/-- A question that is closed without an answer. -/
def close (record : QuestionRecord) (kind : QuestionTerminal) (settledAt : ℕ) : QuestionRecord :=
  record.settle ports kind (ports.hash (.closing kind record.intent)) none settledAt

/-- What the deadline does, and the owner whose question was admitted too late: a question that is not
settled is closed. -/
def closeOpen (kind : QuestionTerminal) (settledAt : ℕ) (current : QuestionRecord) :
    Except QuestionRefusal QuestionRecord :=
  if current.settlement ≠ none then .ok current else .ok (current.close ports kind settledAt)

end QuestionRecord

/-- `matches`. -/
def credentialMatches (credential : Option String) (key : String) : Prop :=
  ∃ token ∈ credential, token.length = 43 ∧ ports.hash (.token token) = key

instance (credential : Option String) (key : String) : Decidable (credentialMatches ports credential key) := by
  unfold credentialMatches
  infer_instance

/-- What an owner asks for. -/
inductive OwnerChange where
  | publish
  | cancel
  deriving DecidableEq

/-- What `ownerControl` does when its resources close. -/
def ownerClosed (credential : Option String) (now : ℕ) (current : QuestionRecord) :
    Except QuestionRefusal QuestionRecord :=
  if ¬ credentialMatches ports credential current.ownerKey then .error .denied
  else current.closeOpen ports .cancelled now

/-- `change` of `ownerControl`. -/
def ownerChange (kind : OwnerChange) (credential : Option String) (now later : ℕ)
    (current : QuestionRecord) : Except QuestionRefusal QuestionRecord :=
  if ¬ credentialMatches ports credential current.ownerKey then .error .denied
  else if current.settlement ≠ none then .ok current
  else if current.expiresAt ≤ now then .ok (current.close ports .expired later)
  else if kind = .cancel then .ok (current.close ports .cancelled later)
  else if current.state ≠ .created then .ok current
  else if 63 ≤ current.revision then .ok (current.close ports .unavailable later)
  else if current.input.missingPresenter = .unavailable ∧ current.presenter ≠ .connected then
    .ok (current.close ports .unavailable later)
  else
    .ok { current with
      revision := current.revision + 1
      state := if current.presenter = .connected then .published else .waiting }

/-- A call of a presenter that was admitted. -/
structure PresenterCall where
  credential : Option String
  principal : QuestionPresenter
  action : PresenterAction
  /-- The answer as it was given. -/
  given : Option QuestionAnswer
  /-- The answer in order. -/
  answer : Option QuestionAnswer
  digest : String

/-- The first half of `presenter`: what is admitted on the record as it is then. -/
def presenterCall (access : QuestionRecord) (credential : Option String) (principal : QuestionPresenter)
    (action : PresenterAction) (given : Option QuestionAnswer) :
    Except QuestionRefusal PresenterCall := do
  refuseIf (¬ credentialMatches ports credential access.presenterKey
    ∨ principal ≠ access.input.presenter) .denied
  refuseIf (action = .answer ∧ ¬ ∃ answer ∈ given, QuestionAnswer.Schema answer
    ∧ ValidQuestionAnswer access.input answer) .malformed
  let answer := if action = .answer then given.map (QuestionAnswer.normalized ports) else none
  return ⟨credential, principal, action, given, answer,
    ports.hash (.action action access.input.presenter answer)⟩

/-- The second half of `presenter`: what the call changes. -/
def presenterChange (call : PresenterCall) (now later : ℕ) (current : QuestionRecord) :
    Except QuestionRefusal QuestionRecord :=
  if ¬ credentialMatches ports call.credential current.presenterKey
      ∨ call.principal ≠ current.input.presenter then .error .denied
  else
    match current.settlement with
    | some settlement =>
      if settlement.digest = call.digest then .ok current else .error .conflictingAnswer
    | none =>
      if current.expiresAt ≤ now then .ok (current.close ports .expired later)
      else
        let moved (presenter : PresenterState) : Except QuestionRefusal QuestionRecord :=
          if current.presenter = presenter then .ok current
          else if 63 ≤ current.revision then .error .resourceExhausted
          else
            .ok { current with
              revision := current.revision + 1
              presenter
              state := if current.state = .created then .created else .waiting }
        let answered (kind : QuestionTerminal) : Except QuestionRefusal QuestionRecord :=
          if current.state = .created then .error .notPublished
          else if current.presenter ≠ .connected then .error .disconnectedPresenter
          else .ok (current.settle ports kind call.digest call.answer later)
        match call.action with
        | .connect => moved .connected
        | .disconnect => moved .disconnected
        | .answer => answered .answered
        | .refuse => answered .refused

/-- The record `create` makes. -/
def newQuestion (input : QuestionInput) (owner : QuestionOwner) (ownerToken presenterToken : String)
    (createdAt resourcesExpireAt : ℕ) : QuestionRecord where
  input := input
  owner := owner
  ownerKey := ports.hash (.token ownerToken)
  presenterKey := ports.hash (.token presenterToken)
  intent := ports.hash (.intent owner input)
  revision := 1
  createdAt := createdAt
  expiresAt := min (createdAt + input.waitMs) resourcesExpireAt
  state := .created
  presenter := .unavailable
  settlement := none

/-! ## One question -/

/-- The tables of a question, the last reading of the clock and the calls of presenters under way. -/
structure QuestionSystem where
  tables : QuestionTables
  clock : ℕ
  calls : List PresenterCall

/-- The question before it is created. -/
def QuestionSystem.initial : QuestionSystem := ⟨.empty, 0, []⟩

/-- What can happen to a question.  Every time is a reading of the clock. -/
inductive QuestionEvent where
  /-- `create` commits; it read the clock before it was admitted. -/
  | create (input : QuestionInput) (owner : QuestionOwner) (ownerToken presenterToken : String)
      (createdAt resourcesExpireAt : ℕ) (crowded : Bool) (now : ℕ)
  /-- `create` cancels a question whose owner is gone. -/
  | abandon (now : ℕ)
  | owner (change : OwnerChange) (credential : Option String) (now later : ℕ)
  | ownerCloses (credential : Option String) (now : ℕ)
  /-- A presenter is admitted. -/
  | admitAction (credential : Option String) (principal : QuestionPresenter) (action : PresenterAction)
      (given : Option QuestionAnswer)
  /-- A call of a presenter commits. -/
  | commit (index : ℕ) (now later : ℕ)
  | deadline (now : ℕ)

/-- The record of a question. -/
abbrev QuestionSystem.record (s : QuestionSystem) (handle : ProcessTaskHandle) :
    Except QuestionRefusal QuestionRecord := s.tables.load ports handle

variable (taskStream : ProcessTaskHandle → String) (handle : ProcessTaskHandle)

/-- A change of the question: what the caller is told, and the question after it. -/
def QuestionSystem.change (s : QuestionSystem)
    (update : QuestionRecord → Except QuestionRefusal QuestionRecord) (later : ℕ) :
    Except QuestionRefusal QuestionRecord × QuestionSystem :=
  match s.tables.change ports taskStream handle update with
  | .error refusal => (.error refusal, { s with clock := later })
  | .ok (record, tables) => (.ok record, { s with tables, clock := later })

/-- One event of the question whose handle is `handle`.  The clock never goes back. -/
def QuestionSystem.step (s : QuestionSystem) : QuestionEvent → Option QuestionSystem
  | .create input owner ownerToken presenterToken createdAt resourcesExpireAt crowded now =>
    if s.clock ≤ now ∧ createdAt ≤ now ∧ input.handle = handle then
      let record := newQuestion ports input owner ownerToken presenterToken createdAt resourcesExpireAt
      some { s with
        tables := (s.tables.create ports record crowded).toOption.getD s.tables, clock := now }
    else none
  | .abandon now =>
    if s.clock ≤ now then
      some (s.change ports taskStream handle
        (QuestionRecord.closeOpen ports .cancelled now) now).2
    else none
  | .owner change credential now later =>
    if s.clock ≤ now ∧ now ≤ later then
      some (s.change ports taskStream handle (ownerChange ports change credential now later) later).2
    else none
  | .ownerCloses credential now =>
    if s.clock ≤ now then
      some (s.change ports taskStream handle (ownerClosed ports credential now) now).2
    else none
  | .admitAction credential principal action given =>
    match s.record ports handle with
    | .error _ => some s
    | .ok access =>
      match presenterCall ports access credential principal action given with
      | .error _ => some s
      | .ok call => some { s with calls := s.calls ++ [call] }
  | .commit index now later =>
    match s.calls[index]? with
    | none => none
    | some call =>
      if s.clock ≤ now ∧ now ≤ later then
        some (s.change ports taskStream handle (presenterChange ports call now later) later).2
      else none
  | .deadline now =>
    if s.clock ≤ now then
      some (s.change ports taskStream handle (QuestionRecord.closeOpen ports .expired now) now).2
    else none

end

end Falryn.Orchestration
