import Falryn.Lib.StateMachine
import Falryn.Orchestration.WorkHierarchy

/-!
# Batches

A request to change a queue is a list of operations on tasks and on the hierarchy
(`work-queue-requests.ts`, the write path of `work-queues.ts`).  Its operations run one after the other
in one transaction, which is committed as a whole at the next revision or not at all.  The host and the
budget answer each operation anew.
-/

namespace Falryn.Orchestration.WorkQueues

/-! ## Requests -/

/-- A letter or a digit. -/
def isReferenceStart (c : Char) : Bool :=
  ('a' ≤ c && c ≤ 'z') || ('A' ≤ c && c ≤ 'Z') || ('0' ≤ c && c ≤ '9')

/-- A character a reference may go on with. -/
def isReferencePart (c : Char) : Bool :=
  isReferenceStart c || ['.', '_', ':', '@', '/', '-'].contains c

/-- `workReferenceSchema`. -/
def isWorkReference (text : String) : Bool :=
  decide (text.length ≤ 128) &&
    match text.toList with
    | [] => false
    | first :: rest => isReferenceStart first && rest.all isReferencePart

/-- One operation of a batch. -/
inductive WorkOperation where
  | task (operation : WorkMutation)
  | hierarchy (operation : WorkHierarchyMutation)

/-- The ids an operation on a task names. -/
def WorkMutation.ids : WorkMutation → List WorkItemId
  | .add id _ => [id]
  | .update id _ => [id]
  | .link id dependency => [id, dependency]
  | .unlink id dependency => [id, dependency]
  | .blockers id _ => [id]
  | .disposition id _ _ => [id]
  | .claim id _ => [id]
  | .release id => [id]
  | .reconcile id => [id]
  | .submit id _ _ _ => [id]
  | .validate id _ _ _ _ _ _ _ => [id]
  | .cancel id => [id]
  | .archive id => [id]
  | .delete id => [id]

/-- The sibling a position names. -/
def WorkPosition.ids : WorkPosition → List WorkItemId
  | .atEnd => []
  | .before sibling => [sibling]
  | .after sibling => [sibling]

/-- The ids an operation on the hierarchy names. -/
def WorkHierarchyMutation.ids : WorkHierarchyMutation → List WorkItemId
  | .group groupId _ parentId position => groupId :: parentId.toList ++ position.ids
  | .place nodeId parentId position => nodeId :: parentId.toList ++ position.ids
  | .rename groupId _ => [groupId]
  | .removeGroup groupId => [groupId]
  | .removeSubtree groupId reviewed => groupId :: reviewed

def WorkOperation.ids : WorkOperation → List WorkItemId
  | .task operation => operation.ids
  | .hierarchy operation => operation.ids

/-- An operation whose ids fit their schema. -/
def WorkOperation.WellFormed (operation : WorkOperation) : Prop :=
  ∀ id ∈ operation.ids, isWorkReference id = true

instance (operation : WorkOperation) : Decidable operation.WellFormed :=
  inferInstanceAs (Decidable (∀ id ∈ operation.ids, _))

/-- An operation with what the host and the budget answer while it runs. -/
structure WorkCall where
  operation : WorkOperation
  answers : HierarchyContext

/-! ## Applying a batch -/

/-- A queue as it is committed. -/
structure WorkQueueState where
  revision : ℕ
  tables : WorkTables

/-- What an operation of a batch is given: its answers, at the revision the batch is applied to. -/
def WorkCall.context (call : WorkCall) (revision : ℕ) : HierarchyContext :=
  { call.answers with revision }

/-- A transaction that has changed nothing yet. -/
def opened (tables : WorkTables) : WorkTransaction :=
  { tables, changed := [], changedGroups := [], affected := [], placed := false }

/-- One operation of a batch. -/
def applyOperation (revision : ℕ) (t : WorkTransaction) (call : WorkCall) :
    Except WorkQueueError WorkTransaction :=
  match call.operation with
  | .task operation => applyWorkMutation (call.context revision).toWorkContext t operation
  | .hierarchy operation => applyHierarchyMutation (call.context revision) t operation

/-- The operations of a batch, one after the other. -/
def applyBatch (q : WorkQueueState) (batch : List WorkCall) : Except WorkQueueError WorkTransaction :=
  batch.foldlM (applyOperation q.revision) (opened q.tables)

/-- A batch applied and committed.  The schema of the request comes first. -/
def commitBatch (q : WorkQueueState) (batch : List WorkCall) : Except WorkQueueError WorkQueueState := do
  refuseIf (batch = [] ∨ batchLimit < batch.length ∨ ∃ call ∈ batch, ¬ call.operation.WellFormed)
    (refusal .malformed)
  let t ← applyBatch q batch
  return { revision := q.revision + 1, tables := t.tables }

/-- A queue just created. -/
def createdQueue : WorkQueueState := { revision := 1, tables := .empty }

/-- A host that grants whatever it is asked for, and a budget that suffices. -/
def agreeableHost : HierarchyContext where
  revision := 0
  now := 0
  authority :=
    { actor := "agent"
      registeredAgent := fun _ => true
      admitHolder := fun _ => true
      observeExecution := fun _ _ => none
      validateCompletion := fun _ _ _ _ _ => true }
  budget := none
  steps := 10000
  validateWorkItem := fun _ _ => none
  source := "host"
  sourceGeneration := "1"
  validateGroup := fun _ _ => none

/-- An operation on a task before the agreeable host. -/
def taskCall (operation : WorkMutation) : WorkCall := ⟨.task operation, agreeableHost⟩

/-- An operation on the hierarchy before the agreeable host. -/
def hierarchyCall (operation : WorkHierarchyMutation) : WorkCall := ⟨.hierarchy operation, agreeableHost⟩

/-- What a client says of a task of which nothing matters but its name. -/
def plainFields (subject : String) : WorkFields where
  subject
  description := ""
  objective := subject
  activeForm := none
  agentType := none
  metadata := .empty
  criteria := ["done"]

/-! ## Runs -/

/-- A step of a transaction. -/
def operationStep (revision : ℕ) (t : WorkTransaction) (call : WorkCall) : Option WorkTransaction :=
  (applyOperation revision t call).toOption

/-- A step of a queue: a batch is committed. -/
def batchStep (q : WorkQueueState) (batch : List WorkCall) : Option WorkQueueState :=
  (commitBatch q batch).toOption

/-- The queue is reached from a new one by committed batches. -/
def Reachable (q : WorkQueueState) : Prop :=
  ∃ batches, StateMachine.run batchStep createdQueue batches = some q

section
variable {q q' : WorkQueueState} {batch : List WorkCall} {t : WorkTransaction}

theorem run_eq_foldlM {ε σ α : Type} (f : σ → α → Except ε σ) (l : List α) (s : σ) :
    StateMachine.run (fun s a => (f s a).toOption) s l = (l.foldlM f s).toOption := by
  induction l generalizing s with
  | nil => rfl
  | cons a l ih =>
    rw [List.foldlM_cons, StateMachine.run]
    rcases hstep : f s a with e | s'
    · rfl
    · exact ih s'

theorem operationStep_ok {revision : ℕ} {t' : WorkTransaction} {call : WorkCall} :
    operationStep revision t call = some t' ↔ applyOperation revision t call = .ok t' :=
  toOption_eq_some

theorem commitBatch_ok : commitBatch q batch = .ok q' ↔
    batch ≠ [] ∧ batch.length ≤ batchLimit ∧ (∀ call ∈ batch, call.operation.WellFormed) ∧
      ∃ t, applyBatch q batch = .ok t ∧ q' = { revision := q.revision + 1, tables := t.tables } := by
  unfold commitBatch
  rw [except_bind_ok]
  constructor
  · rintro ⟨_, hguard, h⟩
    obtain ⟨t, ht, h⟩ := except_bind_ok.1 h
    have hguard := refuseIf_ok.1 hguard
    push Not at hguard
    exact ⟨hguard.1, hguard.2.1, hguard.2.2, t, ht, by cases h; rfl⟩
  · rintro ⟨hne, hlength, hformed, t, ht, rfl⟩
    refine ⟨(), refuseIf_ok.2 ?_, except_bind_ok.2 ⟨t, ht, rfl⟩⟩
    push Not
    exact ⟨hne, hlength, hformed⟩

theorem batchStep_ok : batchStep q batch = some q' ↔ commitBatch q batch = .ok q' := toOption_eq_some

/-- A run that ends in a state with a property reaches such a queue. -/
theorem reachable_of_any (batches : List (List WorkCall)) (p : WorkQueueState → Bool)
    (h : (StateMachine.run batchStep createdQueue batches).any p = true) : ∃ q, Reachable q ∧ p q = true := by
  rcases hrun : StateMachine.run batchStep createdQueue batches with _ | q
  · rw [hrun] at h
    cases h
  · rw [hrun] at h
    exact ⟨q, ⟨batches, hrun⟩, h⟩

variable {I : WorkTables → Prop} {batches : List (List WorkCall)}

/-- **The rule for invariants of queues.**  What holds of no rows and is kept by every operation with
ids that fit holds of every reachable queue. -/
theorem Reachable.invariant (hempty : I .empty)
    (hstep : ∀ {revision t t' call}, I (WorkTransaction.tables t) → call.operation.WellFormed →
      applyOperation revision t call = .ok t' → I t'.tables) (h : Reachable q) : I q.tables := by
  obtain ⟨batches, hrun⟩ := h
  refine StateMachine.run_invariant (I := fun q => I q.tables) (fun q _ _ hq hcommit => ?_) hempty hrun
  obtain ⟨-, -, hformed, t, hbatch, rfl⟩ := commitBatch_ok.1 (batchStep_ok.1 hcommit)
  exact foldlM_ok_invariant (P := fun t => I t.tables)
    (fun t call hmem t' ht hstep' => hstep ht (hformed call hmem) hstep') hq hbatch

/-- What holds of every reachable queue holds between any two operations of a batch. -/
theorem Reachable.invariant_within (hempty : I .empty)
    (hstep : ∀ {revision t t' call}, I (WorkTransaction.tables t) → call.operation.WellFormed →
      applyOperation revision t call = .ok t' → I t'.tables) (h : Reachable q) {earlier : List WorkCall}
    (hformed : ∀ call ∈ earlier, call.operation.WellFormed)
    (hearlier : applyBatch q earlier = .ok t) : I t.tables :=
  foldlM_ok_invariant (P := fun t => I t.tables)
    (fun _ call hmem _ ht happly => hstep ht (hformed call hmem) happly) (h.invariant hempty hstep) hearlier

/-- What every operation relates, when the tables have what reachable tables have, every run relates. -/
theorem Reachable.relates {R : WorkTables → WorkTables → Prop} (hempty : I .empty)
    (hstep : ∀ {revision t t' call}, I (WorkTransaction.tables t) → call.operation.WellFormed →
      applyOperation revision t call = .ok t' → I t'.tables ∧ R t.tables t'.tables)
    (hrefl : ∀ t, R t t) (htrans : ∀ {a b c}, R a b → R b c → R a c) (h : Reachable q) (hrun : StateMachine.run batchStep q batches = some q') :
    R q.tables q'.tables := by
  have hI : I q.tables := h.invariant hempty fun ht hformed happly => (hstep ht hformed happly).1
  refine (StateMachine.run_invariant (I := fun s => I s.tables ∧ R q.tables s.tables)
    (fun s _ _ hs hcommit => ?_) ⟨hI, hrefl _⟩ hrun).2
  obtain ⟨-, -, hformed, t, hbatch, rfl⟩ := commitBatch_ok.1 (batchStep_ok.1 hcommit)
  refine foldlM_ok_invariant (P := fun t => I t.tables ∧ R q.tables t.tables)
    (fun t call hmem t' ht hstep' => ?_) hs hbatch
  obtain ⟨hI, hR⟩ := hstep ht.1 (hformed call hmem) hstep'
  exact ⟨hI, htrans ht.2 hR⟩

/-- Every operation of every batch finds tables of which a condition holds. -/
def Throughout (P : WorkTables → WorkOperation → Prop) (q : WorkQueueState)
    (batches : List (List WorkCall)) : Prop :=
  StateMachine.Along batchStep (fun q batch =>
    StateMachine.Along (operationStep q.revision) (fun t call => P t.tables call.operation)
      (opened q.tables) batch) q batches

/-- **The rule for a condition.**  What every operation that meets a condition keeps, every run keeps
all of whose operations meet it. -/
theorem throughout_preserves {P : WorkTables → WorkOperation → Prop}
    (hstep : ∀ {revision t t' call}, I (WorkTransaction.tables t) → P t.tables call.operation →
      applyOperation revision t call = .ok t' → I t'.tables) (h : I q.tables) (hall : Throughout P q batches)
    (hrun : StateMachine.run batchStep q batches = some q') : I q'.tables := by
  refine StateMachine.run_along_preserves (I := fun q => I q.tables) (fun q batch q' hq hP hcommit => ?_)
    h hall hrun
  obtain ⟨-, -, -, t, hbatch, rfl⟩ := commitBatch_ok.1 (batchStep_ok.1 hcommit)
  have hbatch : StateMachine.run (operationStep q.revision) (opened q.tables) batch = some t := by
    rw [show operationStep q.revision = fun t call => (applyOperation q.revision t call).toOption from rfl,
      run_eq_foldlM]
    exact toOption_eq_some.2 hbatch
  exact StateMachine.run_along_preserves (I := fun t => I t.tables)
    (fun t call t' ht hP hstep' => hstep ht hP (operationStep_ok.1 hstep')) hq hP hbatch

end

end Falryn.Orchestration.WorkQueues
