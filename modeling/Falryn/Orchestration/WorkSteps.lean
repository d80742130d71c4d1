import Falryn.Orchestration.WorkMutations

/-!
# What an operation on a task does

`applyWorkMutation_cases` says it once: a task is added, revised, linked, unlinked or deleted, under
the checks its operation makes.  Every invariant of the tasks is derived from this.
-/

namespace Falryn.Orchestration.WorkQueues

/-! ## Tasks of the tables -/

/-- The task under an id is not deleted. -/
def WorkTables.LiveAt (t : WorkTables) (id : WorkItemId) : Prop :=
  ∃ item, t.items.get id = some item ∧ item.deleted = false

/-- The task under an id is completed. -/
def WorkTables.CompletedAt (t : WorkTables) (id : WorkItemId) : Prop :=
  ∃ item, t.items.get id = some item ∧ item.completedWork = true

/-- Nothing keeps a task from being worked on. -/
structure Ready (t : WorkTables) (id : WorkItemId) (item : WorkItem) : Prop where
  blockers : item.blockers = []
  resolved : item.unresolvedDependencies = false
  dependencies : ∀ dependency, (id, dependency) ∈ t.edges → t.CompletedAt dependency

/-- A task a client may change. -/
def WorkItem.IsMutable (item : WorkItem) : Prop :=
  item.deleted = false ∧ item.disposition.isTerminal = false

/-- A task as saved by a batch. -/
def stamped (ctx : WorkContext) (item : WorkItem) : WorkItem :=
  { item with revision := ctx.revision + 1, updatedAt := ctx.now }

/-- The changes of one task that leave the edges alone, each under the checks made for it. -/
inductive Revised (ctx : WorkContext) (t : WorkTables) (id : WorkItemId) (old : WorkItem) :
    WorkItem → Prop where
  | update (update : WorkFieldsUpdate) (hmutable : old.IsMutable)
      (hidle : update.changesMeaning = true → old.isIdle = true) :
      Revised ctx t id old (updatedItem update old)
  | blockers (blockers : List String) (hmutable : old.IsMutable) (hidle : old.isIdle = true) :
      Revised ctx t id old (blockedItem old blockers)
  | disposition (value : RequestedDisposition) (reason : String) (hmutable : old.IsMutable)
      (hready : value = .ready ∨ value = .active → Ready t id old)
      (hactive : value = .active → ∃ claim, old.claim = some claim ∧ claim.releasePending = false)
      (hidle : value ≠ .active → old.isIdle = true) :
      Revised ctx t id old (disposedItem old value reason)
  | claim (holder : WorkHolder) (hmutable : old.IsMutable) (hidle : old.isIdle = true)
      (hready : Ready t id old) : Revised ctx t id old (claimedItem old holder)
  | release (claim : WorkClaim) (observation : Option WorkExecution)
      (hclaim : old.claim = some claim) : Revised ctx t id old (releasedItem old claim observation)
  | submit (evidence : List WorkEvidence) (hmutable : old.IsMutable) (hready : Ready t id old) :
      Revised ctx t id old { old with disposition := .completionClaimed, evidence }
  | refuse (reason : String) (hclaimed : old.disposition = .completionClaimed) :
      Revised ctx t id old { old with reason := some reason }
  | accept (observation : Option WorkExecution) (authority reason : String)
      (hready : Ready t id old) (hclaimed : old.disposition = .completionClaimed) :
      Revised ctx t id old (acceptedItem ctx old observation authority reason)
  | cancel (hmutable : old.IsMutable) :
      Revised ctx t id old { old with disposition := .cancelled, reason := some "record-cancelled" }
  | archive (hidle : old.isIdle = true)
      (hended : old.disposition = .completed ∨ old.disposition = .cancelled) :
      Revised ctx t id old
        { old with disposition := .archived, previousDisposition := some old.disposition }

/-! ## The parts of an operation -/

section
variable {ctx : WorkContext} {t t' : WorkTransaction} {id : WorkItemId} {item : WorkItem}

theorem save_ok (h : save ctx t id item = .ok t') : t'.tables = t.tables.putItem id item := by
  obtain ⟨-, -, h⟩ := except_bind_ok.1 h
  obtain ⟨-, -, h⟩ := except_bind_ok.1 h
  cases h
  rfl

theorem finish_ok (h : finish ctx t id item = .ok t') :
    t'.tables = t.tables.putItem id (stamped ctx item) := save_ok h

theorem live_ok : live t id = .ok item ↔
    t.tables.items.get id = some item ∧ item.deleted = false := by
  unfold live
  rcases hget : t.tables.items.get id with _ | found
  · exact ⟨nofun, fun h => (nomatch h.1)⟩
  · dsimp only
    by_cases hdeleted : found.deleted = true
    · rw [if_pos hdeleted]
      refine ⟨nofun, ?_⟩
      rintro ⟨h, hfalse⟩
      cases h
      rw [hdeleted] at hfalse
      cases hfalse
    · rw [if_neg hdeleted]
      constructor
      · intro h
        cases h
        exact ⟨rfl, Bool.eq_false_iff.2 hdeleted⟩
      · rintro ⟨h, -⟩
        cases h
        rfl

variable {u : Unit}

theorem requireIdle_ok (h : requireIdle item = .ok u) : item.isIdle = true := by
  simpa using refuseIf_ok.1 h

theorem requireMutable_ok (h : requireMutable item = .ok u) : item.IsMutable := by
  have hguard := refuseIf_ok.1 h
  rw [not_or] at hguard
  exact ⟨Bool.eq_false_iff.2 hguard.1, Bool.eq_false_iff.2 hguard.2⟩

theorem requireReady_ok (h : requireReady t id item = .ok u) : Ready t.tables id item := by
  obtain ⟨_, hguard, h⟩ := except_bind_ok.1 h
  have hguard := refuseIf_ok.1 hguard
  rw [not_or, not_not] at hguard
  refine ⟨hguard.1, Bool.eq_false_iff.2 hguard.2, fun dependency hedge => ?_⟩
  have hcheck := forM_ok_mem h dependency (WorkTables.mem_dependencies.2 hedge)
  obtain ⟨found, hlive, hcompleted⟩ := except_bind_ok.1 hcheck
  exact ⟨found, (live_ok.1 hlive).1, by simpa using refuseIf_ok.1 hcompleted⟩

theorem addressed_ok (h : addressed t id = .ok item) :
    t.tables.items.get id = some item ∧ item.deleted = false := by
  obtain ⟨-, -, h⟩ := except_bind_ok.1 h
  exact live_ok.1 h

theorem idle_claim (h : item.isIdle = true) : item.claim = none := by
  simp only [WorkItem.isIdle, Bool.and_eq_true, Option.isNone_iff_eq_none] at h
  exact h.1

end

/-! ## Deleting -/

section
variable {ctx : WorkContext} {t t' : WorkTransaction} {id : WorkItemId}

/-- One dependent of a task that is deleted. -/
theorem detachDependent_ok {dependent : WorkItemId}
    (h : detachDependent ctx id t dependent = .ok t') :
    ∃ item, t.tables.items.get dependent = some item ∧ item.deleted = false ∧ item.isIdle = true ∧
      item.completedWork = false ∧
      t'.tables = (t.tables.setEdge dependent id false).putItem dependent (orphanedItem ctx item) := by
  obtain ⟨item, hlive, h⟩ := except_bind_ok.1 h
  obtain ⟨_, hidle, h⟩ := except_bind_ok.1 h
  obtain ⟨_, hcompleted, h⟩ := except_bind_ok.1 h
  obtain ⟨hget, hdeleted⟩ := live_ok.1 hlive
  exact ⟨item, hget, hdeleted, requireIdle_ok hidle, Bool.eq_false_iff.2 (refuseIf_ok.1 hcompleted),
    save_ok h⟩

@[simp] theorem withoutDependencies_items (tables : WorkTables) (id : WorkItemId) :
    (withoutDependencies tables id).items = tables.items := by
  suffices h : ∀ (dependencies : List WorkItemId) (tables : WorkTables),
      (dependencies.foldl (fun tables dependency => tables.setEdge id dependency false) tables).items =
        tables.items from h _ tables
  intro dependencies
  induction dependencies with
  | nil => exact fun _ => rfl
  | cons dependency dependencies ih => exact fun tables => ih _

@[simp] theorem withoutDependencies_groups (tables : WorkTables) (id : WorkItemId) :
    (withoutDependencies tables id).groups = tables.groups := by
  suffices h : ∀ (dependencies : List WorkItemId) (tables : WorkTables),
      (dependencies.foldl (fun tables dependency => tables.setEdge id dependency false) tables).groups =
        tables.groups from h _ tables
  intro dependencies
  induction dependencies with
  | nil => exact fun _ => rfl
  | cons dependency dependencies ih => exact fun tables => ih _

@[simp] theorem withoutDependencies_placements (tables : WorkTables) (id : WorkItemId) :
    (withoutDependencies tables id).placements = tables.placements := by
  suffices h : ∀ (dependencies : List WorkItemId) (tables : WorkTables),
      (dependencies.foldl (fun tables dependency => tables.setEdge id dependency false)
        tables).placements = tables.placements from h _ tables
  intro dependencies
  induction dependencies with
  | nil => exact fun _ => rfl
  | cons dependency dependencies ih => exact fun tables => ih _

theorem mem_edges_withoutDependencies {tables : WorkTables} {edge : WorkItemId × WorkItemId} :
    edge ∈ (withoutDependencies tables id).edges ↔ edge ∈ tables.edges ∧ edge.1 ≠ id := by
  have hfold : ∀ (dependencies : List WorkItemId) (tables : WorkTables),
      edge ∈ (dependencies.foldl (fun tables dependency => tables.setEdge id dependency false)
        tables).edges ↔
      edge ∈ tables.edges ∧ ¬ (edge.1 = id ∧ edge.2 ∈ dependencies) := by
    intro dependencies
    induction dependencies with
    | nil => simp
    | cons dependency dependencies ih =>
      intro tables
      rw [List.foldl_cons, ih, WorkTables.mem_edges_setEdge_false, List.mem_cons]
      obtain ⟨a, b⟩ := edge
      rw [Ne, Prod.mk.injEq]
      tauto
  rw [withoutDependencies, hfold]
  refine and_congr_right fun hedge => not_congr ⟨fun h => h.1, fun h => ⟨h, ?_⟩⟩
  rw [WorkTables.mem_dependencies, ← h]
  exact hedge

/-- The edges that are left once the dependents are detached. -/
theorem edges_foldlM_detach : ∀ {dependents : List WorkItemId} {t t' : WorkTransaction},
    dependents.foldlM (detachDependent ctx id) t = .ok t' → ∀ edge,
      edge ∈ t'.tables.edges ↔ edge ∈ t.tables.edges ∧ ¬ (edge.2 = id ∧ edge.1 ∈ dependents) := by
  intro dependents
  induction dependents with
  | nil =>
    intro t t' h edge
    cases h
    simp
  | cons _ dependents ih =>
    intro t t' h edge
    rw [List.foldlM_cons] at h
    obtain ⟨t₁, hfirst, hrest⟩ := except_bind_ok.1 h
    obtain ⟨item, -, -, -, -, htables⟩ := detachDependent_ok hfirst
    rw [ih hrest, htables, WorkTables.putItem_edges, WorkTables.mem_edges_setEdge_false, List.mem_cons]
    obtain ⟨a, b⟩ := edge
    rw [Ne, Prod.mk.injEq]
    tauto

/-- The tasks that are not dependents stay as they are. -/
theorem items_foldlM_detach : ∀ {dependents : List WorkItemId} {t t' : WorkTransaction},
    dependents.foldlM (detachDependent ctx id) t = .ok t' → ∀ other, other ∉ dependents →
      t'.tables.items.get other = t.tables.items.get other := by
  intro dependents
  induction dependents with
  | nil =>
    intro t t' h other _
    cases h
    rfl
  | cons _ dependents ih =>
    intro t t' h other hother
    rw [List.foldlM_cons] at h
    obtain ⟨t₁, hfirst, hrest⟩ := except_bind_ok.1 h
    obtain ⟨item, -, -, -, -, htables⟩ := detachDependent_ok hfirst
    rw [List.mem_cons, not_or] at hother
    rw [ih hrest other hother.2, htables]
    exact OrderedMap.get_set_ne _ _ hother.1

end

/-! ## The operations -/

section
variable {ctx : WorkContext} {t t' : WorkTransaction} {id : WorkItemId}

theorem applyRelease_ok {old : WorkItem} {byHolder : Bool}
    (hget : t.tables.items.get id = some old) (hdeleted : old.deleted = false)
    (h : applyRelease ctx t id old byHolder = .ok t') :
    ∃ id old item, t.tables.items.get id = some old ∧ old.deleted = false ∧
      Revised ctx t.tables id old item ∧ t'.tables = t.tables.putItem id (stamped ctx item) := by
  unfold applyRelease at h
  rcases hclaim : old.claim with _ | claim
  · rw [hclaim] at h
    cases h
  · rw [hclaim] at h
    obtain ⟨-, -, h⟩ := except_bind_ok.1 h
    obtain ⟨-, -, h⟩ := except_bind_ok.1 h
    exact ⟨id, old, _, hget, hdeleted, .release claim _ hclaim, finish_ok h⟩

/-- What deleting a task does. -/
theorem delete_ok (h : applyWorkMutation ctx t (.delete id) = .ok t') :
    ∃ old t₁, t.tables.items.get id = some old ∧ old.deleted = false ∧ old.isIdle = true ∧
      (t.tables.dependents id).foldlM (detachDependent ctx id) t = .ok t₁ ∧
      t'.tables = (withoutDependencies t₁.tables id).putItem id
        (stamped ctx { old with deleted := true }) := by
  obtain ⟨-, -, h⟩ := except_bind_ok.1 h
  obtain ⟨old, hold, h⟩ := except_bind_ok.1 h
  obtain ⟨hget, hdeleted⟩ := addressed_ok hold
  obtain ⟨_, hidle, h⟩ := except_bind_ok.1 h
  obtain ⟨t₁, hdetach, h⟩ := except_bind_ok.1 h
  exact ⟨old, t₁, hget, hdeleted, requireIdle_ok hidle, hdetach, finish_ok h⟩

/-- **What an operation on a task does.** -/
theorem applyWorkMutation_cases {op : WorkMutation} (h : applyWorkMutation ctx t op = .ok t') :
    (∃ id fields, op = .add id fields ∧ t.tables.items.get id = none ∧
      t.tables.groups.get id = none ∧ t'.tables = t.tables.putItem id (addedItem ctx fields)) ∨
    (∃ id old item, t.tables.items.get id = some old ∧ old.deleted = false ∧
      Revised ctx t.tables id old item ∧ t'.tables = t.tables.putItem id (stamped ctx item)) ∨
    (∃ id dependency old, op = .link id dependency ∧ t.tables.items.get id = some old ∧
      old.IsMutable ∧ old.isIdle = true ∧ t.tables.LiveAt dependency ∧ dependency ≠ id ∧
      FrameSearch.findCycle (linkedDependencies t id dependency) ctx.steps [id] = some none ∧
      t'.tables = (t.tables.setEdge id dependency true).putItem id
        (stamped ctx (relinkedItem old false))) ∨
    (∃ id dependency old unresolved, op = .unlink id dependency ∧ t.tables.items.get id = some old ∧
      old.IsMutable ∧ old.isIdle = true ∧
      t'.tables = (t.tables.setEdge id dependency false).putItem id
        (stamped ctx (relinkedItem old unresolved))) ∨
    (∃ id old t₁, op = .delete id ∧ t.tables.items.get id = some old ∧ old.deleted = false ∧
      old.isIdle = true ∧
      (t.tables.dependents id).foldlM (detachDependent ctx id) t = .ok t₁ ∧
      t'.tables = (withoutDependencies t₁.tables id).putItem id
        (stamped ctx { old with deleted := true })) := by
  by_cases hop : ∃ id, op = .delete id
  · obtain ⟨id, rfl⟩ := hop
    obtain ⟨old, t₁, hdelete⟩ := delete_ok h
    exact .inr (.inr (.inr (.inr ⟨id, old, t₁, rfl, hdelete⟩)))
  obtain ⟨-, -, h⟩ := except_bind_ok.1 h
  rcases op with ⟨id, fields⟩ | ⟨id, update⟩ | ⟨id, dependency⟩ | ⟨id, dependency⟩ | ⟨id, blockers⟩ |
    ⟨id, value, reason⟩ | ⟨id, holder⟩ | id | id | ⟨id, claimGeneration, criteriaRevision, evidence⟩ |
    ⟨id, itemRevision, claimGeneration, criteriaRevision, evidence, authority, accept, reason⟩ |
    id | id | id
  · obtain ⟨_, hfresh, h⟩ := except_bind_ok.1 h
    obtain ⟨-, -, h⟩ := except_bind_ok.1 h
    have hfresh := refuseIf_ok.1 hfresh
    rw [not_or, Option.not_isSome_iff_eq_none, Option.not_isSome_iff_eq_none] at hfresh
    exact .inl ⟨id, fields, rfl, hfresh.1, hfresh.2, save_ok h⟩
  all_goals obtain ⟨old, hold, h⟩ := except_bind_ok.1 h
  all_goals obtain ⟨hget, hdeleted⟩ := addressed_ok hold
  · obtain ⟨_, hmutable, h⟩ := except_bind_ok.1 h
    obtain ⟨-, -, h⟩ := except_bind_ok.1 h
    obtain ⟨_, hidle, h⟩ := except_bind_ok.1 h
    refine .inr (.inl ⟨id, old, _, hget, hdeleted, .update update (requireMutable_ok hmutable) ?_,
      finish_ok h⟩)
    intro hchanges
    have hguard := refuseIf_ok.1 hidle
    simpa [hchanges] using hguard
  · obtain ⟨_, hmutable, h⟩ := except_bind_ok.1 h
    obtain ⟨_, hidle, h⟩ := except_bind_ok.1 h
    obtain ⟨found, hlive, h⟩ := except_bind_ok.1 h
    obtain ⟨_, hne, h⟩ := except_bind_ok.1 h
    rcases hcycle : FrameSearch.findCycle (linkedDependencies t id dependency) ctx.steps [id] with
      _ | _ | cycle
    · rw [hcycle] at h
      cases h
    · rw [hcycle] at h
      exact .inr (.inr (.inl ⟨id, dependency, old, rfl, hget, requireMutable_ok hmutable,
        requireIdle_ok hidle, ⟨found, live_ok.1 hlive⟩, refuseIf_ok.1 hne, hcycle, finish_ok h⟩))
    · rw [hcycle] at h
      cases h
  · obtain ⟨_, hmutable, h⟩ := except_bind_ok.1 h
    obtain ⟨_, hidle, h⟩ := except_bind_ok.1 h
    obtain ⟨found, -, h⟩ := except_bind_ok.1 h
    obtain ⟨-, -, h⟩ := except_bind_ok.1 h
    obtain ⟨-, -, h⟩ := except_bind_ok.1 h
    exact .inr (.inr (.inr (.inl ⟨id, dependency, old, _, rfl, hget, requireMutable_ok hmutable,
      requireIdle_ok hidle, finish_ok h⟩)))
  · obtain ⟨_, hmutable, h⟩ := except_bind_ok.1 h
    obtain ⟨_, hidle, h⟩ := except_bind_ok.1 h
    exact .inr (.inl ⟨id, old, _, hget, hdeleted,
      .blockers blockers (requireMutable_ok hmutable) (requireIdle_ok hidle), finish_ok h⟩)
  · obtain ⟨_, hmutable, h⟩ := except_bind_ok.1 h
    obtain ⟨_, hready, h⟩ := except_bind_ok.1 h
    obtain ⟨_, hactive, h⟩ := except_bind_ok.1 h
    obtain ⟨_, hidle, h⟩ := except_bind_ok.1 h
    refine .inr (.inl ⟨id, old, _, hget, hdeleted, .disposition value reason
      (requireMutable_ok hmutable) (fun hvalue => ?_) (fun hvalue => ?_) (fun hvalue => ?_),
      finish_ok h⟩)
    · rw [if_pos hvalue] at hready
      exact requireReady_ok hready
    · have hadmitted : holderAdmitted ctx old = true := by
        simpa [hvalue] using refuseIf_ok.1 hactive
      rcases hclaim : old.claim with _ | claim
      · simp [holderAdmitted, hclaim] at hadmitted
      · simp only [holderAdmitted, hclaim, Option.any_some, Bool.and_eq_true,
          Bool.not_eq_true'] at hadmitted
        exact ⟨claim, rfl, hadmitted.1⟩
    · simpa [hvalue] using refuseIf_ok.1 hidle
  · obtain ⟨_, hmutable, h⟩ := except_bind_ok.1 h
    obtain ⟨_, hidle, h⟩ := except_bind_ok.1 h
    obtain ⟨_, hready, h⟩ := except_bind_ok.1 h
    obtain ⟨-, -, h⟩ := except_bind_ok.1 h
    exact .inr (.inl ⟨id, old, _, hget, hdeleted, .claim holder (requireMutable_ok hmutable)
      (requireIdle_ok hidle) (requireReady_ok hready), finish_ok h⟩)
  · exact .inr (.inl (applyRelease_ok hget hdeleted h))
  · exact .inr (.inl (applyRelease_ok hget hdeleted h))
  · obtain ⟨_, hmutable, h⟩ := except_bind_ok.1 h
    obtain ⟨_, hready, h⟩ := except_bind_ok.1 h
    obtain ⟨-, -, h⟩ := except_bind_ok.1 h
    exact .inr (.inl ⟨id, old, _, hget, hdeleted,
      .submit evidence (requireMutable_ok hmutable) (requireReady_ok hready), finish_ok h⟩)
  · obtain ⟨_, hready, h⟩ := except_bind_ok.1 h
    obtain ⟨_, hclaimed, h⟩ := except_bind_ok.1 h
    obtain ⟨-, -, h⟩ := except_bind_ok.1 h
    have hclaimed : old.disposition = .completionClaimed := by
      by_contra hne
      exact refuseIf_ok.1 hclaimed (.inl hne)
    rcases accept with _ | _
    · rw [if_pos rfl] at h
      exact .inr (.inl ⟨id, old, _, hget, hdeleted, .refuse reason hclaimed, finish_ok h⟩)
    · rw [if_neg (by simp)] at h
      obtain ⟨-, -, h⟩ := except_bind_ok.1 h
      obtain ⟨-, -, h⟩ := except_bind_ok.1 h
      exact .inr (.inl ⟨id, old, _, hget, hdeleted,
        .accept _ authority reason (requireReady_ok hready) hclaimed, finish_ok h⟩)
  · obtain ⟨_, hmutable, h⟩ := except_bind_ok.1 h
    exact .inr (.inl ⟨id, old, _, hget, hdeleted, .cancel (requireMutable_ok hmutable), finish_ok h⟩)
  · obtain ⟨_, hidle, h⟩ := except_bind_ok.1 h
    obtain ⟨_, hended, h⟩ := except_bind_ok.1 h
    refine .inr (.inl ⟨id, old, _, hget, hdeleted, .archive (requireIdle_ok hidle) ?_, finish_ok h⟩)
    have hguard := refuseIf_ok.1 hended
    tauto
  · exact absurd ⟨id, rfl⟩ hop

end

end Falryn.Orchestration.WorkQueues
