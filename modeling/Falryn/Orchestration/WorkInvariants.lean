import Falryn.Orchestration.WorkSteps

/-!
# What holds of the tasks of a queue

The tasks and edges of a queue keep one invariant through every operation: edges join live tasks and
close no cycle, what is ready or active has nothing in its way, what is completed was accepted as it
stands, and claims are those of the last generation.  The parts need each other: a task stays ready
because what it depends on stays completed, which it does because a completed task has no claim left
to release and no dependency left to lose.
-/

namespace Falryn.Orchestration.WorkQueues

variable {t : WorkTables}

/-- What holds of a task. -/
structure ItemSound (t : WorkTables) (id : WorkItemId) (item : WorkItem) : Prop where
  /-- What is ready or active has nothing in its way. -/
  ready : item.disposition = .ready ∨ item.disposition = .active → Ready t id item
  /-- What is active is claimed, and the claim is not being given up. -/
  active : item.disposition = .active →
    ∃ claim, item.claim = some claim ∧ claim.releasePending = false
  /-- A claim is of the last generation. -/
  generation : ∀ claim, item.claim = some claim → claim.generation = item.claimGeneration
  /-- What is completed or archived is not claimed. -/
  unclaimed : item.disposition = .completed ∨ item.disposition = .archived → item.claim = none
  /-- What is completed was accepted by the criteria it has. -/
  accepted : item.completedWork = true →
    ∃ acceptance, item.acceptance = some acceptance ∧
      acceptance.criteriaRevision = item.criteriaRevision
  /-- What is completed depends on completed tasks only. -/
  dependencies : item.completedWork = true →
    ∀ dependency, (id, dependency) ∈ t.edges → t.CompletedAt dependency

/-- One task depends on another directly. -/
def WorkTables.DependsOn (t : WorkTables) (item dependency : WorkItemId) : Prop :=
  (item, dependency) ∈ t.edges

/-- What holds of the tasks and edges of a queue. -/
structure Sound (t : WorkTables) : Prop where
  item : ∀ {id item}, t.items.get id = some item → ItemSound t id item
  /-- Edges join live tasks. -/
  edge : ∀ {item dependency}, (item, dependency) ∈ t.edges → t.LiveAt item ∧ t.LiveAt dependency
  /-- Edges close no cycle. -/
  acyclic : ∀ id, ¬ Relation.TransGen t.DependsOn id id

theorem sound_empty : Sound .empty where
  item h := nomatch h
  edge h := nomatch h
  acyclic id h := by
    obtain ⟨_, hedge, -⟩ := Relation.TransGen.head'_iff.1 h
    cases hedge

namespace Sound

theorem not_self (h : Sound t) (id : WorkItemId) : (id, id) ∉ t.edges :=
  fun hedge => h.acyclic id (.single hedge)

/-- Fewer edges: everything that holds keeps holding. -/
theorem of_fewer_edges (h : Sound t) {t' : WorkTables} (hitems : t'.items = t.items)
    (hedges : ∀ edge, edge ∈ t'.edges → edge ∈ t.edges) : Sound t' := by
  have hcompleted : ∀ {id}, t.CompletedAt id → t'.CompletedAt id := by
    rintro id ⟨item, hget, hdone⟩
    exact ⟨item, hitems ▸ hget, hdone⟩
  have hlive : ∀ {id}, t.LiveAt id → t'.LiveAt id := by
    rintro id ⟨item, hget, hdone⟩
    exact ⟨item, hitems ▸ hget, hdone⟩
  refine ⟨fun {id item} hget => ?_, fun hedge => ?_, fun id hcycle => ?_⟩
  · have hold := h.item (hitems ▸ hget)
    refine { hold with
      ready := fun hready => ?_
      dependencies := fun hdone dependency hedge =>
        hcompleted (hold.dependencies hdone dependency (hedges _ hedge)) }
    have hready := hold.ready hready
    exact ⟨hready.blockers, hready.resolved, fun dependency hedge =>
      hcompleted (hready.dependencies dependency (hedges _ hedge))⟩
  · obtain ⟨hitem, hdependency⟩ := h.edge (hedges _ hedge)
    exact ⟨hlive hitem, hlive hdependency⟩
  · have hmono : t'.DependsOn ≤ t.DependsOn := fun _ _ hedge => hedges _ hedge
    exact h.acyclic id (Relation.TransGen.mono hmono _ _ hcycle)

variable {id : WorkItemId}

/-- One task written: the others keep what they had if it stays completed, or if nothing depends on
it, and stays live, or if it has no edges. -/
theorem putItem (h : Sound t) {item : WorkItem} (hitem : ItemSound (t.putItem id item) id item)
    (hcompleted : t.CompletedAt id → item.completedWork = true ∨ ∀ other, (other, id) ∉ t.edges)
    (hlive : item.deleted = false ∨ ∀ other, (other, id) ∉ t.edges ∧ (id, other) ∉ t.edges) :
    Sound (t.putItem id item) := by
  have hget : ∀ other, (t.putItem id item).items.get other =
      if other = id then some item else t.items.get other := fun other =>
    OrderedMap.get_set t.items id other item
  have hdone : ∀ {other dependency}, (other, dependency) ∈ t.edges → t.CompletedAt dependency →
      (t.putItem id item).CompletedAt dependency := by
    rintro other dependency hedge ⟨found, hfound, hdone⟩
    by_cases hsame : dependency = id
    · subst hsame
      rcases hcompleted ⟨found, hfound, hdone⟩ with hstill | hnone
      · exact ⟨item, (hget dependency).trans (if_pos rfl), hstill⟩
      · exact absurd hedge (hnone other)
    · exact ⟨found, (hget dependency).trans ((if_neg hsame).trans hfound), hdone⟩
  have hkeep : ∀ {other}, (∃ partner, (other, partner) ∈ t.edges ∨ (partner, other) ∈ t.edges) →
      t.LiveAt other → (t.putItem id item).LiveAt other := by
    rintro other ⟨partner, hedge⟩ ⟨found, hfound, halive⟩
    by_cases hsame : other = id
    · subst hsame
      rcases hlive with hlive | hnone
      · exact ⟨item, (hget other).trans (if_pos rfl), hlive⟩
      · exact absurd hedge (by simp [hnone partner])
    · exact ⟨found, (hget other).trans ((if_neg hsame).trans hfound), halive⟩
  refine ⟨fun {other found} hfound => ?_, fun {a b} hedge => ?_, h.acyclic⟩
  · rw [hget] at hfound
    split_ifs at hfound with hsame
    · cases hfound
      rw [hsame]
      exact hitem
    · have hold := h.item hfound
      refine { hold with
        ready := fun hready => ?_
        dependencies := fun hdone' dependency hedge =>
          hdone hedge (hold.dependencies hdone' dependency hedge) }
      have hready := hold.ready hready
      exact ⟨hready.blockers, hready.resolved, fun dependency hedge =>
        hdone hedge (hready.dependencies dependency hedge)⟩
  · obtain ⟨hitem, hdependency⟩ := h.edge hedge
    exact ⟨hkeep ⟨b, .inl hedge⟩ hitem, hkeep ⟨a, .inr hedge⟩ hdependency⟩

/-- What a task depends on is completed as before while the task itself is rewritten. -/
theorem completedAt_putItem (h : Sound t) {dependency : WorkItemId} (item : WorkItem)
    (hedge : (id, dependency) ∈ t.edges) (hdone : t.CompletedAt dependency) :
    (t.putItem id item).CompletedAt dependency := by
  obtain ⟨found, hfound, hdone⟩ := hdone
  have hne : dependency ≠ id := by
    rintro rfl
    exact h.not_self dependency hedge
  exact ⟨found, (OrderedMap.get_set_ne t.items item hne).trans hfound, hdone⟩

end Sound

/-! ## Revisions of a task -/

/-- A disposition of which nothing is asked. -/
def WorkDisposition.isInert : WorkDisposition → Bool
  | .pending => true
  | .waiting => true
  | .blocked => true
  | .completionClaimed => true
  | .cancelled => true
  | _ => false

variable {item : WorkItem} {id : WorkItemId}

theorem completedWork_iff : item.completedWork = true ↔ item.deleted = false ∧
      (item.disposition = .completed ∨
        (item.disposition = .archived ∧ item.previousDisposition = some .completed)) ∧
      item.acceptance.isSome = true := by
  simp [WorkItem.completedWork, and_assoc]

theorem itemSound_of_inert (hinert : item.disposition.isInert = true)
    (hgeneration : ∀ claim, item.claim = some claim → claim.generation = item.claimGeneration) :
    ItemSound t id item := by
  have hnot : ∀ {disposition : WorkDisposition}, disposition.isInert = false →
      item.disposition ≠ disposition := by
    rintro disposition hfalse rfl
    rw [hinert] at hfalse
    cases hfalse
  have hopen : ¬ item.completedWork = true := by
    rw [completedWork_iff]
    rintro ⟨-, hdone | ⟨hdone, -⟩, -⟩
    · exact hnot rfl hdone
    · exact hnot rfl hdone
  refine ⟨fun h => ?_, fun h => absurd h (hnot rfl), hgeneration, fun h => ?_, fun h => absurd h hopen,
    fun h => absurd h hopen⟩
  · rcases h with h | h
    · exact absurd h (hnot rfl)
    · exact absurd h (hnot rfl)
  · rcases h with h | h
    · exact absurd h (hnot rfl)
    · exact absurd h (hnot rfl)

theorem itemSound_of_ready
    (hdisposition : item.disposition = .ready ∨ item.disposition = .active) (hready : Ready t id item)
    (hactive : item.disposition = .active →
      ∃ claim, item.claim = some claim ∧ claim.releasePending = false)
    (hgeneration : ∀ claim, item.claim = some claim → claim.generation = item.claimGeneration) :
    ItemSound t id item := by
  have hnot : ∀ {P : Prop}, item.disposition = .completed ∨ item.disposition = .archived → P := by
    intro P hended
    rcases hdisposition with h | h <;> rw [h] at hended <;> rcases hended with h | h <;> cases h
  have hopen : ¬ item.completedWork = true := by
    rw [completedWork_iff]
    rintro ⟨-, hdone, -⟩
    exact hnot (hdone.imp_right And.left)
  exact ⟨fun _ => hready, hactive, hgeneration, hnot, fun h => absurd h hopen, fun h => absurd h hopen⟩

theorem not_completedWork_of_mutable (h : item.IsMutable) : ¬ item.completedWork = true := by
  rw [completedWork_iff]
  rintro ⟨-, hdone | ⟨hdone, -⟩, -⟩
  · have hterminal := h.2
    rw [hdone] at hterminal
    cases hterminal
  · have hterminal := h.2
    rw [hdone] at hterminal
    cases hterminal

section
variable {ctx : WorkContext} {id : WorkItemId} {old item : WorkItem}

/-- A task that is ready is ready under the tables in which it is saved. -/
theorem Ready.saved (h : Sound t) (hready : Ready t id old) (saved : WorkItem)
    (hblockers : saved.blockers = old.blockers)
    (hresolved : saved.unresolvedDependencies = old.unresolvedDependencies) :
    Ready (t.putItem id saved) id saved :=
  ⟨hblockers.trans hready.blockers, hresolved.trans hready.resolved, fun dependency hedge =>
    h.completedAt_putItem saved hedge (hready.dependencies dependency hedge)⟩

/-- A revised task is as it should be. -/
theorem Revised.itemSound (h : Sound t) (hget : t.items.get id = some old)
    (hrevised : Revised ctx t id old item) :
    ItemSound (t.putItem id (stamped ctx item)) id (stamped ctx item) := by
  have hold := h.item hget
  cases hrevised with
  | update update hmutable hidle =>
    by_cases hchanges : update.changesMeaning = true
    · refine itemSound_of_inert ?_ ?_
      · simp [stamped, updatedItem, hchanges, WorkDisposition.isInert]
      · simpa [stamped, updatedItem, hchanges] using hold.generation
    · have hsame : updatedItem update old = { old with fields := update.apply old.fields } := by
        simp [updatedItem, hchanges]
      rw [hsame]
      refine ⟨fun hready => (hold.ready hready).saved h _ rfl rfl, hold.active, hold.generation,
        hold.unclaimed, hold.accepted, fun hdone => ?_⟩
      exact absurd hdone (not_completedWork_of_mutable hmutable)
  | blockers blockers hmutable hidle =>
    refine itemSound_of_inert ?_ hold.generation
    by_cases hempty : blockers = [] <;>
      simp [stamped, blockedItem, hempty, WorkDisposition.isInert]
  | disposition value reason hmutable hready hactive hidle =>
    rcases value with _ | _ | _ | _ | _
    · exact itemSound_of_inert rfl hold.generation
    · exact itemSound_of_ready (.inl rfl) ((hready (.inl rfl)).saved h _ rfl rfl)
        nofun hold.generation
    · exact itemSound_of_ready (.inr rfl) ((hready (.inr rfl)).saved h _ rfl rfl)
        (fun _ => hactive rfl) hold.generation
    · exact itemSound_of_inert rfl hold.generation
    · exact itemSound_of_inert rfl hold.generation
  | claim _ hmutable hidle hready =>
    refine itemSound_of_ready (.inr rfl) (hready.saved h _ rfl rfl) (fun _ => ⟨_, rfl, rfl⟩) ?_
    intro claim hclaim
    cases hclaim
    rfl
  | release claim observation hclaim =>
    refine itemSound_of_inert ?_ ?_
    · show (releasedItem old claim observation).disposition.isInert = true
      unfold releasedItem
      dsimp only
      split_ifs <;> rfl
    · intro found hfound
      replace hfound : (if isStopped observation = true then none
        else some { claim with releasePending := true }) = some found := hfound
      split_ifs at hfound
      cases hfound
      exact hold.generation claim hclaim
  | submit _ hmutable hready | cancel hmutable =>
    exact itemSound_of_inert rfl hold.generation
  | refuse reason hclaimed =>
    refine itemSound_of_inert ?_ hold.generation
    show old.disposition.isInert = true
    rw [hclaimed]
    rfl
  | accept observation _ reason hready hclaimed =>
    refine ⟨fun hdisposition => ?_, nofun,
      nofun, fun _ => rfl, fun _ => ⟨_, rfl, rfl⟩,
      fun _ dependency hedge => h.completedAt_putItem _ hedge (hready.dependencies dependency hedge)⟩
    exact hdisposition.elim nofun nofun
  | archive hidle =>
    have hbefore : WorkItem.completedWork (stamped ctx
        { old with disposition := .archived, previousDisposition := some old.disposition }) = true →
        old.completedWork = true := by
      rw [completedWork_iff, completedWork_iff]
      rintro ⟨hdeleted, hdone | ⟨-, hdone⟩, haccepted⟩
      · cases hdone
      · exact ⟨hdeleted, .inl (Option.some.inj hdone), haccepted⟩
    refine ⟨fun hdisposition => ?_, nofun, hold.generation,
      fun _ => idle_claim hidle, fun hdone => hold.accepted (hbefore hdone),
      fun hdone dependency hedge => h.completedAt_putItem _ hedge
        (hold.dependencies (hbefore hdone) dependency hedge)⟩
    exact hdisposition.elim nofun nofun

/-- A completed task that is revised stays completed. -/
theorem Revised.completedWork (h : Sound t) (hget : t.items.get id = some old)
    (hrevised : Revised ctx t id old item) (hdone : old.completedWork = true) :
    (stamped ctx item).completedWork = true := by
  obtain ⟨hdeleted, hdisposition, haccepted⟩ := completedWork_iff.1 hdone
  have hclaimed : ∀ {P : Prop}, old.disposition = .completionClaimed → P := by
    intro P hclaimed
    rw [hclaimed] at hdisposition
    rcases hdisposition with h | ⟨h, -⟩ <;> cases h
  cases hrevised with
  | update update hmutable | blockers blockers hmutable | disposition value reason hmutable
  | claim _ hmutable | submit evidence hmutable | cancel hmutable =>
    exact absurd hdone (not_completedWork_of_mutable hmutable)
  | release claim observation hclaim =>
    have hnone := (h.item hget).unclaimed (hdisposition.imp_right And.left)
    rw [hclaim] at hnone
    cases hnone
  | refuse reason hclaim => exact hclaimed hclaim
  | accept observation _ reason _ hclaim => exact hclaimed hclaim
  | archive _ hended =>
    have hcompleted : old.disposition = .completed := by
      rcases hended with h | h
      · exact h
      · rw [h] at hdisposition
        rcases hdisposition with h | ⟨h, -⟩ <;> cases h
    exact completedWork_iff.2 ⟨hdeleted, .inr ⟨rfl, congrArg some hcompleted⟩, haccepted⟩

/-- No revision deletes a task. -/
theorem Revised.deleted (hrevised : Revised ctx t id old item) :
    (stamped ctx item).deleted = old.deleted := by
  cases hrevised with
  | update update =>
    show (updatedItem update old).deleted = old.deleted
    unfold updatedItem
    dsimp only
    split_ifs <;> rfl
  | _ => rfl

end

end Falryn.Orchestration.WorkQueues
