import Falryn.Orchestration.WorkBatches
import Falryn.Orchestration.WorkHierarchySteps
import Falryn.Orchestration.WorkSoundness

/-!
# Tasks over the life of a queue

What holds of the tasks of every queue that committed batches lead to, and what later batches may
still do to a task that has ended.
-/

namespace Falryn.Orchestration.WorkQueues

/-! ## Operations on the hierarchy leave the tasks alone -/

section
variable {t t' : WorkTables} {node : WorkItemId} {parent : Option WorkItemId} {position : WorkPosition}

/-- What does not look at placements is the same of siblings respaced. -/
theorem respaced_preserves {P : WorkTables → Prop}
    (hstep : ∀ t id placement, P t → P (t.setPlacement id placement)) (t : WorkTables)
    (parent : Option WorkItemId) (h : P t) : P (t.respaced parent) := by
  unfold WorkTables.respaced
  generalize spreadOrderKeys (t.siblings parent).length = keys
  generalize (t.siblings parent).zipIdx = entries
  induction entries generalizing t with
  | nil => exact h
  | cons _ entries ih => exact ih _ (hstep t _ _ h)

@[simp] theorem respaced_items (t : WorkTables) (parent : Option WorkItemId) :
    (t.respaced parent).items = t.items :=
  respaced_preserves (P := fun s => s.items = t.items) (fun _ _ _ h => h) t parent rfl

@[simp] theorem respaced_edges (t : WorkTables) (parent : Option WorkItemId) :
    (t.respaced parent).edges = t.edges :=
  respaced_preserves (P := fun s => s.edges = t.edges) (fun _ _ _ h => h) t parent rfl

@[simp] theorem respaced_groups (t : WorkTables) (parent : Option WorkItemId) :
    (t.respaced parent).groups = t.groups :=
  respaced_preserves (P := fun s => s.groups = t.groups) (fun _ _ _ h => h) t parent rfl

theorem Placed_items (h : t.Placed node parent position t') : t'.items = t.items := by
  cases h with
  | direct order hkey => rfl
  | respaced order _ hkey => exact respaced_items t parent

theorem Placed_edges (h : t.Placed node parent position t') : t'.edges = t.edges := by
  cases h with
  | direct order hkey => rfl
  | respaced order _ hkey => exact respaced_edges t parent

theorem Placed_groups (h : t.Placed node parent position t') : t'.groups = t.groups := by
  cases h with
  | direct order hkey => rfl
  | respaced order _ hkey => exact respaced_groups t parent

end

variable {t' : WorkTransaction} {revision : ℕ} {call : WorkCall}

/-- What one node of a plan comes to. -/
theorem removePlanned_cases {ctx : HierarchyContext} {t : WorkTransaction} {node : PlannedNode}
    (h : removePlanned ctx t node = .ok t') :
    (node.isGroup = true ∧ ∃ group, t.tables.groups.get node.id = some group ∧
      group.deleted = false ∧ t'.tables = t.tables.putGroup node.id (deletedGroup ctx group)) ∨
    (node.isGroup = false ∧ applyWorkMutation ctx.toWorkContext t (.delete node.id) = .ok t') := by
  unfold removePlanned at h
  rcases hkind : node.isGroup with _ | _
  · rw [hkind, if_neg Bool.false_ne_true] at h
    exact .inr ⟨rfl, h⟩
  · rw [hkind, if_pos rfl] at h
    obtain ⟨group, hgroup, h⟩ := except_bind_ok.1 h
    obtain ⟨hget, hdeleted⟩ := WorkTables.liveGroup_ok.1 hgroup
    exact .inl ⟨rfl, group, hget, hdeleted, saveGroup_ok h⟩

/-- **The rule for what holds of tasks and edges.**  What every operation on a task keeps, every
operation keeps. -/
theorem applyOperation_tasks {I : WorkTables → Prop}
    (hcongr : ∀ {t t' : WorkTables}, t'.items = t.items → t'.edges = t.edges → I t → I t')
    (htask : ∀ {ctx tx tx' op}, I (WorkTransaction.tables tx) →
      applyWorkMutation ctx tx op = .ok tx' → I tx'.tables) {t : WorkTransaction} (h : I t.tables)
    (happly : applyOperation revision t call = .ok t') : I t'.tables := by
  have hgroup : ∀ {t : WorkTables} (id : WorkItemId) (group : WorkGroup), I t → I (t.putGroup id group) :=
    fun {t} id group ht => hcongr (t := t) rfl rfl ht
  unfold applyOperation at happly
  rcases hcall : call.operation with operation | operation
  · rw [hcall] at happly
    exact htask h happly
  · rw [hcall] at happly
    rcases applyHierarchyMutation_cases happly with
      ⟨id, subject, parent, position, depth, height, -, -, -, -, -, -, hplaced⟩ |
      ⟨id, parent, position, node, depth, height, -, -, -, -, -, -, hplaced⟩ |
      ⟨id, subject, group, -, -, -, htables⟩ | ⟨id, group, -, -, -, -, htables⟩ |
      ⟨id, reviewed, plan, ancestors, -, -, -, -, hremove⟩
    · exact hcongr (Placed_items hplaced) (Placed_edges hplaced) (hgroup id _ h)
    · exact hcongr (Placed_items hplaced) (Placed_edges hplaced) h
    · rw [htables]
      exact hgroup id _ h
    · rw [htables]
      exact hgroup id _ h
    · refine foldlM_ok_invariant (P := fun t => I t.tables) (fun t node _ t' ht hstep => ?_) h hremove
      rcases removePlanned_cases hstep with ⟨-, group, -, -, htables⟩ | ⟨-, hdelete⟩
      · rw [htables]
        exact hgroup node.id _ ht
      · exact htask ht hdelete

variable {t : WorkTables} {q : WorkQueueState}

theorem Sound.congr {t' : WorkTables} (hitems : t'.items = t.items) (hedges : t'.edges = t.edges)
    (h : Sound t) : Sound t' :=
  h.of_fewer_edges hitems fun _ hedge => hedges ▸ hedge

theorem Sound.putGroup (h : Sound t) (id : WorkItemId) (group : WorkGroup) :
    Sound (t.putGroup id group) := Sound.congr (t := t) rfl rfl h

theorem sound_applyOperation {t : WorkTransaction}
    (h : Sound t.tables) (happly : applyOperation revision t call = .ok t') : Sound t'.tables :=
  applyOperation_tasks Sound.congr sound_applyWorkMutation h happly

theorem Reachable.sound (h : Reachable q) : Sound q.tables :=
  h.invariant sound_empty fun ht _ happly => sound_applyOperation ht happly

/-! ## Dependents of a deleted task -/

section
variable {ctx : WorkContext} {id : WorkItemId}

/-- Dependents that could be detached were live and not completed. -/
theorem dependents_open : ∀ {dependents : List WorkItemId} {t t' : WorkTransaction},
    dependents.foldlM (detachDependent ctx id) t = .ok t' → ∀ dependent ∈ dependents,
      ∃ item, t.tables.items.get dependent = some item ∧ item.deleted = false ∧
        item.completedWork = false := by
  intro dependents
  induction dependents with
  | nil => nofun
  | cons first dependents ih =>
    intro t t' h dependent hmem
    rw [List.foldlM_cons] at h
    obtain ⟨t₁, hfirst, hrest⟩ := except_bind_ok.1 h
    obtain ⟨item, hget, hdeleted, -, hopen, htables⟩ := detachDependent_ok hfirst
    by_cases hsame : dependent = first
    · rw [hsame]
      exact ⟨item, hget, hdeleted, hopen⟩
    · obtain ⟨found, hfound, hrest⟩ := ih hrest dependent ((List.mem_cons.1 hmem).resolve_left hsame)
      rw [htables] at hfound
      exact ⟨found, (OrderedMap.get_set_ne _ _ hsame).symm.trans hfound, hrest⟩

/-- Dependents that were detached are blocked. -/
theorem dependents_blocked : ∀ {dependents : List WorkItemId} {t t' : WorkTransaction},
    dependents.foldlM (detachDependent ctx id) t = .ok t' → ∀ dependent ∈ dependents,
      ∃ item, t'.tables.items.get dependent = some item ∧ item.deleted = false ∧
        item.disposition = .blocked := by
  intro dependents
  induction dependents with
  | nil => nofun
  | cons first dependents ih =>
    intro t t' h dependent hmem
    rw [List.foldlM_cons] at h
    obtain ⟨t₁, hfirst, hrest⟩ := except_bind_ok.1 h
    obtain ⟨item, -, hdeleted, -, -, htables⟩ := detachDependent_ok hfirst
    by_cases hlater : dependent ∈ dependents
    · exact ih hrest dependent hlater
    · have hsame : dependent = first := (List.mem_cons.1 hmem).resolve_right hlater
      refine ⟨orphanedItem ctx item, ?_, hdeleted, rfl⟩
      rw [items_foldlM_detach hrest dependent hlater, htables, hsame]
      exact OrderedMap.get_set_self ..

end

/-! ## The dependencies of a task that has ended -/

/-- The task under an id is deleted. -/
def WorkTables.DeletedAt (t : WorkTables) (id : WorkItemId) : Prop :=
  ∃ item, t.items.get id = some item ∧ item.deleted = true

/-- From one state to a later one, a completed task stays completed and keeps its dependencies unless
it is deleted, and a deleted task stays deleted. -/
structure KeepsDependencies (t t' : WorkTables) : Prop where
  completed : ∀ id, t.CompletedAt id →
    t'.DeletedAt id ∨
      (t'.CompletedAt id ∧ ∀ dependency, (id, dependency) ∈ t'.edges ↔ (id, dependency) ∈ t.edges)
  deleted : ∀ id, t.DeletedAt id → t'.DeletedAt id

theorem KeepsDependencies.refl (t : WorkTables) : KeepsDependencies t t :=
  ⟨fun _ h => .inr ⟨h, fun _ => Iff.rfl⟩, fun _ h => h⟩

theorem KeepsDependencies.trans {a b c : WorkTables} (h : KeepsDependencies a b)
    (h' : KeepsDependencies b c) : KeepsDependencies a c := by
  refine ⟨fun id hdone => ?_, fun id hdeleted => h'.deleted id (h.deleted id hdeleted)⟩
  rcases h.completed id hdone with hdeleted | ⟨hdone, hedges⟩
  · exact .inl (h'.deleted id hdeleted)
  · rcases h'.completed id hdone with hdeleted | ⟨hdone, hedges'⟩
    · exact .inl hdeleted
    · exact .inr ⟨hdone, fun dependency => (hedges' dependency).trans (hedges dependency)⟩

theorem KeepsDependencies.congr {t' t'' : WorkTables} (hitems : t''.items = t'.items)
    (hedges : t''.edges = t'.edges) (h : KeepsDependencies t t') : KeepsDependencies t t'' := by
  refine h.trans ⟨fun id hdone => .inr ⟨?_, fun _ => by rw [hedges]⟩, fun id hdeleted => ?_⟩
  · obtain ⟨item, hget, hdone⟩ := hdone
    exact ⟨item, hitems ▸ hget, hdone⟩
  · obtain ⟨item, hget, hdeleted⟩ := hdeleted
    exact ⟨item, hitems ▸ hget, hdeleted⟩

variable {id : WorkItemId} {item : WorkItem}

/-- One task written: the others stay as they are. -/
theorem keepsDependencies_write {t' : WorkTables}
    (hother : ∀ other, other ≠ id → t'.items.get other = t.items.get other)
    (hedges : ∀ other dependency, other ≠ id → t.CompletedAt other →
      ((other, dependency) ∈ t'.edges ↔ (other, dependency) ∈ t.edges))
    (hcompleted : t.CompletedAt id → t'.DeletedAt id ∨
      (t'.CompletedAt id ∧ ∀ dependency, (id, dependency) ∈ t'.edges ↔ (id, dependency) ∈ t.edges))
    (hdeleted : t.DeletedAt id → t'.DeletedAt id) : KeepsDependencies t t' := by
  refine ⟨fun other hdone => ?_, fun other hgone => ?_⟩
  · by_cases hsame : other = id
    · rw [hsame] at hdone ⊢
      exact hcompleted hdone
    · refine .inr ⟨?_, fun dependency => hedges other dependency hsame hdone⟩
      obtain ⟨item, hget, hdone⟩ := hdone
      exact ⟨item, (hother other hsame).trans hget, hdone⟩
  · by_cases hsame : other = id
    · rw [hsame] at hgone ⊢
      exact hdeleted hgone
    · obtain ⟨item, hget, hgone⟩ := hgone
      exact ⟨item, (hother other hsame).trans hget, hgone⟩

theorem completedAt_iff
    (hget : t.items.get id = some item) : t.CompletedAt id ↔ item.completedWork = true := by
  constructor
  · rintro ⟨found, hfound, hdone⟩
    rw [hget] at hfound
    cases hfound
    exact hdone
  · exact fun hdone => ⟨item, hget, hdone⟩

theorem not_deletedAt
    (hget : t.items.get id = some item) (hdeleted : item.deleted = false) : ¬ t.DeletedAt id := by
  rintro ⟨found, hfound, hgone⟩
  rw [hget] at hfound
  cases hfound
  rw [hdeleted] at hgone
  cases hgone

/-- An operation on a task leaves the dependencies of those that have ended alone. -/
theorem keepsDependencies_applyWorkMutation {ctx : WorkContext} {tx tx' : WorkTransaction}
    {op : WorkMutation} (h : Sound tx.tables) (happly : applyWorkMutation ctx tx op = .ok tx') :
    KeepsDependencies tx.tables tx'.tables := by
  rcases applyWorkMutation_cases happly with ⟨id, fields, -, hfresh, -, htables⟩ |
    ⟨id, old, item, hget, hdeleted, hrevised, htables⟩ |
    ⟨id, dependency, old, -, hget, hmutable, -, -, -, -, htables⟩ |
    ⟨id, dependency, old, unresolved, -, hget, hmutable, -, htables⟩ |
    ⟨id, old, tx₁, -, hget, -, -, hdetach, htables⟩
  · have hnone : ∀ {P : WorkItem → Prop}, ¬ ∃ item, tx.tables.items.get id = some item ∧ P item := by
      rintro P ⟨item, hget, -⟩
      rw [hfresh] at hget
      cases hget
    rw [htables]
    exact keepsDependencies_write (fun other hne => OrderedMap.get_set_ne _ _ hne)
      (fun _ _ _ _ => Iff.rfl) (fun hdone => absurd hdone hnone) (fun hgone => absurd hgone hnone)
  · rw [htables]
    refine keepsDependencies_write (fun other hne => OrderedMap.get_set_ne _ _ hne)
      (fun _ _ _ _ => Iff.rfl) (fun hdone => .inr ⟨?_, fun _ => Iff.rfl⟩)
      (fun hgone => absurd hgone (not_deletedAt hget hdeleted))
    exact ⟨_, OrderedMap.get_set_self _ _ _,
      hrevised.completedWork h hget ((completedAt_iff hget).1 hdone)⟩
  · rw [htables]
    refine keepsDependencies_write (fun other hne => OrderedMap.get_set_ne _ _ hne)
      (fun other b hne _ => ?_) (fun hdone => ?_) (fun hgone => absurd hgone (not_deletedAt hget hmutable.1))
    · rw [WorkTables.putItem_edges, WorkTables.mem_edges_setEdge_true, Prod.mk.injEq]
      exact or_iff_right fun heq => hne heq.1
    · exact absurd ((completedAt_iff hget).1 hdone) (not_completedWork_of_mutable hmutable)
  · rw [htables]
    refine keepsDependencies_write (fun other hne => OrderedMap.get_set_ne _ _ hne)
      (fun other b hne _ => ?_) (fun hdone => ?_) (fun hgone => absurd hgone (not_deletedAt hget hmutable.1))
    · rw [WorkTables.putItem_edges, WorkTables.mem_edges_setEdge_false, Ne, Prod.mk.injEq]
      exact and_iff_left fun heq => hne heq.1
    · exact absurd ((completedAt_iff hget).1 hdone) (not_completedWork_of_mutable hmutable)
  · rw [htables]
    have hgone : ((withoutDependencies tx₁.tables id).putItem id
        (stamped ctx { old with deleted := true })).DeletedAt id :=
      ⟨_, OrderedMap.get_set_self _ _ _, rfl⟩
    -- Detaching the dependents: none of them has ended.
    have hopen : ∀ other, tx.tables.CompletedAt other ∨ tx.tables.DeletedAt other →
        other ∉ tx.tables.dependents id := by
      intro other hended hmem
      obtain ⟨item, hitem, hlive, hopen⟩ := dependents_open hdetach other hmem
      rcases hended with hdone | hgone
      · rw [(completedAt_iff hitem).1 hdone] at hopen
        cases hopen
      · exact not_deletedAt hitem hlive hgone
    have hitems : ∀ other, other ≠ id → other ∉ tx.tables.dependents id →
        ((withoutDependencies tx₁.tables id).putItem id
          (stamped ctx { old with deleted := true })).items.get other = tx.tables.items.get other := by
      intro other hne hnot
      refine (OrderedMap.get_set_ne _ _ hne).trans ?_
      rw [withoutDependencies_items]
      exact items_foldlM_detach hdetach other hnot
    refine ⟨fun other hdone => ?_, fun other hended => ?_⟩
    · by_cases hsame : other = id
      · exact .inl (hsame ▸ hgone)
      · have hnot := hopen other (.inl hdone)
        obtain ⟨item, hitem, hdone⟩ := hdone
        refine .inr ⟨⟨item, (hitems other hsame hnot).trans hitem, hdone⟩, fun dependency => ?_⟩
        rw [WorkTables.putItem_edges, mem_edges_withoutDependencies, edges_foldlM_detach hdetach,
          and_iff_left hsame]
        exact and_iff_left fun hdependent => hnot hdependent.2
    · by_cases hsame : other = id
      · exact hsame ▸ hgone
      · have hnot := hopen other (.inr hended)
        obtain ⟨item, hitem, hended⟩ := hended
        exact ⟨item, (hitems other hsame hnot).trans hitem, hended⟩

/-- **The tasks of a queue.**  In every queue that committed batches lead to, dependencies join live
tasks and close no cycle, and every task is as its disposition says (`Sound`); and whatever batches
follow, a completed task keeps exactly its dependencies until it is deleted, and a deleted task stays
deleted. -/
theorem queue_sound {q : WorkQueueState} (h : Reachable q) :
    Sound q.tables ∧ ∀ batches q', StateMachine.run batchStep q batches = some q' →
      KeepsDependencies q.tables q'.tables := by
  refine ⟨h.sound, fun batches q' hrun => ?_⟩
  refine h.relates sound_empty (fun {revision t t' call} ht _ happly => ⟨sound_applyOperation ht happly, ?_⟩)
    KeepsDependencies.refl KeepsDependencies.trans hrun
  refine (applyOperation_tasks (I := fun s => Sound s ∧ KeepsDependencies t.tables s)
    (fun hitems hedges hs => ⟨hs.1.congr hitems hedges, hs.2.congr hitems hedges⟩)
    (fun hs hstep => ⟨sound_applyWorkMutation hs.1 hstep,
      hs.2.trans (keepsDependencies_applyWorkMutation hs.1 hstep)⟩)
    ⟨ht, .refl _⟩ happly).2

/-- A task is added, submitted and accepted in one batch. -/
def completingBatch (id : WorkItemId) : List WorkCall :=
  let evidence : List WorkEvidence := [⟨"report", "1", "agent"⟩]
  [taskCall (.add id (plainFields id)), taskCall (.submit id 0 1 evidence),
    taskCall (.validate id 2 0 1 evidence "owner" true "accepted")]

/-- A task is added that depends on another. -/
def dependingBatch (id dependency : WorkItemId) : List WorkCall :=
  [taskCall (.add id (plainFields id)), taskCall (.link id dependency)]

/-- Whether a task of a queue is completed. -/
def completedIn (q : WorkQueueState) (id : WorkItemId) : Bool :=
  (q.tables.items.get id).any WorkItem.completedWork

theorem completedAt_of_completedIn (h : completedIn q id = true) : q.tables.CompletedAt id := by
  unfold completedIn at h
  rcases hget : q.tables.items.get id with _ | item
  · rw [hget] at h
    cases h
  · rw [hget] at h
    exact ⟨item, hget, h⟩

theorem queue_sound_depended_on : ∃ q : WorkQueueState, q.tables.CompletedAt "a" ∧
    ("b", "a") ∈ q.tables.edges ∧ Sound q.tables ∧
      ∀ batches q', StateMachine.run batchStep q batches = some q' →
        KeepsDependencies q.tables q'.tables := by
  obtain ⟨q, hq, hp⟩ := reachable_of_any [completingBatch "a", dependingBatch "b" "a"]
    (fun q => completedIn q "a" && decide (("b", "a") ∈ q.tables.edges)) (by decide +kernel)
  rw [Bool.and_eq_true, decide_eq_true_eq] at hp
  exact ⟨q, completedAt_of_completedIn hp.1, hp.2, queue_sound hq⟩

/-- A completed task may gain an edge: another task comes to depend on it. -/
theorem completed_gains_dependent : ∃ q q' : WorkQueueState, ∃ batch, Reachable q ∧
    batchStep q batch = some q' ∧ q.tables.CompletedAt "a" ∧ q'.tables.CompletedAt "a" ∧
    ("b", "a") ∉ q.tables.edges ∧ ("b", "a") ∈ q'.tables.edges := by
  obtain ⟨q, hq, hp⟩ := reachable_of_any [completingBatch "a"]
    (fun q => completedIn q "a" && decide (("b", "a") ∉ q.tables.edges) &&
      (batchStep q (dependingBatch "b" "a")).any fun q' =>
        completedIn q' "a" && decide (("b", "a") ∈ q'.tables.edges)) (by decide +kernel)
  rw [Bool.and_eq_true, Bool.and_eq_true, decide_eq_true_eq] at hp
  obtain ⟨⟨hdone, hnot⟩, hnext⟩ := hp
  rcases hstep : batchStep q (dependingBatch "b" "a") with _ | q'
  · rw [hstep] at hnext
    cases hnext
  · rw [hstep, Option.any_some, Bool.and_eq_true, decide_eq_true_eq] at hnext
    exact ⟨q, q', _, hq, hstep, completedAt_of_completedIn hdone, completedAt_of_completedIn hnext.1,
      hnot, hnext.2⟩

end Falryn.Orchestration.WorkQueues
