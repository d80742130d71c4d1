import Falryn.Orchestration.WorkForestSteps

/-!
# Dispositions that end a task

A completed, cancelled or archived task is not to be reopened.  No operation on the task itself does;
but deleting a task sets whatever depends on it to blocked, a cancelled or archived dependent included.
`staysEnded_iff` is the exact condition under which an operation reopens nothing, `queue_stays_ended`
what follows for runs.
-/

namespace Falryn.Orchestration.WorkQueues

open WorkTables

/-! ## Staying ended -/

/-- Where a disposition that ends a task may lead. -/
def WorkDisposition.LeadsTo (old new : WorkDisposition) : Prop :=
  new = old ∨ (new = .archived ∧ (old = .completed ∨ old = .cancelled))

variable {a b : WorkDisposition}

theorem WorkDisposition.LeadsTo.trans {c : WorkDisposition} (h : a.LeadsTo b) (h' : b.LeadsTo c) :
    a.LeadsTo c := by
  rcases h with rfl | ⟨rfl, h⟩
  · exact h'
  · rcases h' with rfl | ⟨rfl, -⟩
    · exact .inr ⟨rfl, h⟩
    · exact .inr ⟨rfl, h⟩

theorem WorkDisposition.LeadsTo.isTerminal (h : a.LeadsTo b)
    (hended : a.isTerminal = true) : b.isTerminal = true := by
  rcases h with rfl | ⟨rfl, -⟩
  · exact hended
  · rfl

/-- Whether a task that was one way may be another later on: a deleted task stays deleted, and one that
has ended is deleted or moves on to being archived at most. -/
structure StaysEnded (old new : WorkItem) : Prop where
  deleted : old.deleted = true → new.deleted = true
  ended : old.disposition.isTerminal = true → new.deleted = true ∨ old.disposition.LeadsTo new.disposition

theorem StaysEnded.refl (item : WorkItem) : StaysEnded item item := ⟨fun h => h, fun _ => .inr (.inl rfl)⟩

theorem StaysEnded.trans {a b c : WorkItem} (h : StaysEnded a b) (h' : StaysEnded b c) :
    StaysEnded a c := by
  refine ⟨fun hdeleted => h'.deleted (h.deleted hdeleted), fun hended => ?_⟩
  rcases h.ended hended with hdeleted | hleads
  · exact .inl (h'.deleted hdeleted)
  · exact (h'.ended (hleads.isTerminal hended)).imp_right hleads.trans

/-- No task is lost, and none that has ended is reopened. -/
def AllStayEnded (t t' : WorkTables) : Prop :=
  ∀ id item, t.items.get id = some item → ∃ item', t'.items.get id = some item' ∧ StaysEnded item item'

theorem AllStayEnded.refl (t : WorkTables) : AllStayEnded t t := fun _ item h => ⟨item, h, .refl item⟩

theorem AllStayEnded.trans {a b c : WorkTables} (h : AllStayEnded a b) (h' : AllStayEnded b c) :
    AllStayEnded a c := by
  intro id item hget
  obtain ⟨item', hget', hended⟩ := h id item hget
  obtain ⟨item'', hget'', hended'⟩ := h' id item' hget'
  exact ⟨item'', hget'', hended.trans hended'⟩

variable {t : WorkTables} {t' : WorkTables}

theorem AllStayEnded.of_items (h : t'.items = t.items) : AllStayEnded t t' :=
  fun _ item hget => ⟨item, h ▸ hget, .refl item⟩

variable {id : WorkItemId} {old : WorkItem}

/-- One task written. -/
theorem AllStayEnded.write {item : WorkItem}
    (hget : t.items.get id = some old) (hitems : t'.items = t.items.set id item)
    (hended : StaysEnded old item) : AllStayEnded t t' := by
  intro other found hfound
  rw [hitems, OrderedMap.get_set]
  split_ifs with hsame
  · rw [hsame, hget] at hfound
    cases hfound
    exact ⟨item, rfl, hended⟩
  · exact ⟨found, hfound, .refl found⟩

/-! ## Operations on a task itself -/

section
variable {ctx : WorkContext} {t : WorkTables} {id : WorkItemId} {old item : WorkItem}

theorem StaysEnded.of_mutable (hmutable : old.IsMutable) : StaysEnded old item := by
  refine ⟨fun hdeleted => ?_, fun hended => ?_⟩
  · rw [hmutable.1] at hdeleted
    cases hdeleted
  · rw [hmutable.2] at hended
    cases hended

/-- No revision of a task reopens it. -/
theorem Revised.staysEnded (h : Sound t) (hget : t.items.get id = some old)
    (hrevised : Revised ctx t id old item) : StaysEnded old (stamped ctx item) := by
  have hdeleted : old.deleted = true → (stamped ctx item).deleted = true :=
    fun hdeleted => hrevised.deleted.trans hdeleted
  cases hrevised with
  | update update hmutable | blockers blockers hmutable | disposition value reason hmutable
  | claim _ hmutable | submit evidence hmutable | cancel hmutable => exact .of_mutable hmutable
  | release claim observation hclaim =>
    -- Of the tasks that have ended only a cancelled one may still be claimed.
    refine ⟨hdeleted, fun hended => .inr (.inl ?_)⟩
    have hopen : old.disposition ≠ .completed ∧ old.disposition ≠ .archived := by
      constructor
      all_goals
        intro hdisposition
        have hnone := (h.item hget).unclaimed (by tauto)
        rw [hclaim] at hnone
        cases hnone
    have hcancelled : old.disposition = .cancelled := by
      rcases hdisposition : old.disposition with _ | _ | _ | _ | _ | _ | _ | _ | _ <;>
        rw [hdisposition] at hended hopen <;> first | rfl | (cases hended; done) | tauto
    show (releasedItem old claim observation).disposition = old.disposition
    unfold releasedItem
    dsimp only
    rw [if_pos hcancelled, hcancelled]
  | refuse reason hclaimed => exact ⟨hdeleted, fun _ => .inr (.inl rfl)⟩
  | accept observation _ reason _ hclaimed =>
    refine ⟨hdeleted, fun hended => ?_⟩
    rw [hclaimed] at hended
    cases hended
  | archive _ hended => exact ⟨hdeleted, fun _ => .inr (.inr ⟨rfl, hended⟩)⟩

end

/-! ## Deletion -/

section
variable {ctx : WorkContext} {tx tx' : WorkTransaction} {id : WorkItemId}

/-- What a deletion makes of each task. -/
theorem delete_items (hdelete : applyWorkMutation ctx tx (.delete id) = .ok tx')
    {x : WorkItemId} {item : WorkItem} (hget : tx.tables.items.get x = some item) :
    (x = id ∧ ∃ item', tx'.tables.items.get x = some item' ∧ item'.deleted = true) ∨
    (x ≠ id ∧ (x, id) ∈ tx.tables.edges ∧ ∃ item', tx'.tables.items.get x = some item' ∧
      item'.deleted = false ∧ item'.disposition = .blocked) ∨
    (x ≠ id ∧ (x, id) ∉ tx.tables.edges ∧ tx'.tables.items.get x = some item) := by
  obtain ⟨old, tx₁, -, -, -, hdetach, htables⟩ := delete_ok hdelete
  by_cases hsame : x = id
  · subst hsame
    refine .inl ⟨rfl, stamped ctx { old with deleted := true }, ?_, rfl⟩
    rw [htables]
    exact OrderedMap.get_set_self _ _ _
  · have hitems : tx'.tables.items.get x = tx₁.tables.items.get x := by
      rw [htables]
      refine (OrderedMap.get_set_ne _ _ hsame).trans ?_
      rw [withoutDependencies_items]
    rw [hitems]
    by_cases hedge : (x, id) ∈ tx.tables.edges
    · exact .inr (.inl ⟨hsame, hedge, dependents_blocked hdetach x (mem_dependents.2 hedge)⟩)
    · refine .inr (.inr ⟨hsame, hedge, ?_⟩)
      rw [items_foldlM_detach hdetach x fun hmem => hedge (mem_dependents.1 hmem)]
      exact hget

/-- A deletion takes the edges of the task and no others. -/
theorem delete_edges (hdelete : applyWorkMutation ctx tx (.delete id) = .ok tx')
    (edge : WorkItemId × WorkItemId) :
    edge ∈ tx'.tables.edges ↔ edge ∈ tx.tables.edges ∧ edge.1 ≠ id ∧ edge.2 ≠ id := by
  obtain ⟨old, tx₁, -, -, -, hdetach, htables⟩ := delete_ok hdelete
  obtain ⟨a, b⟩ := edge
  rw [htables, putItem_edges, mem_edges_withoutDependencies, edges_foldlM_detach hdetach, mem_dependents]
  constructor
  · rintro ⟨⟨hedge, hnot⟩, hne⟩
    exact ⟨hedge, hne, fun heq => hnot ⟨heq, heq ▸ hedge⟩⟩
  · rintro ⟨hedge, hne, hne'⟩
    exact ⟨⟨hedge, fun h => hne' h.1⟩, hne⟩

end

/-! ## The condition -/

/-- The nodes an operation deletes with what depends on them. -/
def WorkOperation.removes : WorkOperation → List WorkItemId
  | .task (.delete id) => [id]
  | .hierarchy (.removeSubtree _ reviewed) => reviewed
  | _ => []

/-- No task that has ended, other than those an operation deletes, depends on one of them. -/
def SparesEnded (t : WorkTables) (operation : WorkOperation) : Prop :=
  ∀ removed ∈ operation.removes, ∀ other, (other, removed) ∈ t.edges → other ∉ operation.removes →
    ∀ item, t.items.get other = some item → item.disposition.isTerminal = false

/-- What follows from a part of a removal: tasks not removed stay ended as long as none of those with
an edge to a removed one has ended. -/
structure RemovalKeeps (removes : List WorkItemId) (t s : WorkTables) : Prop where
  kept : ∀ id item, t.items.get id = some item → ∃ item', s.items.get id = some item' ∧
    (id ∈ removes ∨ StaysEnded item item')
  spares : ∀ removed ∈ removes, ∀ other, (other, removed) ∈ s.edges → other ∉ removes →
    ∀ item, s.items.get other = some item → item.disposition.isTerminal = false

variable {removes : List WorkItemId} {tx tx' : WorkTransaction} {ctx : WorkContext}

theorem RemovalKeeps.delete (hsound : Sound tx.tables)
    (h : RemovalKeeps removes t tx.tables) (hid : id ∈ removes)
    (hdelete : applyWorkMutation ctx tx (.delete id) = .ok tx') : RemovalKeeps removes t tx'.tables := by
  refine ⟨fun x item hget => ?_, fun removed hremoved other hedge hother item hget => ?_⟩
  · obtain ⟨found, hfound, hkept⟩ := h.kept x item hget
    rcases delete_items hdelete hfound with ⟨rfl, item', hitem', -⟩ |
      ⟨-, hedge, item', hitem', -, hblocked⟩ | ⟨-, -, hitem'⟩
    · exact ⟨item', hitem', .inl hid⟩
    · refine ⟨item', hitem', ?_⟩
      by_cases hx : x ∈ removes
      · exact .inl hx
      · have hopen := h.spares id hid x hedge hx found hfound
        obtain ⟨live, hlive, hlivedeleted⟩ := (hsound.edge hedge).1
        rw [hfound] at hlive
        cases hlive
        exact .inr ((hkept.resolve_left hx).trans (.of_mutable ⟨hlivedeleted, hopen⟩))
    · exact ⟨found, hitem', hkept⟩
  · have hbefore := ((delete_edges hdelete (other, removed)).1 hedge).1
    obtain ⟨found, hfound, -⟩ := (hsound.edge hbefore).1
    rcases delete_items hdelete hfound with ⟨rfl, -⟩ | ⟨-, -, item', hitem', -, hblocked⟩ | ⟨-, -, hitem'⟩
    · exact absurd hid hother
    · rw [hget] at hitem'
      cases hitem'
      rw [hblocked]
      rfl
    · rw [hget] at hitem'
      cases hitem'
      exact h.spares removed hremoved other hbefore hother item hfound

variable {plan : List PlannedNode}

/-- A removal of nodes keeps what its condition promises. -/
theorem RemovalKeeps.removal {ctx : HierarchyContext} (hplan : ∀ node ∈ plan, node.id ∈ removes)
    (hsound : Sound tx.tables) (h : RemovalKeeps removes t tx.tables)
    (hremove : plan.foldlM (removePlanned ctx) tx = .ok tx') : RemovalKeeps removes t tx'.tables := by
  refine (foldlM_ok_invariant (P := fun s => Sound s.tables ∧ RemovalKeeps removes t s.tables)
    (fun s node hmem _ hs hstep => ?_) ⟨hsound, h⟩ hremove).2
  rcases removePlanned_cases hstep with ⟨-, group, -, -, htables⟩ | ⟨-, hdelete⟩
  · rw [htables]
    exact ⟨hs.1.putGroup _ _, hs.2.kept, hs.2.spares⟩
  · exact ⟨sound_applyWorkMutation hs.1 hdelete, hs.2.delete hs.1 (hplan node hmem) hdelete⟩

/-- A task that depends on a removed one and is not removed itself ends up blocked. -/
theorem blocked_of_removal {ctx : HierarchyContext}
    {other removed : WorkItemId} (hsound : Sound tx.tables) (hedge : (other, removed) ∈ tx.tables.edges)
    (hother : other ∉ plan.map PlannedNode.id) (hremove : plan.foldlM (removePlanned ctx) tx = .ok tx')
    (hgone : ¬ tx'.tables.NodeAt removed) :
    ∃ item, tx'.tables.items.get other = some item ∧ item.deleted = false ∧ item.disposition = .blocked := by
  have hstart : ∃ item, tx.tables.items.get other = some item ∧ item.deleted = false := (hsound.edge hedge).1
  obtain ⟨item, hitem, hlive⟩ := hstart
  have hend := foldlM_ok_invariant
    (P := fun s => Sound s.tables ∧ ∃ item, s.tables.items.get other = some item ∧ item.deleted = false ∧
      (item.disposition = .blocked ∨ (other, removed) ∈ s.tables.edges))
    (fun s _ hmem _ hs hstep => ?_) ⟨hsound, item, hitem, hlive, .inr hedge⟩ hremove
  · obtain ⟨hsound', item, hitem, hlive, hcase⟩ := hend
    refine ⟨item, hitem, hlive, hcase.resolve_right fun hedge => hgone ?_⟩
    obtain ⟨found, hfound, hfoundlive⟩ := (hsound'.edge hedge).2
    exact ⟨_, workNode_of_item hfound, hfoundlive⟩
  · obtain ⟨hs, item, hitem, hlive, hcase⟩ := hs
    rcases removePlanned_cases hstep with ⟨-, group, -, -, htables⟩ | ⟨-, hdelete⟩
    · rw [htables]
      exact ⟨hs.putGroup _ _, item, hitem, hlive, hcase⟩
    · refine ⟨sound_applyWorkMutation hs hdelete, ?_⟩
      rcases delete_items hdelete hitem with ⟨rfl, -⟩ | ⟨-, -, item', hitem', hlive', hblocked⟩ |
        ⟨hne, hnot, hitem'⟩
      · exact absurd (List.mem_map_of_mem hmem) hother
      · exact ⟨item', hitem', hlive', .inl hblocked⟩
      · refine ⟨item, hitem', hlive, hcase.imp_right fun hedge => ?_⟩
        refine (delete_edges hdelete (other, removed)).2 ⟨hedge, hne, ?_⟩
        rintro rfl
        exact hnot hedge

/-- Two lists without repetitions of one length, one within the other, have the same members. -/
theorem mem_plan_of_reviewed {reviewed : List WorkItemId}
    (hnodup : (plan.map PlannedNode.id).Nodup) (hlength : reviewed.dedup.length = plan.length)
    (hsub : ∀ node ∈ plan, node.id ∈ reviewed) (hid : id ∈ reviewed) :
    id ∈ plan.map PlannedNode.id := by
  have hle : (plan.map PlannedNode.id).toFinset ⊆ reviewed.toFinset := by
    intro x hx
    obtain ⟨node, hmem, rfl⟩ := List.mem_map.1 (List.mem_toFinset.1 hx)
    exact List.mem_toFinset.2 (hsub node hmem)
  have heq := Finset.eq_of_subset_of_card_le hle (by
    rw [List.card_toFinset, List.toFinset_card_of_nodup hnodup, List.length_map, hlength])
  exact List.mem_toFinset.1 (heq ▸ List.mem_toFinset.2 hid)

/-- A blocked task has not ended. -/
theorem not_staysEnded_of_blocked {new : WorkItem} (hended : old.disposition.isTerminal = true)
    (hlive : new.deleted = false) (hblocked : new.disposition = .blocked) : ¬ StaysEnded old new := by
  intro h
  rcases h.ended hended with hdeleted | hleads
  · rw [hlive] at hdeleted
    cases hdeleted
  · have hterminal := hleads.isTerminal hended
    rw [hblocked] at hterminal
    cases hterminal

/-- An operation on a task that deletes nothing reopens nothing. -/
theorem allStayEnded_of_not_delete {op : WorkMutation}
    (hsound : Sound tx.tables) (hop : ∀ id, op ≠ .delete id)
    (happly : applyWorkMutation ctx tx op = .ok tx') : AllStayEnded tx.tables tx'.tables := by
  rcases applyWorkMutation_cases happly with ⟨id, fields, -, hfresh, -, htables⟩ |
    ⟨id, old, item, hget, -, hrevised, htables⟩ | ⟨id, dependency, old, -, hget, hmutable, -, -, -, -, htables⟩ |
    ⟨id, dependency, old, unresolved, -, hget, hmutable, -, htables⟩ | ⟨id, old, tx₁, rfl, -⟩
  · rw [htables]
    intro other found hfound
    refine ⟨found, (OrderedMap.get_set_ne _ _ ?_).trans hfound, .refl found⟩
    rintro rfl
    rw [hfresh] at hfound
    cases hfound
  · rw [htables]
    exact .write hget rfl (hrevised.staysEnded hsound hget)
  · rw [htables]
    exact .write hget rfl (.of_mutable hmutable)
  · rw [htables]
    exact .write hget rfl (.of_mutable hmutable)
  · exact absurd rfl (hop id)

/-- Removing nodes, whatever is removed deleted in the end, reopens nothing exactly when it spares what
has ended. -/
theorem allStayEnded_removal_iff
    (hgone : ∀ x ∈ removes, ∀ item, tx'.tables.items.get x = some item → item.deleted = true)
    (hkeeps : RemovalKeeps removes tx.tables tx.tables → RemovalKeeps removes tx.tables tx'.tables)
    (hblocked : ∀ removed ∈ removes, ∀ other, (other, removed) ∈ tx.tables.edges → other ∉ removes →
      ∃ item, tx'.tables.items.get other = some item ∧ item.deleted = false ∧ item.disposition = .blocked) :
    AllStayEnded tx.tables tx'.tables ↔ ∀ removed ∈ removes, ∀ other, (other, removed) ∈ tx.tables.edges →
      other ∉ removes → ∀ item, tx.tables.items.get other = some item →
        item.disposition.isTerminal = false := by
  constructor
  · intro hall removed hremoved other hedge hother item hget
    obtain ⟨item', hitem', hlive, hblocked⟩ := hblocked removed hremoved other hedge hother
    obtain ⟨found, hfound, hended⟩ := hall other item hget
    rw [hitem'] at hfound
    cases hfound
    by_contra hterminal
    exact not_staysEnded_of_blocked (by simpa using hterminal) hlive hblocked hended
  · intro hspares
    have hstart : RemovalKeeps removes tx.tables tx.tables :=
      ⟨fun _ item hget => ⟨item, hget, .inr (.refl item)⟩, hspares⟩
    intro x item hget
    obtain ⟨item', hitem', hkept⟩ := (hkeeps hstart).kept x item hget
    refine ⟨item', hitem', hkept.elim (fun hx => ?_) (fun h => h)⟩
    have hdeleted := hgone x hx item' hitem'
    exact ⟨fun _ => hdeleted, fun _ => .inl hdeleted⟩

/-- **When an operation reopens nothing.**  Exactly when no task that has ended, other than those it
deletes, depends on one it deletes. -/
theorem allStayEnded_iff {revision : ℕ} {call : WorkCall}
    (hsound : Sound tx.tables) (hforest : tx.tables.Forest)
    (happly : applyOperation revision tx call = .ok tx') :
    AllStayEnded tx.tables tx'.tables ↔ SparesEnded tx.tables call.operation := by
  have hnone : ∀ {operation : WorkOperation}, operation.removes = [] →
      SparesEnded tx.tables operation := by
    intro operation hremoves removed hremoved
    rw [hremoves] at hremoved
    cases hremoved
  unfold applyOperation at happly
  rcases hcall : call.operation with operation | operation
  · rw [hcall] at happly
    by_cases hop : ∃ id, operation = .delete id
    · obtain ⟨id, rfl⟩ := hop
      refine allStayEnded_removal_iff (fun x hx item hget => ?_)
        (fun h => h.delete hsound List.mem_cons_self happly) fun removed hremoved other hedge hother => ?_
      · rw [List.mem_singleton.1 hx] at hget
        by_contra hlive
        exact (shrinks_delete happly).2 ⟨_, workNode_of_item hget, by simpa [WorkNode.deleted] using hlive⟩
      · rw [List.mem_singleton.1 hremoved] at hedge
        obtain ⟨item, hitem, -⟩ := (hsound.edge hedge).1
        rcases delete_items happly hitem with ⟨rfl, -⟩ | ⟨-, -, hblocked⟩ | ⟨-, hnot, -⟩
        · exact absurd List.mem_cons_self hother
        · exact hblocked
        · exact absurd hedge hnot
    · rw [not_exists] at hop
      refine iff_of_true (allStayEnded_of_not_delete hsound hop happly) (hnone ?_)
      cases operation with
      | delete id => exact absurd rfl (hop id)
      | _ => rfl
  · rw [hcall] at happly
    rcases applyHierarchyMutation_cases happly with
      ⟨id, subject, parent, position, depth, height, rfl, -, -, -, -, -, hplaced⟩ |
      ⟨id, parent, position, node, depth, height, rfl, -, -, -, -, -, hplaced⟩ |
      ⟨id, subject, group, rfl, -, -, htables⟩ | ⟨id, group, rfl, -, -, -, htables⟩ |
      ⟨id, reviewed, plan, ancestors, rfl, hgroup, hplan, ⟨hlength, hreviewed⟩, hremove⟩
    · exact iff_of_true (.of_items ((Placed_items hplaced).trans rfl)) (hnone rfl)
    · exact iff_of_true (.of_items (Placed_items hplaced)) (hnone rfl)
    · rw [htables]
      exact iff_of_true (.of_items rfl) (hnone rfl)
    · rw [htables]
      exact iff_of_true (.of_items rfl) (hnone rfl)
    · obtain ⟨hnodes, henough, -⟩ := removalVisit_ok hplan
      rw [List.nil_append] at hnodes
      have hforest' : (affect tx ancestors).tables.Forest := hforest
      have hsound' : Sound (affect tx ancestors).tables := hsound
      have hgone := (forest_removal hforest' (.refl _) (fun x hx => absurd hx List.not_mem_nil)
        (hnodes ▸ hforest.childrenFirst_postOrder hgroup henough) hremove).2.2
      have hsame : ∀ {x}, x ∈ reviewed → x ∈ plan.map PlannedNode.id := fun hx =>
        mem_plan_of_reviewed (hnodes ▸ hforest.nodup_postOrder hgroup henough) hlength hreviewed hx
      refine allStayEnded_removal_iff (fun x hx item hget => ?_) (fun h => ?_)
        fun removed hremoved other hedge hother => ?_
      · by_contra hlive
        refine hgone x (List.mem_append_left _ (hsame hx)) ⟨_, workNode_of_item hget, ?_⟩
        simpa [WorkNode.deleted] using hlive
      · have hstart : RemovalKeeps reviewed tx.tables (affect tx ancestors).tables := h
        exact hstart.removal hreviewed hsound' hremove
      · have hedge : (other, removed) ∈ (affect tx ancestors).tables.edges := hedge
        refine blocked_of_removal hsound' hedge (fun hmem => hother ?_) hremove
          (hgone removed (List.mem_append_left _ (hsame hremoved)))
        obtain ⟨node, hnode, rfl⟩ := List.mem_map.1 hmem
        exact hreviewed node hnode

/-- **Tasks that have ended.**  From any reachable queue, in every run whose deletions spare the tasks
that have ended, such a task stays completed, cancelled or archived, moving on to archived at most, or
is deleted. -/
theorem queue_stays_ended {q q' : WorkQueueState} (h : Reachable q) {batches : List (List WorkCall)}
    (hrun : StateMachine.run batchStep q batches = some q')
    (hspares : Throughout SparesEnded q batches) : AllStayEnded q.tables q'.tables :=
  (throughout_preserves (I := fun t => (Sound t ∧ t.Forest) ∧ AllStayEnded q.tables t)
    (fun ht hP happly => ⟨⟨sound_applyOperation ht.1.1 happly, forest_applyOperation ht.1.2 happly⟩,
      ht.2.trans ((allStayEnded_iff ht.1.1 ht.1.2 happly).2 hP)⟩)
    ⟨⟨h.sound, h.forest⟩, .refl _⟩ hspares hrun).2

/-- Whether a task of a queue is live and has a disposition. -/
def disposedIn (q : WorkQueueState) (id : WorkItemId) (disposition : WorkDisposition) : Bool :=
  (q.tables.items.get id).any fun item => !item.deleted && decide (item.disposition = disposition)

theorem disposedIn_iff {q : WorkQueueState} {disposition : WorkDisposition} :
    disposedIn q id disposition = true ↔ ∃ item, q.tables.items.get id = some item ∧
      item.deleted = false ∧ item.disposition = disposition := by
  unfold disposedIn
  rcases q.tables.items.get id with _ | item
  · exact ⟨nofun, fun ⟨_, h, _⟩ => (nomatch h)⟩
  · simp

theorem queue_stays_ended_spared : ∃ q q' : WorkQueueState, q.tables.edges = [("b", "a")] ∧
    StateMachine.run batchStep q [[taskCall (.delete "a")]] = some q' ∧ AllStayEnded q.tables q'.tables := by
  obtain ⟨q, hq, hp⟩ := reachable_of_any [[taskCall (.add "a" (plainFields "a"))], dependingBatch "b" "a"]
    (fun q => decide (q.tables.edges = [("b", "a")]) && disposedIn q "b" .pending &&
      (StateMachine.run batchStep q [[taskCall (.delete "a")]]).isSome) (by decide +kernel)
  rw [Bool.and_eq_true, Bool.and_eq_true, decide_eq_true_eq, disposedIn_iff] at hp
  obtain ⟨⟨hedges, item, hitem, -, hpending⟩, hrun⟩ := hp
  obtain ⟨q', hrun⟩ := Option.isSome_iff_exists.1 hrun
  refine ⟨q, q', hedges, hrun, queue_stays_ended hq hrun ⟨⟨?_, fun _ _ => trivial⟩, fun _ _ => trivial⟩⟩
  -- The only dependent is pending.
  intro removed _ other hedge _ found hfound
  have hedge : (other, removed) ∈ q.tables.edges := hedge
  have hfound : q.tables.items.get other = some found := hfound
  rw [hedges, List.mem_singleton, Prod.mk.injEq] at hedge
  rw [hedge.1, hitem] at hfound
  cases hfound
  rw [hpending]
  rfl

/-- Deleting a task reopens a cancelled one that depends on it. -/
theorem cancelled_reopened : ∃ q q' : WorkQueueState, Reachable q ∧
    batchStep q [taskCall (.delete "a")] = some q' ∧
    (∃ item, q.tables.items.get "b" = some item ∧ item.deleted = false ∧ item.disposition = .cancelled) ∧
    ∃ item, q'.tables.items.get "b" = some item ∧ item.deleted = false ∧ item.disposition = .blocked := by
  obtain ⟨q, hq, hp⟩ := reachable_of_any
    [[taskCall (.add "a" (plainFields "a"))], dependingBatch "b" "a", [taskCall (.cancel "b")]]
    (fun q => disposedIn q "b" .cancelled &&
      (batchStep q [taskCall (.delete "a")]).any fun q' => disposedIn q' "b" .blocked) (by decide +kernel)
  rw [Bool.and_eq_true, disposedIn_iff] at hp
  obtain ⟨hcancelled, hnext⟩ := hp
  rcases hstep : batchStep q [taskCall (.delete "a")] with _ | q'
  · rw [hstep] at hnext
    cases hnext
  · rw [hstep, Option.any_some, disposedIn_iff] at hnext
    exact ⟨q, q', hq, hstep, hcancelled, hnext⟩

end Falryn.Orchestration.WorkQueues
