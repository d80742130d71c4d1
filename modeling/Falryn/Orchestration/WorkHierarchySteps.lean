import Falryn.Orchestration.WorkSteps
import Falryn.Orchestration.WorkHierarchy

/-!
# What an operation on the hierarchy does

`applyHierarchyMutation_cases` says it once: a group is made and placed, a node is placed anew, a group
is renamed, an empty group is deleted, or a whole subtree is, node by node.
-/

namespace Falryn.Orchestration.WorkQueues

/-! ## Rows -/

namespace WorkTables

def putGroup (t : WorkTables) (id : WorkItemId) (group : WorkGroup) : WorkTables :=
  { t with groups := t.groups.set id group }

def setPlacement (t : WorkTables) (id : WorkItemId) (placement : WorkPlacement) : WorkTables :=
  { t with placements := t.placements.set id placement }

section
variable (t : WorkTables) (id : WorkItemId) (group : WorkGroup) (placement : WorkPlacement)

@[simp] theorem putGroup_items : (t.putGroup id group).items = t.items := rfl

@[simp] theorem putGroup_edges : (t.putGroup id group).edges = t.edges := rfl

@[simp] theorem putGroup_placements : (t.putGroup id group).placements = t.placements := rfl

@[simp] theorem setPlacement_items : (t.setPlacement id placement).items = t.items := rfl

@[simp] theorem setPlacement_edges : (t.setPlacement id placement).edges = t.edges := rfl

@[simp] theorem setPlacement_groups : (t.setPlacement id placement).groups = t.groups := rfl

end

/-- The parent a node is recorded under. -/
def parentOf (t : WorkTables) (id : WorkItemId) : Option WorkItemId :=
  (t.placements.get id).bind WorkPlacement.parent

/-- The key a node is ordered by. -/
def orderOf (t : WorkTables) (id : WorkItemId) : String :=
  ((t.placements.get id).map WorkPlacement.order).getD id

theorem parentOf_setPlacement (t : WorkTables) (id x : WorkItemId) (placement : WorkPlacement) :
    (t.setPlacement id placement).parentOf x = if x = id then placement.parent else t.parentOf x := by
  have hget : (t.setPlacement id placement).placements.get x =
      if x = id then some placement else t.placements.get x := OrderedMap.get_set ..
  unfold parentOf
  rw [hget]
  split_ifs with hx <;> rfl

theorem orderOf_setPlacement (t : WorkTables) (id x : WorkItemId) (placement : WorkPlacement) :
    (t.setPlacement id placement).orderOf x = if x = id then placement.order else t.orderOf x := by
  have hget : (t.setPlacement id placement).placements.get x =
      if x = id then some placement else t.placements.get x := OrderedMap.get_set ..
  unfold orderOf
  rw [hget]
  split_ifs with hx <;> rfl

/-- The group under an id is not deleted. -/
def GroupAt (t : WorkTables) (id : WorkItemId) : Prop :=
  ∃ group, t.groups.get id = some group ∧ group.deleted = false

variable {t : WorkTables} {id : WorkItemId}

theorem placementOf_ok {placement : WorkPlacement} (h : t.placementOf id = .ok placement) :
    placement.parent = t.parentOf id ∧ placement.order = t.orderOf id := by
  unfold placementOf at h
  unfold parentOf orderOf
  rcases hget : t.placements.get id with _ | found
  · rw [hget] at h
    dsimp only at h
    split_ifs at h
    cases h
    exact ⟨rfl, rfl⟩
  · rw [hget] at h
    cases h
    exact ⟨rfl, rfl⟩

theorem liveGroup_ok {group : WorkGroup} :
    t.liveGroup id = .ok group ↔ t.groups.get id = some group ∧ group.deleted = false := by
  unfold liveGroup
  rcases hget : t.groups.get id with _ | found
  · exact ⟨nofun, fun h => (nomatch h.1)⟩
  · dsimp only
    by_cases hdeleted : found.deleted = true
    · rw [if_pos hdeleted]
      refine ⟨nofun, ?_⟩
      rintro ⟨h, hfalse⟩
      cases h
      rw [hdeleted] at hfalse
      cases hfalse
    · rw [if_neg hdeleted]
      constructor
      · intro h
        cases h
        exact ⟨rfl, Bool.eq_false_iff.2 hdeleted⟩
      · rintro ⟨h, -⟩
        cases h
        rfl

/-- The tables with the siblings under a parent respaced. -/
def respaced (t : WorkTables) (parent : Option WorkItemId) : WorkTables :=
  ((t.siblings parent).zipIdx).foldl (fun tables entry =>
    tables.setPlacement entry.1.id
      { parent
        order := ((spreadOrderKeys (t.siblings parent).length)[entry.2]?).getD entry.1.order }) t

/-- A node placed under a parent: the key comes from the siblings as they are, or once they are
respaced. -/
inductive Placed (t : WorkTables) (node : WorkItemId) (parent : Option WorkItemId)
    (position : WorkPosition) : WorkTables → Prop where
  | direct (order : String) (hkey : positionKey t parent node position = .ok (some order)) :
      Placed t node parent position (t.setPlacement node { parent, order })
  | respaced (order : String) (hnone : positionKey t parent node position = .ok none)
      (hkey : positionKey (t.respaced parent) parent node position = .ok (some order)) :
      Placed t node parent position ((t.respaced parent).setPlacement node { parent, order })

end WorkTables

/-! ## The parts of an operation -/

section
variable {ctx : HierarchyContext} {t t' : WorkTransaction} {id : WorkItemId}
  {parent : Option WorkItemId}

@[simp] theorem affect_tables (t : WorkTransaction) (ids : List WorkItemId) :
    (affect t ids).tables = t.tables := rfl

theorem respace_tables (t : WorkTransaction) (parent : Option WorkItemId) :
    (respace t parent).tables = t.tables.respaced parent := by
  unfold respace WorkTables.respaced
  dsimp only
  generalize spreadOrderKeys (t.tables.siblings parent).length = keys
  generalize (t.tables.siblings parent).zipIdx = entries
  induction entries generalizing t with
  | nil => rfl
  | cons entry entries ih => exact ih (place t entry.1.id _)

theorem saveGroup_ok {group : WorkGroup} (h : saveGroup ctx t id group = .ok t') :
    t'.tables = t.tables.putGroup id group := by
  obtain ⟨-, -, h⟩ := except_bind_ok.1 h
  obtain ⟨-, -, h⟩ := except_bind_ok.1 h
  cases h
  rfl

/-- What holds where a node may be put. -/
theorem depthUnder_ok {tables : WorkTables} {depth : ℕ}
    (h : depthUnder tables id parent = .ok depth) :
    (parent = none ∧ depth = 1) ∨ ∃ above ancestors, parent = some above ∧ above ≠ id ∧
      tables.GroupAt above ∧ tables.ancestorsOf above = .ok ancestors ∧ id ∉ ancestors ∧
      depth = ancestors.length + 2 := by
  rcases parent with _ | above
  · cases h
    exact .inl ⟨rfl, rfl⟩
  · obtain ⟨_, hne, h⟩ := except_bind_ok.1 h
    obtain ⟨group, hgroup, h⟩ := except_bind_ok.1 h
    obtain ⟨ancestors, hancestors, h⟩ := except_bind_ok.1 h
    obtain ⟨_, hnot, h⟩ := except_bind_ok.1 h
    cases h
    exact .inr ⟨above, ancestors, rfl, refuseIf_ok.1 hne, ⟨group, WorkTables.liveGroup_ok.1 hgroup⟩,
      hancestors, refuseIf_ok.1 hnot, rfl⟩

/-- A node that was placed fits where it is. -/
theorem placeNode_ok {isGroup : Bool} {position : WorkPosition}
    (h : placeNode ctx t id isGroup parent position = .ok t') :
    ∃ depth height, depthUnder t.tables id parent = .ok depth ∧
      (if isGroup then t.tables.subtreeHeight ctx.steps id else .ok 1) = .ok height ∧
      depth + height - 1 ≤ WorkTables.depthLimit ∧
      t.tables.Placed id parent position t'.tables := by
  obtain ⟨depth, hdepth, h⟩ := except_bind_ok.1 h
  obtain ⟨height, hheight, h⟩ := except_bind_ok.1 h
  obtain ⟨_, hfits, h⟩ := except_bind_ok.1 h
  obtain ⟨key, hkey, h⟩ := except_bind_ok.1 h
  refine ⟨depth, height, hdepth, hheight, not_lt.1 (refuseIf_ok.1 hfits), ?_⟩
  rcases key with _ | order
  · obtain ⟨key, hkey', h⟩ := except_bind_ok.1 h
    rw [respace_tables] at hkey'
    rcases key with _ | order
    · cases h
    · cases h
      have hplaced := WorkTables.Placed.respaced order hkey hkey'
      rwa [← respace_tables] at hplaced
  · cases h
    exact .direct order hkey

end

/-! ## The operations -/

/-- Nothing under a group is live. -/
def WorkTables.IsHollow (t : WorkTables) (id : WorkItemId) : Prop :=
  ∀ child ∈ t.siblings (some id), ∃ node, t.workNode child.id = some node ∧ node.deleted = true

/-- A group just made. -/
def newGroup (ctx : HierarchyContext) (subject : String) : WorkGroup where
  revision := ctx.revision + 1
  subject
  source := ctx.source
  sourceGeneration := ctx.sourceGeneration
  actor := ctx.authority.actor
  deleted := false
  createdAt := ctx.now
  updatedAt := ctx.now

/-- **What an operation on the hierarchy does.** -/
theorem applyHierarchyMutation_cases {ctx : HierarchyContext} {t t' : WorkTransaction}
    {op : WorkHierarchyMutation} (h : applyHierarchyMutation ctx t op = .ok t') :
    (∃ id subject parent position depth height, op = .group id subject parent position ∧
      t.tables.items.get id = none ∧ t.tables.groups.get id = none ∧
      depthUnder (t.tables.putGroup id (newGroup ctx subject)) id parent = .ok depth ∧
      (t.tables.putGroup id (newGroup ctx subject)).subtreeHeight ctx.steps id = .ok height ∧
      depth + height - 1 ≤ WorkTables.depthLimit ∧
      (t.tables.putGroup id (newGroup ctx subject)).Placed id parent position t'.tables) ∨
    (∃ id parent position node depth height, op = .place id parent position ∧
      t.tables.workNode id = some node ∧ node.deleted = false ∧
      depthUnder t.tables id parent = .ok depth ∧
      (match node with
        | .group _ => t.tables.subtreeHeight ctx.steps id
        | .task _ => .ok 1) = .ok height ∧
      depth + height - 1 ≤ WorkTables.depthLimit ∧
      t.tables.Placed id parent position t'.tables) ∨
    (∃ id subject group, op = .rename id subject ∧ t.tables.groups.get id = some group ∧
      group.deleted = false ∧
      t'.tables = t.tables.putGroup id
        { group with subject, revision := ctx.revision + 1, updatedAt := ctx.now }) ∨
    (∃ id group, op = .removeGroup id ∧ t.tables.groups.get id = some group ∧
      group.deleted = false ∧ t.tables.IsHollow id ∧
      t'.tables = t.tables.putGroup id (deletedGroup ctx group)) ∨
    (∃ id reviewed plan ancestors, op = .removeSubtree id reviewed ∧ t.tables.GroupAt id ∧
      removalOrder t.tables ctx.steps id batchLimit = .ok (plan, true) ∧
      (reviewed.dedup.length = plan.length ∧ ∀ node ∈ plan, node.id ∈ reviewed) ∧
      plan.foldlM (removePlanned ctx) (affect t ancestors) = .ok t') := by
  rcases op with ⟨id, subject, parent, position⟩ | ⟨id, parent, position⟩ | ⟨id, subject⟩ | id |
    ⟨id, reviewed⟩
  all_goals obtain ⟨-, -, h⟩ := except_bind_ok.1 h
  · obtain ⟨_, hfresh, h⟩ := except_bind_ok.1 h
    obtain ⟨t₁, hsave, h⟩ := except_bind_ok.1 h
    obtain ⟨t₂, hplace, h⟩ := except_bind_ok.1 h
    have hfresh := refuseIf_ok.1 hfresh
    rw [not_or, Option.not_isSome_iff_eq_none, Option.not_isSome_iff_eq_none] at hfresh
    have hsaved : t₁.tables = t.tables.putGroup id (newGroup ctx subject) := saveGroup_ok hsave
    obtain ⟨depth, height, hdepth, hheight, hfits, hplaced⟩ := placeNode_ok hplace
    rw [hsaved] at hdepth hheight hplaced
    have htables : t'.tables = t₂.tables := by
      rcases parent with _ | parent
      · cases h
        rfl
      · obtain ⟨ancestors, -, h⟩ := except_bind_ok.1 h
        cases h
        rfl
    rw [htables]
    exact .inl ⟨id, subject, parent, position, depth, height, rfl, hfresh.1, hfresh.2, hdepth, hheight,
      hfits, hplaced⟩
  · rcases hnode : t.tables.workNode id with _ | node
    · rw [hnode] at h
      cases h
    · rw [hnode] at h
      obtain ⟨_, hdeleted, h⟩ := except_bind_ok.1 h
      obtain ⟨ancestors, -, h⟩ := except_bind_ok.1 h
      obtain ⟨t₁, hplace, h⟩ := except_bind_ok.1 h
      obtain ⟨ancestors', -, h⟩ := except_bind_ok.1 h
      obtain ⟨depth, height, hdepth, hheight, hfits, hplaced⟩ := placeNode_ok hplace
      cases h
      refine .inr (.inl ⟨id, parent, position, node, depth, height, rfl, hnode,
        Bool.eq_false_iff.2 (refuseIf_ok.1 hdeleted), hdepth, ?_, hfits, hplaced⟩)
      cases node with
      | task | group group => exact hheight
  · obtain ⟨group, hgroup, h⟩ := except_bind_ok.1 h
    obtain ⟨hget, hdeleted⟩ := WorkTables.liveGroup_ok.1 hgroup
    exact .inr (.inr (.inl ⟨id, subject, group, rfl, hget, hdeleted, saveGroup_ok h⟩))
  · obtain ⟨group, hgroup, h⟩ := except_bind_ok.1 h
    obtain ⟨_, hhollow, h⟩ := except_bind_ok.1 h
    obtain ⟨ancestors, -, h⟩ := except_bind_ok.1 h
    obtain ⟨hget, hdeleted⟩ := WorkTables.liveGroup_ok.1 hgroup
    have htables := saveGroup_ok h
    rw [affect_tables] at htables
    refine .inr (.inr (.inr (.inl ⟨id, group, rfl, hget, hdeleted, fun child hchild => ?_, htables⟩)))
    have hcheck := forM_ok_mem hhollow child hchild
    rcases hnode : t.tables.workNode child.id with _ | node
    · rw [hnode] at hcheck
      cases hcheck
    · rw [hnode] at hcheck
      exact ⟨node, rfl, by simpa using refuseIf_ok.1 hcheck⟩
  · obtain ⟨group, hgroup, h⟩ := except_bind_ok.1 h
    obtain ⟨⟨plan, whole⟩, hplan, h⟩ := except_bind_ok.1 h
    obtain ⟨_, hwhole, h⟩ := except_bind_ok.1 h
    obtain ⟨_, hreviewed, h⟩ := except_bind_ok.1 h
    obtain ⟨ancestors, -, h⟩ := except_bind_ok.1 h
    have hwhole : whole = true := by simpa using refuseIf_ok.1 hwhole
    subst hwhole
    have hreviewed := refuseIf_ok.1 hreviewed
    push Not at hreviewed
    exact .inr (.inr (.inr (.inr ⟨id, reviewed, plan, ancestors, rfl,
      ⟨group, WorkTables.liveGroup_ok.1 hgroup⟩, hplan, hreviewed, h⟩)))

end Falryn.Orchestration.WorkQueues
