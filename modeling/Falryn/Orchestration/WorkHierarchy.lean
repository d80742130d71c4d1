import Falryn.Orchestration.WorkMutations

/-!
# Groups and places

The hierarchy over the tasks of a queue (`work-hierarchy.ts`): a forest of groups and tasks with
ordered siblings.  A generator over pages of siblings is the list of all of them, since nothing is
written while one runs.  The recursions over subtrees run on the steps the budget allows: each level
takes at least one step, so the code refuses no later than the model does.
-/

namespace Falryn.Orchestration.WorkQueues

/-! ## Order keys -/

/-- `ORDER_KEY_MAX`. -/
def orderKeyMax : ℕ := 128

/-- The lowest character of a key, "!". -/
def keyMin : ℕ := 33

/-- The highest character of a key, "~". -/
def keyMax : ℕ := 126

/-- The loop of `orderKeyBetween`, over the characters both keys have left.  A key that is absent or
used up stands below (or above) every character. -/
def orderKeyLoop : ℕ → List ℕ → List ℕ → List ℕ
  | 0, _, _ => []
  | fuel + 1, low, high =>
    let a := low.head?.getD (keyMin - 1)
    let b := high.head?.getD (keyMax + 1)
    if a = b then a :: orderKeyLoop fuel low.tail high.tail
    else if a + 1 < b then
      let middle := (a + b) / 2
      if middle = keyMin then [keyMin, (keyMin + keyMax) / 2] else [middle]
    else if a = keyMin - 1 then b :: orderKeyLoop fuel low.tail high.tail
    else a :: orderKeyLoop fuel low.tail []

/-- The characters of a key; none for an absent one. -/
def keyCodes (key : Option String) : List ℕ := (key.getD "").toList.map Char.toNat

/-- A key of characters. -/
def keyOfCodes (codes : List ℕ) : String := String.ofList (codes.map Char.ofNat)

/-- `orderKeyBetween` for keys in order. -/
def orderKeyBetween (low high : Option String) : String :=
  keyOfCodes (orderKeyLoop ((keyCodes low).length + (keyCodes high).length + 1)
    (keyCodes low) (keyCodes high))

/-- The width at which the keys of so many siblings are spread. -/
def spreadWidth (count : ℕ) : ℕ → ℕ → ℕ
  | 0, width => width
  | fuel + 1, width =>
    if (keyMax - keyMin + 1) ^ width ≤ (count + 1) * 2 then spreadWidth count fuel (width + 1)
    else width

/-- The digits of a number in the alphabet of the keys, the highest first. -/
def keyDigits : ℕ → ℕ → List ℕ
  | 0, _ => []
  | width + 1, value =>
    keyDigits width (value / (keyMax - keyMin + 1)) ++ [value % (keyMax - keyMin + 1) + keyMin]

def spreadOrderKeys (count : ℕ) : List String :=
  let width := spreadWidth count (count + 1) 1
  (List.range count).map fun index =>
    let digits := keyDigits width ((index + 1) * (keyMax - keyMin + 1) ^ width / (count + 1))
    keyOfCodes (if digits.getLast? = some keyMin then digits ++ [(keyMin + keyMax) / 2] else digits)

/-! ## Nodes and siblings -/

inductive WorkNode where
  | task (item : WorkItem)
  | group (heading : WorkGroup)

def WorkNode.deleted : WorkNode → Bool
  | .task item => item.deleted
  | .group heading => heading.deleted

namespace WorkTables

variable (t : WorkTables)

def workNode (id : WorkItemId) : Option WorkNode :=
  match t.items.get id with
  | some item => some (.task item)
  | none => (t.groups.get id).map .group

/-- `placementOf`: only a task may be a root without a row. -/
def placementOf (id : WorkItemId) : Except WorkQueueError WorkPlacement :=
  match t.placements.get id with
  | some placement => .ok placement
  | none =>
    if (t.groups.get id).isSome then .error (refusal .corrupt) else .ok { parent := none, order := id }

/-- The order of siblings: by key, then by id. -/
def childLE (a b : WorkChild) : Prop := a.order < b.order ∨ (a.order = b.order ∧ a.id ≤ b.id)

instance : DecidableRel childLE := fun _ _ => inferInstanceAs (Decidable (_ ∨ _))

/-- The rows under a parent; a task without a row is a root. -/
def childRows (parent : Option WorkItemId) : List WorkChild :=
  (t.placements.entries.filter fun entry => entry.2.parent = parent).map
      (fun entry => { id := entry.1, order := entry.2.order }) ++
    if parent = none then
      (t.items.keys.filter fun id => (t.placements.get id).isNone).map
        fun id => { id, order := id }
    else []

/-- Every sibling under a parent in order, deleted ones included. -/
def siblings (parent : Option WorkItemId) : List WorkChild := (t.childRows parent).insertionSort childLE

/-- `children(…, "forward")` from a sibling on. -/
def childrenAfter (parent : Option WorkItemId) (origin : WorkChild) (limit : ℕ) : List WorkChild :=
  ((t.siblings parent).filter fun child => ¬ childLE child origin).take limit

/-- `children(…, "backward")`, from the end or before a sibling. -/
def childrenBefore (parent : Option WorkItemId) (origin : Option WorkChild) (limit : ℕ) :
    List WorkChild :=
  ((t.siblings parent).reverse.filter fun child =>
    origin.all fun sibling => ¬ childLE sibling child).take limit

/-- One sibling of `liveChildren`: without a record it is corruption, a deleted one is skipped. -/
def gatherLive (children : List (WorkChild × WorkNode)) (child : WorkChild) :
    Except WorkQueueError (List (WorkChild × WorkNode)) :=
  match t.workNode child.id with
  | none => .error (refusal .corrupt)
  | some node => .ok (if node.deleted then children else children ++ [(child, node)])

def liveChildren (parent : Option WorkItemId) : Except WorkQueueError (List (WorkChild × WorkNode)) :=
  (t.siblings parent).foldlM t.gatherLive []

/-- `WORK_QUEUE_LIMITS.depth`. -/
def depthLimit : ℕ := 32

/-- The loop of `ancestorsOf`. -/
def ancestorsFrom : ℕ → List WorkItemId → Option WorkItemId → Except WorkQueueError (List WorkItemId)
  | _, chain, none => .ok chain
  | 0, _, some _ => .error (refusal .corrupt)
  | fuel + 1, chain, some parent =>
    match t.groups.get parent with
    | none => .error (refusal .recoveryRequired)
    | some group =>
      if group.deleted then .error (refusal .recoveryRequired)
      else if parent ∈ chain ∨ depthLimit ≤ chain.length then .error (refusal .corrupt)
      else do
        let placement ← t.placementOf parent
        ancestorsFrom fuel (chain ++ [parent]) placement.parent

/-- `ancestorsOf`: the groups above a node, the nearest first. -/
def ancestorsOf (id : WorkItemId) : Except WorkQueueError (List WorkItemId) := do
  let placement ← t.placementOf id
  t.ancestorsFrom (depthLimit + 1) [] placement.parent

/-- One child in the loop of `subtreeHeight`, given the height of a group. -/
def heightStep (visit : WorkItemId → Except WorkQueueError ℕ) (height : ℕ)
    (child : WorkChild × WorkNode) : Except WorkQueueError ℕ :=
  match child.2 with
  | .task _ => .ok height
  | .group _ => do
    let below ← visit child.1.id
    return max height (1 + below)

def subtreeHeight : ℕ → WorkItemId → Except WorkQueueError ℕ
  | 0, _ => .error outOfSteps
  | fuel + 1, group => do
    let children ← t.liveChildren (some group)
    children.foldlM (heightStep (subtreeHeight fuel)) 1

def liveGroup (id : WorkItemId) : Except WorkQueueError WorkGroup :=
  match t.groups.get id with
  | some group =>
    if group.deleted then
      .error (refusal (if (t.items.get id).isSome then .invalidHierarchy else .unavailable))
    else .ok group
  | none => .error (refusal (if (t.items.get id).isSome then .invalidHierarchy else .unavailable))

end WorkTables

/-! ## Requests -/

/-- Where among its siblings a node goes. -/
inductive WorkPosition where
  | atEnd
  | before (sibling : WorkItemId)
  | after (sibling : WorkItemId)

inductive WorkHierarchyMutation where
  | group (groupId : WorkItemId) (subject : String) (parentId : Option WorkItemId)
      (position : WorkPosition)
  | place (nodeId : WorkItemId) (parentId : Option WorkItemId) (position : WorkPosition)
  | rename (groupId : WorkItemId) (subject : String)
  | removeGroup (groupId : WorkItemId)
  | removeSubtree (groupId : WorkItemId) (reviewed : List WorkItemId)

/-- What an operation on the hierarchy is given besides its transaction. -/
structure HierarchyContext extends WorkContext where
  source : String
  sourceGeneration : String
  /-- Whether a group fits its schema and its size. -/
  validateGroup : WorkItemId → WorkGroup → Option WorkQueueError

/-! ## Effects -/

def place (t : WorkTransaction) (node : WorkItemId) (placement : WorkPlacement) : WorkTransaction :=
  { t with
    tables := { t.tables with placements := t.tables.placements.set node placement }
    placed := true }

def affect (t : WorkTransaction) (ids : List WorkItemId) : WorkTransaction :=
  { t with affected := ids.foldl (fun affected id => addId id affected) t.affected }

def saveGroup (ctx : HierarchyContext) (t : WorkTransaction) (id : WorkItemId) (group : WorkGroup) :
    Except WorkQueueError WorkTransaction := do
  refuseWith (ctx.validateGroup id group)
  refuseIf (batchLimit < (addId id t.changedGroups).length) outOfSteps
  return { t with
    tables := { t.tables with groups := t.tables.groups.set id group }
    changedGroups := addId id t.changedGroups
    affected := addId id t.affected }

/-! ## Placing a node -/

/-- The sibling a position names. -/
def siblingKey (t : WorkTables) (parent : Option WorkItemId) (node id : WorkItemId) :
    Except WorkQueueError WorkChild := do
  refuseIf (id = node) (refusal .invalidHierarchy)
  match t.workNode id with
  | none => .error (refusal .unavailable)
  | some found =>
    refuseIf (found.deleted = true) (refusal .unavailable)
    let placement ← t.placementOf id
    refuseIf (placement.parent ≠ parent) (refusal .invalidHierarchy)
    return { id, order := placement.order }

/-- The key of the first of some siblings that is not the node. -/
def otherOrder (node : WorkItemId) (children : List WorkChild) : Option String :=
  (children.find? fun child => child.id ≠ node).map WorkChild.order

/-- The keys a position lies between. -/
def positionBounds (t : WorkTables) (parent : Option WorkItemId) (node : WorkItemId) :
    WorkPosition → Except WorkQueueError (Option String × Option String)
  | .atEnd => .ok (otherOrder node (t.childrenBefore parent none 2), none)
  | .before sibling => do
    let sibling ← siblingKey t parent node sibling
    return (otherOrder node (t.childrenBefore parent (some sibling) 2), some sibling.order)
  | .after sibling => do
    let sibling ← siblingKey t parent node sibling
    return (some sibling.order, otherOrder node (t.childrenAfter parent sibling 2))

/-- Whether two keys leave no room between them. -/
def noRoom : Option String → Option String → Bool
  | some low, some high => decide (high ≤ low)
  | _, _ => false

/-- `positionKey`; `none` asks for a respaced list of siblings. -/
def positionKey (t : WorkTables) (parent : Option WorkItemId) (node : WorkItemId)
    (position : WorkPosition) : Except WorkQueueError (Option String) := do
  let (low, high) ← positionBounds t parent node position
  return if noRoom low high then none
    else
      let key := orderKeyBetween low high
      if orderKeyMax < key.length then none else some key

/-- `respace`: every sibling gets a new key. -/
def respace (t : WorkTransaction) (parent : Option WorkItemId) : WorkTransaction :=
  let siblings := t.tables.siblings parent
  (siblings.zipIdx).foldl (fun t entry =>
    place t entry.1.id
      { parent, order := ((spreadOrderKeys siblings.length)[entry.2]?).getD entry.1.order }) t

/-- The depth a node has under a parent, when it may be put there. -/
def depthUnder (t : WorkTables) (node : WorkItemId) :
    Option WorkItemId → Except WorkQueueError ℕ
  | none => .ok 1
  | some parent => do
    refuseIf (parent = node) (refusal .invalidHierarchy)
    let _ ← t.liveGroup parent
    let ancestors ← t.ancestorsOf parent
    -- Moving a group under its own descendant would close a cycle.
    refuseIf (node ∈ ancestors) (refusal .invalidHierarchy)
    return ancestors.length + 2

def placeNode (ctx : HierarchyContext) (t : WorkTransaction) (node : WorkItemId) (isGroup : Bool)
    (parent : Option WorkItemId) (position : WorkPosition) :
    Except WorkQueueError WorkTransaction := do
  let depth ← depthUnder t.tables node parent
  let height ← (if isGroup then t.tables.subtreeHeight ctx.steps node else .ok 1)
  refuseIf (WorkTables.depthLimit < depth + height - 1) (refusal .invalidHierarchy)
  match ← positionKey t.tables parent node position with
  | some order => return place t node { parent, order }
  | none =>
    let t := respace t parent
    match ← positionKey t.tables parent node position with
    | some order => return place t node { parent, order }
    | none => .error { code := .resourceExhausted, dimension := some .storage }

/-! ## Removing a subtree -/

/-- A node of a removal plan. -/
structure PlannedNode where
  id : WorkItemId
  isGroup : Bool

/-- One child in the loop of `removalOrder`, given what a visit to a group comes to: the nodes so far,
and whether all of them fit. -/
def removalStep (visit : WorkItemId → List PlannedNode → Except WorkQueueError (List PlannedNode × Bool))
    (limit : ℕ) (visited : List PlannedNode × Bool) (child : WorkChild × WorkNode) :
    Except WorkQueueError (List PlannedNode × Bool) :=
  if visited.2 = false then .ok visited
  else
    match child.2 with
    | .group _ => visit child.1.id visited.1
    | .task _ =>
      if limit ≤ visited.1.length then .ok (visited.1, false)
      else .ok (visited.1 ++ [{ id := child.1.id, isGroup := false }], true)

/-- The recursion of `removalOrder`: children before their group. -/
def removalVisit (t : WorkTables) (limit : ℕ) : ℕ → WorkItemId → List PlannedNode →
    Except WorkQueueError (List PlannedNode × Bool)
  | 0, _, _ => .error outOfSteps
  | fuel + 1, id, nodes => do
    let children ← t.liveChildren (some id)
    let (nodes, whole) ← children.foldlM (removalStep (removalVisit t limit fuel) limit) (nodes, true)
    return if whole = false ∨ limit ≤ nodes.length then (nodes, false)
      else (nodes ++ [{ id, isGroup := true }], true)

/-- `removalOrder`: the live subtree of a group. -/
def removalOrder (t : WorkTables) (steps : ℕ) (root : WorkItemId) (limit : ℕ) :
    Except WorkQueueError (List PlannedNode × Bool) :=
  removalVisit t limit steps root []

/-- A group marked as deleted. -/
def deletedGroup (ctx : HierarchyContext) (group : WorkGroup) : WorkGroup :=
  { group with deleted := true, revision := ctx.revision + 1, updatedAt := ctx.now }

/-- One node of a plan is removed. -/
def removePlanned (ctx : HierarchyContext) (t : WorkTransaction) (node : PlannedNode) :
    Except WorkQueueError WorkTransaction :=
  if node.isGroup then do
    let group ← t.tables.liveGroup node.id
    saveGroup ctx t node.id (deletedGroup ctx group)
  else applyWorkMutation ctx.toWorkContext t (.delete node.id)

/-! ## The operations -/

def applyHierarchyMutation (ctx : HierarchyContext) (t : WorkTransaction) :
    WorkHierarchyMutation → Except WorkQueueError WorkTransaction
  | .group groupId subject parentId position => do
    refuseWith ctx.budget
    refuseIf ((t.tables.items.get groupId).isSome = true ∨ (t.tables.groups.get groupId).isSome = true)
      (refusal .conflictingIdentity)
    let t ← saveGroup ctx t groupId
      { revision := ctx.revision + 1
        subject
        source := ctx.source
        sourceGeneration := ctx.sourceGeneration
        actor := ctx.authority.actor
        deleted := false
        createdAt := ctx.now
        updatedAt := ctx.now }
    let t ← placeNode ctx t groupId true parentId position
    match parentId with
    | none => return t
    | some parent =>
      let ancestors ← t.tables.ancestorsOf parent
      return affect t (parent :: ancestors)
  | .place nodeId parentId position => do
    refuseWith ctx.budget
    match t.tables.workNode nodeId with
    | none => .error (refusal .unavailable)
    | some node =>
      refuseIf (node.deleted = true) (refusal .unavailable)
      let ancestors ← t.tables.ancestorsOf nodeId
      let t ← placeNode ctx (affect t ancestors) nodeId
        (match node with | .group _ => true | .task _ => false) parentId position
      let ancestors ← t.tables.ancestorsOf nodeId
      return affect t ancestors
  | .rename groupId subject => do
    refuseWith ctx.budget
    let group ← t.tables.liveGroup groupId
    saveGroup ctx t groupId { group with subject, revision := ctx.revision + 1, updatedAt := ctx.now }
  | .removeGroup groupId => do
    refuseWith ctx.budget
    let group ← t.tables.liveGroup groupId
    (t.tables.siblings (some groupId)).forM fun child =>
      match t.tables.workNode child.id with
      | none => .error (refusal .corrupt)
      | some node => refuseIf (node.deleted = false) (refusal .blockedTransition)
    let ancestors ← t.tables.ancestorsOf groupId
    saveGroup ctx (affect t ancestors) groupId (deletedGroup ctx group)
  | .removeSubtree groupId reviewed => do
    refuseWith ctx.budget
    let _ ← t.tables.liveGroup groupId
    let plan ← removalOrder t.tables ctx.steps groupId batchLimit
    refuseIf (plan.2 = false) outOfSteps
    refuseIf (reviewed.dedup.length ≠ plan.1.length ∨ ∃ node ∈ plan.1, node.id ∉ reviewed)
      (refusal .staleEvidence)
    let ancestors ← t.tables.ancestorsOf groupId
    plan.1.foldlM (removePlanned ctx) (affect t ancestors)

end Falryn.Orchestration.WorkQueues
