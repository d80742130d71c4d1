import Falryn.Orchestration.WorkDepth
import Falryn.Orchestration.WorkSiblings

/-!
# Going through a subtree

`nextInSubtree` keeps no state between its calls: it finds the node after another in pre-order by
looking below it, then among the siblings after it, then among those after each of its parents.  Called
again and again it visits what is live below a root, every node right before what is below it
(`visits_preOrder`).  A climb passes every parent at most once, so as many steps as there are rows are
enough for it.
-/

namespace Falryn.Orchestration.WorkQueues
namespace WorkTables

/-! ## The search -/

/-- A node that is visited. -/
abbrev WorkVisit := WorkChild × WorkNode

variable (t : WorkTables)

/-- The first node a run of `liveChildren` over some siblings yields. -/
def firstLive : List WorkChild → Except WorkQueueError (Option WorkVisit)
  | [] => .ok none
  | child :: rest =>
    match t.workNode child.id with
    | none => .error (refusal .corrupt)
    | some node => if node.deleted then firstLive rest else .ok (some (child, node))

/-- The loop of `nextInSubtree`: the first live sibling after a node, or after a parent of it. -/
def climb (root : Option WorkItemId) : ℕ → WorkItemId → Except WorkQueueError (Option WorkVisit)
  | 0, _ => .error outOfSteps
  | fuel + 1, id => do
    let placement ← t.placementOf id
    -- A cursor that climbs out of the requested subtree no longer belongs to it.
    refuseIf (placement.parent = none ∧ root ≠ none) (refusal .stalePage)
    let next ← t.firstLive ((t.siblings placement.parent).filter fun child =>
      ¬ childLE child ⟨id, placement.order⟩)
    match next, placement.parent with
    | some found, _ => .ok (some found)
    | none, none => .ok none
    | none, some parent => if some parent = root then .ok none else climb root fuel parent

def nextInSubtree (root : Option WorkItemId) : Option WorkItemId → Except WorkQueueError (Option WorkVisit)
  | none => t.firstLive (t.siblings root)
  | some current =>
    match t.workNode current with
    | none => .error (refusal .stalePage)
    | some node => do
      refuseIf (node.deleted = true) (refusal .stalePage)
      let below ← match node with
        | .group _ => t.firstLive (t.siblings (some current))
        | .task _ => .ok none
      match below with
      | some first => .ok (some first)
      | none => t.climb root (t.placements.size + 1) current

/-- What repeated calls of `nextInSubtree` visit, from a node on, until nothing is left. -/
inductive Visits (root : Option WorkItemId) : Option WorkItemId → List WorkVisit → Prop where
  | done {cursor : Option WorkItemId} (h : t.nextInSubtree root cursor = .ok none) :
      Visits root cursor []
  | next {cursor : Option WorkItemId} {visit : WorkVisit} {rest : List WorkVisit}
      (h : t.nextInSubtree root cursor = .ok (some visit)) (hrest : Visits root (some visit.1.id) rest) :
      Visits root cursor (visit :: rest)

/-! ## The order of visits -/

/-- The live nodes of so many levels below a parent, each right before what is below it. -/
def levelsBelow : ℕ → Option WorkItemId → List WorkVisit
  | 0, _ => []
  | levels + 1, parent =>
    (t.liveSiblings parent).flatMap fun child =>
      child :: match child.2 with
        | .group _ => levelsBelow levels (some child.1.id)
        | .task _ => []

/-- The live nodes below a parent in pre-order; tasks sit one level below the deepest groups. -/
def preOrder (parent : Option WorkItemId) : List WorkVisit := t.levelsBelow (depthLimit + 1) parent

/-- What is strictly below a root; without one, everything. -/
def Below (t : WorkTables) : Option WorkItemId → WorkItemId → Prop
  | none, _ => True
  | some root, x => t.Within root x ∧ x ≠ root

variable {t}
variable {parent root : Option WorkItemId} {id : WorkItemId} {found : Option WorkVisit}

/-- So many levels are enough below a parent. -/
def LevelsSuffice (t : WorkTables) : ℕ → Option WorkItemId → Prop
  | 0, _ => False
  | levels + 1, parent => ∀ child ∈ t.liveSiblings parent,
      match child.2 with
      | .group _ => LevelsSuffice t levels (some child.1.id)
      | .task _ => True

/-- How deep what is right below a parent sits. -/
def DepthBelow (t : WorkTables) (parent : Option WorkItemId) (depth : ℕ) : Prop :=
  (parent = none ∧ depth = 1) ∨
    ∃ id chain, parent = some id ∧ t.GroupAt id ∧ t.ParentChain id chain ∧ depth = chain.length + 2

section
variable (h : t.Forest) {x : WorkItemId}
include h

theorem DepthBelow.child {depth : ℕ} (hdepth : t.DepthBelow parent depth) {child : WorkChild}
    {heading : WorkGroup} (hmem : (child, WorkNode.group heading) ∈ t.liveSiblings parent) :
    t.DepthBelow (some child.id) (depth + 1) := by
  obtain ⟨hget, hdeleted, hparent, -⟩ := h.mem_liveSiblings.1 hmem
  have hgroup : t.GroupAt child.id := ⟨heading, (workNode_eq_group.1 hget).2, hdeleted⟩
  rcases hdepth with ⟨rfl, rfl⟩ | ⟨id, chain, rfl, -, hchain, rfl⟩
  · exact .inr ⟨child.id, [], rfl, hgroup, .root hparent, rfl⟩
  · exact .inr ⟨child.id, id :: chain, rfl, hgroup, .under hparent hchain, rfl⟩

/-- Groups are within the depth limit, so as many levels as it leaves suffice. -/
theorem levelsSuffice (hgroups : GroupsWithin t) : ∀ {levels depth : ℕ} {parent : Option WorkItemId},
    t.DepthBelow parent depth → depthLimit + 2 ≤ depth + levels → t.LevelsSuffice levels parent := by
  intro levels
  induction levels with
  | zero =>
    intro depth parent hdepth hle
    rcases hdepth with ⟨-, rfl⟩ | ⟨id, chain, -, hgroup, hchain, rfl⟩
    · exact absurd hle (by decide)
    · have hwithin := hgroups id chain hgroup hchain
      omega
  | succ levels ih =>
    rintro depth parent hdepth hle ⟨child, node⟩ hmem
    cases node with
    | task => trivial
    | group => exact ih (hdepth.child h hmem) (by omega)

theorem preOrder_suffices (hgroups : GroupsWithin t) (hroot : ∀ id ∈ parent, t.GroupAt id) :
    t.LevelsSuffice (depthLimit + 1) parent := by
  rcases parent with _ | id
  · exact levelsSuffice h hgroups (.inl ⟨rfl, rfl⟩) (by omega)
  · obtain ⟨chain, hchain⟩ := h.rooted id
    exact levelsSuffice h hgroups (.inr ⟨id, chain, rfl, hroot id rfl, hchain, rfl⟩) (by omega)

/-- A live node below a parent is one of its live children, or below one. -/
theorem Below.cases (hlive : t.NodeAt x) (hbelow : t.Below parent x) :
    ∃ child node, (child, node) ∈ t.liveSiblings parent ∧ t.Within child.id x := by
  rcases parent with _ | root
  · obtain ⟨chain, hchain⟩ := h.rooted x
    induction hchain with
    | @root x hnone =>
      obtain ⟨node, hnode, hdeleted⟩ := hlive
      refine ⟨⟨x, t.orderOf x⟩, node, ?_, .refl⟩
      rw [← hnone]
      exact h.exists_liveSibling hnode hdeleted
    | under hsome _ ih =>
      obtain ⟨child, node, hmem, hwithin⟩ := ih (h.nodeAt_group (h.parent hlive hsome)) trivial
      exact ⟨child, node, hmem, .head hsome hwithin⟩
  · exact (h.within_cases hlive hbelow.1).resolve_left hbelow.2

/-- What is right below a parent is below it, with all that is below that. -/
theorem below_of_within {child : WorkItemId} (hparent : t.parentOf child = parent)
    (hwithin : t.Within child x) : t.Below parent x := by
  rcases parent with _ | root
  · trivial
  · refine ⟨hwithin.tail hparent, ?_⟩
    rintro rfl
    exact h.not_within_of_under hparent hwithin

/-- **What is visited**: every live node below the root, as it is. -/
theorem mem_levelsBelow : ∀ {levels : ℕ} {parent : Option WorkItemId} {child : WorkChild} {node : WorkNode},
    t.LevelsSuffice levels parent → ((child, node) ∈ t.levelsBelow levels parent ↔
      t.workNode child.id = some node ∧ node.deleted = false ∧ t.Below parent child.id ∧
        t.orderOf child.id = child.order) := by
  intro levels
  induction levels with
  | zero => exact fun hsuffice => hsuffice.elim
  | succ levels ih =>
    intro parent child node hsuffice
    rw [levelsBelow, List.mem_flatMap]
    constructor
    · rintro ⟨⟨first, firstNode⟩, hmem, hvisit⟩
      obtain ⟨hget, hdeleted, hparent, horder⟩ := h.mem_liveSiblings.1 hmem
      rcases List.mem_cons.1 hvisit with heq | hvisit
      · cases heq
        exact ⟨hget, hdeleted, below_of_within h hparent .refl, horder⟩
      · cases firstNode with
        | task item => exact absurd hvisit List.not_mem_nil
        | group heading =>
          obtain ⟨hget', hdeleted', hbelow, horder'⟩ := (ih (hsuffice _ hmem)).1 hvisit
          exact ⟨hget', hdeleted', below_of_within h hparent hbelow.1, horder'⟩
    · rintro ⟨hget, hdeleted, hbelow, horder⟩
      obtain ⟨first, firstNode, hmem, hwithin⟩ := Below.cases h ⟨node, hget, hdeleted⟩ hbelow
      obtain ⟨hfirst, -, hparent, hfirstOrder⟩ := h.mem_liveSiblings.1 hmem
      refine ⟨(first, firstNode), hmem, ?_⟩
      by_cases hsame : child.id = first.id
      · rw [hsame, hfirst] at hget
        obtain rfl : firstNode = node := Option.some.inj hget
        obtain rfl : child = first := by
          obtain ⟨id, order⟩ := child
          obtain ⟨id', order'⟩ := first
          obtain rfl : id = id' := hsame
          exact congrArg (WorkChild.mk id) (horder.symm.trans hfirstOrder)
        exact List.mem_cons_self
      · refine List.mem_cons_of_mem _ ?_
        cases firstNode with
        | task item =>
          exact absurd (h.eq_of_within_task (workNode_eq_task.1 hfirst) ⟨node, hget, hdeleted⟩ hwithin) hsame
        | group heading => exact (ih (hsuffice _ hmem)).2 ⟨hget, hdeleted, ⟨hwithin, hsame⟩, horder⟩

/-- No node is visited twice. -/
theorem nodup_levelsBelow : ∀ {levels : ℕ} {parent : Option WorkItemId}, t.LevelsSuffice levels parent →
    ((t.levelsBelow levels parent).map fun visit => visit.1.id).Nodup := by
  intro levels
  induction levels with
  | zero => exact fun hsuffice => hsuffice.elim
  | succ levels ih =>
    intro parent hsuffice
    rw [levelsBelow, List.map_flatMap, List.nodup_flatMap]
    have hbelow : ∀ visit ∈ t.liveSiblings parent, ∀ x ∈ (match visit.2 with
          | .group _ => t.levelsBelow levels (some visit.1.id)
          | .task _ => []).map (fun found : WorkVisit => found.1.id), t.Within visit.1.id x ∧ x ≠ visit.1.id := by
      rintro ⟨child, node⟩ hmem x hx
      obtain ⟨⟨found, foundNode⟩, hfound, rfl⟩ := List.mem_map.1 hx
      cases node with
      | task item => exact absurd hfound List.not_mem_nil
      | group heading => exact ((mem_levelsBelow h (hsuffice _ hmem)).1 hfound).2.2.1
    constructor
    · rintro ⟨child, node⟩ hmem
      rw [List.map_cons]
      refine List.nodup_cons.2 ⟨fun hself => (hbelow _ hmem _ hself).2 rfl, ?_⟩
      cases node with
      | task item => exact List.nodup_nil
      | group heading => exact ih (hsuffice _ hmem)
    · refine (List.pairwise_map.1 (t.nodup_liveSiblings parent)).imp_of_mem ?_
      intro a b ha hb hne x hxa hxb
      have hwithin : ∀ visit ∈ t.liveSiblings parent, x ∈ ((visit :: match visit.2 with
          | .group _ => t.levelsBelow levels (some visit.1.id)
          | .task _ => []).map fun found : WorkVisit => found.1.id) → t.Within visit.1.id x := by
        intro visit hmem hx
        rw [List.map_cons] at hx
        rcases List.mem_cons.1 hx with rfl | hx
        · exact .refl
        · exact (hbelow visit hmem x hx).1
      have hparents := (h.mem_liveSiblings.1 ha).2.2.1.trans (h.mem_liveSiblings.1 hb).2.2.1.symm
      exact h.not_within_siblings hparents hne (hwithin a ha hxa) (hwithin b hb hxb)

end

/-! ## The search finds the next node -/

/-- The rows of the placements bound every chain of parents. -/
theorem ParentChain.length_le {x : WorkItemId} {chain : List WorkItemId} (h : t.ParentChain x chain) :
    chain.length ≤ t.placements.size := by
  have hplaced : ∀ {x : WorkItemId} {chain : List WorkItemId}, t.ParentChain x chain →
      ∀ y ∈ (x :: chain).dropLast, y ∈ t.placements.keys := by
    intro x chain h
    induction h with
    | root => nofun
    | under hsome _ ih =>
      intro y hy
      rw [List.dropLast_cons_cons] at hy
      rcases List.mem_cons.1 hy with rfl | hy
      · obtain ⟨placement, hplacement, -⟩ := Option.bind_eq_some_iff.1 hsome
        exact OrderedMap.mem_keys.2 ⟨placement, hplacement⟩
      · exact ih y hy
  have hnodup := h.nodup.sublist (List.dropLast_sublist (x :: chain))
  have hle := (hnodup.subperm fun y hy => hplaced h y hy).length_le
  rwa [List.length_dropLast, List.length_cons, Nat.add_sub_cancel, OrderedMap.length_keys] at hle

/-- A climb from a node that has enough steps finds this. -/
def ClimbsTo (t : WorkTables) (root : Option WorkItemId) (id : WorkItemId) (found : Option WorkVisit) :
    Prop :=
  ∃ chain, t.ParentChain id chain ∧ ∀ fuel, chain.length < fuel → t.climb root fuel id = .ok found

theorem ClimbsTo.climb_eq (h : t.ClimbsTo root id found) :
    t.climb root (t.placements.size + 1) id = .ok found := by
  obtain ⟨chain, hchain, hclimb⟩ := h
  exact hclimb _ (Nat.lt_succ_of_le hchain.length_le)

/-- What is found once all that is below a parent has been visited. -/
def RunsOut (t : WorkTables) (root parent : Option WorkItemId) (found : Option WorkVisit) : Prop :=
  (parent = root ∧ found = none) ∨
    (parent ≠ root ∧ ∃ id, parent = some id ∧ t.ClimbsTo root id found)

/-- A parent in the subtree of the root. -/
def InSubtree (t : WorkTables) (root parent : Option WorkItemId) : Prop :=
  ∀ top, root = some top → ∃ id, parent = some id ∧ t.Within top id

/-- From every node of a list, the search finds the one after it. -/
def Follows (t : WorkTables) (root : Option WorkItemId) : List WorkVisit → Prop
  | [] => True
  | visit :: rest =>
    t.nextInSubtree root (some visit.1.id) = .ok rest.head? ∧ Follows t root rest

theorem visits_of_follows {cursor : Option WorkItemId} {visits : List WorkVisit}
    (hfirst : t.nextInSubtree root cursor = .ok visits.head?) (h : t.Follows root visits) :
    t.Visits root cursor visits := by
  induction visits generalizing cursor with
  | nil => exact .done hfirst
  | cons _ _ ih => exact .next hfirst (ih h.1 h.2)

/-- Over siblings with records, the search finds the first that is live. -/
theorem firstLive_eq {children : List WorkChild} (hall : ∀ child ∈ children, t.IsNode child.id) :
    t.firstLive children = .ok (children.filterMap t.liveNode).head? := by
  induction children with
  | nil => rfl
  | cons child children ih =>
    obtain ⟨⟨node, hnode⟩, hall⟩ := List.forall_mem_cons.1 hall
    rw [firstLive, hnode]
    dsimp only
    by_cases hdeleted : node.deleted = true
    · have hnone : t.liveNode child = none := by
        rw [liveNode, hnode, Option.bind_some, if_pos hdeleted]
      rw [if_pos hdeleted, ih hall, List.filterMap_cons_none hnone]
    · have hsome : t.liveNode child = some (child, node) :=
        liveNode_eq_some.2 ⟨rfl, hnode, Bool.eq_false_iff.2 hdeleted⟩
      rw [if_neg hdeleted, List.filterMap_cons_some hsome, List.head?_cons]

/-- From a live task the search climbs. -/
theorem nextInSubtree_task {item : WorkItem} (hnode : t.workNode id = some (.task item))
    (hdeleted : item.deleted = false) (hclimb : t.ClimbsTo root id found) :
    t.nextInSubtree root (some id) = .ok found := by
  have hpass : refuseIf ((WorkNode.task item).deleted = true) (refusal .stalePage) = .ok () :=
    refuseIf_ok.2 (by simpa [WorkNode.deleted] using hdeleted)
  rw [nextInSubtree, hnode]
  dsimp only
  rw [hpass]
  exact hclimb.climb_eq

section
variable (h : t.Forest) {found : Option WorkVisit}
include h

theorem firstLive_siblings (parent : Option WorkItemId) :
    t.firstLive (t.siblings parent) = .ok (t.liveSiblings parent).head? :=
  firstLive_eq fun _ hchild => h.isNode_of_sited (mem_siblings.1 hchild).1

/-- **A climb finds the next live sibling, or what comes once its parent has run out.** -/
theorem climbsTo_of_sibling {child : WorkChild} {lower upper : List WorkChild}
    (hsplit : t.siblings parent = lower ++ child :: upper) (hin : t.InSubtree root parent)
    (hout : t.RunsOut root parent found) :
    t.ClimbsTo root child.id ((upper.filterMap t.liveNode).head?.or found) := by
  obtain ⟨-, hparent, horder⟩ := mem_siblings.1
    (hsplit ▸ List.mem_append_right _ List.mem_cons_self : child ∈ t.siblings parent)
  obtain ⟨placement, hplacement, hplacementParent, hplacementOrder⟩ := h.placementOf_ok child.id
  rw [hparent] at hplacementParent
  rw [horder] at hplacementOrder
  obtain ⟨chain, hchain⟩ := h.rooted child.id
  refine ⟨chain, hchain, fun fuel _ => ?_⟩
  obtain ⟨fuel, rfl⟩ : ∃ n, fuel = n + 1 := ⟨fuel - 1, by omega⟩
  have hguard : ¬ (placement.parent = none ∧ root ≠ none) := by
    rw [hplacementParent]
    rintro ⟨hnone, hroot⟩
    obtain ⟨top, htop⟩ := Option.ne_none_iff_exists'.1 hroot
    obtain ⟨id, hid, -⟩ := hin top htop
    rw [hnone] at hid
    cases hid
  have hlive : t.firstLive ((t.siblings parent).filter fun other => ¬ childLE other child) =
      .ok (upper.filterMap t.liveNode).head? := by
    rw [filter_after hsplit]
    refine firstLive_eq fun other hother => h.isNode_of_sited (mem_siblings.1 (?_ : other ∈ t.siblings parent)).1
    rw [hsplit]
    exact List.mem_append_right _ (List.mem_cons_of_mem _ hother)
  have hpass : refuseIf (placement.parent = none ∧ root ≠ none) (refusal .stalePage) = .ok () :=
    refuseIf_ok.2 hguard
  rw [climb, hplacement]
  show (refuseIf _ _ >>= fun _ => _) = _
  rw [hpass, hplacementParent, hplacementOrder]
  show (t.firstLive ((t.siblings parent).filter fun other => ¬ childLE other child) >>= _) = _
  rw [hlive]
  rcases hhead : (upper.filterMap t.liveNode).head? with _ | next
  · rw [Option.none_or]
    rcases hout with ⟨rfl, rfl⟩ | ⟨hne, id, rfl, above, habove, hclimb⟩
    · rcases parent with _ | id
      · rfl
      · exact if_pos rfl
    · refine (if_neg hne).trans (hclimb fuel ?_)
      have hlength := congrArg List.length (hchain.unique (.under hparent habove))
      rw [List.length_cons] at hlength
      omega
  · rfl

/-- From a live group the search goes to its first live child, and climbs if it has none. -/
theorem nextInSubtree_group {id : WorkItemId} {heading : WorkGroup}
    (hnode : t.workNode id = some (.group heading)) (hdeleted : heading.deleted = false) (hclimb : t.ClimbsTo root id found) :
    t.nextInSubtree root (some id) = .ok ((t.liveSiblings (some id)).head?.or found) := by
  have hpass : refuseIf ((WorkNode.group heading).deleted = true) (refusal .stalePage) = .ok () :=
    refuseIf_ok.2 (by simpa [WorkNode.deleted] using hdeleted)
  rw [nextInSubtree, hnode]
  dsimp only
  rw [hpass]
  show (t.firstLive (t.siblings (some id)) >>= _) = _
  rw [firstLive_siblings h]
  rcases (t.liveSiblings (some id)).head? with _ | first
  · exact hclimb.climb_eq
  · rfl

end

/-- The first of what is visited is the first child. -/
theorem head_flatMap_append (below : WorkVisit → List WorkVisit) {children tail : List WorkVisit} :
    ((children.flatMap fun child => child :: below child) ++ tail).head? = children.head?.or tail.head? := by
  cases children with
  | nil => rfl
  | cons child children => rfl

theorem head_levelsBelow_append {levels : ℕ} (hsuffice : t.LevelsSuffice levels parent)
    (tail : List WorkVisit) :
    (t.levelsBelow levels parent ++ tail).head? = (t.liveSiblings parent).head?.or tail.head? := by
  cases levels with
  | zero => exact hsuffice.elim
  | succ levels => exact head_flatMap_append _

/-- **What follows in pre-order is what the search finds.**  The levels are those below a parent, and
the tail is what is visited once they have run out. -/
theorem follows_levelsBelow (h : t.Forest) : ∀ {levels : ℕ} {parent : Option WorkItemId}
    {tail : List WorkVisit}, t.LevelsSuffice levels parent → t.InSubtree root parent →
      t.RunsOut root parent tail.head? → t.Follows root tail →
      t.Follows root (t.levelsBelow levels parent ++ tail) := by
  intro levels
  induction levels with
  | zero => exact fun hsuffice => hsuffice.elim
  | succ levels ih =>
    intro parent tail hsuffice hin hout htail
    rw [levelsBelow]
    set below : WorkVisit → List WorkVisit := fun child =>
      match child.2 with
      | .group _ => t.levelsBelow levels (some child.1.id)
      | .task _ => [] with hbelow
    -- Over the siblings from the last to the first: what is left of them, then the tail.
    suffices hsuffix : ∀ upper lower, t.siblings parent = lower ++ upper →
        t.Follows root (((upper.filterMap t.liveNode).flatMap fun child => child :: below child) ++ tail) from
      hsuffix (t.siblings parent) [] rfl
    intro upper
    induction upper with
    | nil => exact fun _ _ => htail
    | cons child upper ihu =>
      intro lower hsplit
      have hrest := ihu (lower ++ [child]) (by rw [hsplit, List.append_assoc]; rfl)
      rcases hlive : t.liveNode child with _ | ⟨child', node⟩
      · rwa [List.filterMap_cons_none hlive]
      · obtain ⟨hsame, hnode, hdeleted⟩ := liveNode_eq_some.1 hlive
        subst child'
        rw [List.filterMap_cons_some hlive, List.flatMap_cons, List.cons_append, List.cons_append,
          List.append_assoc]
        have hclimb := climbsTo_of_sibling h hsplit hin hout
        rw [← head_flatMap_append below] at hclimb
        have hmem : (child, node) ∈ t.liveSiblings parent := by
          rw [liveSiblings, hsplit]
          refine List.mem_filterMap.2 ⟨child, List.mem_append_right _ List.mem_cons_self, hlive⟩
        obtain ⟨-, -, hparent, -⟩ := h.mem_liveSiblings.1 hmem
        cases node with
        | task => exact ⟨nextInSubtree_task hnode hdeleted hclimb, hrest⟩
        | group =>
          have hinChild : t.InSubtree root (some child.id) := by
            intro top htop
            obtain ⟨id, rfl, hwithin⟩ := hin top htop
            exact ⟨child.id, rfl, .head hparent hwithin⟩
          have hne : some child.id ≠ root := by
            intro heq
            obtain ⟨id, rfl, hwithin⟩ := hin child.id heq.symm
            exact h.not_within_of_under hparent hwithin
          have hfollows := ih (hsuffice _ hmem) hinChild (.inr ⟨hne, child.id, rfl, hclimb⟩) hrest
          refine ⟨?_, hfollows⟩
          rw [nextInSubtree_group h hnode hdeleted hclimb]
          exact congrArg Except.ok (head_levelsBelow_append (hsuffice _ hmem) _).symm

section
variable (h : t.Forest) (hgroups : GroupsWithin t) (hroot : ∀ id ∈ root, t.GroupAt id)
include h hgroups hroot

theorem follows_preOrder : t.Follows root (t.preOrder root) := by
  have hfollows := (follows_levelsBelow h (preOrder_suffices h hgroups hroot)
    (fun top htop => ⟨top, htop, .refl⟩) (.inl ⟨rfl, rfl⟩) trivial :
      t.Follows root (t.preOrder root ++ []))
  rwa [List.append_nil] at hfollows

theorem nextInSubtree_start : t.nextInSubtree root none = .ok (t.preOrder root).head? := by
  have hhead := head_levelsBelow_append (preOrder_suffices h hgroups hroot) []
  rw [List.append_nil, List.head?_nil, Option.or_none] at hhead
  rw [preOrder, hhead]
  exact firstLive_siblings h root

/-- **Repeated searches visit the live subtree.**  They visit it in pre-order and then find nothing. -/
theorem visits_preOrder : t.Visits root none (t.preOrder root) :=
  visits_of_follows (nextInSubtree_start h hgroups hroot) (follows_preOrder h hgroups hroot)

end

end WorkTables
end Falryn.Orchestration.WorkQueues
