import Falryn.Orchestration.ScopeMoves
import Falryn.Lib.StateMachine

/-!
# What holds of every tree

A tree is sound if its scopes form a forest, every scope is found under its own identifier, what waits
for eviction has settled, and only scopes that are there are boundaries.  Every operation keeps a tree
sound.
-/

namespace Falryn.Orchestration.ScopeTree

/-- What holds of every tree. -/
structure Sound (t : ScopeTree) : Prop where
  /-- A scope is found under its own identifier. -/
  key : ∀ {id node}, t.nodes.get id = some node → node.scopeId = id
  /-- The scopes form a forest. -/
  forest : ScopeForest t.shapeAt
  /-- What waits for eviction is what has settled. -/
  retained : ∀ {id}, id ∈ t.retained ↔ ∃ node, t.nodes.get id = some node ∧ node.state.IsTerminal
  /-- It waits once. -/
  nodup : t.retained.Nodup
  /-- Only scopes that are there are boundaries. -/
  boundary : ∀ {id}, id ∈ t.cancellationBoundaries → ∃ node, t.nodes.get id = some node

/-- One move of a tree.  Every operation other than `derive`, `recordEffect` and `recordLateEffect`
is a sequence of these. -/
inductive Move : ScopeTree → ScopeTree → Prop where
  | cancel {t node} (reason : CancellationReason) (instant : ℕ) :
      t.nodes.get node.scopeId = some node → Move t (t.cancelSubtree node reason instant)
  | settle {t node} (outcome : TerminalOutcome) (instant : ℕ) :
      t.nodes.get node.scopeId = some node → ¬ node.state.IsTerminal →
      Move t (t.settleUntrimmed node outcome instant)
  | evict {t t' node before after} : t.nodes.get node.scopeId = some node →
      t.retained = before ++ node.scopeId :: after → t.evict node = some t' →
      maxRetainedTerminalScopes ≤ after.length → Move t { t' with retained := before ++ after }
  | enclose {t id node} : t.nodes.get id = some node → node.state = .active →
      Move t { t with cancellationBoundaries := insert id t.cancellationBoundaries }
  | release {t id node parentId parent} : t.nodes.get id = some node → node.state = .active →
      node.parentId = some parentId → t.nodes.get parentId = some parent →
      parent.state = .active →
      Move t { t with cancellationBoundaries := t.cancellationBoundaries.erase id }

/-- A sequence of moves. -/
abbrev Moves : ScopeTree → ScopeTree → Prop := Relation.ReflTransGen Move

/-! ## Writes that leave every scope where it is -/

variable {t' : ScopeTree} {g : ScopeId → ScopeNode → ScopeNode}

/-- A write that leaves every scope where it is keeps a tree sound, if what has settled is put on the
list. -/
theorem Sound.of_get_map {t : ScopeTree} (h : Sound t)
    (hget : ∀ x, t'.nodes.get x = (t.nodes.get x).map (g x))
    (hshape : ∀ x n, (g x n).shape = n.shape) (hid : ∀ x n, (g x n).scopeId = n.scopeId)
    (hretained : ∀ {id}, id ∈ t'.retained ↔
      ∃ node, t.nodes.get id = some node ∧ (g id node).state.IsTerminal)
    (hnodup : t'.retained.Nodup)
    (hbound : t'.cancellationBoundaries = t.cancellationBoundaries) : Sound t' where
  key hnode := by
    rw [hget, Option.map_eq_some_iff] at hnode
    obtain ⟨n, hn, rfl⟩ := hnode
    rw [hid]
    exact h.key hn
  forest := shapeAt_of_get_map hget hshape ▸ h.forest
  retained {id} := by
    rw [hretained, hget]
    constructor
    · rintro ⟨n, hn, hterminal⟩
      exact ⟨_, by rw [hn, Option.map_some], hterminal⟩
    · rintro ⟨n', hn', hterminal⟩
      obtain ⟨n, hn, rfl⟩ := Option.map_eq_some_iff.1 hn'
      exact ⟨n, hn, hterminal⟩
  nodup := hnodup
  boundary hmem := by
    rw [hbound] at hmem
    obtain ⟨n, hn⟩ := h.boundary hmem
    exact ⟨_, by rw [hget, hn, Option.map_some]⟩

/-- A write that leaves the lifecycle's end alone. -/
theorem Sound.of_sameFrame {t : ScopeTree} (h : Sound t)
    (hget : ∀ x, t'.nodes.get x = (t.nodes.get x).map (g x))
    (hshape : ∀ x n, (g x n).shape = n.shape) (hid : ∀ x n, (g x n).scopeId = n.scopeId)
    (hterminal : ∀ x n, (g x n).state.IsTerminal ↔ n.state.IsTerminal)
    (hframe : SameFrame t t') : Sound t' := by
  refine h.of_get_map hget hshape hid (fun {id} => ?_) (hframe.retained ▸ h.nodup)
    hframe.cancellationBoundaries
  rw [hframe.retained, h.retained]
  simp only [hterminal]

variable {n : ScopeNode} {instant : ℕ} {reason : CancellationReason} {x : ScopeId}

theorem isTerminal_stopIfActive :
    (n.stopIfActive reason instant).state.IsTerminal ↔ n.state.IsTerminal := by
  rcases n.stopIfActive_cases reason instant with ⟨hactive, heq⟩ | ⟨-, heq⟩
  · rw [heq, hactive]
    exact Iff.rfl
  · rw [heq]

theorem scopeId_stopIfActive (n : ScopeNode) (reason : CancellationReason) (instant : ℕ) :
    (n.stopIfActive reason instant).scopeId = n.scopeId := by
  rcases n.stopIfActive_cases reason instant with ⟨-, heq⟩ | ⟨-, heq⟩ <;> rw [heq]
  rfl

theorem isTerminal_stopIn {t : ScopeTree} {target : ScopeNode} :
    (t.stopIn target reason instant x n).state.IsTerminal ↔ n.state.IsTerminal := by
  unfold stopIn
  dsimp only
  split_ifs <;> simp only [isTerminal_stopIfActive]

theorem scopeId_stopIn (t : ScopeTree) (target : ScopeNode) (reason : CancellationReason)
    (instant : ℕ) (x : ScopeId) (n : ScopeNode) :
    (t.stopIn target reason instant x n).scopeId = n.scopeId := by
  unfold stopIn
  dsimp only
  split_ifs <;> simp only [scopeId_stopIfActive]

variable {t : ScopeTree}

theorem Sound.cancelSubtree (h : Sound t) (target : ScopeNode) (reason : CancellationReason)
    (instant : ℕ) : Sound (t.cancelSubtree target reason instant) :=
  h.of_sameFrame (get_cancelSubtree t target reason instant)
    (shape_stopIn t target reason instant) (scopeId_stopIn t target reason instant)
    (fun _ _ => isTerminal_stopIn) (SameFrame.cancelSubtree t target reason instant)

theorem Sound.applyEffect (h : Sound t) (id : ScopeId) (effect : EffectCertainty) (instant : ℕ) :
    Sound (t.applyEffect id effect instant) := by
  refine h.of_sameFrame (get_applyEffect t id effect instant) (fun x n => ?_) (fun x n => ?_)
    (fun x n => ?_) (SameFrame.applyEffect t id effect instant) <;> split <;> rfl

theorem Sound.foldIntoAncestorIds (h : Sound t) (ids : List ScopeId) (effect : EffectCertainty) :
    Sound (t.foldIntoAncestorIds ids effect) := by
  refine h.of_sameFrame (get_foldIntoAncestorIds t ids effect) (fun x n => ?_) (fun x n => ?_)
    (fun x n => ?_) (SameFrame.foldIntoAncestorIds t ids effect) <;> split <;> rfl

theorem Sound.beginCancelling (h : Sound t) (id : ScopeId) (reason : CancellationReason)
    (instant : ℕ) : Sound (t.beginCancelling id reason instant) := by
  refine h.of_sameFrame (get_beginCancelling t id reason instant) (fun x n => ?_) (fun x n => ?_)
    (fun x n => ?_) (SameFrame.beginCancelling t id reason instant)
  · split
    · exact shape_stopIfActive n reason instant
    · rfl
  · split
    · exact scopeId_stopIfActive n reason instant
    · rfl
  · split
    · exact isTerminal_stopIfActive
    · rfl

variable {node : ScopeNode} {outcome : TerminalOutcome} {before after : List ScopeId}
  {parent : ScopeNode} {options : DeriveScopeOptions} {childId : ScopeId}

theorem state_settleIn : (t.settleIn node outcome instant x n).state =
      if x = node.scopeId then (n.settled outcome instant).state else n.state := by
  unfold settleIn
  dsimp only
  split_ifs <;> rfl

theorem Sound.settleUntrimmed (h : Sound t)
    (hnode : t.nodes.get node.scopeId = some node) (hlive : ¬ node.state.IsTerminal)
    (outcome : TerminalOutcome) (instant : ℕ) :
    Sound (t.settleUntrimmed node outcome instant) := by
  refine h.of_get_map (get_settleUntrimmed t node outcome instant)
    (shape_settleIn t node outcome instant) (fun x n => ?_) (fun {x} => ?_) ?_
    (settleUntrimmed_cancellationBoundaries t node outcome instant)
  · unfold settleIn
    dsimp only
    split_ifs <;> rfl
  · rw [settleUntrimmed_retained, List.mem_append, List.mem_singleton, h.retained]
    simp only [state_settleIn]
    by_cases hx : x = node.scopeId
    · refine iff_of_true (.inr hx) ⟨node, hx ▸ hnode, ?_⟩
      rw [if_pos hx]
      exact trivial
    · simp only [hx, or_false, if_false]
  · rw [settleUntrimmed_retained]
    refine h.nodup.append (List.nodup_singleton _) (List.disjoint_singleton.2 fun hmem => ?_)
    obtain ⟨n, hn, hterminal⟩ := h.retained.1 hmem
    rw [hnode] at hn
    cases hn
    exact hlive hterminal

/-! ## Eviction and derivation -/

theorem get_evict (hev : t.evict node = some t') (x : ScopeId) : t'.nodes.get x =
      if x = node.scopeId then none
      else (t.nodes.get x).map fun n =>
        if node.parentId = some x then n.withoutChild node.scopeId else n := by
  rw [(evict_eq_some.1 hev).2]
  exact get_detach t node x

/-- A scope that is left after an eviction was there before. -/
theorem get_evict_eq_some {n' : ScopeNode} (hev : t.evict node = some t') {x : ScopeId}
    (hn' : t'.nodes.get x = some n') : ∃ n, t.nodes.get x = some n
      ∧ n' = if node.parentId = some x then n.withoutChild node.scopeId else n := by
  rw [get_evict hev] at hn'
  split at hn'
  · cases hn'
  · obtain ⟨n, hn, rfl⟩ := Option.map_eq_some_iff.1 hn'
    exact ⟨n, hn, rfl⟩

theorem shapeAt_evict (hev : t.evict node = some t') :
    t'.shapeAt = prune t.shapeAt node.scopeId node.shape := by
  rw [← shapeAt_detach, (evict_eq_some.1 hev).2]
  funext x
  simp only [shapeAt, rememberTombstone]

/-- In a sound tree only a scope without children is evicted. -/
theorem Sound.evicted_childless (h : Sound t)
    (hnode : t.nodes.get node.scopeId = some node) (hev : t.evict node = some t') :
    node.children = [] := by
  by_contra hne
  obtain ⟨c, hc⟩ := List.exists_mem_of_ne_nil _ hne
  obtain ⟨s, hs, -⟩ := h.forest.child (shapeAt_of_get hnode) hc
  obtain ⟨n, hn, -⟩ := shapeAt_eq_some.1 hs
  rw [(evict_eq_some.1 hev).1 c hc] at hn
  cases hn

/-- What is evicted has settled. -/
theorem Sound.evicted_terminal (h : Sound t) (hnode : t.nodes.get node.scopeId = some node)
    (hret : t.retained = before ++ node.scopeId :: after) : node.state.IsTerminal := by
  have hmem : node.scopeId ∈ t.retained := by
    rw [hret]
    exact List.mem_append_right _ List.mem_cons_self
  obtain ⟨n, hn, hterminal⟩ := h.retained.1 hmem
  rw [hnode] at hn
  cases hn
  exact hterminal

theorem evict_cancellationBoundaries (hev : t.evict node = some t') :
    t'.cancellationBoundaries = t.cancellationBoundaries.erase node.scopeId := by
  rw [(evict_eq_some.1 hev).2]
  exact detach_cancellationBoundaries t node

theorem Sound.evict (h : Sound t) (hnode : t.nodes.get node.scopeId = some node)
    (hret : t.retained = before ++ node.scopeId :: after) (hev : t.evict node = some t') :
    Sound { t' with retained := before ++ after } where
  key {id n} hn := by
    obtain ⟨m, hm, rfl⟩ := get_evict_eq_some hev hn
    have hkey := h.key hm
    split <;> exact hkey
  forest := by
    change ScopeForest t'.shapeAt
    rw [shapeAt_evict hev]
    exact h.forest.prune (shapeAt_of_get hnode) (h.evicted_childless hnode hev)
  retained {id} := by
    have hnodup := h.nodup
    rw [hret] at hnodup
    have hout : node.scopeId ∉ before ++ after := (List.nodup_middle.1 hnodup).notMem
    have hmem : id ∈ before ++ after ↔ id ≠ node.scopeId ∧ id ∈ t.retained := by
      rw [hret, List.mem_append, List.mem_append, List.mem_cons]
      constructor
      · intro hid
        exact ⟨fun heq => hout (heq ▸ List.mem_append.2 hid), hid.imp_right .inr⟩
      · rintro ⟨hne, hid | heq | hid⟩
        · exact .inl hid
        · exact absurd heq hne
        · exact .inr hid
    rw [hmem, h.retained]
    change _ ↔ ∃ n, t'.nodes.get id = some n ∧ n.state.IsTerminal
    rw [get_evict hev]
    by_cases hid : id = node.scopeId
    · simp [hid]
    · rw [if_neg hid]
      constructor
      · rintro ⟨-, n, hn, hterminal⟩
        refine ⟨_, by rw [hn, Option.map_some], ?_⟩
        split <;> exact hterminal
      · rintro ⟨n', hn', hterminal⟩
        obtain ⟨n, hn, rfl⟩ := Option.map_eq_some_iff.1 hn'
        refine ⟨hid, n, hn, ?_⟩
        split at hterminal <;> exact hterminal
  nodup := by
    have hnodup := h.nodup
    rw [hret] at hnodup
    exact (List.nodup_cons.1 (List.nodup_middle.1 hnodup)).2
  boundary {id} hid := by
    change id ∈ t'.cancellationBoundaries at hid
    rw [evict_cancellationBoundaries hev] at hid
    obtain ⟨hne, hid⟩ := Finset.mem_erase.1 hid
    obtain ⟨n, hn⟩ := h.boundary hid
    change ∃ n, t'.nodes.get id = some n
    exact ⟨_, by rw [get_evict hev, if_neg hne, hn, Option.map_some]⟩

theorem get_attach_newNode (options : DeriveScopeOptions)
    (hparent : t.nodes.get parent.scopeId = some parent) (hfresh : t.nodes.get childId = none)
    (instant : ℕ) (x : ScopeId) :
    (t.attach parent (newNode parent options childId) instant).nodes.get x =
      if x = childId then some (newNode parent options childId)
      else if x = parent.scopeId then some (parent.withChild childId) else t.nodes.get x := by
  have hne : childId ≠ parent.scopeId := by
    rintro rfl
    rw [hfresh] at hparent
    cases hparent
  exact get_attach hne hparent instant x

theorem shapeAt_attach (hparent : t.nodes.get parent.scopeId = some parent)
    (hfresh : t.nodes.get childId = none) (hnode : node = newNode parent options childId)
    (instant : ℕ) :
    (t.attach parent node instant).shapeAt =
      grow t.shapeAt parent.scopeId parent.shape childId := by
  subst hnode
  funext x
  rw [shapeAt, get_attach_newNode options hparent hfresh, grow]
  by_cases hx : x = childId
  · rw [if_pos hx, if_pos hx]
    rfl
  · rw [if_neg hx, if_neg hx]
    by_cases hp : x = parent.scopeId
    · rw [if_pos hp, if_pos hp]
      rfl
    · rw [if_neg hp, if_neg hp]
      rfl

theorem attach_retained (parent node : ScopeNode) (instant : ℕ) :
    (t.attach parent node instant).retained = t.retained := by
  rw [attach]
  exact modify_retained _ _ _

theorem attach_cancellationBoundaries (parent node : ScopeNode) (instant : ℕ) :
    (t.attach parent node instant).cancellationBoundaries = t.cancellationBoundaries := by
  rw [attach]
  exact modify_cancellationBoundaries _ _ _

theorem attach_tombstones (parent node : ScopeNode) (instant : ℕ) :
    (t.attach parent node instant).tombstones = t.tombstones.delete node.scopeId := by
  rw [attach]
  exact modify_tombstones _ _ _

theorem Sound.attach (h : Sound t) (options : DeriveScopeOptions) (hparent : t.nodes.get parent.scopeId = some parent)
    (hlive : ¬ parent.state.IsTerminal) (hfresh : t.nodes.get childId = none)
    (hdepth : parent.depth + 1 < maxScopeDepth) (instant : ℕ) :
    Sound (t.attach parent (newNode parent options childId) instant) := by
  have hget := get_attach_newNode options hparent hfresh instant
  have hnone : t.shapeAt childId = none := by rw [shapeAt, hfresh, Option.map_none]
  refine ⟨fun {id n} hn => ?_, ?_, fun {id} => ?_, ?_, fun {id} hid => ?_⟩
  · rw [hget] at hn
    split at hn
    next heq =>
      cases hn
      exact heq.symm
    · split at hn
      next heq =>
        cases hn
        exact heq.symm
      · exact h.key hn
  · rw [shapeAt_attach hparent hfresh rfl]
    exact h.forest.grow (shapeAt_of_get hparent) hnone hdepth
  · rw [attach_retained, h.retained, hget]
    by_cases hid : id = childId
    · rw [if_pos hid, hid]
      refine iff_of_false (fun hfound => ?_) fun hfound => ?_
      · obtain ⟨n, hn, -⟩ := hfound
        rw [hfresh] at hn
        cases hn
      · obtain ⟨n, hn, hterminal⟩ := hfound
        cases hn
        exact hterminal
    · rw [if_neg hid]
      by_cases hp : id = parent.scopeId
      · rw [if_pos hp, hp]
        refine iff_of_false (fun hfound => ?_) fun hfound => ?_
        · obtain ⟨n, hn, hterminal⟩ := hfound
          rw [hparent] at hn
          cases hn
          exact hlive hterminal
        · obtain ⟨n, hn, hterminal⟩ := hfound
          cases hn
          exact hlive hterminal
      · rw [if_neg hp]
  · rw [attach_retained]
    exact h.nodup
  · rw [attach_cancellationBoundaries] at hid
    obtain ⟨n, hn⟩ := h.boundary hid
    rw [hget]
    by_cases hid : id = childId
    · exact ⟨_, if_pos hid⟩
    · by_cases hp : id = parent.scopeId
      · exact ⟨_, by rw [if_neg hid, if_pos hp]⟩
      · exact ⟨n, by rw [if_neg hid, if_neg hp, hn]⟩

/-! ## Every operation keeps a tree sound -/

theorem Move.sound (hmove : Move t t') (h : Sound t) : Sound t' := by
  rcases hmove with ⟨reason, instant, hnode⟩ | ⟨outcome, instant, hnode, hlive⟩ |
    ⟨hnode, hret, hev, -⟩ | ⟨hnode, hactive⟩ | ⟨hnode, hactive, -, -, -⟩
  · exact h.cancelSubtree _ reason instant
  · exact h.settleUntrimmed hnode hlive outcome instant
  · exact h.evict hnode hret hev
  · refine ⟨h.key, h.forest, h.retained, h.nodup, fun hid => ?_⟩
    rcases Finset.mem_insert.1 hid with rfl | hid
    · exact ⟨_, hnode⟩
    · exact h.boundary hid
  · exact ⟨h.key, h.forest, h.retained, h.nodup, fun hid => h.boundary (Finset.mem_of_mem_erase hid)⟩

theorem Moves.sound (hmoves : Moves t t') (h : Sound t) : Sound t' := by
  induction hmoves with
  | refl => exact h
  | tail _ hmove ih => exact hmove.sound ih

variable {I : ScopeTree → Prop}

/-- What every move keeps, a sequence of moves of a sound tree keeps. -/
theorem Moves.preserves (hI : ∀ {t t'}, Sound t → I t → Move t t' → I t') (hmoves : Moves t t')
    (h : Sound t) (hi : I t) : I t' := by
  induction hmoves with
  | refl => exact hi
  | tail hfirst hmove ih => exact hI (Moves.sound hfirst h) ih hmove

theorem moves_trimFrom {kept rest : List ScopeId} (h : Sound t)
    (hret : t.retained = kept ++ rest) : Moves t (t.trimFrom kept rest) := by
  induction rest generalizing t kept with
  | nil => exact .refl
  | cons id rest ih =>
    have hmem : id ∈ t.retained := by
      rw [hret]
      exact List.mem_append_right _ List.mem_cons_self
    obtain ⟨node, hnode, -⟩ := h.retained.1 hmem
    have hkey := h.key hnode
    rw [trimFrom, hnode]
    split
    next hfull =>
      dsimp only
      rcases hev : t.evict node with _ | t'
      · exact ih h (by rw [hret, List.append_assoc, List.singleton_append])
      · have hmove : Move t { t' with retained := kept ++ rest } :=
          .evict (by rw [hkey, hnode]) (by rw [hkey, hret]) hev (Nat.lt_succ_iff.1 hfull)
        exact .head hmove (ih (hmove.sound h) rfl)
    · exact .refl

theorem moves_settle (h : Sound t)
    (hnode : t.nodes.get node.scopeId = some node) (hlive : ¬ node.state.IsTerminal)
    (outcome : TerminalOutcome) (instant : ℕ) : Moves t (t.settle node outcome instant) := by
  have hmove : Move t (t.settleUntrimmed node outcome instant) := .settle outcome instant hnode hlive
  exact .head hmove (moves_trimFrom (hmove.sound h) rfl)

/-- A loop each of whose rounds is a sequence of moves is one. -/
theorem moves_foldl {α : Type} {f : ScopeTree → α → ScopeTree}
    (hf : ∀ {t} a, Sound t → Moves t (f t a)) (l : List α) (h : Sound t) :
    Moves t (l.foldl f t) := by
  induction l generalizing t with
  | nil => exact .refl
  | cons a l ih =>
    have hfirst := hf a h
    exact hfirst.trans (ih (Moves.sound hfirst h))

theorem moves_expireDeadline (h : Sound t) (escalated : Bool) (instant : ℕ) (clock : ScopeId → ℕ)
    (id : ScopeId) : Moves t (expireDeadline escalated instant clock t id) := by
  rw [expireDeadline]
  rcases hnode : t.nodes.get id with _ | node
  · exact .refl
  · rcases hdeadline : node.deadline with _ | deadline
    · simp only [hdeadline]
      exact .refl
    · simp only [hdeadline]
      split
      · exact .single (.cancel _ instant (by rw [h.key hnode, hnode]))
      · exact .refl

theorem moves_forceSettleOne (h : Sound t) (instant : ℕ) (id : ScopeId) :
    Moves t (forceSettleOne instant t id) := by
  rw [forceSettleOne]
  rcases hnode : t.nodes.get id with _ | node
  · exact .refl
  · dsimp only
    split
    · exact .refl
    next hlive => exact moves_settle h (by rw [h.key hnode, hnode]) hlive .uncertain instant

variable {id : ScopeId} {r : TerminalOutcome × ScopeTree} {effect : EffectCertainty}

theorem requireNode_ok : t.requireNode id = .ok node ↔ t.nodes.get id = some node := by
  rw [requireNode]
  rcases t.nodes.get id with _ | n
  · simp
  · simp

/-- A scope that settles itself was live. -/
theorem settleSelf_ok (hr : t.settleSelf id outcome instant = .ok r) :
    ∃ node, t.nodes.get id = some node ∧ ¬ node.state.IsTerminal ∧
      r = (outcome, t.settle node outcome instant) := by
  rw [settleSelf, except_bind_ok] at hr
  obtain ⟨node, hnode, hr⟩ := hr
  rw [except_bind_ok] at hr
  obtain ⟨_, hlive, hr⟩ := hr
  exact ⟨node, requireNode_ok.1 hnode, refuseIf_ok.1 hlive, except_pure_ok.1 hr⟩

theorem moves_settleSelf (h : Sound t) (hr : t.settleSelf id outcome instant = .ok r) :
    Moves t r.2 := by
  obtain ⟨node, hnode, hlive, rfl⟩ := settleSelf_ok hr
  exact moves_settle h (by rw [h.key hnode, hnode]) hlive outcome instant

/-- The operations that neither add a scope nor record an effect. -/
def Operation.IsPlain : Operation → Prop
  | .derive _ _ _ _ => False
  | .recordEffect _ _ _ => False
  | .recordLateEffect _ _ _ => False
  | _ => True

/-- **A plain operation is a sequence of moves.** -/
theorem moves_apply (h : Sound t) {op : Operation} (hop : op.IsPlain) : Moves t (t.apply op) := by
  rcases op with ⟨id, enabled⟩ | ⟨parentId, options, openedAt, requestedAt⟩ | ⟨id, reason, instant⟩ |
    ⟨id, effect, instant⟩ | ⟨id, effect, instant⟩ | ⟨id, instant⟩ | ⟨id, instant⟩ | ⟨id, instant⟩ |
    ⟨escalated, instant, clock⟩ | instant
  · rw [apply, ScopeTree.cancellationBoundary]
    rcases hnode : t.nodes.get id with _ | node
    · exact .refl
    · dsimp only
      rcases hp : node.parentId with _ | parentId
      · exact .refl
      · dsimp only
        split_ifs with hactive henabled
        · exact .refl
        · exact .single (.enclose hnode (not_not.1 hactive))
        · rcases hparent : t.nodes.get parentId with _ | parent
          · exact .refl
          · dsimp only
            split_ifs with hpactive
            · exact .refl
            · exact .single (.release hnode (not_not.1 hactive) hp hparent (not_not.1 hpactive))
  · exact hop.elim
  · rw [apply]
    rcases hr : t.cancel id reason instant with _ | ⟨events, t'⟩
    · exact .refl
    · rw [cancel, except_bind_ok] at hr
      obtain ⟨node, hnode, hr⟩ := hr
      have hnode := requireNode_ok.1 hnode
      cases hr
      exact .single (.cancel reason instant (by rw [h.key hnode, hnode]))
  · exact hop.elim
  · exact hop.elim
  · rw [apply]
    rcases hr : t.complete id instant with _ | ⟨outcome, t'⟩
    · exact .refl
    · exact moves_settleSelf h hr
  · rw [apply]
    rcases hr : t.fail id instant with _ | ⟨outcome, t'⟩
    · exact .refl
    · rw [ScopeTree.fail, except_bind_ok] at hr
      obtain ⟨node, -, hr⟩ := hr
      exact moves_settleSelf h hr
  · rw [apply]
    rcases hr : t.acknowledge id instant with _ | ⟨outcome, t'⟩
    · exact .refl
    · rw [acknowledge, except_bind_ok] at hr
      obtain ⟨node, hnode, hr⟩ := hr
      have hnode := requireNode_ok.1 hnode
      rw [except_bind_ok] at hr
      obtain ⟨_, hlive, hr⟩ := hr
      cases hr
      exact moves_settle h (by rw [h.key hnode, hnode]) (refuseIf_ok.1 hlive) _ instant
  · exact moves_foldl (fun id ht => moves_expireDeadline ht escalated instant clock id) _ h
  · exact moves_foldl (fun id ht => moves_forceSettleOne ht instant id) _ h

theorem Sound.derive (h : Sound t) {parentId : ScopeId}
    {openedAt requestedAt : ℕ} {handle : ScopeHandle}
    (hok : t.derive parentId options openedAt requestedAt = .ok (handle, t')) : Sound t' := by
  obtain ⟨parent, childId, hparent, hlive, hdepth, -, -, hfresh, -, rfl⟩ := derive_ok hok
  have hsound := h.attach options (by rw [h.key hparent, hparent]) hlive hfresh hdepth
    openedAt
  split
  · exact hsound.beginCancelling childId _ requestedAt
  · exact hsound

/-- An effect that is recorded finds a live scope. -/
theorem recordEffect_ok (hok : t.recordEffect id effect instant = .ok t') :
    ∃ node, t.nodes.get id = some node ∧ ¬ node.state.IsTerminal ∧
      t' = t.applyEffect id effect instant := by
  rw [recordEffect, except_bind_ok] at hok
  obtain ⟨node, hnode, hok⟩ := hok
  rw [except_bind_ok] at hok
  obtain ⟨_, hlive, hok⟩ := hok
  exact ⟨node, requireNode_ok.1 hnode, refuseIf_ok.1 hlive, except_pure_ok.1 hok⟩

/-- An effect that is recorded late finds a live scope, a settled one, or the tombstone of one that
was evicted. -/
theorem recordLateEffect_ok {record : LateEffectRecord}
    (hok : t.recordLateEffect id effect instant = .ok (record, t')) :
    (∃ node, t.nodes.get id = some node ∧ ¬ node.state.IsTerminal ∧
        t' = t.applyEffect id effect instant) ∨
      (∃ node, t.nodes.get id = some node ∧ node.state.IsTerminal ∧
        t' = t.foldIntoAncestorIds (t.ancestorIdsOf node) effect) ∨
      (∃ ancestorIds, t.nodes.get id = none ∧ t.tombstones.get id = some ancestorIds ∧
        t' = t.foldIntoAncestorIds ancestorIds effect) := by
  rw [recordLateEffect] at hok
  rcases hnode : t.nodes.get id with _ | node
  · rw [hnode] at hok
    rcases htomb : t.tombstones.get id with _ | ancestorIds
    · rw [htomb] at hok
      cases hok
    · rw [htomb] at hok
      cases hok
      exact .inr (.inr ⟨ancestorIds, rfl, rfl, rfl⟩)
  · rw [hnode] at hok
    dsimp only at hok
    split at hok
    next hterminal =>
      cases hok
      exact .inr (.inl ⟨node, rfl, hterminal, rfl⟩)
    next hlive =>
      cases hok
      exact .inl ⟨node, rfl, hlive, rfl⟩

/-- **The invariant rule.**  What moves, derivations and the recording of effects keep, every
operation keeps. -/
theorem apply_preserves (hmove : ∀ {t t'}, Sound t → I t → Move t t' → I t')
    (hderive : ∀ {t t' parentId options openedAt requestedAt handle}, Sound t → I t →
      t.derive parentId options openedAt requestedAt = .ok (handle, t') → I t')
    (heffect : ∀ {t id node} (effect : EffectCertainty) (instant : ℕ), Sound t → I t →
      t.nodes.get id = some node → ¬ node.state.IsTerminal → I (t.applyEffect id effect instant))
    (hfold : ∀ {t} (ids : List ScopeId) (effect : EffectCertainty), Sound t → I t →
      I (t.foldIntoAncestorIds ids effect))
    (h : Sound t) (hi : I t) (op : Operation) : I (t.apply op) := by
  by_cases hop : op.IsPlain
  · exact Moves.preserves hmove (moves_apply h hop) h hi
  · rcases op with _ | ⟨parentId, options, openedAt, requestedAt⟩ | _ | ⟨id, effect, instant⟩ |
      ⟨id, effect, instant⟩ | _ | _ | _ | _ | _
    case derive =>
      rw [apply]
      rcases hok : t.derive parentId options openedAt requestedAt with _ | ⟨handle, t'⟩
      · exact hi
      · exact hderive h hi hok
    case recordEffect =>
      rw [apply]
      rcases hok : t.recordEffect id effect instant with _ | t'
      · exact hi
      · obtain ⟨node, hnode, hlive, rfl⟩ := recordEffect_ok hok
        exact heffect effect instant h hi hnode hlive
    case recordLateEffect =>
      rw [apply]
      rcases hok : t.recordLateEffect id effect instant with _ | ⟨record, t'⟩
      · exact hi
      · rcases recordLateEffect_ok hok with ⟨node, hnode, hlive, rfl⟩ | ⟨node, -, -, rfl⟩ |
          ⟨ids, -, -, rfl⟩
        · exact heffect effect instant h hi hnode hlive
        · exact hfold _ effect h hi
        · exact hfold _ effect h hi
    all_goals exact absurd trivial hop

theorem Sound.apply (h : Sound t) (op : Operation) : Sound (t.apply op) :=
  apply_preserves (fun h _ hmove => hmove.sound h) (fun h _ hok => h.derive hok)
    (fun effect instant h _ _ _ => h.applyEffect _ effect instant)
    (fun ids effect h _ => h.foldIntoAncestorIds ids effect) h h op

theorem get_create (rootId : ScopeId) (rootDeadline : Option Deadline) (instant : ℕ)
    (x : ScopeId) :
    (create rootId rootDeadline instant).nodes.get x =
      if x = rootId then some (rootNode rootId rootDeadline) else none := by
  rw [create, emit_nodes, OrderedMap.get_set, OrderedMap.get_empty]

theorem sound_create (rootId : ScopeId) (rootDeadline : Option Deadline) (instant : ℕ) :
    Sound (create rootId rootDeadline instant) := by
  have hget : ∀ {x n}, (create rootId rootDeadline instant).nodes.get x = some n →
      x = rootId ∧ n = rootNode rootId rootDeadline := by
    intro x n hn
    rw [get_create] at hn
    split at hn
    next hx => exact ⟨hx, (Option.some.inj hn).symm⟩
    · cases hn
  have hshape : ∀ {x s}, (create rootId rootDeadline instant).shapeAt x = some s →
      s = ⟨none, 0, []⟩ := by
    intro x s hs
    obtain ⟨n, hn, rfl⟩ := shapeAt_eq_some.1 hs
    rw [(hget hn).2]
    rfl
  refine ⟨fun hn => by rw [(hget hn).1, (hget hn).2]; rfl, ⟨fun hs hc => ?_, fun hs hp => ?_,
    fun hs => ?_, fun hs => ?_⟩, fun {id} => ?_, List.nodup_nil, fun hid => ?_⟩
  · rw [hshape hs] at hc
    cases hc
  · rw [hshape hs] at hp
    cases hp
  · rw [hshape hs]
    exact List.nodup_nil
  · rw [hshape hs]
    exact Nat.succ_pos 15
  · refine iff_of_false List.not_mem_nil ?_
    rintro ⟨n, hn, hterminal⟩
    rw [(hget hn).2] at hterminal
    exact hterminal
  · cases hid

/-- The tree after a list of operations. -/
def applyAll (t : ScopeTree) (ops : List Operation) : ScopeTree := ops.foldl apply t

theorem Sound.applyAll (h : Sound t) (ops : List Operation) : Sound (t.applyAll ops) := by
  induction ops generalizing t with
  | nil => exact h
  | cons op ops ih => exact ih (h.apply op)

/-- What every operation keeps, every run keeps. -/
theorem applyAll_preserves (hI : ∀ {t} op, Sound t → I t → I (t.apply op))
    (h : Sound t) (hi : I t) (ops : List Operation) : I (t.applyAll ops) := by
  induction ops generalizing t with
  | nil => exact hi
  | cons op ops ih => exact ih (h.apply op) (hI op h hi)

end Falryn.Orchestration.ScopeTree
