import Falryn.Orchestration.ScopeForest

/-!
# What an operation does to a tree

Every operation is a sequence of moves, and each move has one lemma here that says what it does to
the scopes.  The invariants of a tree are proved move by move.
-/

namespace Falryn.Orchestration

namespace ScopeNode

/-- What `beginCancelling` does to a scope, whatever its state. -/
def stopIfActive (node : ScopeNode) (reason : CancellationReason) (instant : ℕ) : ScopeNode :=
  if node.state = .active then node.askToStop reason instant else node

/-- What a scope carries besides its lifecycle. -/
theorem stopIfActive_cases (node : ScopeNode) (reason : CancellationReason) (instant : ℕ) :
    (node.state = .active ∧ node.stopIfActive reason instant = node.askToStop reason instant) ∨
      (node.state ≠ .active ∧ node.stopIfActive reason instant = node) := by
  by_cases h : node.state = .active
  · exact .inl ⟨h, if_pos h⟩
  · exact .inr ⟨h, if_neg h⟩

theorem stopIfActive_ne_active (node : ScopeNode) (reason : CancellationReason) (instant : ℕ) :
    (node.stopIfActive reason instant).state ≠ .active := by
  rcases node.stopIfActive_cases reason instant with ⟨-, h⟩ | ⟨hne, h⟩
  · rw [h]
    nofun
  · rw [h]
    exact hne

theorem stopIfActive_idem (node : ScopeNode) (reason reason' : CancellationReason)
    (instant instant' : ℕ) :
    (node.stopIfActive reason instant).stopIfActive reason' instant' =
      node.stopIfActive reason instant :=
  if_neg (node.stopIfActive_ne_active reason instant)

theorem absorb_idem (node : ScopeNode) (effect : EffectCertainty) :
    (node.absorb effect).absorb effect = node.absorb effect := by
  simp only [absorb, worstEffect_eq_max, max_assoc, max_self]

end ScopeNode

namespace ScopeTree

variable {t : ScopeTree}

/-! ## Asking to stop -/

theorem get_beginCancelling (t : ScopeTree) (id : ScopeId) (reason : CancellationReason)
    (instant : ℕ) (x : ScopeId) :
    (t.beginCancelling id reason instant).nodes.get x =
      (t.nodes.get x).map fun n => if x = id then n.stopIfActive reason instant else n := by
  rw [beginCancelling]
  split
  next hnone =>
    by_cases hx : x = id
    · rw [hx, hnone, Option.map_none]
    · simp [hx]
  next hnode =>
    split
    next hactive =>
      rw [emit_nodes, get_modify]
      by_cases hx : x = id
      · rw [if_pos hx, hx, hnode, Option.map_some, Option.map_some, if_pos rfl,
          ScopeNode.stopIfActive, if_pos hactive]
      · simp [hx]
    next hactive =>
      by_cases hx : x = id
      · rw [hx, hnode, Option.map_some, if_pos rfl, ScopeNode.stopIfActive, if_neg hactive]
      · simp [hx]

/-- The fields that the writes to scopes leave alone. -/
structure SameFrame (t t' : ScopeTree) : Prop where
  keys : t'.nodes.keys = t.nodes.keys
  cancellationBoundaries : t'.cancellationBoundaries = t.cancellationBoundaries
  retained : t'.retained = t.retained
  tombstones : t'.tombstones = t.tombstones
  liveCount : t'.liveCount = t.liveCount

namespace SameFrame

theorem refl (t : ScopeTree) : SameFrame t t := ⟨rfl, rfl, rfl, rfl, rfl⟩

theorem trans {t₁ t₂ t₃ : ScopeTree} (h : SameFrame t₁ t₂) (h' : SameFrame t₂ t₃) :
    SameFrame t₁ t₃ :=
  ⟨h'.keys.trans h.keys, h'.cancellationBoundaries.trans h.cancellationBoundaries,
    h'.retained.trans h.retained, h'.tombstones.trans h.tombstones, h'.liveCount.trans h.liveCount⟩

theorem modify (t : ScopeTree) (id : ScopeId) (f : ScopeNode → ScopeNode) :
    SameFrame t (t.modify id f) :=
  ⟨keys_modify t id f, modify_cancellationBoundaries t id f, modify_retained t id f,
    modify_tombstones t id f, modify_liveCount t id f⟩

theorem beginCancelling (t : ScopeTree) (id : ScopeId) (reason : CancellationReason)
    (instant : ℕ) : SameFrame t (t.beginCancelling id reason instant) := by
  rw [ScopeTree.beginCancelling]
  split
  · exact refl t
  · split
    · exact (modify t id _).trans ⟨rfl, rfl, rfl, rfl, rfl⟩
    · exact refl t

theorem foldl {α : Type} {f : ScopeTree → α → ScopeTree} (hf : ∀ t a, SameFrame t (f t a)) :
    ∀ (l : List α) (t : ScopeTree), SameFrame t (l.foldl f t)
  | [], t => refl t
  | a :: l, t => (hf t a).trans (foldl hf l (f t a))

theorem cancelSubtree (t : ScopeTree) (target : ScopeNode) (reason : CancellationReason)
    (instant : ℕ) : SameFrame t (t.cancelSubtree target reason instant) :=
  (beginCancelling t _ reason instant).trans (foldl (fun t id => beginCancelling t id _ instant) _ _)

theorem foldIntoAncestorIds (t : ScopeTree) (ids : List ScopeId) (effect : EffectCertainty) :
    SameFrame t (t.foldIntoAncestorIds ids effect) :=
  foldl (fun t id => modify t id _) ids t

theorem applyEffect (t : ScopeTree) (id : ScopeId) (effect : EffectCertainty) (instant : ℕ) :
    SameFrame t (t.applyEffect id effect instant) := by
  rw [ScopeTree.applyEffect]
  split
  · exact refl t
  · change SameFrame t (if _ then _ else _)
    split
    · exact (modify t id _).trans ⟨rfl, rfl, rfl, rfl, rfl⟩
    · exact refl t

end SameFrame

/-- A loop that writes `f` to each scope of a list writes it to the scopes of the list, if a second
time makes no difference. -/
theorem get_foldl_write {f : ScopeNode → ScopeNode} {step : ScopeTree → ScopeId → ScopeTree}
    (hstep : ∀ t id x, (step t id).nodes.get x =
      (t.nodes.get x).map fun n => if x = id then f n else n)
    (hf : ∀ n, f (f n) = f n) (ids : List ScopeId) (t : ScopeTree) (x : ScopeId) :
    (ids.foldl step t).nodes.get x =
      (t.nodes.get x).map fun n => if x ∈ ids then f n else n := by
  induction ids generalizing t with
  | nil => simp
  | cons id ids ih =>
    rw [List.foldl_cons, ih, hstep, Option.map_map]
    refine congrArg (fun g => (t.nodes.get x).map g) (funext fun n => ?_)
    by_cases hx : x = id <;> by_cases hmem : x ∈ ids <;> simp [hx, hmem, hf]

/-- What cancelling a subtree does to the scope under an identifier. -/
def stopIn (t : ScopeTree) (target : ScopeNode) (reason : CancellationReason) (instant : ℕ)
    (x : ScopeId) (n : ScopeNode) : ScopeNode :=
  let n := if x = target.scopeId then n.stopIfActive reason instant else n
  if x ∈ t.descendantIdsOf target true then
    n.stopIfActive (.parentCancelled target.scopeId) instant
  else n

variable {t' : ScopeTree}

theorem childrenAt_congr (hshape : t'.shapeAt = t.shapeAt)
    (hbound : t'.cancellationBoundaries = t.cancellationBoundaries) (cancellation : Bool) :
    t'.childrenAt cancellation = t.childrenAt cancellation := by
  funext id
  have h := congrFun hshape id
  rw [shapeAt, shapeAt] at h
  rw [childrenAt, childrenAt, hbound]
  rcases hnode : t.nodes.get id with _ | node
  · rw [hnode, Option.map_none, Option.map_eq_none_iff] at h
    rw [h]
  · rw [hnode, Option.map_some, Option.map_eq_some_iff] at h
    obtain ⟨node', hnode', hs⟩ := h
    have hchildren : node'.children = node.children := congrArg Shape.children hs
    rw [hnode']
    simp only [hchildren]

theorem climb_congr (hshape : t'.shapeAt = t.shapeAt) (fuel : ℕ)
    (parentId : Option ScopeId) : t'.climb fuel parentId = t.climb fuel parentId := by
  induction fuel generalizing parentId with
  | zero => rfl
  | succ fuel ih =>
    rcases parentId with _ | id
    · rfl
    · have h := congrFun hshape id
      rw [shapeAt, shapeAt] at h
      rw [climb, climb]
      rcases hnode : t.nodes.get id with _ | node
      · rw [hnode, Option.map_none, Option.map_eq_none_iff] at h
        rw [h]
      · rw [hnode, Option.map_some, Option.map_eq_some_iff] at h
        obtain ⟨node', hnode', hs⟩ := h
        have hparent : node'.parentId = node.parentId := congrArg Shape.parentId hs
        rw [hnode']
        simp only [hparent, ih]

/-- Writes that leave every scope where it is leave the shapes alone. -/
theorem shapeAt_of_get_map {g : ScopeId → ScopeNode → ScopeNode}
    (hget : ∀ x, t'.nodes.get x = (t.nodes.get x).map (g x))
    (hg : ∀ x n, (g x n).shape = n.shape) : t'.shapeAt = t.shapeAt := by
  funext x
  rw [shapeAt, shapeAt, hget, Option.map_map]
  exact congrArg (fun f => (t.nodes.get x).map f) (funext fun n => hg x n)

theorem shape_stopIfActive (n : ScopeNode) (reason : CancellationReason) (instant : ℕ) :
    (n.stopIfActive reason instant).shape = n.shape := by
  rcases n.stopIfActive_cases reason instant with ⟨-, h⟩ | ⟨-, h⟩ <;> rw [h]
  rfl

theorem shapeAt_beginCancelling (t : ScopeTree) (id : ScopeId) (reason : CancellationReason)
    (instant : ℕ) : (t.beginCancelling id reason instant).shapeAt = t.shapeAt := by
  refine shapeAt_of_get_map (get_beginCancelling t id reason instant) fun x _ => ?_
  by_cases h : x = id
  · rw [if_pos h, shape_stopIfActive]
  · rw [if_neg h]

theorem get_cancelSubtree (t : ScopeTree) (target : ScopeNode) (reason : CancellationReason)
    (instant : ℕ) (x : ScopeId) :
    (t.cancelSubtree target reason instant).nodes.get x =
      (t.nodes.get x).map (t.stopIn target reason instant x) := by
  have hdesc : (t.beginCancelling target.scopeId reason instant).descendantIdsOf target true =
      t.descendantIdsOf target true := by
    have hframe := SameFrame.beginCancelling t target.scopeId reason instant
    rw [descendantIdsOf, descendantIdsOf, ← OrderedMap.length_keys, ← OrderedMap.length_keys,
      hframe.keys, childrenAt_congr (shapeAt_beginCancelling t _ reason instant)
        hframe.cancellationBoundaries]
  rw [cancelSubtree, beginCancellingAll, hdesc,
    get_foldl_write (fun t id x => get_beginCancelling t id _ instant x)
      (fun n => n.stopIfActive_idem _ _ _ _), get_beginCancelling, Option.map_map]
  rfl

theorem shape_stopIn (t : ScopeTree) (target : ScopeNode) (reason : CancellationReason)
    (instant : ℕ) (x : ScopeId) (n : ScopeNode) :
    (t.stopIn target reason instant x n).shape = n.shape := by
  unfold stopIn
  dsimp only
  split_ifs <;> simp only [shape_stopIfActive]

/-! ## Effects -/

theorem get_foldIntoAncestorIds (t : ScopeTree) (ids : List ScopeId) (effect : EffectCertainty)
    (x : ScopeId) :
    (t.foldIntoAncestorIds ids effect).nodes.get x =
      (t.nodes.get x).map fun n => if x ∈ ids then n.absorb effect else n := by
  refine get_foldl_write (fun t _ x => ?_) (fun n => n.absorb_idem effect) ids t x
  rw [get_modify]
  split
  next h => rfl
  next h => simp

theorem get_applyEffect (t : ScopeTree) (id : ScopeId) (effect : EffectCertainty) (instant : ℕ)
    (x : ScopeId) :
    (t.applyEffect id effect instant).nodes.get x =
      (t.nodes.get x).map fun n =>
        if x = id then n.withEffect (worstEffect n.effect effect) else n := by
  rw [applyEffect]
  split
  next hnone =>
    by_cases hx : x = id
    · rw [hx, hnone, Option.map_none]
    · simp [hx]
  next node hnode =>
    change (if worstEffect node.effect effect ≠ node.effect then _ else t).nodes.get x = _
    split
    · rw [emit_nodes, get_modify]
      by_cases hx : x = id
      · rw [if_pos hx, hx, hnode, Option.map_some, Option.map_some, if_pos rfl]
      · simp [hx]
    next hsame =>
      by_cases hx : x = id
      · rw [hx, hnode, Option.map_some, if_pos rfl, not_not.1 hsame]
        rfl
      · simp [hx]

/-! ## Settling -/

/-- What settling a scope does to the scope under an identifier. -/
def settleIn (t : ScopeTree) (node : ScopeNode) (outcome : TerminalOutcome) (instant : ℕ)
    (x : ScopeId) (n : ScopeNode) : ScopeNode :=
  let n := if x = node.scopeId then n.settled outcome instant else n
  if x ∈ t.ancestorIdsOf node then n.absorb node.totalEffect else n

theorem get_settleUntrimmed (t : ScopeTree) (node : ScopeNode) (outcome : TerminalOutcome)
    (instant : ℕ) (x : ScopeId) :
    (t.settleUntrimmed node outcome instant).nodes.get x =
      (t.nodes.get x).map (t.settleIn node outcome instant x) := by
  change (foldIntoAncestorIds (t.modify node.scopeId (·.settled outcome instant))
      ((t.modify node.scopeId (·.settled outcome instant)).climb maxScopeDepth node.parentId)
      node.totalEffect).nodes.get x = _
  rw [get_foldIntoAncestorIds, climb_congr (shapeAt_modify (keepsShape_settled outcome instant)),
    get_modify]
  by_cases hx : x = node.scopeId
  · rw [if_pos hx, Option.map_map]
    refine congrArg (fun f => (t.nodes.get x).map f) (funext fun n => ?_)
    simp only [settleIn, ancestorIdsOf, hx, if_true, Function.comp]
  · rw [if_neg hx]
    refine congrArg (fun f => (t.nodes.get x).map f) (funext fun n => ?_)
    simp only [settleIn, ancestorIdsOf, hx, if_false]

theorem shape_settleIn (t : ScopeTree) (node : ScopeNode) (outcome : TerminalOutcome)
    (instant : ℕ) (x : ScopeId) (n : ScopeNode) :
    (t.settleIn node outcome instant x n).shape = n.shape := by
  unfold settleIn
  dsimp only
  split_ifs <;> rfl

theorem settleUntrimmed_retained (t : ScopeTree) (node : ScopeNode) (outcome : TerminalOutcome)
    (instant : ℕ) :
    (t.settleUntrimmed node outcome instant).retained = t.retained ++ [node.scopeId] := by
  change ScopeTree.retained (foldIntoAncestorIds _ _ _) ++ [node.scopeId] = _
  rw [(SameFrame.foldIntoAncestorIds _ _ _).retained, modify_retained]

theorem settleUntrimmed_cancellationBoundaries (t : ScopeTree) (node : ScopeNode)
    (outcome : TerminalOutcome) (instant : ℕ) :
    (t.settleUntrimmed node outcome instant).cancellationBoundaries =
      t.cancellationBoundaries := by
  change ScopeTree.cancellationBoundaries (foldIntoAncestorIds _ _ _) = _
  rw [(SameFrame.foldIntoAncestorIds _ _ _).cancellationBoundaries, modify_cancellationBoundaries]

theorem settleUntrimmed_tombstones (t : ScopeTree) (node : ScopeNode) (outcome : TerminalOutcome)
    (instant : ℕ) : (t.settleUntrimmed node outcome instant).tombstones = t.tombstones := by
  change ScopeTree.tombstones (foldIntoAncestorIds _ _ _) = _
  rw [(SameFrame.foldIntoAncestorIds _ _ _).tombstones, modify_tombstones]

/-! ## Eviction -/

theorem get_detach (t : ScopeTree) (node : ScopeNode) (x : ScopeId) :
    (t.detach node).nodes.get x =
      if x = node.scopeId then none
      else (t.nodes.get x).map fun n =>
        if node.parentId = some x then n.withoutChild node.scopeId else n := by
  unfold detach
  by_cases hx : x = node.scopeId
  · rw [if_pos hx, hx]
    exact OrderedMap.get_delete_self _ _
  · rw [if_neg hx]
    rcases hp : node.parentId with _ | p
    · simp [OrderedMap.get_delete_ne _ hx]
    · change OrderedMap.get (OrderedMap.delete _ _) x = _
      rw [OrderedMap.get_delete_ne _ hx, get_modify]
      by_cases hxp : x = p
      · simp [hxp]
      · simp [hxp, eq_comm]

variable {node : ScopeNode} {id : ScopeId} {l : List ScopeId}

theorem shapeAt_detach : (t.detach node).shapeAt = prune t.shapeAt node.scopeId node.shape := by
  funext x
  rw [shapeAt, get_detach, prune]
  by_cases hx : x = node.scopeId
  · rw [if_pos hx, if_pos hx, Option.map_none]
  · rw [if_neg hx, if_neg hx, Option.map_map, shapeAt]
    change _ = if node.parentId = some x then _ else _
    rcases t.nodes.get x with _ | n
    · simp
    · by_cases hp : node.parentId = some x
      · simp only [Option.map_some, Function.comp, if_pos hp]
        rfl
      · simp only [Option.map_some, Function.comp, if_neg hp]

/-- What an eviction does: the scope had no retained child, and it leaves a tombstone. -/
theorem evict_eq_some : t.evict node = some t' ↔
      (∀ c ∈ node.children, t.nodes.get c = none) ∧
        t' = (t.detach node).rememberTombstone node.scopeId (t.ancestorIdsOf node) := by
  rw [evict]
  split
  next hany =>
    obtain ⟨c, hc, hsome⟩ := List.any_eq_true.1 hany
    refine iff_of_false (by simp) fun h => ?_
    rw [h.1 c hc] at hsome
    cases hsome
  next hany =>
    have hnone : ∀ c ∈ node.children, t.nodes.get c = none := by
      intro c hc
      by_contra hne
      exact hany (List.any_eq_true.2 ⟨c, hc, Option.isSome_iff_ne_none.2 hne⟩)
    exact ⟨fun h => ⟨hnone, (Option.some.inj h).symm⟩, fun h => congrArg some h.2.symm⟩

theorem detach_cancellationBoundaries (t : ScopeTree) (node : ScopeNode) :
    (t.detach node).cancellationBoundaries = t.cancellationBoundaries.erase node.scopeId := by
  unfold detach
  rcases node.parentId with _ | p
  · rfl
  · change Finset.erase (ScopeTree.cancellationBoundaries (t.modify _ _)) _ = _
    rw [modify_cancellationBoundaries]

theorem detach_tombstones (t : ScopeTree) (node : ScopeNode) :
    (t.detach node).tombstones = t.tombstones := by
  unfold detach
  rcases node.parentId with _ | p
  · rfl
  · exact modify_tombstones t _ _

/-- A tombstone that is held after dropping the oldest was held before. -/
theorem get_dropOldest {m : OrderedMap ScopeId (List ScopeId)}
    (h : (dropOldest m).get id = some l) : m.get id = some l := by
  have hfold : ∀ (ks : List ScopeId) (m : OrderedMap ScopeId (List ScopeId)),
      (ks.foldl OrderedMap.delete m).get id = some l → m.get id = some l := by
    intro ks
    induction ks with
    | nil => exact fun m h => h
    | cons _ ks ih =>
      intro m h
      have hdel := ih _ h
      rw [OrderedMap.get_delete] at hdel
      split at hdel
      · cases hdel
      · exact hdel
  exact hfold _ _ h

/-- The tombstones after an eviction are the new one and some of the old ones. -/
theorem get_rememberTombstone {x : ScopeId} {ancestorIds : List ScopeId}
    (h : (t.rememberTombstone id ancestorIds).tombstones.get x = some l) :
    (x = id ∧ l = ancestorIds) ∨ (x ≠ id ∧ t.tombstones.get x = some l) := by
  unfold rememberTombstone at h
  dsimp only at h
  have hset := get_dropOldest h
  rw [OrderedMap.get_set] at hset
  split at hset
  next hx => exact .inl ⟨hx, (Option.some.inj hset).symm⟩
  next hx =>
    rw [OrderedMap.get_delete_ne _ hx] at hset
    exact .inr ⟨hx, hset⟩

/-! ## Deriving -/

theorem get_attach {parent : ScopeNode} (hne : node.scopeId ≠ parent.scopeId)
    (hparent : t.nodes.get parent.scopeId = some parent) (instant : ℕ) (x : ScopeId) :
    (t.attach parent node instant).nodes.get x =
      if x = node.scopeId then some node
      else if x = parent.scopeId then some (parent.withChild node.scopeId)
      else t.nodes.get x := by
  rw [attach]
  change OrderedMap.get (ScopeTree.nodes (modify _ _ _)) x = _
  rw [get_modify]
  change (if x = parent.scopeId then
    ((t.nodes.set node.scopeId node).get x).map (·.withChild node.scopeId)
    else (t.nodes.set node.scopeId node).get x) = _
  rw [OrderedMap.get_set]
  by_cases hx : x = node.scopeId
  · rw [if_pos hx, if_pos hx, if_neg (hx ▸ hne)]
  · rw [if_neg hx, if_neg hx]
    by_cases hp : x = parent.scopeId
    · rw [if_pos hp, if_pos hp, hp, hparent, Option.map_some]
    · rw [if_neg hp, if_neg hp]

/-- What a `derive` that succeeds found and did. -/
theorem derive_ok {parentId : ScopeId} {options : DeriveScopeOptions} {openedAt requestedAt : ℕ}
    {handle : ScopeHandle}
    (h : t.derive parentId options openedAt requestedAt = .ok (handle, t')) :
    ∃ parent childId, t.nodes.get parentId = some parent ∧ ¬ parent.state.IsTerminal ∧
      parent.depth + 1 < maxScopeDepth ∧ t.liveCount < maxLiveScopes ∧
      childIdFor parent options = .ok childId ∧ t.nodes.get childId = none ∧
      handle.scopeId = childId ∧
      t' = if parent.state.IsCancelling then
          (t.attach parent (newNode parent options childId) openedAt).beginCancelling childId
            (.parentCancelled parentId) requestedAt
        else t.attach parent (newNode parent options childId) openedAt := by
  rw [derive, except_bind_ok] at h
  obtain ⟨parent, hparent, h⟩ := h
  rw [requireNode] at hparent
  split at hparent
  · cases hparent
  next hnode =>
    cases hparent
    rw [except_bind_ok] at h
    obtain ⟨_, hterminal, h⟩ := h
    rw [except_bind_ok] at h
    obtain ⟨_, hdepth, h⟩ := h
    rw [except_bind_ok] at h
    obtain ⟨_, hlive, h⟩ := h
    rw [except_bind_ok] at h
    obtain ⟨childId, hchild, h⟩ := h
    rw [except_bind_ok] at h
    obtain ⟨_, hfresh, h⟩ := h
    rw [refuseIf_ok] at hterminal hdepth hlive hfresh
    refine ⟨parent, childId, hnode, hterminal, not_le.1 hdepth, not_le.1 hlive, hchild, ?_, ?_⟩
    · exact Option.not_isSome_iff_eq_none.1 hfresh
    · split at h
      next hcancelling =>
        cases h
        exact ⟨rfl, (if_pos hcancelling).symm⟩
      next hcancelling =>
        cases h
        exact ⟨rfl, (if_neg hcancelling).symm⟩

end ScopeTree
end Falryn.Orchestration
