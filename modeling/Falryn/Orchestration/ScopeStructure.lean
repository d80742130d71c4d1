import Falryn.Orchestration.ScopeCancellation

/-!
# The structure of a tree

Six records describe the scopes of a tree: the map, the lists of children, the list of what waits for
eviction, the tombstones, the boundaries and the counter of live scopes.  This file shows that they
agree in every reachable tree, and that an eviction takes neither the root nor a scope that has not
settled.
-/

namespace Falryn.Orchestration

/-! ## Deadlines -/

/-- The first deadline is no later than the second.  No deadline is later than every deadline. -/
def NoLater : Option Deadline → Option Deadline → Prop
  | _, none => True
  | none, some _ => False
  | some d, some d' => d.expiresAt ≤ d'.expiresAt

theorem noLater_deriveDeadline (inherited requested : Option Deadline) :
    NoLater (deriveDeadline inherited requested) inherited := by
  rcases inherited with _ | inherited
  · exact trivial
  · rcases requested with _ | requested
    · exact le_refl inherited.expiresAt
    · show (if _ then _ else _ : Deadline).expiresAt ≤ inherited.expiresAt
      split
      next h => exact h.le
      · exact le_refl _

/-! ## One root -/

theorem ScopeForest.root_above {shape : ScopeId → Option Shape} (h : ScopeForest shape)
    {id : ScopeId} {s : Shape} (hs : shape id = some s) :
    s.parentId = none ∨ ∃ r s', Above shape r id ∧ shape r = some s' ∧ s'.parentId = none := by
  obtain ⟨depth, hdepth⟩ : ∃ depth, s.depth = depth := ⟨_, rfl⟩
  induction depth using Nat.strong_induction_on generalizing id s with
  | _ depth ih =>
    rcases hp : s.parentId with _ | p
    · exact .inl rfl
    · obtain ⟨s₁, hs₁, -, hd⟩ := h.parent hs hp
      have hlink : Above shape p id := .single ⟨s, hs, hp⟩
      rcases ih s₁.depth (by omega) hs₁ rfl with hroot | ⟨r, s', habove, hr, hroot⟩
      · exact .inr ⟨p, s₁, hlink, hs₁, hroot⟩
      · exact .inr ⟨r, s', habove.trans hlink, hr, hroot⟩

namespace ScopeTree

variable {t t' : ScopeTree} {rootId : ScopeId} {g : ScopeId → ScopeNode → ScopeNode}

def liveScopeCount (t : ScopeTree) : ℕ := t.liveCount

/-- What agrees in every reachable tree besides its being sound. -/
structure Structured (rootId : ScopeId) (t : ScopeTree) : Prop where
  /-- The root is there and has no parent. -/
  root : ∃ n, t.nodes.get rootId = some n ∧ n.parentId = none
  /-- Nothing else is without a parent. -/
  only : ∀ {id n}, t.nodes.get id = some n → n.parentId = none → id = rootId
  /-- A scope is live or waits for eviction. -/
  counted : t.liveCount + t.retained.length = t.nodes.size
  /-- `derive` refuses to open more. -/
  bounded : t.liveCount ≤ maxLiveScopes
  /-- A scope ends no later than its parent. -/
  deadline : ∀ {id n p np}, t.nodes.get id = some n → n.parentId = some p →
    t.nodes.get p = some np → NoLater n.deadline np.deadline

/-- Every scope that is there was there before, with the parent and the deadline it has. -/
def SameFamily (t t' : ScopeTree) : Prop :=
  ∀ id n', t'.nodes.get id = some n' →
    ∃ n, t.nodes.get id = some n ∧ n'.parentId = n.parentId ∧ n'.deadline = n.deadline

theorem SameFamily.of_get_map (hget : ∀ x, t'.nodes.get x = (t.nodes.get x).map (g x))
    (hg : ∀ x n, (g x n).parentId = n.parentId ∧ (g x n).deadline = n.deadline) :
    SameFamily t t' := by
  intro id n' hn'
  rw [hget] at hn'
  obtain ⟨n, hn, rfl⟩ := Option.map_eq_some_iff.1 hn'
  exact ⟨n, hn, hg id n⟩

theorem Structured.of_sameFamily (h : Structured rootId t) (hfamily : SameFamily t t')
    (hroot : ∃ n, t'.nodes.get rootId = some n)
    (hcounted : t'.liveCount + t'.retained.length = t'.nodes.size)
    (hbounded : t'.liveCount ≤ t.liveCount) : Structured rootId t' where
  root := by
    obtain ⟨n', hn'⟩ := hroot
    obtain ⟨n, hn, hp, -⟩ := hfamily rootId n' hn'
    obtain ⟨r, hr, hnone⟩ := h.root
    rw [hn] at hr
    cases hr
    exact ⟨n', hn', hp.trans hnone⟩
  only {id n'} hn' hp' := by
    obtain ⟨n, hn, hp, -⟩ := hfamily id n' hn'
    exact h.only hn (hp.symm.trans hp')
  counted := hcounted
  bounded := hbounded.trans h.bounded
  deadline {id n' p np'} hn' hp' hnp' := by
    obtain ⟨n, hn, hp, hd⟩ := hfamily id n' hn'
    obtain ⟨np, hnp, -, hdp⟩ := hfamily p np' hnp'
    rw [hd, hdp]
    exact h.deadline hn (hp.symm.trans hp') hnp

/-- A write that leaves every scope where it is keeps the structure. -/
theorem Structured.of_frame (h : Structured rootId t)
    (hget : ∀ x, t'.nodes.get x = (t.nodes.get x).map (g x))
    (hg : ∀ x n, (g x n).parentId = n.parentId ∧ (g x n).deadline = n.deadline)
    (hframe : SameFrame t t') : Structured rootId t' := by
  obtain ⟨r, hr, -⟩ := h.root
  refine h.of_sameFamily (.of_get_map hget hg) ⟨_, by rw [hget, hr, Option.map_some]⟩ ?_
    hframe.liveCount.le
  rw [hframe.liveCount, hframe.retained, ← OrderedMap.length_keys, hframe.keys,
    OrderedMap.length_keys]
  exact h.counted

/-! ## Moves -/

theorem family_stopIfActive (n : ScopeNode) (reason : CancellationReason) (instant : ℕ) :
    (n.stopIfActive reason instant).parentId = n.parentId ∧
      (n.stopIfActive reason instant).deadline = n.deadline := by
  rcases n.stopIfActive_cases reason instant with ⟨-, h⟩ | ⟨-, h⟩ <;> rw [h] <;> exact ⟨rfl, rfl⟩

theorem family_stopIn (t : ScopeTree) (target : ScopeNode) (reason : CancellationReason)
    (instant : ℕ) (x : ScopeId) (n : ScopeNode) :
    (t.stopIn target reason instant x n).parentId = n.parentId ∧
      (t.stopIn target reason instant x n).deadline = n.deadline := by
  unfold stopIn
  dsimp only
  split_ifs <;> simp only [family_stopIfActive, and_self]

theorem family_settleIn (t : ScopeTree) (node : ScopeNode) (outcome : TerminalOutcome)
    (instant : ℕ) (x : ScopeId) (n : ScopeNode) :
    (t.settleIn node outcome instant x n).parentId = n.parentId ∧
      (t.settleIn node outcome instant x n).deadline = n.deadline := by
  unfold settleIn
  dsimp only
  split_ifs <;> exact ⟨rfl, rfl⟩

theorem keys_settleUntrimmed (t : ScopeTree) (node : ScopeNode) (outcome : TerminalOutcome)
    (instant : ℕ) : (t.settleUntrimmed node outcome instant).nodes.keys = t.nodes.keys := by
  change (foldIntoAncestorIds (t.modify node.scopeId _) _ _).nodes.keys = _
  rw [(SameFrame.foldIntoAncestorIds _ _ _).keys, keys_modify]

theorem settleUntrimmed_liveCount (t : ScopeTree) (node : ScopeNode) (outcome : TerminalOutcome)
    (instant : ℕ) : (t.settleUntrimmed node outcome instant).liveCount = t.liveCount - 1 := by
  change (foldIntoAncestorIds (t.modify node.scopeId _) _ _).liveCount - 1 = _
  rw [(SameFrame.foldIntoAncestorIds _ _ _).liveCount, modify_liveCount]

variable {id : ScopeId} {n : ScopeNode}

/-- While a scope has not settled, fewer scopes wait for eviction than there are. -/
theorem Sound.retained_lt_size (h : Sound t)
    (hn : t.nodes.get id = some n) (hlive : ¬ n.state.IsTerminal) :
    t.retained.length < t.nodes.size := by
  have hout : id ∉ t.retained := by
    intro hmem
    obtain ⟨m, hm, hterminal⟩ := h.retained.1 hmem
    rw [hn] at hm
    cases hm
    exact hlive hterminal
  have hsub : (id :: t.retained) ⊆ t.nodes.keys := by
    intro x hx
    rcases List.mem_cons.1 hx with rfl | hx
    · exact OrderedMap.mem_keys.2 ⟨n, hn⟩
    · obtain ⟨m, hm, -⟩ := h.retained.1 hx
      exact OrderedMap.mem_keys.2 ⟨m, hm⟩
  have hle := ((List.nodup_cons.2 ⟨hout, h.nodup⟩).subperm hsub).length_le
  rw [OrderedMap.length_keys] at hle
  exact hle

variable {node : ScopeNode} {parent : ScopeNode}

theorem size_detach (hnode : t.nodes.get node.scopeId = some node) :
    (t.detach node).nodes.size + 1 = t.nodes.size := by
  have hkeys : (t.detach node).nodes.keys = t.nodes.keys.filter fun k => k ≠ node.scopeId := by
    unfold detach
    rcases node.parentId with _ | p
    · exact OrderedMap.keys_delete _ _
    · show (OrderedMap.delete _ _).keys = _
      rw [OrderedMap.keys_delete, keys_modify]
  have hmem : node.scopeId ∈ t.nodes.keys := OrderedMap.mem_keys.2 ⟨node, hnode⟩
  have herase : t.nodes.keys.erase node.scopeId =
      t.nodes.keys.filter fun k => k ≠ node.scopeId := by
    rw [t.nodes.nodup_keys.erase_eq_filter]
    exact List.filter_congr fun k _ => by rw [bne, beq_eq_decide, decide_not]
  rw [← OrderedMap.length_keys, hkeys, ← herase, List.length_erase_add_one hmem,
    OrderedMap.length_keys]

theorem detach_liveCount (t : ScopeTree) (node : ScopeNode) :
    (t.detach node).liveCount = t.liveCount := by
  unfold detach
  rcases node.parentId with _ | p
  · rfl
  · exact modify_liveCount t _ _

/-- An eviction does not take the root: it would have to be the only scope there is, and the list of
what waits for eviction is long. -/
theorem Structured.evict_ne_root (h : Structured rootId t) (hsound : Sound t)
    {before after : List ScopeId} (hnode : t.nodes.get node.scopeId = some node)
    (hret : t.retained = before ++ node.scopeId :: after) (hev : t.evict node = some t')
    (hfull : maxRetainedTerminalScopes ≤ after.length) : node.scopeId ≠ rootId := by
  intro heq
  have hleaf := hsound.evicted_childless hnode hev
  obtain ⟨y, after', rfl⟩ : ∃ y after', after = y :: after' := by
    rcases after with _ | ⟨y, after'⟩
    · exact absurd hfull (by decide)
    · exact ⟨y, after', rfl⟩
  have hnodup := hsound.nodup
  rw [hret] at hnodup
  have hne : y ≠ node.scopeId := by
    rintro rfl
    have hout := (List.nodup_middle.1 hnodup).notMem
    exact hout (List.mem_append_right _ List.mem_cons_self)
  have hmem : y ∈ t.retained := by
    rw [hret]
    exact List.mem_append_right _ (List.mem_cons_of_mem _ List.mem_cons_self)
  obtain ⟨ny, hny, -⟩ := hsound.retained.1 hmem
  rcases hsound.forest.root_above (shapeAt_of_get hny) with hroot | ⟨r, s', habove, hr, hroot⟩
  · exact hne ((h.only hny hroot).trans heq.symm)
  · obtain ⟨nr, hnr, rfl⟩ := shapeAt_eq_some.1 hr
    have hr : r = node.scopeId := (h.only hnr hroot).trans heq.symm
    rw [hr] at habove
    exact hsound.forest.not_above_of_childless (shapeAt_of_get hnode) hleaf habove

theorem Structured.move (hsound : Sound t) (h : Structured rootId t) (hmove : Move t t') :
    Structured rootId t' := by
  rcases hmove with ⟨reason, instant, hnode⟩ | ⟨outcome, instant, hnode, hlive⟩ |
    ⟨hnode, hret, hev, hfull⟩ | ⟨hnode, hactive⟩ | ⟨hnode, hactive, -, -, -⟩
  · exact h.of_frame (get_cancelSubtree t _ reason instant) (family_stopIn t _ reason instant)
      (SameFrame.cancelSubtree t _ reason instant)
  · rename_i node
    have hget := get_settleUntrimmed t node outcome instant
    obtain ⟨r, hr, -⟩ := h.root
    refine h.of_sameFamily (.of_get_map hget (family_settleIn t node outcome instant))
      ⟨_, by rw [hget, hr, Option.map_some]⟩ ?_ ?_
    · rw [settleUntrimmed_liveCount, settleUntrimmed_retained, List.length_append,
        List.length_singleton, ← OrderedMap.length_keys, keys_settleUntrimmed,
        OrderedMap.length_keys]
      have hlt := hsound.retained_lt_size hnode hlive
      have hcounted := h.counted
      omega
    · rw [settleUntrimmed_liveCount]
      exact Nat.sub_le _ _
  · rename_i t₁ node before after
    have hne := h.evict_ne_root hsound hnode hret hev hfull
    have hfamily : SameFamily t { t₁ with retained := before ++ after } := by
      intro id n' hn'
      obtain ⟨n, hn, rfl⟩ := get_evict_eq_some hev hn'
      refine ⟨n, hn, ?_⟩
      split <;> exact ⟨rfl, rfl⟩
    have ht₁ := (evict_eq_some.1 hev).2
    have hlive : t₁.liveCount = t.liveCount := by
      rw [ht₁]
      exact detach_liveCount t node
    obtain ⟨r, hr, -⟩ := h.root
    refine h.of_sameFamily hfamily ?_ ?_ hlive.le
    · show ∃ n, t₁.nodes.get rootId = some n
      exact ⟨_, by rw [get_evict hev, if_neg (Ne.symm hne), hr, Option.map_some]⟩
    · show t₁.liveCount + (before ++ after).length = t₁.nodes.size
      have hsize : t₁.nodes.size + 1 = t.nodes.size := by
        have hnodes : t₁.nodes = (t.detach node).nodes := by rw [ht₁, rememberTombstone]
        rw [hnodes, size_detach hnode]
      have hcounted := h.counted
      rw [hret, List.length_append, List.length_cons] at hcounted
      rw [hlive, List.length_append]
      omega
  · exact ⟨h.root, h.only, h.counted, h.bounded, h.deadline⟩
  · exact ⟨h.root, h.only, h.counted, h.bounded, h.deadline⟩

/-! ## The other operations -/

theorem size_attach (hfresh : t.nodes.get node.scopeId = none)
    (instant : ℕ) : (t.attach parent node instant).nodes.size = t.nodes.size + 1 := by
  rw [attach, ← OrderedMap.length_keys, emit_nodes, keys_modify]
  show (t.nodes.set node.scopeId node).keys.length = _
  rw [OrderedMap.keys_set_of_not_mem _ (OrderedMap.get_eq_none.1 hfresh), List.length_append,
    List.length_singleton, OrderedMap.length_keys]

theorem attach_liveCount (parent node : ScopeNode) (instant : ℕ) :
    (t.attach parent node instant).liveCount = t.liveCount + 1 := by
  rw [attach]
  exact modify_liveCount _ _ _

theorem Structured.attach (h : Structured rootId t) (hsound : Sound t)
    (options : DeriveScopeOptions) {childId : ScopeId}
    (hparent : t.nodes.get parent.scopeId = some parent) (hfresh : t.nodes.get childId = none)
    (hcount : t.liveCount < maxLiveScopes) (instant : ℕ) :
    Structured rootId (t.attach parent (newNode parent options childId) instant) := by
  have hget := get_attach_newNode options hparent hfresh instant
  -- an old scope has kept its parent and its deadline
  have hold : ∀ {x n'}, x ≠ childId →
      (t.attach parent (newNode parent options childId) instant).nodes.get x = some n' →
      ∃ n, t.nodes.get x = some n ∧ n'.parentId = n.parentId ∧ n'.deadline = n.deadline := by
    intro x n' hx hn'
    rw [hget, if_neg hx] at hn'
    by_cases hp : x = parent.scopeId
    · rw [if_pos hp] at hn'
      cases hn'
      exact ⟨parent, hp ▸ hparent, rfl, rfl⟩
    · rw [if_neg hp] at hn'
      exact ⟨n', hn', rfl, rfl⟩
  refine ⟨?_, fun {id n} hn hp => ?_, ?_, ?_, fun {id n p np} hn hp hnp => ?_⟩
  · obtain ⟨r, hr, hnone⟩ := h.root
    have hroot : rootId ≠ childId := by
      rintro rfl
      rw [hfresh] at hr
      cases hr
    by_cases hp : rootId = parent.scopeId
    · rw [hp, hparent] at hr
      cases hr
      exact ⟨parent.withChild childId, by rw [hget, if_neg hroot, if_pos hp], hnone⟩
    · exact ⟨r, by rw [hget, if_neg hroot, if_neg hp, hr], hnone⟩
  · by_cases hid : id = childId
    · rw [hget, if_pos hid] at hn
      cases hn
      cases hp
    · obtain ⟨m, hm, hpm, -⟩ := hold hid hn
      exact h.only hm (hpm.symm.trans hp)
  · rw [attach_liveCount, attach_retained, size_attach hfresh]
    have hcounted := h.counted
    omega
  · rw [attach_liveCount]
    exact hcount
  · by_cases hid : id = childId
    · rw [hget, if_pos hid] at hn
      cases hn
      have hp : p = parent.scopeId := (Option.some.inj hp).symm
      have hne : p ≠ childId := fun h => by simp [← h, hp, hparent] at hfresh
      rw [hget, if_neg hne, if_pos hp] at hnp
      cases hnp
      exact noLater_deriveDeadline parent.deadline options.deadline
    · obtain ⟨m, hm, hpm, hd⟩ := hold hid hn
      obtain ⟨s, hs, -, -⟩ := hsound.forest.parent (shapeAt_of_get hm) (hpm.symm.trans hp)
      have hpc : p ≠ childId := by
        rintro rfl
        obtain ⟨q, hq, -⟩ := shapeAt_eq_some.1 hs
        rw [hfresh] at hq
        cases hq
      obtain ⟨mp, hmp, -, hdp⟩ := hold hpc hnp
      rw [hd, hdp]
      exact h.deadline hm (hpm.symm.trans hp) hmp

variable {parentId : ScopeId} {options : DeriveScopeOptions} {openedAt requestedAt : ℕ}
  {handle : ScopeHandle}

theorem Structured.derive (hsound : Sound t) (h : Structured rootId t)
    (hok : t.derive parentId options openedAt requestedAt = .ok (handle, t')) :
    Structured rootId t' := by
  obtain ⟨parent, childId, hparent, -, -, hcount, -, hfresh, -, rfl⟩ := derive_ok hok
  have hopened := h.attach hsound options (by rw [hsound.key hparent, hparent]) hfresh hcount openedAt
  split
  · refine hopened.of_frame (get_beginCancelling _ childId _ requestedAt) (fun _ n => ?_)
      (SameFrame.beginCancelling _ childId _ requestedAt)
    split
    · exact family_stopIfActive n _ _
    · exact ⟨rfl, rfl⟩
  · exact hopened

theorem Structured.applyEffect (h : Structured rootId t) (id : ScopeId) (effect : EffectCertainty)
    (instant : ℕ) : Structured rootId (t.applyEffect id effect instant) := by
  refine h.of_frame (get_applyEffect t id effect instant) (fun _ _ => ?_)
    (SameFrame.applyEffect t id effect instant)
  split <;> exact ⟨rfl, rfl⟩

theorem Structured.foldIntoAncestorIds (h : Structured rootId t) (ids : List ScopeId)
    (effect : EffectCertainty) : Structured rootId (t.foldIntoAncestorIds ids effect) := by
  refine h.of_frame (get_foldIntoAncestorIds t ids effect) (fun _ _ => ?_)
    (SameFrame.foldIntoAncestorIds t ids effect)
  split <;> exact ⟨rfl, rfl⟩

theorem Structured.apply (hsound : Sound t) (h : Structured rootId t) (op : Operation) :
    Structured rootId (t.apply op) :=
  apply_preserves (fun hsound h hmove => Structured.move hsound h hmove)
    (fun hsound h hok => Structured.derive hsound h hok)
    (fun effect instant _ h _ _ => h.applyEffect _ effect instant)
    (fun ids effect _ h => h.foldIntoAncestorIds ids effect) hsound h op

theorem structured_create (rootId : ScopeId) (rootDeadline : Option Deadline) (instant : ℕ) :
    Structured rootId (create rootId rootDeadline instant) := by
  have hget : ∀ {x n}, (create rootId rootDeadline instant).nodes.get x = some n →
      x = rootId ∧ n.parentId = none := by
    intro x n hn
    rw [get_create] at hn
    split at hn
    next hx =>
      cases hn
      exact ⟨hx, rfl⟩
    · cases hn
  refine ⟨⟨_, by rw [get_create, if_pos rfl], rfl⟩, fun hn _ => (hget hn).1, rfl, ?_,
    fun hn hp _ => ?_⟩
  · show 1 ≤ maxLiveScopes
    decide
  · rw [(hget hn).2] at hp
    cases hp

/-! ## What is evicted has settled -/

/-- A scope's settlement was announced between two trees. -/
def SettledSince (t t' : ScopeTree) (id : ScopeId) : Prop :=
  ∃ event ∈ producedSince t t', event.kind = .terminal ∧ event.scopeId = id

/-- What was live is live, or its settlement was announced. -/
structure Accounted (t t' : ScopeTree) : Prop where
  delivered : t.delivered <+: t'.delivered
  live : ∀ {id n}, t.nodes.get id = some n → ¬ n.state.IsTerminal →
    (∃ n', t'.nodes.get id = some n' ∧ ¬ n'.state.IsTerminal) ∨ SettledSince t t' id

variable {t₁ t₂ : ScopeTree}

theorem SettledSince.later (h : SettledSince t t₁ id)
    (hlog : t₁.delivered <+: t₂.delivered) : SettledSince t t₂ id := by
  obtain ⟨event, hmem, hkind⟩ := h
  exact ⟨event, (hlog.drop _).subset hmem, hkind⟩

theorem SettledSince.earlier (h : SettledSince t₁ t₂ id)
    (hlog : t.delivered <+: t₁.delivered) : SettledSince t t₂ id := by
  obtain ⟨event, hmem, hkind⟩ := h
  exact ⟨event, (List.drop_sublist_drop_left _ hlog.length_le).subset hmem, hkind⟩

theorem Accounted.refl (t : ScopeTree) : Accounted t t :=
  ⟨List.prefix_refl _, fun {_ n} hn hlive => .inl ⟨n, hn, hlive⟩⟩

theorem Accounted.trans (h : Accounted t t₁) (h' : Accounted t₁ t₂) : Accounted t t₂ := by
  refine ⟨h.delivered.trans h'.delivered, fun hn hlive => ?_⟩
  rcases h.live hn hlive with ⟨n₁, hn₁, hlive₁⟩ | hsettled
  · exact (h'.live hn₁ hlive₁).imp_right fun hsettled => hsettled.earlier h.delivered
  · exact .inr (hsettled.later h'.delivered)

theorem delivered_beginCancelling (t : ScopeTree) (id : ScopeId) (reason : CancellationReason)
    (instant : ℕ) : t.delivered <+: (t.beginCancelling id reason instant).delivered := by
  rw [beginCancelling]
  split
  · exact List.prefix_refl _
  · split
    · rw [← modify_delivered t id (·.askToStop reason instant)]
      exact List.prefix_append _ _
    · exact List.prefix_refl _

theorem delivered_beginCancellingAll (t : ScopeTree) (ids : List ScopeId)
    (reason : CancellationReason) (instant : ℕ) :
    t.delivered <+: (t.beginCancellingAll ids reason instant).delivered := by
  induction ids generalizing t with
  | nil => exact List.prefix_refl _
  | cons id ids ih => exact (delivered_beginCancelling t id reason instant).trans (ih _)

theorem delivered_settleUntrimmed (t : ScopeTree) (node : ScopeNode) (outcome : TerminalOutcome)
    (instant : ℕ) :
    ∃ event, event.kind = .terminal ∧ event.scopeId = node.scopeId ∧
      (t.settleUntrimmed node outcome instant).delivered = t.delivered ++ [event] := by
  have hlog : ∀ t₁ : ScopeTree, (t₁.emit .terminal node instant node.state.cancelReason
      (some outcome) (some node.effect)).delivered = t₁.delivered ++
        [⟨t₁.order + 1, .terminal, node.scopeId, node.kind, instant, node.state.cancelReason,
          some outcome, some node.effect⟩] := fun _ => rfl
  refine ⟨_, ?_, ?_, (hlog _).trans (congrArg (· ++ _) ?_)⟩
  · rfl
  · rfl
  · rw [foldIntoAncestorIds_delivered, modify_delivered]

theorem Move.accounted (hsound : Sound t) (hmove : Move t t') : Accounted t t' := by
  rcases hmove with ⟨reason, instant, hnode⟩ | ⟨outcome, instant, hnode, hlive⟩ |
    ⟨hnode, hret, hev, -⟩ | ⟨hnode, hactive⟩ | ⟨hnode, hactive, -, -, -⟩
  · rename_i node
    refine ⟨(delivered_beginCancelling t _ reason instant).trans
      (delivered_beginCancellingAll _ _ _ instant), fun {id n} hn hlive => .inl ?_⟩
    refine ⟨t.stopIn node reason instant id n, by rw [get_cancelSubtree, hn, Option.map_some], ?_⟩
    rwa [isTerminal_stopIn]
  · rename_i node
    obtain ⟨event, hkind, hid, hlog⟩ := delivered_settleUntrimmed t node outcome instant
    refine ⟨hlog ▸ List.prefix_append _ _, fun {id n} hn hn' => ?_⟩
    by_cases hx : id = node.scopeId
    · refine .inr ⟨event, ?_, hkind, hid.trans hx.symm⟩
      rw [producedSince, hlog, List.drop_left]
      exact List.mem_singleton_self event
    · refine .inl ⟨_, by rw [get_settleUntrimmed, hn, Option.map_some], ?_⟩
      rwa [state_settleIn, if_neg hx]
  · rename_i t₁ node _ _
    have hterminal := hsound.evicted_terminal hnode hret
    refine ⟨(evict_delivered hev).symm ▸ List.prefix_refl _, fun {id n} hn hlive => .inl ?_⟩
    have hne : id ≠ node.scopeId := by
      rintro rfl
      rw [hnode] at hn
      cases hn
      exact hlive hterminal
    show ∃ n', t₁.nodes.get id = some n' ∧ ¬ n'.state.IsTerminal
    refine ⟨_, by rw [get_evict hev, if_neg hne, hn, Option.map_some], ?_⟩
    split <;> exact hlive
  · exact ⟨List.prefix_refl _, fun {_ n} hn hlive => .inl ⟨n, hn, hlive⟩⟩
  · exact ⟨List.prefix_refl _, fun {_ n} hn hlive => .inl ⟨n, hn, hlive⟩⟩

theorem delivered_derive (hok : t.derive parentId options openedAt requestedAt = .ok (handle, t')) :
    t.delivered <+: t'.delivered := by
  obtain ⟨parent, childId, -, -, -, -, -, -, -, rfl⟩ := derive_ok hok
  have hopened : t.delivered <+:
      (t.attach parent (newNode parent options childId) openedAt).delivered := by
    rw [attach]
    refine List.IsPrefix.trans ?_ (List.prefix_append _ _)
    rw [modify_delivered]
    exact List.prefix_refl _
  split
  · exact hopened.trans (delivered_beginCancelling _ childId _ requestedAt)
  · exact hopened

theorem accounted_derive (hsound : Sound t)
    (hok : t.derive parentId options openedAt requestedAt = .ok (handle, t')) :
    Accounted t t' := by
  obtain ⟨parent, childId, child, hparent, -, hfresh, -, -, -, -, -, -, -, -, hget⟩ :=
    get_derive hsound hok
  refine ⟨delivered_derive hok, fun {id n} hn hlive => .inl ?_⟩
  have hid : id ≠ childId := by
    rintro rfl
    rw [hfresh] at hn
    cases hn
  rw [hget, if_neg hid]
  split
  next hp =>
    rw [hp, hparent] at hn
    cases hn
    exact ⟨_, rfl, hlive⟩
  · exact ⟨n, hn, hlive⟩

theorem accounted_applyEffect (t : ScopeTree) (id : ScopeId) (effect : EffectCertainty)
    (instant : ℕ) : Accounted t (t.applyEffect id effect instant) := by
  refine ⟨?_, fun {x n} hn hlive => .inl ?_⟩
  · rw [applyEffect]
    split
    · exact List.prefix_refl _
    next node _ =>
      show _ <+: (if _ then _ else t : ScopeTree).delivered
      split
      · rw [← modify_delivered t id (·.withEffect (worstEffect node.effect effect))]
        exact List.prefix_append _ _
      · exact List.prefix_refl _
  · refine ⟨_, by rw [get_applyEffect, hn, Option.map_some], ?_⟩
    split <;> exact hlive

theorem accounted_foldIntoAncestorIds (t : ScopeTree) (ids : List ScopeId)
    (effect : EffectCertainty) : Accounted t (t.foldIntoAncestorIds ids effect) := by
  refine ⟨(foldIntoAncestorIds_delivered t ids effect).symm ▸ List.prefix_refl _,
    fun {x n} hn hlive => .inl ?_⟩
  refine ⟨_, by rw [get_foldIntoAncestorIds, hn, Option.map_some], ?_⟩
  split <;> exact hlive

/-- Of every scope that was live, an operation leaves a live scope or announces the settlement. -/
theorem accounted_apply (hsound : Sound t) (op : Operation) : Accounted t (t.apply op) :=
  apply_preserves (fun hsound h hmove => h.trans (hmove.accounted hsound))
    (fun hsound h hok => h.trans (accounted_derive hsound hok))
    (fun effect instant _ h _ _ => h.trans (accounted_applyEffect _ _ effect instant))
    (fun ids effect _ h => h.trans (accounted_foldIntoAncestorIds _ ids effect)) hsound
    (.refl t) op

/-! ## The structural invariant -/

/-- The scopes that are there and have not settled, oldest first. -/
def liveScopes (t : ScopeTree) : List (ScopeId × ScopeNode) :=
  t.nodes.entries.filter fun entry => ¬ entry.2.state.IsTerminal

/-- What waits for eviction is the scopes that have settled, in some order. -/
theorem Sound.length_retained (h : Sound t) :
    (t.nodes.entries.filter fun entry => entry.2.state.IsTerminal).length = t.retained.length := by
  have hnodup : ((t.nodes.entries.filter fun entry => entry.2.state.IsTerminal).map
      Prod.fst).Nodup := t.nodes.nodup.sublist (List.filter_sublist.map _)
  rw [← List.length_map Prod.fst]
  refine ((List.perm_ext_iff_of_nodup hnodup h.nodup).2 fun id => ?_).length_eq
  rw [h.retained, List.mem_map]
  constructor
  · rintro ⟨⟨x, n⟩, hmem, rfl⟩
    obtain ⟨hentry, hterminal⟩ := List.mem_filter.1 hmem
    exact ⟨n, OrderedMap.mem_entries.1 hentry, by simpa using hterminal⟩
  · rintro ⟨n, hn, hterminal⟩
    refine ⟨(id, n), List.mem_filter.2 ⟨OrderedMap.mem_entries.2 hn, ?_⟩, rfl⟩
    simpa using hterminal

theorem Structured.liveScopeCount_eq (hsound : Sound t) (h : Structured rootId t) :
    t.liveScopeCount = t.liveScopes.length := by
  have hsplit := List.length_eq_length_filter_add (l := t.nodes.entries)
    fun entry => decide entry.2.state.IsTerminal
  have hlive : t.liveScopes.length =
      (t.nodes.entries.filter fun entry => !decide entry.2.state.IsTerminal).length := by
    rw [liveScopes]
    simp only [decide_not]
  have hcounted := h.counted
  rw [OrderedMap.size, hsplit, hsound.length_retained, ← hlive] at hcounted
  rw [liveScopeCount]
  omega

/-- A scope that has settled stays as it is for as long as it is there. -/
theorem terminal_applyAll (hsound : Sound t) {n' : ScopeNode}
    (hn : t.nodes.get id = some n) (hterminal : n.state.IsTerminal) (later : List Operation)
    (hkept : ∀ k, ∃ m, (t.applyAll (later.take k)).nodes.get id = some m)
    (hn' : (t.applyAll later).nodes.get id = some n') :
    n'.state = n.state ∧ n'.effect = n.effect := by
  induction later generalizing t n with
  | nil =>
    have heq : some n = some n' := hn.symm.trans hn'
    cases heq
    exact ⟨rfl, rfl⟩
  | cons op later ih =>
    obtain ⟨m, hm⟩ := hkept 1
    change (t.apply op).nodes.get id = some m at hm
    obtain ⟨hs, he⟩ := (later_apply hsound op hn hm).terminal hterminal
    obtain ⟨hs', he'⟩ := ih (hsound.apply op) hm (hs.symm ▸ hterminal)
      (fun k => hkept (k + 1)) hn'
    exact ⟨hs'.trans hs, he'.trans he⟩

/-- **The structural invariant.**  In every tree that a sequence of operations leads to: the counter
counts the scopes that have not settled and stays within its limit; a scope other than the root has a
parent that is there, lists it once, is one level higher and ends no sooner; what waits for eviction
is what has settled, once each; the root is there, and a scope that an operation takes away had
settled, before it or in it; and a scope that has settled stays as it is while it is there. -/
theorem structural_invariant (rootId : ScopeId) (rootDeadline : Option Deadline) (instant : ℕ)
    (ops : List Operation) :
    let t := (create rootId rootDeadline instant).applyAll ops
    (t.liveScopeCount = t.liveScopes.length ∧ t.liveScopeCount ≤ maxLiveScopes) ∧
    (∀ id n, t.nodes.get id = some n → id ≠ rootId →
      ∃ p np, n.parentId = some p ∧ t.nodes.get p = some np ∧ np.children.count id = 1 ∧
        n.depth = np.depth + 1 ∧ n.depth < maxScopeDepth ∧ NoLater n.deadline np.deadline) ∧
    (t.retained.Nodup ∧
      ∀ id, id ∈ t.retained ↔ ∃ n, t.nodes.get id = some n ∧ n.state.IsTerminal) ∧
    ((∃ n, t.nodes.get rootId = some n) ∧
      ∀ op id n, t.nodes.get id = some n → (t.apply op).nodes.get id = none →
        n.state.IsTerminal ∨ SettledSince t (t.apply op) id) ∧
    (∀ later id n n', t.nodes.get id = some n → n.state.IsTerminal →
      (∀ k, ∃ m, (t.applyAll (later.take k)).nodes.get id = some m) →
      (t.applyAll later).nodes.get id = some n' → n'.state = n.state ∧ n'.effect = n.effect) := by
  intro t
  have hsound : Sound t := (sound_create rootId rootDeadline instant).applyAll ops
  have h : Structured rootId t := applyAll_preserves (fun op hsound h => h.apply hsound op)
    (sound_create rootId rootDeadline instant) (structured_create rootId rootDeadline instant) ops
  refine ⟨⟨h.liveScopeCount_eq hsound, h.bounded⟩, fun id n hn hid => ?_,
    ⟨hsound.nodup, fun id => hsound.retained⟩, ⟨?_, fun op id n hn hgone => ?_⟩,
    fun later id n n' hn hterminal => terminal_applyAll hsound hn hterminal later⟩
  · rcases hp : n.parentId with _ | p
    · exact absurd (h.only hn hp) hid
    · obtain ⟨s, hs, hmem, hdepth⟩ := hsound.forest.parent (shapeAt_of_get hn) hp
      obtain ⟨np, hnp, rfl⟩ := shapeAt_eq_some.1 hs
      exact ⟨p, np, rfl, hnp, List.count_eq_one_of_mem (hsound.forest.nodup hs) hmem, hdepth,
        hsound.forest.depth_lt (shapeAt_of_get hn), h.deadline hn hp hnp⟩
  · obtain ⟨r, hr, -⟩ := h.root
    exact ⟨r, hr⟩
  · by_cases hterminal : n.state.IsTerminal
    · exact .inl hterminal
    · rcases (accounted_apply hsound op).live hn hterminal with ⟨n', hn', -⟩ | hsettled
      · rw [hgone] at hn'
        cases hn'
      · exact .inr hsettled

end ScopeTree
end Falryn.Orchestration
