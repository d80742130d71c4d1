import Falryn.Orchestration.ScopeAttribution

/-!
# Settling by force

`forceSettleUnacknowledged` gives every scope that has not settled the outcome `uncertain`, but writes
nothing to the scope's effect, and it is effects that a report folds upwards.  So a scope demands
inspection after the call only if its effect, or the one of a live scope below it, did before.
-/

namespace Falryn.Orchestration.ScopeTree

variable {births : List Birth} {recorded : List (ℕ × EffectCertainty)} {t t' : ScopeTree}
  {id : ScopeId}

/-! ## Nothing is left that has not settled -/

/-- Every scope has settled. -/
def AllTerminal (t : ScopeTree) : Prop := ∀ id n, t.nodes.get id = some n → n.state.IsTerminal

theorem Descends.isTerminal (h : Descends t t')
    (hterminal : ∀ n, t.nodes.get id = some n → n.state.IsTerminal) :
    ∀ n', t'.nodes.get id = some n' → n'.state.IsTerminal := by
  intro n' hn'
  obtain ⟨n, hn, hlater⟩ := h id n' hn'
  rw [(hlater.terminal (hterminal n hn)).1]
  exact hterminal n hn

theorem forceSettleOne_isTerminal (hsound : Sound t) (instant : ℕ) (id : ScopeId) :
    ∀ n, (forceSettleOne instant t id).nodes.get id = some n → n.state.IsTerminal := by
  rw [forceSettleOne]
  rcases hnode : t.nodes.get id with _ | node
  · intro n hn
    rw [hnode] at hn
    cases hn
  · dsimp only
    split
    next hterminal =>
      intro n hn
      rw [hnode] at hn
      cases hn
      exact hterminal
    next hlive =>
      have hkey := hsound.key hnode
      have hnode' : t.nodes.get node.scopeId = some node := by rw [hkey, hnode]
      have hmove : Move t (t.settleUntrimmed node .uncertain instant) :=
        .settle .uncertain instant hnode' hlive
      have htrim : Moves (t.settleUntrimmed node .uncertain instant)
          (t.settle node .uncertain instant) := moves_trimFrom (hmove.sound hsound) rfl
      refine (Moves.descends htrim).isTerminal fun n hn => ?_
      rw [get_settleUntrimmed] at hn
      obtain ⟨m, -, rfl⟩ := Option.map_eq_some_iff.1 hn
      rw [state_settleIn, if_pos hkey.symm]
      exact trivial

theorem foldl_forceSettleOne_isTerminal (instant : ℕ) (ids : List ScopeId) (hsound : Sound t) :
    ∀ id ∈ ids, ∀ n, (ids.foldl (forceSettleOne instant) t).nodes.get id = some n →
      n.state.IsTerminal := by
  induction ids generalizing t with
  | nil => exact fun id hid => (by cases hid)
  | cons k ids ih =>
    intro id hid
    have hfirst := moves_forceSettleOne hsound instant k
    have hsound' := Moves.sound hfirst hsound
    have hrest := moves_foldl (fun id ht => moves_forceSettleOne ht instant id) ids hsound'
    rcases List.mem_cons.1 hid with rfl | hid
    · exact (Moves.descends hrest).isTerminal (forceSettleOne_isTerminal hsound instant id)
    · exact ih hsound' id hid

theorem moves_forceSettleUnacknowledged (hsound : Sound t) (instant : ℕ) :
    Moves t (t.forceSettleUnacknowledged instant).2 :=
  moves_foldl (fun id ht => moves_forceSettleOne ht instant id) _ hsound

/-- **After settling by force every scope has settled.** -/
theorem allTerminal_forceSettleUnacknowledged (hsound : Sound t) (instant : ℕ) :
    AllTerminal (t.forceSettleUnacknowledged instant).2 := by
  intro id n hn
  obtain ⟨m, hm, -⟩ := Moves.descends (moves_forceSettleUnacknowledged hsound instant) id n hn
  exact foldl_forceSettleOne_isTerminal instant t.nodes.keys hsound id
    (OrderedMap.mem_keys.2 ⟨m, hm⟩) n hn

/-! ## What a scope carries only rises -/

/-- Every scope that is there was there before, and carries no less. -/
def Rises (t t' : ScopeTree) : Prop :=
  ∀ id n', t'.nodes.get id = some n' → ∃ n, t.nodes.get id = some n ∧
    n.totalEffect ≤ n'.totalEffect

theorem Rises.trans {t₁ t₂ t₃ : ScopeTree} (h : Rises t₁ t₂) (h' : Rises t₂ t₃) : Rises t₁ t₃ := by
  intro id n₃ h₃
  obtain ⟨n₂, h₂, hle'⟩ := h' id n₃ h₃
  obtain ⟨n₁, h₁, hle⟩ := h id n₂ h₂
  exact ⟨n₁, h₁, hle.trans hle'⟩

theorem Rises.of_get_map {g : ScopeId → ScopeNode → ScopeNode}
    (hget : ∀ x, t'.nodes.get x = (t.nodes.get x).map (g x))
    (hg : ∀ x n, n.totalEffect ≤ (g x n).totalEffect) : Rises t t' := by
  intro id n' hn'
  rw [hget] at hn'
  obtain ⟨n, hn, rfl⟩ := Option.map_eq_some_iff.1 hn'
  exact ⟨n, hn, hg id n⟩

theorem totalEffect_stopIn (t : ScopeTree) (target : ScopeNode) (reason : CancellationReason)
    (instant : ℕ) (x : ScopeId) (n : ScopeNode) :
    (t.stopIn target reason instant x n).totalEffect = n.totalEffect := by
  obtain ⟨he, hs⟩ := effect_stopIn t target reason instant x n
  rw [ScopeNode.totalEffect_eq, he, hs, ScopeNode.totalEffect_eq]

theorem totalEffect_absorb (n : ScopeNode) (effect : EffectCertainty) :
    (n.absorb effect).totalEffect = max n.totalEffect effect := by
  rw [ScopeNode.totalEffect_eq, ScopeNode.totalEffect_eq]
  change max n.effect (worstEffect n.settledDescendantEffect effect) = _
  rw [worstEffect_eq_max, max_assoc]

theorem Move.rises (hmove : Move t t') : Rises t t' := by
  rcases hmove with ⟨reason, instant, hnode⟩ | ⟨outcome, instant, hnode, -⟩ |
    ⟨hnode, -, hev, -⟩ | ⟨hnode, hactive⟩ | ⟨hnode, hactive, -, -, -⟩
  · exact .of_get_map (get_cancelSubtree t _ reason instant) fun x n =>
      (totalEffect_stopIn t _ reason instant x n).ge
  · refine .of_get_map (get_settleUntrimmed t _ outcome instant) fun x n => ?_
    rw [totalEffect_settleIn]
    split
    · exact le_max_left _ _
    · exact le_rfl
  · rename_i evicted node before after
    intro id n' hn'
    obtain ⟨n, hn, rfl⟩ := get_evict_eq_some hev hn'
    refine ⟨n, hn, ?_⟩
    split <;> exact le_rfl
  · exact fun _ n' hn' => ⟨n', hn', le_rfl⟩
  · exact fun _ n' hn' => ⟨n', hn', le_rfl⟩

theorem Moves.rises (hmoves : Moves t t') : Rises t t' := by
  induction hmoves with
  | refl => exact fun _ n' hn' => ⟨n', hn', le_rfl⟩
  | tail _ hmove ih => exact ih.trans hmove.rises

/-- Where every scope has settled, no scope can be derived, and what is there stays settled and
carries no less. -/
theorem AllTerminal.apply (h : AllTerminal t) (hsound : Sound t) (op : Operation) :
    AllTerminal (t.apply op) ∧ Rises t (t.apply op) := by
  have hsame : Rises t t := fun _ n' hn' => ⟨n', hn', le_rfl⟩
  have hfold : ∀ (ids : List ScopeId) (effect : EffectCertainty),
      AllTerminal (t.foldIntoAncestorIds ids effect) ∧
        Rises t (t.foldIntoAncestorIds ids effect) := by
    intro ids effect
    refine ⟨fun id => (descends_foldIntoAncestorIds t ids effect).isTerminal (h id),
      .of_get_map (get_foldIntoAncestorIds t ids effect) fun x n => ?_⟩
    split
    · rw [totalEffect_absorb]
      exact le_max_left _ _
    · exact le_rfl
  by_cases hop : op.IsPlain
  · have hmoves := moves_apply hsound hop
    exact ⟨fun id => (Moves.descends hmoves).isTerminal (h id), Moves.rises hmoves⟩
  · rcases op with _ | ⟨parentId, options, openedAt, requestedAt⟩ | _ | ⟨x, effect, instant⟩ |
      ⟨x, effect, instant⟩ | _ | _ | _ | _ | _
    case derive =>
      rw [ScopeTree.apply]
      rcases hok : t.derive parentId options openedAt requestedAt with _ | ⟨handle, t'⟩
      · exact ⟨h, hsame⟩
      · obtain ⟨parent, -, hparent, hlive, -⟩ := derive_ok hok
        exact absurd (h parentId parent hparent) hlive
    case recordEffect =>
      rw [ScopeTree.apply]
      rcases hok : t.recordEffect x effect instant with _ | t'
      · exact ⟨h, hsame⟩
      · obtain ⟨node, hnode, hlive, -⟩ := recordEffect_ok hok
        exact absurd (h x node hnode) hlive
    case recordLateEffect =>
      rw [ScopeTree.apply]
      rcases hok : t.recordLateEffect x effect instant with _ | ⟨record, t'⟩
      · exact ⟨h, hsame⟩
      · rcases recordLateEffect_ok hok with ⟨node, hnode, hlive, -⟩ | ⟨node, -, -, rfl⟩ |
          ⟨ids, -, -, rfl⟩
        · exact absurd (h x node hnode) hlive
        · exact hfold _ effect
        · exact hfold _ effect
    all_goals exact absurd trivial hop

theorem AllTerminal.rises_applyAll (h : AllTerminal t) (hsound : Sound t) (ops : List Operation) :
    Rises t (t.applyAll ops) := by
  induction ops generalizing t with
  | nil => exact fun _ n' hn' => ⟨n', hn', le_rfl⟩
  | cons op ops ih =>
    obtain ⟨hall, hrises⟩ := h.apply hsound op
    exact hrises.trans (ih hall (hsound.apply op))

/-! ## What a live scope carries goes to every scope above it -/

/-- What the scope `x` carries is known to `c`, or `x` is still live below it. -/
def Promised (c x : ScopeId) (e : EffectCertainty) (t : ScopeTree) : Prop :=
  (∃ n, t.nodes.get x = some n ∧ ¬ n.state.IsTerminal ∧ e ≤ n.totalEffect ∧ Above t.shapeAt c x) ∨
    ∀ n, t.nodes.get c = some n → e ≤ n.totalEffect

variable {c : ScopeId} {e : EffectCertainty} {n : ScopeNode}

theorem Promised.move (hsound : Sound t) {x : ScopeId}
    (h : Promised c x e t) (hmove : Move t t') : Promised c x e t' := by
  have hrises := hmove.rises
  have hknown : (∀ n, t.nodes.get c = some n → e ≤ n.totalEffect) →
      ∀ n, t'.nodes.get c = some n → e ≤ n.totalEffect := by
    intro hall n' hn'
    obtain ⟨n, hn, hle⟩ := hrises c n' hn'
    exact (hall n hn).trans hle
  rcases h with ⟨n, hn, hlive, he, habove⟩ | hall
  · rcases hmove with ⟨reason, instant, hnode⟩ | ⟨outcome, instant, hnode, -⟩ |
      ⟨hnode, hret, hev, -⟩ | ⟨hnode, hactive⟩ | ⟨hnode, hactive, -, -, -⟩
    · rename_i node
      have hget := get_cancelSubtree t node reason instant
      refine .inl ⟨_, by rw [hget, hn, Option.map_some], ?_, ?_, ?_⟩
      · exact fun hterminal => hlive (isTerminal_stopIn.1 hterminal)
      · rw [totalEffect_stopIn]
        exact he
      · rw [shapeAt_of_get_map hget (shape_stopIn t _ reason instant)]
        exact habove
    · rename_i node
      have hget := get_settleUntrimmed t node outcome instant
      by_cases hx : x = node.scopeId
      · -- the scope settles, and hands what it carries to `c`
        subst hx
        rw [hnode] at hn
        cases hn
        refine .inr fun _ hnc' => ?_
        rw [hget] at hnc'
        obtain ⟨nc, -, rfl⟩ := Option.map_eq_some_iff.1 hnc'
        rw [totalEffect_settleIn, if_pos ((mem_ancestorIdsOf hsound.forest hnode).2 habove)]
        exact he.trans (le_max_right _ _)
      · refine .inl ⟨_, by rw [hget, hn, Option.map_some], ?_, ?_, ?_⟩
        · rw [state_settleIn, if_neg hx]
          exact hlive
        · rw [totalEffect_settleIn]
          split
          · exact he.trans (le_max_left _ _)
          · exact he
        · rw [shapeAt_of_get_map hget (shape_settleIn t _ outcome instant)]
          exact habove
    · rename_i evicted node _ _
      have hterminal := hsound.evicted_terminal hnode hret
      have hne : x ≠ node.scopeId := by
        rintro rfl
        rw [hnode] at hn
        cases hn
        exact hlive hterminal
      refine .inl ⟨_, (get_evict hev x).trans (by rw [if_neg hne, hn, Option.map_some]), ?_, ?_, ?_⟩
      · split <;> exact hlive
      · split <;> exact he
      · change Above evicted.shapeAt c x
        rw [shapeAt_evict hev]
        exact (above_prune hsound.forest (shapeAt_of_get hnode)
          (hsound.evicted_childless hnode hev)).2 ⟨habove, hne⟩
    · exact .inl ⟨n, hn, hlive, he, habove⟩
    · exact .inl ⟨n, hn, hlive, he, habove⟩
  · exact .inr (hknown hall)

/-! ## Nothing but what was there is reported -/

/-- Nothing at or below the scope `c` carries more than `e`. -/
def Bounded (c : ScopeId) (e : EffectCertainty) (t : ScopeTree) : Prop :=
  ∀ d n, (d = c ∨ Above t.shapeAt c d) → t.nodes.get d = some n → n.totalEffect ≤ e

theorem Bounded.move (hsound : Sound t) (h : Bounded c e t)
    (hmove : Move t t') : Bounded c e t' := by
  rcases hmove with ⟨reason, instant, hnode⟩ | ⟨outcome, instant, hnode, -⟩ |
    ⟨hnode, -, hev, -⟩ | ⟨hnode, hactive⟩ | ⟨hnode, hactive, -, -, -⟩
  · rename_i node
    intro d n' hd hn'
    have hget := get_cancelSubtree t node reason instant
    rw [shapeAt_of_get_map hget (shape_stopIn t _ reason instant)] at hd
    rw [hget] at hn'
    obtain ⟨n, hn, rfl⟩ := Option.map_eq_some_iff.1 hn'
    rw [totalEffect_stopIn]
    exact h d n hd hn
  · rename_i node
    intro d n' hd hn'
    have hget := get_settleUntrimmed t node outcome instant
    rw [shapeAt_of_get_map hget (shape_settleIn t _ outcome instant)] at hd
    rw [hget] at hn'
    obtain ⟨n, hn, rfl⟩ := Option.map_eq_some_iff.1 hn'
    rw [totalEffect_settleIn]
    split
    next hmem =>
      have habove := (mem_ancestorIdsOf hsound.forest hnode).1 hmem
      refine max_le (h d n hd hn) (h _ node (.inr ?_) hnode)
      rcases hd with rfl | hd
      · exact habove
      · exact hd.trans habove
    · exact h d n hd hn
  · rename_i evicted node _ _
    intro d n' hd hn'
    obtain ⟨n, hn, rfl⟩ := get_evict_eq_some hev hn'
    change d = c ∨ Above evicted.shapeAt c d at hd
    rw [shapeAt_evict hev, above_prune hsound.forest (shapeAt_of_get hnode)
      (hsound.evicted_childless hnode hev)] at hd
    have hle := h d n (hd.imp_right And.left) hn
    split <;> exact hle
  · exact h
  · exact h

/-! ## What has settled is known above -/

/-- What a settled scope carries is known to every scope above it. -/
def Folded (t : ScopeTree) : Prop :=
  ∀ a d na nd, t.nodes.get d = some nd → nd.state.IsTerminal → Above t.shapeAt a d →
    t.nodes.get a = some na → nd.totalEffect ≤ na.settledDescendantEffect

theorem Folded.move (hsound : Sound t) (h : Folded t) (hmove : Move t t') : Folded t' := by
  rcases hmove with ⟨reason, instant, hnode⟩ | ⟨outcome, instant, hnode, -⟩ |
    ⟨hnode, -, hev, -⟩ | ⟨hnode, hactive⟩ | ⟨hnode, hactive, -, -, -⟩
  · rename_i node
    have hget := get_cancelSubtree t node reason instant
    intro a d na' nd' hd' hterminal habove ha'
    rw [shapeAt_of_get_map hget (shape_stopIn t _ reason instant)] at habove
    rw [hget] at hd' ha'
    obtain ⟨nd, hd, rfl⟩ := Option.map_eq_some_iff.1 hd'
    obtain ⟨na, ha, rfl⟩ := Option.map_eq_some_iff.1 ha'
    rw [totalEffect_stopIn, (effect_stopIn t node reason instant a na).2]
    exact h a d na nd hd (isTerminal_stopIn.1 hterminal) habove ha
  · rename_i node
    have hget := get_settleUntrimmed t node outcome instant
    intro a d na' nd' hd' hterminal habove ha'
    rw [shapeAt_of_get_map hget (shape_settleIn t _ outcome instant)] at habove
    rw [hget] at hd' ha'
    obtain ⟨nd, hd, rfl⟩ := Option.map_eq_some_iff.1 hd'
    obtain ⟨na, ha, rfl⟩ := Option.map_eq_some_iff.1 ha'
    rw [totalEffect_settleIn, settledDescendantEffect_settleIn]
    rw [state_settleIn] at hterminal
    have hanc : ∀ x, x ∈ t.ancestorIdsOf node ↔ Above t.shapeAt x node.scopeId := fun x =>
      mem_ancestorIdsOf hsound.forest hnode
    by_cases hd₀ : d = node.scopeId
    · -- the scope that settles hands what it carries to this one
      subst hd₀
      rw [hnode] at hd
      cases hd
      rw [if_neg (fun hmem => hsound.forest.not_above_self ((hanc _).1 hmem)),
        if_pos ((hanc a).2 habove)]
      exact le_max_right _ _
    · rw [if_neg hd₀] at hterminal
      have hle := h a d na nd hd hterminal habove ha
      by_cases hmem : d ∈ t.ancestorIdsOf node
      · -- what is handed to a scope is handed to every scope above it
        rw [if_pos hmem, if_pos ((hanc a).2 (habove.trans ((hanc d).1 hmem)))]
        exact max_le_max_right _ hle
      · rw [if_neg hmem]
        split
        · exact hle.trans (le_max_left _ _)
        · exact hle
  · rename_i evicted node _ _
    intro a d na' nd' hd' hterminal habove ha'
    obtain ⟨nd, hd, rfl⟩ := get_evict_eq_some hev hd'
    obtain ⟨na, ha, rfl⟩ := get_evict_eq_some hev ha'
    change Above evicted.shapeAt a d at habove
    rw [shapeAt_evict hev, above_prune hsound.forest (shapeAt_of_get hnode)
      (hsound.evicted_childless hnode hev)] at habove
    have hterminal' : nd.state.IsTerminal := by split at hterminal <;> exact hterminal
    have hle := h a d na nd hd hterminal' habove.1 ha
    split <;> split <;> exact hle
  · exact h
  · exact h

theorem Folded.derive (hsound : Sound t) (h : Folded t) {parentId : ScopeId}
    {options : DeriveScopeOptions} {openedAt requestedAt : ℕ} {handle : ScopeHandle}
    (hok : t.derive parentId options openedAt requestedAt = .ok (handle, t')) : Folded t' := by
  obtain ⟨parent, childId, child, hparent, -, hfresh, -, -, -, hclive, -, hshape, -, -, hget⟩ :=
    get_derive hsound hok
  have hnone : t.shapeAt childId = none := by rw [shapeAt, hfresh, Option.map_none]
  have hold : ∀ {x n'}, x ≠ childId → t'.nodes.get x = some n' → ∃ n, t.nodes.get x = some n ∧
      n'.state = n.state ∧ n'.totalEffect = n.totalEffect ∧
      n'.settledDescendantEffect = n.settledDescendantEffect := by
    intro x n' hx hn'
    rw [hget, if_neg hx] at hn'
    split at hn'
    next heq =>
      cases hn'
      exact ⟨parent, heq ▸ hparent, rfl, rfl, rfl⟩
    · exact ⟨n', hn', rfl, rfl, rfl⟩
  intro a d na' nd' hd' hterminal habove ha'
  have hdne : d ≠ childId := by
    rintro rfl
    rw [hget, if_pos rfl] at hd'
    cases hd'
    exact hclive hterminal
  rw [hshape, above_grow_of_ne hsound.forest (shapeAt_of_get hparent) hnone hdne] at habove
  have hane : a ≠ childId := by
    rintro rfl
    obtain ⟨s, hs⟩ := hsound.forest.above_exists habove
    rw [hnone] at hs
    cases hs
  obtain ⟨nd, hd, hs, htotal, -⟩ := hold hdne hd'
  obtain ⟨na, ha, -, -, hsettled⟩ := hold hane ha'
  rw [htotal, hsettled]
  exact h a d na nd hd (hs ▸ hterminal) habove ha

theorem Folded.applyEffect (h : Folded t) {node : ScopeNode}
    (hnode : t.nodes.get id = some node) (hlive : ¬ node.state.IsTerminal)
    (effect : EffectCertainty) (instant : ℕ) : Folded (t.applyEffect id effect instant) := by
  have hget := get_applyEffect t id effect instant
  have hshape : (t.applyEffect id effect instant).shapeAt = t.shapeAt :=
    shapeAt_of_get_map hget fun _ _ => by split <;> rfl
  intro a d na' nd' hd' hterminal habove ha'
  rw [hshape] at habove
  rw [hget] at hd' ha'
  obtain ⟨nd, hd, rfl⟩ := Option.map_eq_some_iff.1 hd'
  obtain ⟨na, ha, rfl⟩ := Option.map_eq_some_iff.1 ha'
  have hdne : d ≠ id := by
    rintro rfl
    rw [hnode] at hd
    cases hd
    rw [if_pos rfl] at hterminal
    exact hlive hterminal
  rw [if_neg hdne] at hterminal ⊢
  have hle := h a d na nd hd hterminal habove ha
  split <;> exact hle

/-- An effect that with a scope reaches every scope above it. -/
theorem Folded.foldIntoAncestorIds (h : Folded t) {ids : List ScopeId}
    (hup : ∀ a d na nd, d ∈ ids → t.nodes.get d = some nd → t.nodes.get a = some na →
      Above t.shapeAt a d → a ∈ ids) (effect : EffectCertainty) :
    Folded (t.foldIntoAncestorIds ids effect) := by
  have hget := get_foldIntoAncestorIds t ids effect
  have hshape : (t.foldIntoAncestorIds ids effect).shapeAt = t.shapeAt :=
    shapeAt_of_get_map hget fun _ _ => by split <;> rfl
  intro a d na' nd' hd' hterminal habove ha'
  rw [hshape] at habove
  rw [hget] at hd' ha'
  obtain ⟨nd, hd, rfl⟩ := Option.map_eq_some_iff.1 hd'
  obtain ⟨na, ha, rfl⟩ := Option.map_eq_some_iff.1 ha'
  have hterminal' : nd.state.IsTerminal := by split at hterminal <;> exact hterminal
  have hle := h a d na nd hd hterminal' habove ha
  by_cases hmem : d ∈ ids
  · rw [if_pos hmem, if_pos (hup a d na nd hmem hd ha habove), totalEffect_absorb]
    exact max_le (hle.trans (le_absorb na effect)) (effect_le_absorb na effect)
  · rw [if_neg hmem]
    split
    · exact hle.trans (le_absorb na effect)
    · exact hle

theorem folded_along {rootId : ScopeId} {rootDeadline : Option Deadline} {instant : ℕ}
    {ops : List Operation} {h : History}
    (hh : h = (History.start rootId rootDeadline instant).applyAll ops)
    (hops : StateMachine.Along History.step History.LateEffectIsOwn
      (History.start rootId rootDeadline instant) ops) : Folded h.tree := by
  have hstart : Valid [⟨0, rootId, []⟩] [] (create rootId rootDeadline instant) ∧
      Folded (create rootId rootDeadline instant) := by
    refine ⟨valid_start rootId rootDeadline instant, fun a d na nd hd hterminal _ _ => ?_⟩
    rw [get_create] at hd
    split at hd
    · cases hd
      exact hterminal.elim
    · cases hd
  refine (StateMachine.run_along_preserves
    (I := fun h : History => Valid h.births h.recorded h.tree ∧ Folded h.tree)
    (fun h op _ hi hown hstep => ?_) hstart hops (hh ▸ History.run_step _ ops)).2
  cases hstep
  refine History.apply_preserves (I := fun _ _ t => Folded t) True
    (fun hv hf hm => hf.move hv.sound hm) (fun hv hf hok => hf.derive hv.sound hok)
    (fun effect instant _ hf hnode hlive _ => hf.applyEffect hnode hlive effect instant)
    (fun effect hv hf hnode _ _ => ?_) (fun effect hv hf _ hb hall hown' => ?_) hi.1 hi.2 op
    fun _ => hown
  · refine hf.foldIntoAncestorIds (fun a d na nd hmem _ _ habove => ?_) effect
    rw [mem_ancestorIdsOf hv.sound.forest hnode] at hmem ⊢
    exact habove.trans hmem
  · -- with a scope of its line the evicted scope's tombstone names the scopes above it
    refine hf.foldIntoAncestorIds (fun a d na nd hmem hd ha habove => ?_) effect
    obtain ⟨bd, hbd, -⟩ := hv.traced.born hd
    obtain ⟨ba, hba, -⟩ := hv.traced.born ha
    have hdline := hown' trivial d hmem nd bd hd hbd
    have haline := (hv.traced.serial_mem_line hv.sound hv.ordered hd hbd hba).2 habove
    obtain ⟨hbamem, hid⟩ := bornAs_eq_some hba
    rw [← hid]
    exact hall ba hbamem (hv.ordered.closed _ (bornAs_eq_some hb).1 bd (bornAs_eq_some hbd).1
      hdline _ haline)

/-! ## The claim of a forced settlement -/

/-- The scope, or a live scope below it, carries an uncertain effect. -/
def AlreadyUncertain (t : ScopeTree) (c : ScopeId) : Prop :=
  ∃ n, t.nodes.get c = some n ∧ (n.totalEffect = .uncertain ∨
    ∃ x m, Above t.shapeAt c x ∧ t.nodes.get x = some m ∧ ¬ m.state.IsTerminal ∧
      m.totalEffect = .uncertain)

theorem uncertain_le : .uncertain ≤ e ↔ e = .uncertain :=
  ⟨fun h => le_antisymm (EffectCertainty.le_uncertain e) h, fun h => h.ge⟩

/-- What was uncertain before the call is reported from then on. -/
theorem AlreadyUncertain.forced (hsound : Sound t) (h : AlreadyUncertain t c)
    (now : ℕ) (later : List Operation)
    (hn : (((t.forceSettleUnacknowledged now).2).applyAll later).nodes.get c = some n) :
    n.totalEffect = .uncertain := by
  have hmoves := moves_forceSettleUnacknowledged hsound now
  have hall := allTerminal_forceSettleUnacknowledged hsound now
  have hsound' := Moves.sound hmoves hsound
  obtain ⟨n₁, hn₁, hle₁⟩ := hall.rises_applyAll hsound' later c n hn
  rw [← uncertain_le]
  refine le_trans ?_ hle₁
  obtain ⟨n₀, hn₀, htotal | ⟨x, m, habove, hm, hlive, hmtotal⟩⟩ := h
  · obtain ⟨n₂, hn₂, hle₂⟩ := Moves.rises hmoves c n₁ hn₁
    rw [hn₀] at hn₂
    cases hn₂
    exact htotal.symm.le.trans hle₂
  · have hpromise := Moves.preserves (I := Promised c x .uncertain)
      (fun hs hp hm => hp.move hs hm) hmoves hsound (.inl ⟨m, hm, hlive, hmtotal.ge, habove⟩)
    rcases hpromise with ⟨m', hm', hlive', -⟩ | hknown
    · exact absurd (hall x m' hm') hlive'
    · exact hknown n₁ hn₁

/-- What is reported uncertain after the call was before. -/
theorem subtreeEffectOf_forced (hsound : Sound t) {n' : ScopeNode} (now : ℕ)
    (hn : t.nodes.get c = some n)
    (hn' : (t.forceSettleUnacknowledged now).2.nodes.get c = some n') :
    (t.forceSettleUnacknowledged now).2.subtreeEffectOf n' ≤ t.subtreeEffectOf n := by
  have hmoves := moves_forceSettleUnacknowledged hsound now
  have hbounded : Bounded c (t.subtreeEffectOf n) t := by
    intro d m hd hm
    refine (le_subtreeEffectOf hsound.forest hn).2 ?_
    rcases hd with rfl | hd
    · rw [hn] at hm
      cases hm
      exact .inl le_rfl
    · exact .inr ⟨d, m, hd, hm, le_rfl⟩
  have hafter := Moves.preserves (I := Bounded c (t.subtreeEffectOf n))
    (fun hs hb hm => hb.move hs hm) hmoves hsound hbounded
  rcases (le_subtreeEffectOf (Moves.sound hmoves hsound).forest hn').1 le_rfl with
    hle | ⟨d, m, hd, hm, hle⟩
  · exact hle.trans (hafter c n' (.inl rfl) hn')
  · exact hle.trans (hafter d m (.inr hd) hm)

/-- **When a forced settlement demands inspection.**  In every reachable tree, a scope that carries an
uncertain effect, or has a live scope below it that does, reports an uncertain effect and demands
inspection after `forceSettleUnacknowledged` and after whatever comes later, as long as it is
retained.  Where no late effect has found a stranger, no other scope does. -/
theorem forced_settlement_demands_inspection (rootId : ScopeId) (rootDeadline : Option Deadline)
    (instant : ℕ) (ops : List Operation) (now : ℕ) (c : ScopeId) :
    let h := (History.start rootId rootDeadline instant).applyAll ops
    let forced := (h.tree.forceSettleUnacknowledged now).2
    (AlreadyUncertain h.tree c → ∀ later report, (forced.applyAll later).report c = some report →
        report.subtreeEffect = .uncertain ∧ report.requiresInspection = true) ∧
      (StateMachine.Along History.step History.LateEffectIsOwn
          (History.start rootId rootDeadline instant) ops →
        ∀ report, forced.report c = some report → report.subtreeEffect = .uncertain →
          AlreadyUncertain h.tree c) := by
  intro h forced
  have hsound : Sound h.tree := (kept_applyAll (rfl : h = _)).1.sound
  have hmoves := moves_forceSettleUnacknowledged hsound now
  have hsound' : Sound forced := Moves.sound hmoves hsound
  refine ⟨fun hunc later report hreport => ?_, fun hops report hreport huncertain => ?_⟩
  · obtain ⟨n, hn, rfl⟩ := Option.map_eq_some_iff.1 hreport
    have htotal := hunc.forced hsound now later hn
    have hsub : (forced.applyAll later).subtreeEffectOf n = .uncertain :=
      uncertain_le.1 ((le_subtreeEffectOf (hsound'.applyAll later).forest hn).2 (.inl htotal.ge))
    refine ⟨hsub, ?_⟩
    change (decide (_ = _) || decide (_ = EffectCertainty.uncertain)) = true
    rw [hsub]
    rfl
  · obtain ⟨n', hn', rfl⟩ := Option.map_eq_some_iff.1 hreport
    obtain ⟨n, hn, -⟩ := Moves.descends hmoves c n' hn'
    have hbefore := subtreeEffectOf_forced hsound now hn hn'
    change forced.subtreeEffectOf n' = .uncertain at huncertain
    rw [show ((h.tree.forceSettleUnacknowledged now).2).subtreeEffectOf n' = .uncertain from
      huncertain] at hbefore
    refine ⟨n, hn, ?_⟩
    rcases (le_subtreeEffectOf hsound.forest hn).1 hbefore with hle | ⟨x, m, habove, hm, hle⟩
    · exact .inl (uncertain_le.1 hle)
    · by_cases hlive : m.state.IsTerminal
      · -- what a settled scope carries has been handed up
        have hfolded := folded_along (rfl : h = _) hops c x n m hm hlive habove hn
        rw [ScopeNode.totalEffect_eq]
        exact .inl (uncertain_le.1 ((hle.trans hfolded).trans (le_max_right _ _)))
      · exact .inr ⟨x, m, habove, hm, hlive, uncertain_le.1 hle⟩

theorem alreadyUncertain_root : AlreadyUncertain ((History.start "scope-root" none 0).applyAll
    [.recordEffect "scope-root" .uncertain 0]).tree "scope-root" := by
  have hroot : (((History.start "scope-root" none 0).applyAll
      [.recordEffect "scope-root" .uncertain 0]).tree.nodes.get "scope-root").map
        ScopeNode.totalEffect = some .uncertain := by decide +kernel
  obtain ⟨n, hn, htotal⟩ := Option.map_eq_some_iff.1 hroot
  exact ⟨n, hn, .inl htotal⟩

theorem forced_settlement_demands_inspection_uncertain_root :
    let h := (History.start "scope-root" none 0).applyAll [.recordEffect "scope-root" .uncertain 0]
    AlreadyUncertain h.tree "scope-root" ∧ ∀ later report,
      (((h.tree.forceSettleUnacknowledged 1).2).applyAll later).report "scope-root" = some report →
        report.subtreeEffect = .uncertain ∧ report.requiresInspection = true :=
  ⟨alreadyUncertain_root, (forced_settlement_demands_inspection "scope-root" none 0
    [.recordEffect "scope-root" .uncertain 0] 1 "scope-root").1 alreadyUncertain_root⟩

/-- A root that was never observed stopping reads as clean. -/
theorem forced_settlement_reads_as_clean :
    let forced := ((create "scope-root" none 0).forceSettleUnacknowledged 1).2
    (forced.report "scope-root").map (fun report =>
        (report.state, report.subtreeEffect, report.requiresInspection)) =
      some (.terminal .uncertain none 1, .none, false) := by
  decide +kernel

end Falryn.Orchestration.ScopeTree
