import Falryn.Orchestration.ScopeInvariants

/-!
# Cancellation reaches everything below a scope

Cancellation travels downwards and stops at boundaries only: no scope is active below one that is
cancelling, if no boundary is in between.  The form that the operations preserve is about paths and
not about parents, because a scope that has settled between the two hides nothing.
-/

namespace Falryn.Orchestration.ScopeTree

/-! ## The lifecycle of a scope -/

/-- What may become of a scope: a settled one stays as it is, a cancelling one is not active again. -/
structure Later (n n' : ScopeNode) : Prop where
  terminal : n.state.IsTerminal → n'.state = n.state ∧ n'.effect = n.effect
  cancelling : n.state.IsCancelling → n'.state ≠ .active

theorem Later.refl (n : ScopeNode) : Later n n := by
  refine ⟨fun _ => ⟨rfl, rfl⟩, fun h hactive => ?_⟩
  rw [hactive] at h
  exact h

variable {n n' : ScopeNode} {g : ScopeId → ScopeNode → ScopeNode}

theorem Later.of_same (hs : n'.state = n.state) (he : n'.effect = n.effect) : Later n n' := by
  refine ⟨fun _ => ⟨hs, he⟩, fun h hactive => ?_⟩
  rw [hs] at hactive
  rw [hactive] at h
  exact h

theorem Later.trans {n₁ n₂ n₃ : ScopeNode} (h : Later n₁ n₂) (h' : Later n₂ n₃) : Later n₁ n₃ where
  terminal hterminal := by
    obtain ⟨hs, he⟩ := h.terminal hterminal
    obtain ⟨hs', he'⟩ := h'.terminal (hs.symm ▸ hterminal)
    exact ⟨hs'.trans hs, he'.trans he⟩
  cancelling hcancelling hactive := by
    rcases hs : n₂.state with _ | ⟨reason, instant⟩ | ⟨outcome, reason, instant⟩
    · exact h.cancelling hcancelling hs
    · exact h'.cancelling (by rw [hs]; exact trivial) hactive
    · rw [(h'.terminal (by rw [hs]; exact trivial)).1, hs] at hactive
      cases hactive

/-- Every scope that is there was there before, and is what may have become of it. -/
def Descends (t t' : ScopeTree) : Prop :=
  ∀ id n', t'.nodes.get id = some n' → ∃ n, t.nodes.get id = some n ∧ Later n n'

theorem Descends.trans {t₁ t₂ t₃ : ScopeTree} (h : Descends t₁ t₂) (h' : Descends t₂ t₃) :
    Descends t₁ t₃ := by
  intro id n₃ h₃
  obtain ⟨n₂, h₂, hlater'⟩ := h' id n₃ h₃
  obtain ⟨n₁, h₁, hlater⟩ := h id n₂ h₂
  exact ⟨n₁, h₁, hlater.trans hlater'⟩

theorem Descends.of_get_map {t t' : ScopeTree}
    (hget : ∀ x, t'.nodes.get x = (t.nodes.get x).map (g x))
    (hg : ∀ x n, t.nodes.get x = some n → Later n (g x n)) : Descends t t' := by
  intro id n' hn'
  rw [hget] at hn'
  obtain ⟨n, hn, rfl⟩ := Option.map_eq_some_iff.1 hn'
  exact ⟨n, hn, hg id n hn⟩

theorem later_stopIfActive (n : ScopeNode) (reason : CancellationReason) (instant : ℕ) :
    Later n (n.stopIfActive reason instant) := by
  rcases n.stopIfActive_cases reason instant with ⟨hactive, heq⟩ | ⟨-, heq⟩
  · rw [heq]
    refine ⟨fun h => ?_, fun h => ?_⟩
    · rw [hactive] at h
      exact h.elim
    · rw [hactive] at h
      exact h.elim
  · rw [heq]
    exact .refl n

variable {t t' : ScopeTree}

theorem descends_foldIntoAncestorIds (t : ScopeTree) (ids : List ScopeId)
    (effect : EffectCertainty) : Descends t (t.foldIntoAncestorIds ids effect) := by
  refine .of_get_map (get_foldIntoAncestorIds t ids effect) fun _ n _ => ?_
  split
  · exact .of_same rfl rfl
  · exact .refl n

variable {id : ScopeId} {node : ScopeNode}

theorem descends_applyEffect (hnode : t.nodes.get id = some node) (hlive : ¬ node.state.IsTerminal)
    (effect : EffectCertainty) (instant : ℕ) : Descends t (t.applyEffect id effect instant) := by
  refine .of_get_map (get_applyEffect t id effect instant) fun _ n hn => ?_
  split
  next hx =>
    rw [hx, hnode] at hn
    cases hn
    refine ⟨fun h => absurd h hlive, fun h hactive => ?_⟩
    change node.state = .active at hactive
    rw [hactive] at h
    exact h
  · exact .refl n

theorem Move.descends (hmove : Move t t') : Descends t t' := by
  rcases hmove with ⟨reason, instant, hnode⟩ | ⟨outcome, instant, hnode, hlive⟩ |
    ⟨hnode, -, hev, -⟩ | ⟨hnode, hactive⟩ | ⟨hnode, hactive, -, -, -⟩
  · refine .of_get_map (get_cancelSubtree t _ reason instant) fun x n _ => ?_
    unfold stopIn
    dsimp only
    split_ifs
    · exact (later_stopIfActive n _ _).trans (later_stopIfActive _ _ _)
    · exact later_stopIfActive n _ _
    · exact later_stopIfActive n _ _
    · exact .refl n
  · refine .of_get_map (get_settleUntrimmed t _ outcome instant) fun x n hn => ?_
    rename_i node
    unfold settleIn
    dsimp only
    by_cases hx : x = node.scopeId
    · rw [if_pos hx]
      rw [hx, hnode] at hn
      cases hn
      refine ⟨fun h => absurd h hlive, fun _ hactive => ?_⟩
      split at hactive <;> cases hactive
    · rw [if_neg hx]
      split
      · exact .of_same rfl rfl
      · exact .refl n
  · intro id n' hn'
    obtain ⟨n, hn, rfl⟩ := get_evict_eq_some hev hn'
    refine ⟨n, hn, ?_⟩
    split
    · exact .of_same rfl rfl
    · exact .refl n
  · exact fun _ n' hn' => ⟨n', hn', .refl n'⟩
  · exact fun _ n' hn' => ⟨n', hn', .refl n'⟩

theorem Moves.descends (hmoves : Moves t t') : Descends t t' := by
  induction hmoves with
  | refl => exact fun _ n' hn' => ⟨n', hn', .refl n'⟩
  | tail _ hmove ih => exact ih.trans hmove.descends

variable {parentId : ScopeId} {options : DeriveScopeOptions} {openedAt requestedAt : ℕ}
  {handle : ScopeHandle}

/-- A derived scope is active, or cancelling from the start; every other one stays as it was, but for
its parent's list. -/
theorem get_derive (h : Sound t)
    (hok : t.derive parentId options openedAt requestedAt = .ok (handle, t')) :
    ∃ parent childId child, t.nodes.get parentId = some parent ∧ ¬ parent.state.IsTerminal ∧
      t.nodes.get childId = none ∧ handle.scopeId = childId ∧
      child.effect = .none ∧ child.settledDescendantEffect = .none ∧
      ¬ child.state.IsTerminal ∧ (child.state = .active → parent.state = .active) ∧
      t'.shapeAt = grow t.shapeAt parentId parent.shape childId ∧
      t'.cancellationBoundaries = t.cancellationBoundaries ∧
      t'.tombstones = t.tombstones.delete childId ∧
      ∀ x, t'.nodes.get x =
        if x = childId then some child
        else if x = parentId then some (parent.withChild childId) else t.nodes.get x := by
  obtain ⟨parent, childId, hparent, hlive, -, -, -, hfresh, hid, ht'⟩ := derive_ok hok
  have hkey := h.key hparent
  have hne : childId ≠ parent.scopeId := by
    rintro rfl
    rw [hkey, hparent] at hfresh
    cases hfresh
  have hparent' : t.nodes.get parent.scopeId = some parent := by rw [hkey, hparent]
  have hshape : (t.attach parent (newNode parent options childId) openedAt).shapeAt =
      grow t.shapeAt parentId parent.shape childId := by
    rw [shapeAt_attach hparent' hfresh rfl, hkey]
  have hget : ∀ x, (t.attach parent (newNode parent options childId) openedAt).nodes.get x =
      if x = childId then some (newNode parent options childId)
      else if x = parentId then some (parent.withChild childId) else t.nodes.get x := by
    intro x
    rw [get_attach hne hparent', hkey]
    rfl
  by_cases hcancelling : parent.state.IsCancelling
  · rw [if_pos hcancelling] at ht'
    subst ht'
    have hframe := SameFrame.beginCancelling
      (t.attach parent (newNode parent options childId) openedAt) childId
      (.parentCancelled parentId) requestedAt
    refine ⟨parent, childId, (newNode parent options childId).askToStop (.parentCancelled parentId)
      requestedAt, hparent, hlive, hfresh, hid, rfl, rfl, id, fun hactive => (by cases hactive), ?_,
      ?_, ?_, fun x => ?_⟩
    · rw [shapeAt_beginCancelling, hshape]
    · rw [hframe.cancellationBoundaries, attach_cancellationBoundaries]
    · rw [hframe.tombstones, attach_tombstones]
      rfl
    · rw [get_beginCancelling, hget]
      by_cases hx : x = childId
      · simp only [hx, if_true, Option.map_some]
        rfl
      · simp [hx]
  · rw [if_neg hcancelling] at ht'
    subst ht'
    refine ⟨parent, childId, newNode parent options childId, hparent, hlive, hfresh, hid, rfl, rfl,
      id, fun _ => ?_, hshape, attach_cancellationBoundaries _ _ _, attach_tombstones _ _ _, hget⟩
    rcases hs : parent.state with _ | _ | _
    · rfl
    · rw [hs] at hcancelling
      exact absurd trivial hcancelling
    · rw [hs] at hlive
      exact absurd trivial hlive

/-- **No operation moves a scope from cancelling back to active or out of terminal.** -/
theorem later_apply (h : Sound t) (op : Operation)
    (hn : t.nodes.get id = some n) (hn' : (t.apply op).nodes.get id = some n') : Later n n' := by
  have hdescends : Descends t (t.apply op) → Later n n' := by
    intro hd
    obtain ⟨n₀, hn₀, hlater⟩ := hd id n' hn'
    rw [hn] at hn₀
    cases hn₀
    exact hlater
  have hrefl : t.apply op = t → Later n n' := by
    intro heq
    rw [heq, hn] at hn'
    cases hn'
    exact .refl n
  by_cases hop : op.IsPlain
  · exact hdescends (Moves.descends (moves_apply h hop))
  · rcases op with _ | ⟨parentId, options, openedAt, requestedAt⟩ | _ | ⟨x, effect, instant⟩ |
      ⟨x, effect, instant⟩ | _ | _ | _ | _ | _
    case derive =>
      rw [apply] at hn' hrefl
      rcases hok : t.derive parentId options openedAt requestedAt with _ | ⟨handle, t'⟩
      · rw [hok] at hrefl
        exact hrefl rfl
      · rw [hok] at hn'
        obtain ⟨parent, childId, child, hparent, -, hfresh, -, -, -, -, -, -, -, -, hget⟩ :=
          get_derive h hok
        change t'.nodes.get id = some n' at hn'
        rw [hget] at hn'
        split at hn'
        next hx =>
          rw [hx, hfresh] at hn
          cases hn
        · split at hn'
          next hx =>
            rw [hx, hparent] at hn
            cases hn
            cases hn'
            exact .of_same rfl rfl
          · rw [hn] at hn'
            cases hn'
            exact .refl n
    case recordEffect =>
      rw [apply] at hdescends hrefl
      rcases hok : t.recordEffect x effect instant with _ | t'
      · rw [hok] at hrefl
        exact hrefl rfl
      · rw [hok] at hdescends
        obtain ⟨node, hnode, hlive, rfl⟩ := recordEffect_ok hok
        exact hdescends (descends_applyEffect hnode hlive effect instant)
    case recordLateEffect =>
      rw [apply] at hdescends hrefl
      rcases hok : t.recordLateEffect x effect instant with _ | ⟨record, t'⟩
      · rw [hok] at hrefl
        exact hrefl rfl
      · rw [hok] at hdescends
        rcases recordLateEffect_ok hok with ⟨node, hnode, hlive, rfl⟩ | ⟨node, -, -, rfl⟩ |
          ⟨ids, -, -, rfl⟩
        · exact hdescends (descends_applyEffect hnode hlive effect instant)
        · exact hdescends (descends_foldIntoAncestorIds t _ effect)
        · exact hdescends (descends_foldIntoAncestorIds t _ effect)
    all_goals exact absurd trivial hop

/-! ## No active scope below a cancelling one -/

/-- `a` is an ancestor of `d`, and the way up from `d` neither starts at nor passes through a
boundary. -/
def Exposed (t : ScopeTree) : ScopeId → ScopeId → Prop := Relation.TransGen (Link t true)

/-- No active scope is exposed to a cancelling one. -/
def Closed (t : ScopeTree) : Prop :=
  ∀ a d na nd, Exposed t a d → t.nodes.get a = some na → t.nodes.get d = some nd →
    nd.state = .active → ¬ na.state.IsCancelling

/-- A scope that is active descends from one that was. -/
theorem Later.was_active (h : Later n n') (hactive : n'.state = .active) : n.state = .active := by
  rcases hs : n.state with _ | _ | _
  · rfl
  · exact absurd hactive (h.cancelling (by rw [hs]; exact trivial))
  · rw [(h.terminal (by rw [hs]; exact trivial)).1, hs] at hactive
    cases hactive

/-- Where no path appears and no scope starts cancelling, nothing is exposed that was not before. -/
theorem Closed.of_descends (h : Closed t) (hd : Descends t t')
    (hpath : ∀ {a d}, Exposed t' a d → Exposed t a d)
    (hnew : ∀ {id n n'}, t.nodes.get id = some n → t'.nodes.get id = some n' →
      n'.state.IsCancelling → n.state.IsCancelling) : Closed t' := by
  intro a d na' nd' had ha' hd' hactive hcancelling
  obtain ⟨na, ha, -⟩ := hd a na' ha'
  obtain ⟨nd, hnd, hlater⟩ := hd d nd' hd'
  exact h a d na nd (hpath had) ha hnd (hlater.was_active hactive) (hnew ha ha' hcancelling)

theorem link_congr (hshape : t'.shapeAt = t.shapeAt)
    (hbound : t'.cancellationBoundaries = t.cancellationBoundaries) : Link t' = Link t := by
  funext cancellation p c
  rw [Link, Link, hshape, hbound]

/-- A write that leaves every scope where it is and starts no cancellation. -/
theorem Closed.of_get_map (h : Closed t) (hget : ∀ x, t'.nodes.get x = (t.nodes.get x).map (g x))
    (hshape : ∀ x n, (g x n).shape = n.shape)
    (hbound : t'.cancellationBoundaries = t.cancellationBoundaries)
    (hd : Descends t t')
    (hnew : ∀ x n, (g x n).state.IsCancelling → n.state.IsCancelling) : Closed t' := by
  refine h.of_descends hd (fun {a d} had => ?_) fun {id n n'} hn hn' hcancelling => ?_
  · rw [Exposed, link_congr (shapeAt_of_get_map hget hshape) hbound] at had
    exact had
  · rw [hget, hn] at hn'
    cases hn'
    exact hnew id n hcancelling

variable {target : ScopeNode} {reason : CancellationReason} {instant : ℕ} {x : ScopeId}
  {parent : ScopeNode}

theorem not_active_of_stopIn (hx : x = target.scopeId ∨ x ∈ t.descendantIdsOf target true) :
    (t.stopIn target reason instant x n).state ≠ .active := by
  unfold stopIn
  dsimp only
  by_cases hmem : x ∈ t.descendantIdsOf target true
  · rw [if_pos hmem]
    exact ScopeNode.stopIfActive_ne_active _ _ _
  · rw [if_neg hmem, if_pos (hx.resolve_right hmem)]
    exact ScopeNode.stopIfActive_ne_active _ _ _

theorem stopIn_of_not_mem (hx : ¬ (x = target.scopeId ∨ x ∈ t.descendantIdsOf target true)) :
    t.stopIn target reason instant x n = n := by
  obtain ⟨hne, hmem⟩ := not_or.1 hx
  unfold stopIn
  rw [if_neg hmem, if_neg hne]

/-- Cancelling a subtree leaves no active scope exposed to what it cancelled. -/
theorem Closed.cancelSubtree (h : Closed t) (hsound : Sound t)
    (htarget : t.nodes.get target.scopeId = some target) (reason : CancellationReason)
    (instant : ℕ) : Closed (t.cancelSubtree target reason instant) := by
  have hget := get_cancelSubtree t target reason instant
  have hlink : Link (t.cancelSubtree target reason instant) = Link t :=
    link_congr (shapeAt_of_get_map hget (shape_stopIn t target reason instant))
      (SameFrame.cancelSubtree t target reason instant).cancellationBoundaries
  intro a d na' nd' had ha' hd' hactive hcancelling
  rw [Exposed, hlink] at had
  rw [hget] at ha' hd'
  obtain ⟨na, ha, rfl⟩ := Option.map_eq_some_iff.1 ha'
  obtain ⟨nd, hd, rfl⟩ := Option.map_eq_some_iff.1 hd'
  have hdout : ¬ (d = target.scopeId ∨ d ∈ t.descendantIdsOf target true) :=
    fun hin => not_active_of_stopIn hin hactive
  rw [stopIn_of_not_mem hdout] at hactive
  -- what is exposed to a cancelled scope is exposed to the target
  by_cases hain : a = target.scopeId ∨ a ∈ t.descendantIdsOf target true
  · refine hdout (.inr ((mem_descendantIdsOf hsound.forest htarget true).2 ?_))
    rcases hain with rfl | hain
    · exact had
    · exact ((mem_descendantIdsOf hsound.forest htarget true).1 hain).trans had
  · rw [stopIn_of_not_mem hain] at hcancelling
    exact h a d na nd had ha hd hactive hcancelling

/-- A boundary under an active parent can be taken away: what it hid is exposed to nothing more than
the parent is. -/
theorem Closed.release (h : Closed t)
    (hnode : t.nodes.get id = some node) (hp : node.parentId = some parentId)
    (hparent : t.nodes.get parentId = some parent) (hactive : parent.state = .active) :
    Closed { t with cancellationBoundaries := t.cancellationBoundaries.erase id } := by
  have hsplit : ∀ {a d}, Exposed
      { t with cancellationBoundaries := t.cancellationBoundaries.erase id } a d →
      Exposed t a d ∨ a = parentId ∨ Exposed t a parentId := by
    intro a d had
    have hup : ParentOf t.shapeAt parentId id := ⟨node.shape, shapeAt_of_get hnode, hp⟩
    have hstep : ∀ {b d}, Link { t with
        cancellationBoundaries := t.cancellationBoundaries.erase id } true b d →
        Link t true b d ∨ b = parentId := by
      rintro b d ⟨hbd, hfree⟩
      by_cases hd : d = id
      · exact .inr ((hd ▸ hbd : ParentOf t.shapeAt b id).unique hup)
      · exact .inl ⟨hbd, fun htrue hmem => hfree htrue (Finset.mem_erase.2 ⟨hd, hmem⟩)⟩
    induction had with
    | single hlink =>
      rcases hstep hlink with hlink | rfl
      · exact .inl (.single hlink)
      · exact .inr (.inl rfl)
    | tail _ hlink ih =>
      rcases ih with hab | hright
      · rcases hstep hlink with hlink | rfl
        · exact .inl (hab.tail hlink)
        · exact .inr (.inr hab)
      · exact .inr hright
  intro a d na nd had ha hd hdactive hcancelling
  rcases hsplit had with had | rfl | hap
  · exact h a d na nd had ha hd hdactive hcancelling
  · rw [hparent] at ha
    cases ha
    rw [hactive] at hcancelling
    exact hcancelling
  · exact h a parentId na parent hap ha hparent hactive hcancelling

theorem Closed.move (hsound : Sound t) (h : Closed t) (hmove : Move t t') : Closed t' := by
  have hd := hmove.descends
  rcases hmove with ⟨reason, instant, hnode⟩ | ⟨outcome, instant, hnode, -⟩ |
    ⟨hnode, -, hev, -⟩ | ⟨hnode, hactive⟩ | ⟨hnode, hactive, hp, hparent, hpactive⟩
  · exact h.cancelSubtree hsound hnode reason instant
  · refine h.of_get_map (get_settleUntrimmed t _ outcome instant)
      (shape_settleIn t _ outcome instant)
      (settleUntrimmed_cancellationBoundaries t _ outcome instant) hd fun _ n hcancelling => ?_
    rw [state_settleIn] at hcancelling
    split at hcancelling
    · exact hcancelling.elim
    · exact hcancelling
  · refine h.of_descends hd (fun {a d} had => ?_) fun {id n n'} hn hn' hcancelling => ?_
    · refine Relation.TransGen.mono (fun p c hlink => ?_) _ _ had
      rename_i evicted _ _ _
      obtain ⟨hpc, hfree⟩ := hlink
      change ParentOf evicted.shapeAt p c at hpc
      rw [shapeAt_evict hev] at hpc
      obtain ⟨hpc, hne⟩ := parentOf_prune.1 hpc
      refine ⟨hpc, fun htrue hmem => hfree htrue ?_⟩
      change c ∈ evicted.cancellationBoundaries
      rw [evict_cancellationBoundaries hev]
      exact Finset.mem_erase.2 ⟨hne, hmem⟩
    · change OrderedMap.get _ _ = _ at hn'
      rw [get_evict hev, hn] at hn'
      split at hn'
      · cases hn'
      · cases hn'
        split at hcancelling <;> exact hcancelling
  · refine h.of_descends hd (fun {a d} had => ?_) fun {id n n'} hn hn' hcancelling => ?_
    · refine Relation.TransGen.mono (fun p c hlink => ?_) _ _ had
      exact ⟨hlink.1, fun htrue hmem => hlink.2 htrue (Finset.mem_insert_of_mem hmem)⟩
    · rw [hn] at hn'
      cases hn'
      exact hcancelling
  · exact h.release hnode hp hparent hpactive

theorem Closed.derive (hsound : Sound t) (h : Closed t)
    (hok : t.derive parentId options openedAt requestedAt = .ok (handle, t')) : Closed t' := by
  obtain ⟨parent, childId, child, hparent, -, hfresh, -, -, -, -, hstart, hshape, hbound, -, hget⟩ :=
    get_derive hsound hok
  have hnone : t.shapeAt childId = none := by rw [shapeAt, hfresh, Option.map_none]
  have hps := shapeAt_of_get hparent
  -- the ways to the old scopes are the old ones; the way to the new one goes through its parent
  have hlink : ∀ {p c}, Link t' true p c → Link t true p c ∨ c = childId ∧ p = parentId := by
    rintro p c ⟨hpc, hfree⟩
    rw [hshape] at hpc
    rw [hbound] at hfree
    rcases (parentOf_grow hps hnone).1 hpc with hpc | hnew
    · exact .inl ⟨hpc, hfree⟩
    · exact .inr hnew
  have hchildless : ∀ {d}, ¬ Link t true childId d := by
    rintro d ⟨hcd, -⟩
    obtain ⟨s, hs⟩ := hsound.forest.parent_exists hcd
    rw [hnone] at hs
    cases hs
  have hpath : ∀ {a d}, Exposed t' a d →
      (d ≠ childId ∧ Exposed t a d) ∨ (d = childId ∧ (a = parentId ∨ Exposed t a parentId)) := by
    intro a d had
    induction had with
    | @single d hl =>
      rcases hlink hl with hl | ⟨rfl, rfl⟩
      · refine .inl ⟨?_, .single hl⟩
        rintro rfl
        obtain ⟨s, hs, -⟩ := hl.1
        rw [hnone] at hs
        cases hs
      · exact .inr ⟨rfl, .inl rfl⟩
    | @tail b d _ hl ih =>
      rcases hlink hl with hold | ⟨rfl, rfl⟩
      · have hne : d ≠ childId := by
          rintro rfl
          obtain ⟨s, hs, -⟩ := hold.1
          rw [hnone] at hs
          cases hs
        rcases ih with ⟨-, hab⟩ | ⟨rfl, -⟩
        · exact .inl ⟨hne, hab.tail hold⟩
        · exact absurd hold hchildless
      · rcases ih with ⟨-, hab⟩ | ⟨heq, -⟩
        · exact .inr ⟨rfl, .inr hab⟩
        · rw [heq, hfresh] at hparent
          cases hparent
  have hold : ∀ {x n'}, x ≠ childId → t'.nodes.get x = some n' →
      ∃ n, t.nodes.get x = some n ∧ n'.state = n.state := by
    intro x n' hx hn'
    rw [hget, if_neg hx] at hn'
    split at hn'
    next heq =>
      cases hn'
      exact ⟨parent, heq ▸ hparent, rfl⟩
    · exact ⟨n', hn', rfl⟩
  intro a d na' nd' had ha' hd' hactive hcancelling
  have hane : a ≠ childId := by
    rintro rfl
    rcases hpath had with ⟨-, hold⟩ | ⟨-, rfl | hold⟩
    · obtain ⟨c, hl, -⟩ := Relation.TransGen.head'_iff.1 hold
      exact hchildless hl
    · rw [hfresh] at hparent
      cases hparent
    · obtain ⟨c, hl, -⟩ := Relation.TransGen.head'_iff.1 hold
      exact hchildless hl
  obtain ⟨na, ha, hsa⟩ := hold hane ha'
  rw [hsa] at hcancelling
  rcases hpath had with ⟨hdne, had⟩ | ⟨rfl, hup⟩
  · obtain ⟨nd, hnd, hsd⟩ := hold hdne hd'
    exact h a d na nd had ha hnd (hsd ▸ hactive) hcancelling
  · rw [hget, if_pos rfl] at hd'
    cases hd'
    have hpactive := hstart hactive
    rcases hup with rfl | hup
    · rw [hparent] at ha
      cases ha
      rw [hpactive] at hcancelling
      exact hcancelling
    · exact h a parentId na parent hup ha hparent hpactive hcancelling

/-- **Every operation keeps the tree closed.** -/
theorem Closed.apply (hsound : Sound t) (h : Closed t) (op : Operation) : Closed (t.apply op) := by
  refine apply_preserves (I := Closed) (fun hs hc hmove => hc.move hs hmove)
    (fun hs hc hok => hc.derive hs hok) (fun {t id node} effect instant _ hc hnode hlive => ?_)
    (fun {t} ids effect _ hc => ?_) hsound h op
  · refine hc.of_get_map (get_applyEffect t id effect instant) (fun x n => ?_)
      (SameFrame.applyEffect t id effect instant).cancellationBoundaries
      (descends_applyEffect hnode hlive effect instant) fun x n hcancelling => ?_
    · split <;> rfl
    · split at hcancelling <;> exact hcancelling
  · refine hc.of_get_map (get_foldIntoAncestorIds t ids effect) (fun x n => ?_)
      (SameFrame.foldIntoAncestorIds t ids effect).cancellationBoundaries
      (descends_foldIntoAncestorIds t ids effect) fun x n hcancelling => ?_
    · split <;> rfl
    · split at hcancelling <;> exact hcancelling

/-! ## The signal of a scope -/

/-- What one event says about whether the cancellation of a scope was requested since it opened. -/
def heardRequest (id : ScopeId) (asked : Bool) (event : ScopeEvent) : Bool :=
  if event.scopeId = id then
    match event.kind with
    | .opened => false
    | .cancellationRequested => true
    | _ => asked
  else asked

/-- Whether the listeners were told, since they were told that the scope opened, that its cancellation
was requested. -/
def cancellationRequested (log : List ScopeEvent) (id : ScopeId) : Bool :=
  log.foldl (heardRequest id) false

theorem cancellationRequested_append (log : List ScopeEvent) (event : ScopeEvent) (id : ScopeId) :
    cancellationRequested (log ++ [event]) id =
      heardRequest id (cancellationRequested log id) event := by
  rw [cancellationRequested, List.foldl_append]
  rfl

/-- A scope's signal is aborted, and a request noted, exactly if its cancellation was requested. -/
def Signalled (t : ScopeTree) : Prop :=
  ∀ id node, t.nodes.get id = some node →
    (node.aborted = true ↔ cancellationRequested t.delivered id = true) ∧
      (node.aborted = true ↔ node.cancellationRequestedAt ≠ none)

theorem emit_delivered (t : ScopeTree) (kind : ScopeEventKind) (node : ScopeNode) (instant : ℕ)
    (reason : Option CancellationReason) (outcome : Option TerminalOutcome)
    (effect : Option EffectCertainty) (id : ScopeId) :
    cancellationRequested (t.emit kind node instant reason outcome effect).delivered id =
      if node.scopeId = id then
        match kind with
        | .opened => false
        | .cancellationRequested => true
        | _ => cancellationRequested t.delivered id
      else cancellationRequested t.delivered id :=
  cancellationRequested_append _ _ _

/-- A step that writes nothing about requests and announces none. -/
theorem Signalled.of_quiet (h : Signalled t)
    (hget : ∀ id n', t'.nodes.get id = some n' → ∃ n, t.nodes.get id = some n ∧
      n'.aborted = n.aborted ∧ n'.cancellationRequestedAt = n.cancellationRequestedAt)
    (hlog : ∀ id, cancellationRequested t'.delivered id = cancellationRequested t.delivered id) :
    Signalled t' := by
  intro id n' hn'
  obtain ⟨n, hn, haborted, hrequested⟩ := hget id n' hn'
  rw [haborted, hrequested, hlog]
  exact h id n hn

theorem Signalled.beginCancelling (hsound : Sound t) (h : Signalled t) (id : ScopeId)
    (reason : CancellationReason) (instant : ℕ) :
    Signalled (t.beginCancelling id reason instant) := by
  rw [ScopeTree.beginCancelling]
  rcases hnode : t.nodes.get id with _ | node
  · exact h
  · dsimp only
    split
    · intro x n' hn'
      rw [emit_nodes, get_modify] at hn'
      rw [emit_delivered, modify_delivered, hsound.key hnode]
      by_cases hx : x = id
      · subst hx
        rw [if_pos rfl, hnode] at hn'
        cases hn'
        rw [if_pos rfl]
        exact ⟨Iff.rfl, fun _ hnone => (by cases hnone), fun _ => rfl⟩
      · rw [if_neg hx] at hn'
        rw [if_neg (Ne.symm hx)]
        exact h x n' hn'
    · exact h

theorem Signalled.beginCancellingAll (hsound : Sound t) (h : Signalled t) (ids : List ScopeId)
    (reason : CancellationReason) (instant : ℕ) :
    Signalled (t.beginCancellingAll ids reason instant) := by
  induction ids generalizing t with
  | nil => exact h
  | cons id ids ih =>
    exact ih (hsound.beginCancelling id reason instant) (h.beginCancelling hsound id reason instant)

theorem foldIntoAncestorIds_delivered (t : ScopeTree) (ids : List ScopeId)
    (effect : EffectCertainty) : (t.foldIntoAncestorIds ids effect).delivered = t.delivered := by
  induction ids generalizing t with
  | nil => rfl
  | cons id ids ih =>
    change ((t.modify id (·.absorb effect)).foldIntoAncestorIds ids effect).delivered = _
    rw [ih, modify_delivered]

theorem Signalled.settleUntrimmed (h : Signalled t) (node : ScopeNode)
    (outcome : TerminalOutcome) (instant : ℕ) :
    Signalled (t.settleUntrimmed node outcome instant) := by
  refine h.of_quiet (fun id _ hn' => ?_) fun id => ?_
  · rw [get_settleUntrimmed] at hn'
    obtain ⟨n, hn, rfl⟩ := Option.map_eq_some_iff.1 hn'
    refine ⟨n, hn, ?_⟩
    unfold settleIn
    dsimp only
    split_ifs <;> exact ⟨rfl, rfl⟩
  · change cancellationRequested (ScopeTree.delivered (emit _ _ _ _ _ _ _)) id = _
    rw [emit_delivered, foldIntoAncestorIds_delivered, modify_delivered]
    exact ite_self _

theorem evict_delivered (hev : t.evict node = some t') : t'.delivered = t.delivered := by
  rw [(evict_eq_some.1 hev).2]
  change (t.detach node).delivered = t.delivered
  unfold detach
  rcases node.parentId with _ | p
  · rfl
  · exact modify_delivered t _ _

theorem Signalled.move (hsound : Sound t) (h : Signalled t) (hmove : Move t t') :
    Signalled t' := by
  rcases hmove with ⟨reason, instant, hnode⟩ | ⟨outcome, instant, hnode, -⟩ |
    ⟨hnode, -, hev, -⟩ | ⟨hnode, hactive⟩ | ⟨hnode, hactive, -, -, -⟩
  · exact (h.beginCancelling hsound _ reason instant).beginCancellingAll
      (hsound.beginCancelling _ reason instant) _ _ instant
  · exact h.settleUntrimmed _ outcome instant
  · rename_i evicted _ _ _
    have hlog : evicted.delivered = t.delivered := evict_delivered hev
    refine h.of_quiet (fun id _ hn' => ?_) fun id => congrArg (cancellationRequested · id) hlog
    obtain ⟨n, hn, rfl⟩ := get_evict_eq_some hev hn'
    refine ⟨n, hn, ?_⟩
    split <;> exact ⟨rfl, rfl⟩
  · exact h
  · exact h

theorem Signalled.attach (h : Signalled t) (options : DeriveScopeOptions)
    {childId : ScopeId} (hparent : t.nodes.get parent.scopeId = some parent)
    (hfresh : t.nodes.get childId = none) (instant : ℕ) :
    Signalled (t.attach parent (newNode parent options childId) instant) := by
  have hne : childId ≠ parent.scopeId := by
    rintro rfl
    rw [hfresh] at hparent
    cases hparent
  have hlog : ∀ id, cancellationRequested
      (t.attach parent (newNode parent options childId) instant).delivered id =
        if childId = id then false else cancellationRequested t.delivered id := by
    intro id
    rw [ScopeTree.attach, emit_delivered, modify_delivered]
    rfl
  intro id n' hn'
  rw [get_attach hne hparent] at hn'
  rw [hlog]
  change (if id = childId then _ else _) = some n' at hn'
  by_cases hid : id = childId
  · rw [if_pos hid] at hn'
    cases hn'
    rw [if_pos hid.symm]
    exact ⟨Iff.rfl, fun hfalse => (by cases hfalse), fun hnone => absurd rfl hnone⟩
  · rw [if_neg hid] at hn'
    rw [if_neg (Ne.symm hid)]
    split at hn'
    next hp =>
      cases hn'
      exact h id parent (hp ▸ hparent)
    · exact h id n' hn'

theorem Signalled.derive (hsound : Sound t) (h : Signalled t)
    (hok : t.derive parentId options openedAt requestedAt = .ok (handle, t')) : Signalled t' := by
  obtain ⟨parent, childId, hparent, hlive, hdepth, -, -, hfresh, -, rfl⟩ := derive_ok hok
  have hparent' : t.nodes.get parent.scopeId = some parent := by rw [hsound.key hparent, hparent]
  have hopened := h.attach options hparent' hfresh openedAt
  split
  · have hsound' := hsound.attach options hparent' hlive hfresh hdepth openedAt
    exact hopened.beginCancelling hsound' childId _ requestedAt
  · exact hopened

theorem Signalled.applyEffect (h : Signalled t) (id : ScopeId) (effect : EffectCertainty)
    (instant : ℕ) : Signalled (t.applyEffect id effect instant) := by
  refine h.of_quiet (fun x _ hn' => ?_) fun x => ?_
  · rw [get_applyEffect] at hn'
    obtain ⟨n, hn, rfl⟩ := Option.map_eq_some_iff.1 hn'
    refine ⟨n, hn, ?_⟩
    split <;> exact ⟨rfl, rfl⟩
  · rw [ScopeTree.applyEffect]
    rcases t.nodes.get id with _ | node
    · rfl
    · dsimp only
      split
      · rw [emit_delivered, modify_delivered]
        exact ite_self _
      · rfl

theorem Signalled.apply (hsound : Sound t) (h : Signalled t) (op : Operation) :
    Signalled (t.apply op) := by
  refine apply_preserves (I := Signalled) (fun hs hc hmove => hc.move hs hmove)
    (fun hs hc hok => hc.derive hs hok)
    (fun {t id node} effect instant _ hc _ _ => hc.applyEffect id effect instant)
    (fun {t} ids effect _ hc => ?_) hsound h op
  refine hc.of_quiet (fun id _ hn' => ?_) fun id =>
    congrArg (cancellationRequested · id) (foldIntoAncestorIds_delivered t ids effect)
  rw [get_foldIntoAncestorIds] at hn'
  obtain ⟨n, hn, rfl⟩ := Option.map_eq_some_iff.1 hn'
  refine ⟨n, hn, ?_⟩
  split <;> exact ⟨rfl, rfl⟩

/-! ## Every run -/

theorem closed_create (rootId : ScopeId) (rootDeadline : Option Deadline) (instant : ℕ) :
    Closed (create rootId rootDeadline instant) := by
  intro a d na nd _ ha _ _ hcancelling
  rw [get_create] at ha
  split at ha
  · cases ha
    exact hcancelling
  · cases ha

theorem signalled_create (rootId : ScopeId) (rootDeadline : Option Deadline) (instant : ℕ) :
    Signalled (create rootId rootDeadline instant) := by
  intro id node hnode
  rw [get_create] at hnode
  split at hnode
  next hid =>
    cases hnode
    have hroot : (rootNode rootId rootDeadline).scopeId = rootId := rfl
    rw [hid, create, emit_delivered, if_pos hroot]
    exact ⟨Iff.rfl, fun hfalse => (by cases hfalse), fun hnone => absurd rfl hnone⟩
  · cases hnode

/-- **Cancellation closure.**  After every sequence of operations: no active scope has a cancelling
ancestor on a way up that neither starts at nor passes through a boundary; a scope's signal is aborted
exactly if, since it opened, its cancellation was requested; and no further operation moves a scope
from cancelling back to active or out of terminal. -/
theorem cancellation_closure (rootId : ScopeId) (rootDeadline : Option Deadline) (instant : ℕ)
    (ops : List Operation) :
    let t := (create rootId rootDeadline instant).applyAll ops
    (∀ a d na nd, Exposed t a d → t.nodes.get a = some na → t.nodes.get d = some nd →
        nd.state = .active → ¬ na.state.IsCancelling) ∧
      (∀ id node, t.nodes.get id = some node →
        (node.aborted = true ↔ cancellationRequested t.delivered id = true) ∧
          (node.aborted = true ↔ node.cancellationRequestedAt ≠ none)) ∧
      (∀ op id n n', t.nodes.get id = some n → (t.apply op).nodes.get id = some n' →
        (n.state.IsCancelling → n'.state ≠ .active) ∧ (n.state.IsTerminal → n'.state = n.state)) := by
  have hsound := sound_create rootId rootDeadline instant
  refine ⟨?_, ?_, fun op id n n' hn hn' => ?_⟩
  · exact applyAll_preserves (I := Closed) (fun op hs hc => hc.apply hs op) hsound
      (closed_create rootId rootDeadline instant) ops
  · exact applyAll_preserves (I := Signalled) (fun op hs hc => hc.apply hs op) hsound
      (signalled_create rootId rootDeadline instant) ops
  · have hlater := later_apply (hsound.applyAll ops) op hn hn'
    exact ⟨hlater.cancelling, fun hterminal => (hlater.terminal hterminal).1⟩

end Falryn.Orchestration.ScopeTree
