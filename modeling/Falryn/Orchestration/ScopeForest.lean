import Falryn.Orchestration.ScopeTree

/-!
# The scopes of a tree form a forest

What a scope inherits and whom it lists is its *shape*.  Only `derive` and the evictions change the
shapes of a tree, and they keep them a forest: a retained scope's parent is retained and lists it
once.  In a forest the walks of the source are what they are meant to be: `ancestorIdsOf` finds the
scopes above a scope, `descendantsOf` the ones below it.
-/

namespace Falryn.Orchestration

open BreadthFirst

/-! ## The order of effects -/

theorem worstEffect_eq_max (a b : EffectCertainty) : worstEffect a b = max a b := by
  rw [worstEffect, max_def]
  by_cases h : a.severity < b.severity
  · rw [if_pos h, if_pos (EffectCertainty.le_iff.2 h.le)]
  · rw [if_neg h]
    split
    next hle =>
      have heq := le_antisymm (EffectCertainty.le_iff.1 hle) (not_lt.1 h)
      exact EffectCertainty.severity_injective heq
    · rfl

theorem ScopeNode.totalEffect_eq (node : ScopeNode) :
    node.totalEffect = max node.effect node.settledDescendantEffect :=
  worstEffect_eq_max _ _

/-! ## Shapes -/

/-- Where a scope is in the tree. -/
structure Shape where
  parentId : Option ScopeId
  depth : ℕ
  children : List ScopeId

/-- The shape of a scope. -/
def ScopeNode.shape (node : ScopeNode) : Shape := ⟨node.parentId, node.depth, node.children⟩

/-- `parent` is the parent of the scope `child`. -/
def ParentOf (shape : ScopeId → Option Shape) (parent child : ScopeId) : Prop :=
  ∃ s, shape child = some s ∧ s.parentId = some parent

/-- `ancestor` is a proper ancestor of `id`. -/
def Above (shape : ScopeId → Option Shape) : ScopeId → ScopeId → Prop :=
  Relation.TransGen (ParentOf shape)

/-- The shapes of a tree's scopes are a forest of bounded depth. -/
structure ScopeForest (shape : ScopeId → Option Shape) : Prop where
  /-- What a scope lists is there and names it as its parent. -/
  child : ∀ {id s c}, shape id = some s → c ∈ s.children → ParentOf shape id c
  /-- A scope's parent is there, lists it and is one level higher. -/
  parent : ∀ {id s p}, shape id = some s → s.parentId = some p →
    ∃ s', shape p = some s' ∧ id ∈ s'.children ∧ s.depth = s'.depth + 1
  /-- No scope is listed twice. -/
  nodup : ∀ {id s}, shape id = some s → s.children.Nodup
  /-- `derive` refuses to nest deeper. -/
  depth_lt : ∀ {id s}, shape id = some s → s.depth < maxScopeDepth

section
variable {shape : ScopeId → Option Shape} {a b c d id : ScopeId} {s : Shape}

theorem ParentOf.unique (h : ParentOf shape a d) (h' : ParentOf shape b d) : a = b := by
  obtain ⟨s, hs, hp⟩ := h
  obtain ⟨s', hs', hp'⟩ := h'
  rw [hs] at hs'
  cases hs'
  exact Option.some.inj (hp.symm.trans hp')

theorem Above.lower (h : Above shape a d) : ∃ s, shape d = some s := by
  obtain ⟨b, -, s, hs, -⟩ := Relation.TransGen.tail'_iff.1 h
  exact ⟨s, hs⟩

/-- The ancestors of a scope are its parent and the parent's ancestors. -/
theorem above_iff (h : ParentOf shape b d) : Above shape a d ↔ a = b ∨ Above shape a b := by
  constructor
  · intro had
    obtain ⟨c, hac, hcd⟩ := Relation.TransGen.tail'_iff.1 had
    rw [hcd.unique h] at hac
    rcases hac.cases_tail with heq | ⟨e, hae, heb⟩
    · exact .inl heq.symm
    · exact .inr (Relation.TransGen.tail'_iff.2 ⟨e, hae, heb⟩)
  · rintro (rfl | hab)
    · exact .single h
    · exact hab.tail h

theorem not_above_of_root (hs : shape d = some s) (hroot : s.parentId = none) :
    ¬ Above shape a d := by
  intro h
  obtain ⟨b, -, s', hs', hp⟩ := Relation.TransGen.tail'_iff.1 h
  rw [hs] at hs'
  cases hs'
  rw [hroot] at hp
  cases hp

namespace ScopeForest
variable (h : ScopeForest shape) {s' : Shape}
include h

theorem parent_exists (hp : ParentOf shape a d) : ∃ s, shape a = some s := by
  obtain ⟨s, hs, hp⟩ := hp
  obtain ⟨s', hs', -⟩ := h.parent hs hp
  exact ⟨s', hs'⟩

theorem above_exists (hab : Above shape a d) : ∃ s, shape a = some s := by
  obtain ⟨b, hb, -⟩ := Relation.TransGen.head'_iff.1 hab
  exact h.parent_exists hb

theorem depth_parent (hp : ParentOf shape a d) (hd : shape d = some s)
    (ha : shape a = some s') : s.depth = s'.depth + 1 := by
  obtain ⟨s₁, hs₁, hp⟩ := hp
  obtain ⟨s₂, hs₂, -, hdepth⟩ := h.parent hs₁ hp
  rw [hd] at hs₁
  rw [ha] at hs₂
  cases hs₁
  cases hs₂
  exact hdepth

theorem depth_above (hab : Above shape a d) (ha : shape a = some s)
    (hd : shape d = some s') : s.depth < s'.depth := by
  induction hab generalizing s' with
  | single hp =>
    have := h.depth_parent hp hd ha
    omega
  | tail _ hp ih =>
    obtain ⟨s₁, hs₁⟩ := h.parent_exists hp
    have := ih hs₁
    have := h.depth_parent hp hd hs₁
    omega

theorem not_above_self : ¬ Above shape a a := by
  intro haa
  obtain ⟨s, hs⟩ := haa.lower
  exact absurd (h.depth_above haa hs hs) (lt_irrefl _)

/-- A scope without children is above nothing. -/
theorem not_above_of_childless (hs : shape a = some s) (hleaf : s.children = []) :
    ¬ Above shape a d := by
  intro had
  obtain ⟨c, ⟨s₁, hs₁, hp⟩, -⟩ := Relation.TransGen.head'_iff.1 had
  obtain ⟨s₂, hs₂, hmem, -⟩ := h.parent hs₁ hp
  rw [hs] at hs₂
  cases hs₂
  rw [hleaf] at hmem
  cases hmem

end ScopeForest

/-! ## Growing and pruning -/

/-- The shapes with a new scope `c` under the scope `p`, whose shape was `s`. -/
def grow (shape : ScopeId → Option Shape) (p : ScopeId) (s : Shape) (c : ScopeId) :
    ScopeId → Option Shape :=
  fun x => if x = c then some ⟨some p, s.depth + 1, []⟩
    else if x = p then some { s with children := s.children ++ [c] } else shape x

/-- The shapes without the scope `c`, whose shape was `s`. -/
def prune (shape : ScopeId → Option Shape) (c : ScopeId) (s : Shape) : ScopeId → Option Shape :=
  fun x => if x = c then none
    else if s.parentId = some x then
      (shape x).map fun s' => { s' with children := s'.children.erase c }
    else shape x

section Grow
variable {p : ScopeId} (h : ScopeForest shape) (hp : shape p = some s) (hc : shape c = none)

include hp hc in
theorem parentOf_grow : ParentOf (grow shape p s c) a d ↔ ParentOf shape a d ∨ d = c ∧ a = p := by
  have hpc : p ≠ c := by
    rintro rfl
    rw [hp] at hc
    cases hc
  unfold ParentOf grow
  by_cases hdc : d = c
  · subst hdc
    simp [hc, eq_comm]
  · by_cases hdp : d = p
    · subst hdp
      simp [hpc, hp]
    · simp [hdc, hdp]

include h hp hc

theorem above_grow_of_ne (hd : d ≠ c) : Above (grow shape p s c) a d ↔ Above shape a d := by
  constructor
  · intro had
    induction had with
    | single hlink =>
      rcases (parentOf_grow hp hc).1 hlink with hlink | ⟨heq, -⟩
      · exact .single hlink
      · exact absurd heq hd
    | @tail b d _ hlink ih =>
      rcases (parentOf_grow hp hc).1 hlink with hold | ⟨heq, -⟩
      · have hb : b ≠ c := by
          rintro rfl
          obtain ⟨s', hs'⟩ := h.parent_exists hold
          rw [hc] at hs'
          cases hs'
        exact (ih hb).tail hold
      · exact absurd heq hd
  · intro had
    exact Relation.TransGen.mono (fun _ _ hxy => (parentOf_grow hp hc).2 (.inl hxy)) _ _ had

theorem ScopeForest.grow (hdepth : s.depth + 1 < maxScopeDepth) :
    ScopeForest (grow shape p s c) := by
  have hpc : p ≠ c := by
    rintro rfl
    rw [hp] at hc
    cases hc
  -- the shape of an old scope differs from what it was in the parent's children only
  have hold : ∀ {x s'}, x ≠ c → Orchestration.grow shape p s c x = some s' →
      ∃ s₀, shape x = some s₀ ∧ s'.parentId = s₀.parentId ∧ s'.depth = s₀.depth ∧
        s'.children = if x = p then s₀.children ++ [c] else s₀.children := by
    intro x s' hxc hx
    rw [Orchestration.grow, if_neg hxc] at hx
    by_cases hxp : x = p
    · rw [if_pos hxp] at hx
      cases hx
      exact ⟨s, hxp ▸ hp, rfl, rfl, by rw [if_pos hxp]⟩
    · rw [if_neg hxp] at hx
      exact ⟨s', hx, rfl, rfl, by rw [if_neg hxp]⟩
  have hnew : ∀ {s'}, Orchestration.grow shape p s c c = some s' → s' = ⟨some p, s.depth + 1, []⟩ := by
    intro s' hs'
    rw [Orchestration.grow, if_pos rfl] at hs'
    exact (Option.some.inj hs').symm
  have hfresh : ∀ {x s₀}, shape x = some s₀ → c ∉ s₀.children := by
    intro x s₀ hx hmem
    obtain ⟨s', hs', -⟩ := h.child hx hmem
    rw [hc] at hs'
    cases hs'
  refine ⟨fun {x s' d} hx hd => ?_, fun {x s' q} hx hq => ?_, fun {x s'} hx => ?_,
    fun {x s'} hx => ?_⟩
  · by_cases hxc : x = c
    · subst hxc
      rw [hnew hx] at hd
      cases hd
    · obtain ⟨s₀, hs₀, -, -, hchildren⟩ := hold hxc hx
      rw [parentOf_grow hp hc]
      rw [hchildren] at hd
      split at hd
      next hxp =>
        rcases List.mem_append.1 hd with hd | hd
        · exact .inl (h.child hs₀ hd)
        · exact .inr ⟨List.mem_singleton.1 hd, hxp⟩
      · exact .inl (h.child hs₀ hd)
  · by_cases hxc : x = c
    · subst hxc
      rw [hnew hx] at hq ⊢
      cases hq
      refine ⟨{ s with children := s.children ++ [x] }, ?_, ?_, rfl⟩
      · rw [Orchestration.grow, if_neg hpc, if_pos rfl]
      · exact List.mem_append_right _ (List.mem_singleton_self x)
    · obtain ⟨s₀, hs₀, hparent, hdepth₀, -⟩ := hold hxc hx
      obtain ⟨s₁, hs₁, hmem, hd₁⟩ := h.parent hs₀ (hparent ▸ hq)
      have hqc : q ≠ c := by
        rintro rfl
        rw [hc] at hs₁
        cases hs₁
      rw [Orchestration.grow, if_neg hqc, hdepth₀]
      by_cases hqp : q = p
      · subst hqp
        rw [hp] at hs₁
        cases hs₁
        exact ⟨_, if_pos rfl, List.mem_append_left _ hmem, hd₁⟩
      · exact ⟨s₁, (if_neg hqp).trans hs₁, hmem, hd₁⟩
  · by_cases hxc : x = c
    · subst hxc
      rw [hnew hx]
      exact List.nodup_nil
    · obtain ⟨s₀, hs₀, -, -, hchildren⟩ := hold hxc hx
      rw [hchildren]
      split
      · have hdisjoint := List.disjoint_singleton.2 (hfresh hs₀)
        exact (h.nodup hs₀).append (List.nodup_singleton c) hdisjoint
      · exact h.nodup hs₀
  · by_cases hxc : x = c
    · subst hxc
      rw [hnew hx]
      exact hdepth
    · obtain ⟨s₀, hs₀, -, hd₀, -⟩ := hold hxc hx
      rw [hd₀]
      exact h.depth_lt hs₀

end Grow

section Prune
variable (h : ScopeForest shape) (hc : shape c = some s) (hleaf : s.children = [])

theorem prune_eq_some {x : ScopeId} {s' : Shape} :
    prune shape c s x = some s' ↔ x ≠ c ∧ ∃ s₀, shape x = some s₀ ∧
      s' = if s.parentId = some x then { s₀ with children := s₀.children.erase c } else s₀ := by
  rw [prune]
  by_cases hxc : x = c
  · simp [hxc]
  · rw [if_neg hxc]
    by_cases hp : s.parentId = some x
    · simp [hp, hxc, eq_comm]
    · simp [hp, hxc]

theorem parentOf_prune : ParentOf (prune shape c s) a d ↔ ParentOf shape a d ∧ d ≠ c := by
  constructor
  · rintro ⟨s', hs', hp⟩
    obtain ⟨hdc, s₀, hs₀, rfl⟩ := prune_eq_some.1 hs'
    refine ⟨⟨s₀, hs₀, ?_⟩, hdc⟩
    split at hp <;> exact hp
  · rintro ⟨⟨s₀, hs₀, hp⟩, hdc⟩
    refine ⟨_, prune_eq_some.2 ⟨hdc, s₀, hs₀, rfl⟩, ?_⟩
    split <;> exact hp

include h hc hleaf

theorem above_prune : Above (prune shape c s) a d ↔ Above shape a d ∧ d ≠ c := by
  constructor
  · intro had
    obtain ⟨b, -, hlink⟩ := Relation.TransGen.tail'_iff.1 had
    exact ⟨Relation.TransGen.mono (fun _ _ hxy => (parentOf_prune.1 hxy).1) _ _ had,
      (parentOf_prune.1 hlink).2⟩
  · rintro ⟨had, hdc⟩
    induction had with
    | single hlink => exact .single (parentOf_prune.2 ⟨hlink, hdc⟩)
    | @tail b d _ hlink ih =>
      have hbc : b ≠ c := by
        rintro rfl
        exact h.not_above_of_childless hc hleaf (.single hlink)
      exact (ih hbc).tail (parentOf_prune.2 ⟨hlink, hdc⟩)

theorem ScopeForest.prune : ScopeForest (prune shape c s) := by
  refine ⟨fun {x s' d} hx hd => ?_, fun {x s' q} hx hq => ?_, fun {x s'} hx => ?_,
    fun {x s'} hx => ?_⟩
  · obtain ⟨hxc, s₀, hs₀, rfl⟩ := prune_eq_some.1 hx
    have hd₀ : d ∈ s₀.children := by
      split at hd
      · exact List.mem_of_mem_erase hd
      · exact hd
    have hparent := h.child hs₀ hd₀
    refine parentOf_prune.2 ⟨hparent, ?_⟩
    rintro rfl
    obtain ⟨s₁, hs₁, hp⟩ := hparent
    rw [hc] at hs₁
    cases hs₁
    rw [if_pos hp] at hd
    exact (h.nodup hs₀).not_mem_erase hd
  · obtain ⟨hxc, s₀, hs₀, rfl⟩ := prune_eq_some.1 hx
    have hq₀ : s₀.parentId = some q := by split at hq <;> exact hq
    obtain ⟨s₁, hs₁, hmem, hdepth⟩ := h.parent hs₀ hq₀
    have hqc : q ≠ c := by
      rintro rfl
      exact h.not_above_of_childless hc hleaf (.single ⟨s₀, hs₀, hq₀⟩)
    refine ⟨_, prune_eq_some.2 ⟨hqc, s₁, hs₁, rfl⟩, ?_, ?_⟩
    · split
      · exact (List.mem_erase_of_ne hxc).2 hmem
      · exact hmem
    · split <;> split <;> exact hdepth
  · obtain ⟨-, s₀, hs₀, rfl⟩ := prune_eq_some.1 hx
    split
    · exact (h.nodup hs₀).erase c
    · exact h.nodup hs₀
  · obtain ⟨-, s₀, hs₀, rfl⟩ := prune_eq_some.1 hx
    have hdepth := h.depth_lt hs₀
    split <;> exact hdepth

end Prune
end

/-! ## Reading a tree after a write -/

namespace ScopeTree

/-- The shape of the scope under an identifier. -/
def shapeAt (t : ScopeTree) (id : ScopeId) : Option Shape := (t.nodes.get id).map ScopeNode.shape

theorem get_modify (t : ScopeTree) (id : ScopeId) (f : ScopeNode → ScopeNode) (id' : ScopeId) :
    (t.modify id f).nodes.get id' =
      if id' = id then (t.nodes.get id').map f else t.nodes.get id' := by
  rw [modify]
  split
  next hnone =>
    by_cases heq : id' = id
    · rw [if_pos heq, heq, hnone, Option.map_none]
    · rw [if_neg heq]
  next hnode =>
    rw [OrderedMap.get_set]
    by_cases heq : id' = id
    · rw [if_pos heq, if_pos heq, heq, hnode, Option.map_some]
    · rw [if_neg heq, if_neg heq]

theorem keys_modify (t : ScopeTree) (id : ScopeId) (f : ScopeNode → ScopeNode) :
    (t.modify id f).nodes.keys = t.nodes.keys := by
  rw [modify]
  split
  · rfl
  next node hnode => exact OrderedMap.keys_set_of_mem _ (OrderedMap.mem_keys.2 ⟨node, hnode⟩)

section
variable (t : ScopeTree) (id : ScopeId) (f : ScopeNode → ScopeNode)

@[simp] theorem modify_cancellationBoundaries :
    (t.modify id f).cancellationBoundaries = t.cancellationBoundaries := by
  rw [modify]; split <;> rfl

@[simp] theorem modify_retained : (t.modify id f).retained = t.retained := by
  rw [modify]; split <;> rfl

@[simp] theorem modify_tombstones : (t.modify id f).tombstones = t.tombstones := by
  rw [modify]; split <;> rfl

@[simp] theorem modify_liveCount : (t.modify id f).liveCount = t.liveCount := by
  rw [modify]; split <;> rfl

@[simp] theorem modify_delivered : (t.modify id f).delivered = t.delivered := by
  rw [modify]; split <;> rfl

end

section
variable (t : ScopeTree) (kind : ScopeEventKind) (node : ScopeNode) (instant : ℕ)
  (reason : Option CancellationReason) (outcome : Option TerminalOutcome)
  (effect : Option EffectCertainty)

@[simp] theorem emit_nodes :
    (t.emit kind node instant reason outcome effect).nodes = t.nodes := rfl

end

/-- A write that leaves a scope where it is. -/
def KeepsShape (f : ScopeNode → ScopeNode) : Prop :=
  ∀ node, (f node).shape = node.shape ∧ (f node).scopeId = node.scopeId

theorem keepsShape_settled (outcome : TerminalOutcome) (instant : ℕ) :
    KeepsShape (·.settled outcome instant) := fun _ => ⟨rfl, rfl⟩

variable {id : ScopeId}

theorem shapeAt_modify {t : ScopeTree} {f : ScopeNode → ScopeNode}
    (hf : KeepsShape f) : (t.modify id f).shapeAt = t.shapeAt := by
  funext id'
  rw [shapeAt, shapeAt, get_modify]
  split
  · rw [Option.map_map]
    exact congrArg (fun g => (t.nodes.get id').map g) (funext fun node => (hf node).1)
  · rfl

/-! ## The walks of a forest -/

/-- The links that a walk downwards follows: the one of cancellation stops at boundaries. -/
def Link (t : ScopeTree) (cancellation : Bool) (parent child : ScopeId) : Prop :=
  ParentOf t.shapeAt parent child ∧ (cancellation = true → child ∉ t.cancellationBoundaries)

variable {t : ScopeTree} {s : Shape}

theorem shapeAt_eq_some :
    t.shapeAt id = some s ↔ ∃ node, t.nodes.get id = some node ∧ node.shape = s :=
  Option.map_eq_some_iff

variable {node : ScopeNode}

theorem shapeAt_of_get (h : t.nodes.get id = some node) : t.shapeAt id = some node.shape := by
  rw [shapeAt, h, Option.map_some]

variable {cancellation : Bool}

theorem childrenAt_eq_some {next : List ScopeId} : t.childrenAt cancellation id = some next ↔
      ∃ node, t.nodes.get id = some node ∧ node.children = next ∧
        (cancellation = true → id ∉ t.cancellationBoundaries) := by
  rw [childrenAt]
  split
  next hnone => simp [hnone]
  next node hnode =>
    by_cases hstop : (cancellation && decide (id ∈ t.cancellationBoundaries)) = true
    · rw [if_pos hstop]
      rw [Bool.and_eq_true, decide_eq_true_eq] at hstop
      constructor
      · intro h
        cases h
      · rintro ⟨node', -, -, hfree⟩
        exact absurd hstop.2 (hfree hstop.1)
    · rw [if_neg hstop, hnode]
      rw [Bool.and_eq_true, decide_eq_true_eq, not_and] at hstop
      constructor
      · intro h
        exact ⟨node, rfl, Option.some.inj h, hstop⟩
      · rintro ⟨node', hnode', rfl, -⟩
        rw [Option.some.inj hnode']

/-- The forest that the walk goes through. -/
theorem walk_forest (h : ScopeForest t.shapeAt) (cancellation : Bool) :
    Forest (t.childrenAt cancellation) (fun id => (t.shapeAt id).bind Shape.parentId)
      (fun id => ((t.shapeAt id).map Shape.depth).getD 0) t.nodes.keys.toFinset := by
  have hedge : ∀ {x y}, Edge (t.childrenAt cancellation) x y →
      ∃ s s', t.shapeAt x = some s ∧ t.shapeAt y = some s' ∧ ParentOf t.shapeAt x y := by
    rintro x y ⟨next, hnext, hy⟩
    obtain ⟨node, hnode, rfl, -⟩ := childrenAt_eq_some.1 hnext
    obtain ⟨s', hs', hp⟩ := h.child (shapeAt_of_get hnode) hy
    exact ⟨node.shape, s', shapeAt_of_get hnode, hs', s', hs', hp⟩
  refine ⟨fun {x y} hxy => ?_, fun {x y} hxy => ?_, fun {x y} hxy => ?_, fun {x next} hx => ?_⟩
  · obtain ⟨s, s', -, hs', s'', hs'', hp⟩ := hedge hxy
    rw [hs''] at hs' ⊢
    exact hp
  · obtain ⟨s, s', hs, hs', hp⟩ := hedge hxy
    have := h.depth_parent hp hs' hs
    rw [hs, hs']
    change s.depth < s'.depth
    omega
  · obtain ⟨s, s', -, hs', -⟩ := hedge hxy
    obtain ⟨node, hnode, -⟩ := shapeAt_eq_some.1 hs'
    exact List.mem_toFinset.2 (OrderedMap.mem_keys.2 ⟨node, hnode⟩)
  · obtain ⟨node, hnode, rfl, -⟩ := childrenAt_eq_some.1 hx
    exact h.nodup (shapeAt_of_get hnode)

variable {x : ScopeId} {y a : ScopeId}

theorem edge_iff (h : ScopeForest t.shapeAt) (hx : t.childrenAt cancellation x ≠ none) :
    Edge (t.childrenAt cancellation) x y ↔ ParentOf t.shapeAt x y := by
  constructor
  · rintro ⟨next, hnext, hy⟩
    obtain ⟨node, hnode, rfl, -⟩ := childrenAt_eq_some.1 hnext
    exact h.child (shapeAt_of_get hnode) hy
  · rintro ⟨s, hs, hp⟩
    obtain ⟨next, hnext⟩ := Option.ne_none_iff_exists'.1 hx
    obtain ⟨node, hnode, rfl, -⟩ := childrenAt_eq_some.1 hnext
    obtain ⟨s', hs', hmem, -⟩ := h.parent hs hp
    rw [shapeAt_of_get hnode] at hs'
    cases hs'
    exact ⟨node.children, hnext, hmem⟩

/-- Where the walk does not pass over a scope, the link to it may be followed. -/
theorem link_iff (hp : ParentOf t.shapeAt x y) :
    Link t cancellation x y ↔ t.childrenAt cancellation y ≠ none := by
  obtain ⟨s, hs, hparent⟩ := hp
  obtain ⟨node, hnode, rfl⟩ := shapeAt_eq_some.1 hs
  rw [Option.ne_none_iff_exists']
  constructor
  · rintro ⟨-, hfree⟩
    exact ⟨node.children, childrenAt_eq_some.2 ⟨node, hnode, rfl, hfree⟩⟩
  · rintro ⟨next, hnext⟩
    obtain ⟨-, -, -, hfree⟩ := childrenAt_eq_some.1 hnext
    exact ⟨⟨node.shape, hs, hparent⟩, hfree⟩

/-- **`descendantsOf` finds the scopes below a scope.** -/
theorem mem_descendantIdsOf (h : ScopeForest t.shapeAt)
    (hnode : t.nodes.get id = some node) (cancellation : Bool) :
    x ∈ t.descendantIdsOf node cancellation ↔ Relation.TransGen (Link t cancellation) id x := by
  have hrow : Row (fun id => (t.shapeAt id).bind Shape.parentId)
      (fun id => ((t.shapeAt id).map Shape.depth).getD 0) t.nodes.keys.toFinset id
      node.children := by
    have hshape := shapeAt_of_get hnode
    have hplain := (walk_forest h false).row (childrenAt_eq_some.2
      ⟨node, hnode, rfl, nofun⟩)
    exact hplain
  have hcard : t.nodes.keys.toFinset.card ≤ t.nodes.size := by
    rw [← OrderedMap.length_keys]
    exact List.toFinset_card_le _
  rw [descendantIdsOf, (walk_forest h cancellation).mem_sweep hrow hcard]
  have hchild : ∀ r, r ∈ node.children ↔ ParentOf t.shapeAt id r := by
    intro r
    have hvisit : t.childrenAt false id = some node.children :=
      childrenAt_eq_some.2 ⟨node, hnode, rfl, nofun⟩
    rw [← edge_iff h (by rw [hvisit]; exact Option.some_ne_none _)]
    exact ⟨fun hr => ⟨_, hvisit, hr⟩, fun ⟨_, hnext, hr⟩ => by
      rw [hvisit] at hnext; cases hnext; exact hr⟩
  constructor
  · rintro ⟨r, hr, hrx, hx⟩
    -- a scope that is reached and not passed over was not passed over on the way either
    have hwalk : ∀ {x}, Reaches (t.childrenAt cancellation) r x →
        t.childrenAt cancellation x ≠ none → Relation.TransGen (Link t cancellation) id x := by
      intro x hrx
      induction hrx with
      | refl => exact fun hx => .single ((link_iff ((hchild r).1 hr)).2 hx)
      | @tail y z _ hyz ih =>
        intro hz
        have hy : t.childrenAt cancellation y ≠ none := by
          obtain ⟨next, hnext, -⟩ := hyz
          rw [hnext]
          exact Option.some_ne_none next
        have hp := (edge_iff h hy).1 hyz
        exact (ih hy).tail ((link_iff hp).2 hz)
    exact hwalk hrx hx
  · intro hpath
    induction hpath with
    | single hlink =>
      exact ⟨_, (hchild _).2 hlink.1, .refl, (link_iff hlink.1).1 hlink⟩
    | tail _ hlink ih =>
      obtain ⟨r, hr, hry, hy⟩ := ih
      exact ⟨r, hr, hry.tail ((edge_iff h hy).2 hlink.1), (link_iff hlink.1).1 hlink⟩

theorem mem_descendantIdsOf_false (h : ScopeForest t.shapeAt) (hnode : t.nodes.get id = some node) :
    x ∈ t.descendantIdsOf node false ↔ Above t.shapeAt id x := by
  rw [mem_descendantIdsOf h hnode]
  have hlink : Link t false = ParentOf t.shapeAt := by
    funext p c
    exact propext ⟨And.left, fun hp => ⟨hp, nofun⟩⟩
  rw [hlink, Above]

/-- The climb from a scope finds the scopes above it. -/
theorem mem_climb (h : ScopeForest t.shapeAt) {fuel : ℕ}
    (hs : t.shapeAt id = some s) (hfuel : s.depth ≤ fuel) :
    a ∈ t.climb fuel s.parentId ↔ Above t.shapeAt a id := by
  induction fuel generalizing id s with
  | zero =>
    rcases hp : s.parentId with _ | p
    · exact iff_of_false List.not_mem_nil (not_above_of_root hs hp)
    · obtain ⟨s', -, -, hdepth⟩ := h.parent hs hp
      omega
  | succ fuel ih =>
    rcases hp : s.parentId with _ | p
    · exact iff_of_false List.not_mem_nil (not_above_of_root hs hp)
    · obtain ⟨s', hs', -, hdepth⟩ := h.parent hs hp
      obtain ⟨parent, hparent, rfl⟩ := shapeAt_eq_some.1 hs'
      rw [climb, hparent, above_iff ⟨s, hs, hp⟩]
      change a ∈ p :: t.climb fuel parent.shape.parentId ↔ _
      rw [List.mem_cons, ih hs' (by omega)]

/-- **`ancestorIdsOf` finds the scopes above a scope.** -/
theorem mem_ancestorIdsOf (h : ScopeForest t.shapeAt) (hnode : t.nodes.get id = some node) :
    a ∈ t.ancestorIdsOf node ↔ Above t.shapeAt a id :=
  mem_climb h (shapeAt_of_get hnode) (h.depth_lt (shapeAt_of_get hnode)).le

/-- What a scope's subtree reports is the worst of the totals in it. -/
theorem le_subtreeEffectOf (h : ScopeForest t.shapeAt)
    (hnode : t.nodes.get id = some node) {e : EffectCertainty} :
    e ≤ t.subtreeEffectOf node ↔
      e ≤ node.totalEffect ∨
        ∃ x m, Above t.shapeAt id x ∧ t.nodes.get x = some m ∧ e ≤ m.totalEffect := by
  have hfold : ∀ (l : List ScopeNode) (b : EffectCertainty),
      e ≤ l.foldl (fun worst m => worstEffect worst m.totalEffect) b ↔
        e ≤ b ∨ ∃ m ∈ l, e ≤ m.totalEffect := by
    intro l
    induction l with
    | nil => simp
    | cons m l ih =>
      intro b
      rw [List.foldl_cons, ih, worstEffect_eq_max, le_max_iff, List.exists_mem_cons_iff, or_assoc]
  rw [subtreeEffectOf, hfold, descendantsOf]
  refine or_congr Iff.rfl ?_
  constructor
  · rintro ⟨m, hm, he⟩
    obtain ⟨x, hx, hget⟩ := List.mem_filterMap.1 hm
    exact ⟨x, m, (mem_descendantIdsOf_false h hnode).1 hx, hget, he⟩
  · rintro ⟨x, m, hx, hget, he⟩
    exact ⟨m, List.mem_filterMap.2 ⟨x, (mem_descendantIdsOf_false h hnode).2 hx, hget⟩, he⟩

end ScopeTree
end Falryn.Orchestration
