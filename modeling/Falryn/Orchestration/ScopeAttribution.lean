import Falryn.Orchestration.ScopeEffects

/-!
# Whose effects a scope reports

A tombstone remembers identifiers and not scopes.  As long as no late effect finds another scope under
one of them, what a scope reports was recorded for the scope itself or for a scope that was below it.
-/

namespace Falryn.Orchestration.ScopeTree

variable {births : List Birth} {recorded : List (ℕ × EffectCertainty)} {t t' : ScopeTree}
  {e : EffectCertainty}

/-- The worst of a list of effects. -/
def joinEffects (effects : List EffectCertainty) : EffectCertainty := effects.foldr worstEffect .none

/-- The scope `s` is the scope `a`, or was below it. -/
def AtOrBelow (births : List Birth) (a s : ℕ) : Prop :=
  s = a ∨ ∃ b ∈ births, b.serial = s ∧ a ∈ b.line

instance (births : List Birth) (a s : ℕ) : Decidable (AtOrBelow births a s) :=
  inferInstanceAs (Decidable (_ ∨ _))

/-- The worst effect that was recorded for a scope or below it. -/
def recordedAtOrBelow (births : List Birth) (recorded : List (ℕ × EffectCertainty)) (a : ℕ) :
    EffectCertainty :=
  joinEffects ((recorded.filter fun r => AtOrBelow births a r.1).map Prod.snd)

theorem le_joinEffects {effects : List EffectCertainty} :
    e ≤ joinEffects effects ↔ e = .none ∨ ∃ x ∈ effects, e ≤ x := by
  induction effects with
  | nil => simp [joinEffects]
  | cons x effects ih =>
    rw [joinEffects, List.foldr_cons, worstEffect_eq_max, le_max_iff, List.exists_mem_cons_iff]
    change e ≤ x ∨ e ≤ joinEffects effects ↔ _
    rw [ih]
    tauto

variable {a : ℕ}

theorem le_recordedAtOrBelow : e ≤ recordedAtOrBelow births recorded a ↔
      e = .none ∨ ∃ r ∈ recorded, AtOrBelow births a r.1 ∧ e ≤ r.2 := by
  rw [recordedAtOrBelow, le_joinEffects]
  refine or_congr Iff.rfl ?_
  constructor
  · rintro ⟨x, hx, he⟩
    obtain ⟨r, hr, rfl⟩ := List.mem_map.1 hx
    obtain ⟨hmem, hbelow⟩ := List.mem_filter.1 hr
    exact ⟨r, hmem, of_decide_eq_true hbelow, he⟩
  · rintro ⟨r, hr, hbelow, he⟩
    exact ⟨r.2, List.mem_map.2 ⟨r, List.mem_filter.2 ⟨hr, decide_eq_true hbelow⟩, rfl⟩, he⟩

variable {b : Birth}

/-- What was recorded at or below a scope was recorded below every scope of its line. -/
theorem recordedAtOrBelow_mono (hord : Ordered births) (hb : b ∈ births) (ha : a ∈ b.line) :
    recordedAtOrBelow births recorded b.serial ≤ recordedAtOrBelow births recorded a := by
  rcases le_recordedAtOrBelow.1 (le_refl (recordedAtOrBelow births recorded b.serial)) with
    hnone | ⟨r, hr, hbelow, he⟩
  · rw [hnone]
    exact EffectCertainty.none_le _
  · refine le_recordedAtOrBelow.2 (.inr ⟨r, hr, .inr ?_, he⟩)
    rcases hbelow with heq | ⟨b', hb', hs, hmem⟩
    · exact ⟨b, hb, heq.symm, ha⟩
    · exact ⟨b', hb', hs, hord.closed b' hb' b hb hmem a ha⟩

theorem recordedAtOrBelow_cons (a : ℕ) (r : ℕ × EffectCertainty) :
    recordedAtOrBelow births recorded a ≤ recordedAtOrBelow births (r :: recorded) a := by
  rcases le_recordedAtOrBelow.1 (le_refl (recordedAtOrBelow births recorded a)) with
    hnone | ⟨r', hr', hbelow, he⟩
  · rw [hnone]
    exact EffectCertainty.none_le _
  · exact le_recordedAtOrBelow.2 (.inr ⟨r', .tail _ hr', hbelow, he⟩)

theorem le_recordedAtOrBelow_head {s : ℕ} (hbelow : AtOrBelow births a s) (e : EffectCertainty) :
    e ≤ recordedAtOrBelow births ((s, e) :: recorded) a :=
  le_recordedAtOrBelow.2 (.inr ⟨(s, e), .head _, hbelow, le_rfl⟩)

/-- What a scope carries was recorded for it or below it. -/
def Attributed (births : List Birth) (recorded : List (ℕ × EffectCertainty)) (t : ScopeTree) :
    Prop :=
  ∀ id n b, t.nodes.get id = some n → bornAs births id = some b →
    n.totalEffect ≤ recordedAtOrBelow births recorded b.serial

/-- A step that raises nothing raises nothing unduly. -/
theorem Attributed.of_fall (h : Attributed births recorded t)
    (hget : ∀ id n', t'.nodes.get id = some n' →
      ∃ n, t.nodes.get id = some n ∧ n'.totalEffect ≤ n.totalEffect) :
    Attributed births recorded t' := by
  intro id n' b hn' hb
  obtain ⟨n, hn, hle⟩ := hget id n' hn'
  exact hle.trans (h id n b hn hb)

theorem totalEffect_settleIn (t : ScopeTree) (node : ScopeNode) (outcome : TerminalOutcome)
    (instant : ℕ) (x : ScopeId) (n : ScopeNode) :
    (t.settleIn node outcome instant x n).totalEffect =
      if x ∈ t.ancestorIdsOf node then max n.totalEffect node.totalEffect else n.totalEffect := by
  rw [ScopeNode.totalEffect_eq, effect_settleIn, settledDescendantEffect_settleIn,
    ScopeNode.totalEffect_eq n]
  split
  · rw [max_assoc]
  · rfl

theorem Attributed.move (hv : Valid births recorded t) (h : Attributed births recorded t)
    (hmove : Move t t') : Attributed births recorded t' := by
  rcases hmove with ⟨reason, instant, hnode⟩ | ⟨outcome, instant, hnode, -⟩ |
    ⟨hnode, -, hev, -⟩ | ⟨hnode, hactive⟩ | ⟨hnode, hactive, -, -, -⟩
  · refine h.of_fall fun id n' hn' => ?_
    rw [get_cancelSubtree] at hn'
    obtain ⟨n, hn, rfl⟩ := Option.map_eq_some_iff.1 hn'
    obtain ⟨he, hs⟩ := effect_stopIn t _ reason instant id n
    refine ⟨n, hn, ?_⟩
    rw [ScopeNode.totalEffect_eq, he, hs, ScopeNode.totalEffect_eq]
  · rename_i node
    intro id n' b hn' hb
    rw [get_settleUntrimmed] at hn'
    obtain ⟨n, hn, rfl⟩ := Option.map_eq_some_iff.1 hn'
    rw [totalEffect_settleIn]
    split
    next hmem =>
      -- what the settled scope hands up was recorded at or below it, so below this one
      obtain ⟨bn, hbn, -⟩ := hv.traced.born hnode
      have habove := (mem_ancestorIdsOf hv.sound.forest hnode).1 hmem
      have hline := (hv.traced.serial_mem_line hv.sound hv.ordered hnode hbn hb).2 habove
      refine max_le (h id n b hn hb) ((h _ node bn hnode hbn).trans ?_)
      exact recordedAtOrBelow_mono hv.ordered (bornAs_eq_some hbn).1 hline
    · exact h id n b hn hb
  · rename_i node _ _
    refine h.of_fall fun id n' hn' => ?_
    obtain ⟨n, hn, rfl⟩ := get_evict_eq_some hev hn'
    refine ⟨n, hn, ?_⟩
    split <;> exact le_rfl
  · exact h
  · exact h

theorem recordedAtOrBelow_derive (id : ScopeId) (p : Option ScopeId) (a : ℕ) :
    recordedAtOrBelow births recorded a ≤
      recordedAtOrBelow (⟨births.length, id, lineUnder births p⟩ :: births) recorded a := by
  rcases le_recordedAtOrBelow.1 (le_refl (recordedAtOrBelow births recorded a)) with
    hnone | ⟨r, hr, hbelow, he⟩
  · rw [hnone]
    exact EffectCertainty.none_le _
  · refine le_recordedAtOrBelow.2 (.inr ⟨r, hr, ?_, he⟩)
    rcases hbelow with heq | ⟨b, hb, hs⟩
    · exact .inl heq
    · exact .inr ⟨b, .tail _ hb, hs⟩

theorem Attributed.derive (hv : Valid births recorded t) (h : Attributed births recorded t)
    {parentId : ScopeId} {options : DeriveScopeOptions} {openedAt requestedAt : ℕ}
    {handle : ScopeHandle}
    (hok : t.derive parentId options openedAt requestedAt = .ok (handle, t')) :
    Attributed (⟨births.length, handle.scopeId, lineUnder births (some parentId)⟩ :: births)
      recorded t' := by
  obtain ⟨parent, childId, child, hparent, -, -, hid, he, hs, -, -, -, -, -, hget⟩ :=
    get_derive hv.sound hok
  rw [hid]
  intro x n' b hn' hb
  rw [hget] at hn'
  by_cases hx : x = childId
  · rw [if_pos hx] at hn'
    cases hn'
    rw [ScopeNode.totalEffect_eq, he, hs, max_self]
    exact EffectCertainty.none_le _
  · rw [bornAs_cons, if_neg (Ne.symm hx)] at hb
    rw [if_neg hx] at hn'
    refine le_trans ?_ (recordedAtOrBelow_derive childId (some parentId) b.serial)
    by_cases hp : x = parentId
    · rw [if_pos hp] at hn'
      cases hn'
      exact h x parent b (hp ▸ hparent) hb
    · rw [if_neg hp] at hn'
      exact h x n' b hn' hb

variable {id : ScopeId} {ids : List ScopeId} {na : ScopeNode} {ba : Birth} {k : ℕ}

theorem Attributed.applyEffect (h : Attributed births recorded t)
    (hb : bornAs births id = some b) (effect : EffectCertainty) (instant : ℕ) :
    Attributed births ((b.serial, effect) :: recorded) (t.applyEffect id effect instant) := by
  intro x n' b' hn' hb'
  rw [get_applyEffect] at hn'
  obtain ⟨n, hn, rfl⟩ := Option.map_eq_some_iff.1 hn'
  have hold := (h x n b' hn hb').trans (recordedAtOrBelow_cons b'.serial (b.serial, effect))
  split
  next hx =>
    rw [hx, hb] at hb'
    cases hb'
    rw [ScopeNode.totalEffect_eq] at hold ⊢
    change max (worstEffect n.effect effect) n.settledDescendantEffect ≤ _
    rw [worstEffect_eq_max]
    refine max_le (max_le ((le_max_left _ _).trans hold) ?_) ((le_max_right _ _).trans hold)
    exact le_recordedAtOrBelow_head (.inl rfl) effect
  · exact hold

/-- An effect that reaches the line of the scope it was recorded for, and nobody else. -/
theorem Attributed.foldIntoAncestorIds (h : Attributed births recorded t) (hb : bornAs births id = some b) (hown : OwnLine births t ids b)
    (effect : EffectCertainty) :
    Attributed births ((b.serial, effect) :: recorded) (t.foldIntoAncestorIds ids effect) := by
  intro x n' b' hn' hb'
  rw [get_foldIntoAncestorIds] at hn'
  obtain ⟨n, hn, rfl⟩ := Option.map_eq_some_iff.1 hn'
  have hold := (h x n b' hn hb').trans (recordedAtOrBelow_cons b'.serial (b.serial, effect))
  split
  next hx =>
    have hline := hown x hx n b' hn hb'
    rw [ScopeNode.totalEffect_eq] at hold ⊢
    change max n.effect (worstEffect n.settledDescendantEffect effect) ≤ _
    rw [worstEffect_eq_max]
    refine max_le ((le_max_left _ _).trans hold) (max_le ((le_max_right _ _).trans hold) ?_)
    exact le_recordedAtOrBelow_head (.inr ⟨b, (bornAs_eq_some hb).1, rfl, hline⟩) effect
  · exact hold

/-- The scopes above a scope of the tree are its line. -/
theorem ownLine_ancestorIdsOf (hv : Valid births recorded t) {node : ScopeNode} (hnode : t.nodes.get id = some node) (hb : bornAs births id = some b) :
    OwnLine births t (t.ancestorIdsOf node) b := by
  intro a ha na ba _ hba
  have habove := (mem_ancestorIdsOf hv.sound.forest hnode).1 ha
  exact (hv.traced.serial_mem_line hv.sound hv.ordered hnode hb hba).2 habove

/-- Along a run in which no late effect finds a stranger, what a scope carries was recorded for it or
below it. -/
theorem attributed_along (rootId : ScopeId) (rootDeadline : Option Deadline) (instant : ℕ)
    (ops : List Operation)
    (hops : StateMachine.Along History.step History.LateEffectIsOwn
      (History.start rootId rootDeadline instant) ops) :
    let h := (History.start rootId rootDeadline instant).applyAll ops
    Valid h.births h.recorded h.tree ∧ Attributed h.births h.recorded h.tree := by
  have hstart : Valid [⟨0, rootId, []⟩] [] (create rootId rootDeadline instant) ∧
      Attributed [⟨0, rootId, []⟩] [] (create rootId rootDeadline instant) := by
    refine ⟨valid_start rootId rootDeadline instant, fun _ _ _ hn _ => ?_⟩
    rw [get_create] at hn
    split at hn
    · cases hn
      exact EffectCertainty.none_le _
    · cases hn
  refine StateMachine.run_along_preserves
    (I := fun h : History => Valid h.births h.recorded h.tree ∧
      Attributed h.births h.recorded h.tree)
    (fun h op _ hi hown hstep => ?_) hstart hops (History.run_step _ ops)
  cases hstep
  exact History.apply_preserves True (fun hv hk hm => hk.move hv hm)
    (fun hv hk hok => hk.derive hv hok)
    (fun effect instant _ hk _ _ hb => hk.applyEffect hb effect instant)
    (fun effect hv hk hnode _ hb =>
      hk.foldIntoAncestorIds hb (ownLine_ancestorIdsOf hv hnode hb) effect)
    (fun effect _ hk _ hb _ hline => hk.foldIntoAncestorIds hb (hline trivial) effect)
    hi.1 hi.2 op fun _ => hown

/-- What a subtree reports was recorded at or below its top. -/
theorem Attributed.subtreeEffectOf_le (hv : Valid births recorded t)
    (h : Attributed births recorded t) {a : ScopeId}
    (hna : t.nodes.get a = some na) (hba : bornAs births a = some ba) :
    t.subtreeEffectOf na ≤ recordedAtOrBelow births recorded ba.serial := by
  rcases (le_subtreeEffectOf hv.sound.forest hna).1 le_rfl with hle | ⟨x, m, habove, hm, hle⟩
  · exact hle.trans (h a na ba hna hba)
  · obtain ⟨b, hb, -⟩ := hv.traced.born hm
    have hline := (hv.traced.serial_mem_line hv.sound hv.ordered hm hb hba).2 habove
    refine hle.trans ((h x m b hm hb).trans ?_)
    exact recordedAtOrBelow_mono hv.ordered (bornAs_eq_some hb).1 hline

/-- A late effect on an evicted scope raises the reports of the scopes that were above it only. -/
theorem raised_of_late_effect (hv : Valid births recorded t) (hb : bornAs births id = some b) (hown : OwnLine births t ids b)
    (effect : EffectCertainty) {a : ScopeId} {na' : ScopeNode}
    (hba : bornAs births a = some ba) (hna : t.nodes.get a = some na)
    (hna' : (t.foldIntoAncestorIds ids effect).nodes.get a = some na')
    (hraised : t.subtreeEffectOf na < (t.foldIntoAncestorIds ids effect).subtreeEffectOf na') :
    ba.serial ∈ b.line := by
  have hget := get_foldIntoAncestorIds t ids effect
  have hsound := hv.sound.foldIntoAncestorIds ids effect
  have hshape : (t.foldIntoAncestorIds ids effect).shapeAt = t.shapeAt :=
    shapeAt_of_get_map hget fun x _ => by split <;> rfl
  -- some scope of the subtree was raised, and the effect reached nobody outside the line
  have hmember : ∀ {x m'}, (t.foldIntoAncestorIds ids effect).nodes.get x = some m' →
      x ∉ ids → t.nodes.get x = some m' := by
    intro x m' hm' hx
    rw [hget] at hm'
    obtain ⟨m, hm, rfl⟩ := Option.map_eq_some_iff.1 hm'
    rw [if_neg hx]
    exact hm
  rcases (le_subtreeEffectOf hsound.forest hna').1 le_rfl with hle | ⟨x, m', habove, hm', hle⟩
  · by_cases ha : a ∈ ids
    · exact hown a ha na ba hna hba
    · rw [hmember hna' ha] at hna
      cases hna
      have hback := (le_subtreeEffectOf hv.sound.forest (hmember hna' ha)).2 (.inl hle)
      exact absurd hback hraised.not_ge
  · rw [hshape] at habove
    by_cases hx : x ∈ ids
    · rw [hget] at hm'
      obtain ⟨m, hm, -⟩ := Option.map_eq_some_iff.1 hm'
      obtain ⟨bx, hbx, -⟩ := hv.traced.born hm
      have hxline := hown x hx m bx hm hbx
      have haline := (hv.traced.serial_mem_line hv.sound hv.ordered hm hbx hba).2 habove
      exact hv.ordered.closed b (bornAs_eq_some hb).1 bx (bornAs_eq_some hbx).1 hxline _ haline
    · have hback := (le_subtreeEffectOf hv.sound.forest hna).2
        (.inr ⟨x, m', habove, hmember hm' hx, hle⟩)
      exact absurd hback hraised.not_ge

/-- **No misattributed late effect.**  In every run in which no late effect on an evicted scope finds
a scope that was not above it under an identifier of its tombstone: what a retained scope reports is
no worse than what was recorded for it and for the scopes that were below it; and a late effect on an
evicted scope that finds no such scope either raises the reports of the scopes that were above it
only. -/
theorem no_misattributed_late_effect (rootId : ScopeId) (rootDeadline : Option Deadline)
    (instant : ℕ) (ops : List Operation)
    (hops : StateMachine.Along History.step History.LateEffectIsOwn
      (History.start rootId rootDeadline instant) ops) :
    let h := (History.start rootId rootDeadline instant).applyAll ops
    (∀ a ba report, bornAs h.births a = some ba → h.tree.report a = some report →
        report.subtreeEffect ≤ recordedAtOrBelow h.births h.recorded ba.serial) ∧
      (∀ id effect now b, h.tree.nodes.get id = none → bornAs h.births id = some b →
        h.LateEffectIsOwn (.recordLateEffect id effect now) →
        ∀ a ba before after, bornAs h.births a = some ba → h.tree.report a = some before →
          (h.apply (.recordLateEffect id effect now)).tree.report a = some after →
          before.subtreeEffect < after.subtreeEffect → ba.serial ∈ b.line) := by
  obtain ⟨hv, hattr⟩ := attributed_along rootId rootDeadline instant ops hops
  refine ⟨fun a ba report hba hreport => ?_, fun id effect now b hnone hb hown a ba before after hba
    hbefore hafter hlt => ?_⟩
  · obtain ⟨na, hna, rfl⟩ := Option.map_eq_some_iff.1 hreport
    exact hattr.subtreeEffectOf_le hv hna hba
  · obtain ⟨na, hna, rfl⟩ := Option.map_eq_some_iff.1 hbefore
    rw [History.apply_tree] at hafter
    rw [ScopeTree.apply, recordLateEffect, hnone] at hafter
    rcases hids : ScopeTree.tombstones _ |>.get id with _ | ids
    · rw [hids] at hafter
      rw [hbefore] at hafter
      cases hafter
      exact absurd hlt (lt_irrefl _)
    · rw [hids] at hafter
      obtain ⟨na', hna', rfl⟩ := Option.map_eq_some_iff.1 hafter
      exact raised_of_late_effect hv hb (hown hnone ids b hids hb) effect hba hna hna' hlt

/-- A `derive` of a turn with the caller's identifier. -/
def openTurn (parentId id : ScopeId) : Operation := .derive parentId ⟨.turn, none, some id⟩ 0 0

/-- A turn that reports what it did after it has settled. -/
def lateTurn : List Operation :=
  [openTurn "scope-root" "turn-1", .complete "turn-1" 0, .recordLateEffect "turn-1" .partial_ 0]

theorem lateTurn_own : StateMachine.Along History.step History.LateEffectIsOwn
    (History.start "scope-root" none 0) lateTurn := by
  refine ⟨trivial, fun _ hs' => ⟨trivial, fun _ hs'' => ⟨fun hnone => ?_, fun _ _ => trivial⟩⟩⟩
  cases hs'
  cases hs''
  have hsome : ((((History.start "scope-root" none 0).apply
      (openTurn "scope-root" "turn-1")).apply (.complete "turn-1" 0)).tree.nodes.get
        "turn-1").isSome = true := by decide +kernel
  rw [hnone] at hsome
  cases hsome

theorem no_misattributed_late_effect_late_turn :
    StateMachine.Along History.step History.LateEffectIsOwn
        (History.start "scope-root" none 0) lateTurn ∧
      let h := (History.start "scope-root" none 0).applyAll lateTurn
      ∀ a ba report, bornAs h.births a = some ba → h.tree.report a = some report →
        report.subtreeEffect ≤ recordedAtOrBelow h.births h.recorded ba.serial :=
  ⟨lateTurn_own, (no_misattributed_late_effect "scope-root" none 0 lateTurn lateTurn_own).1⟩

/-! ## An identifier that is derived again

A thousand turns come and go while a scope `b` under a scope `a` is settled, so that both are evicted.
The tombstone of `b` still names `a` when another scope is derived under that name. -/

/-- The decimal digit of a number below ten. -/
def digit (d : ℕ) : Char := Char.ofNat (48 + d)

/-- The identifier of the `k`-th turn, for `k` below a thousand. -/
def turnId (k : ℕ) : ScopeId := String.ofList [digit (k / 100), digit (k / 10 % 10), digit (k % 10)]

theorem turnId_injective {j : ℕ} (hj : j < 1000) (hk : k < 1000) (h : turnId j = turnId k) :
    j = k := by
  have hdigit : ∀ d < 10, ∀ d' < 10, digit d = digit d' → d = d' := by decide
  have hlist := String.ofList_injective h
  simp only [List.cons.injEq, and_true] at hlist
  obtain ⟨h₁, h₂, h₃⟩ := hlist
  have e₁ := hdigit _ (by omega) _ (by omega) h₁
  have e₂ := hdigit _ (by omega) _ (by omega) h₂
  have e₃ := hdigit _ (by omega) _ (by omega) h₃
  omega

theorem turnId_ne (hid : id.toList.length ≠ 3) : turnId k ≠ id := by
  rintro rfl
  exact hid (by rw [turnId, String.toList_ofList]; rfl)

/-- The root is there and active, no other scope is live, and a list of scopes waits for eviction. -/
structure Idle (t : ScopeTree) (root : ScopeId) (waiting : List ScopeId) : Prop where
  sound : Sound t
  root : ∃ nr, t.nodes.get root = some nr ∧ nr.state = .active ∧ nr.parentId = none ∧ nr.depth = 0
  live : t.liveCount = 1
  waiting : t.retained = waiting

variable {root f : ScopeId} {waiting : List ScopeId} {c : ScopeId} {nc : ScopeNode}

/-- A turn under an idle root opens. -/
theorem Idle.derive_ok (h : Idle t root waiting) (hf : t.nodes.get f = none) :
    ∃ nr, t.nodes.get root = some nr ∧ nr.state = .active ∧ nr.parentId = none ∧ nr.depth = 0 ∧
      t.derive root ⟨.turn, none, some f⟩ 0 0 =
        .ok (handleOf (newNode nr ⟨.turn, none, some f⟩ f),
          t.attach nr (newNode nr ⟨.turn, none, some f⟩ f) 0) := by
  obtain ⟨nr, hnr, hactive, hparent, hdepth⟩ := h.root
  refine ⟨nr, hnr, hactive, hparent, hdepth, ?_⟩
  have hterminal : ¬ nr.state.IsTerminal := by
    rw [hactive]
    exact id
  have hcancelling : ¬ nr.state.IsCancelling := by
    rw [hactive]
    exact id
  rw [derive, requireNode, hnr]
  simp [refuseIf, hterminal, hdepth, h.live, childIdFor, hf, hcancelling, maxScopeDepth,
    maxLiveScopes, bind, Except.bind, pure, Except.pure]

/-- The tree in which a turn has come and gone, before the trim. -/
theorem Idle.turn (h : Idle t root waiting) (hf : t.nodes.get f = none) :
    ∃ t₂, (t.apply (openTurn root f)).apply (.complete f 0) = t₂.trimRetained ∧
      Idle t₂ root (waiting ++ [f]) ∧
      (∀ x, x ≠ f → x ≠ root → t₂.nodes.get x = t.nodes.get x) ∧
      t₂.tombstones = t.tombstones.delete f := by
  obtain ⟨nr, hnr, hactive, hparent, hdepth, hok⟩ := h.derive_ok hf
  have hkey := h.sound.key hnr
  have hnr' : t.nodes.get nr.scopeId = some nr := by rw [hkey, hnr]
  have hfr : f ≠ nr.scopeId := by
    rintro rfl
    rw [hf] at hnr'
    cases hnr'
  have hopen : t.apply (openTurn root f) = t.attach nr (newNode nr ⟨.turn, none, some f⟩ f) 0 := by
    rw [openTurn, apply, hok]
  obtain ⟨node, hdef⟩ : ∃ node, node = newNode nr ⟨.turn, none, some f⟩ f := ⟨_, rfl⟩
  rw [← hdef] at hopen
  have hid : node.scopeId = f := by rw [hdef]; rfl
  have hget : ∀ x, (t.attach nr node 0).nodes.get x =
      if x = node.scopeId then some node
      else if x = nr.scopeId then some (nr.withChild node.scopeId) else t.nodes.get x :=
    get_attach (hid.symm ▸ hfr) hnr' 0
  have hlive : ¬ node.state.IsTerminal := by rw [hdef]; exact id
  have hsound : Sound (t.attach nr node 0) := by
    rw [hdef]
    refine h.sound.attach _ hnr' (by rw [hactive]; exact id) hf ?_ 0
    rw [hdepth]
    decide
  have hnode : (t.attach nr node 0).nodes.get node.scopeId = some node := by
    rw [hget, if_pos rfl]
  have hancestors : (t.attach nr node 0).ancestorIdsOf node = [root] := by
    have hup : node.parentId = some root := by rw [hdef, ← hkey]; rfl
    have hroot : (t.attach nr node 0).nodes.get root = some (nr.withChild node.scopeId) := by
      rw [hget, if_neg (by rw [hid, ← hkey]; exact hfr.symm), if_pos hkey.symm]
    have hnone : (nr.withChild node.scopeId).parentId = none := hparent
    rw [ancestorIdsOf, hup, maxScopeDepth, climb, hroot]
    dsimp only
    rw [hnone, climb]
  have hclose : (t.attach nr node 0).apply (.complete f 0) =
      ((t.attach nr node 0).settleUntrimmed node .completed 0).trimRetained := by
    rw [apply, complete, settleSelf, requireNode, ← hid, hnode]
    simp [refuseIf, hlive, bind, Except.bind, pure, Except.pure, settle]
  have hget₂ := get_settleUntrimmed (t.attach nr node 0) node .completed 0
  refine ⟨(t.attach nr node 0).settleUntrimmed node .completed 0, by rw [hopen, hclose],
    ⟨hsound.settleUntrimmed hnode hlive .completed 0, ?_, ?_, ?_⟩, fun x hxf hxr => ?_, ?_⟩
  · have hne : root ≠ node.scopeId := by rw [hid, ← hkey]; exact hfr.symm
    refine ⟨_, by rw [hget₂, hget, if_neg hne, if_pos hkey.symm, Option.map_some], ?_, ?_, ?_⟩
    · rw [state_settleIn, if_neg hne]
      exact hactive
    · exact (congrArg Shape.parentId (shape_settleIn _ _ _ _ _ _)).trans hparent
    · exact (congrArg Shape.depth (shape_settleIn _ _ _ _ _ _)).trans hdepth
  · change ScopeTree.liveCount (foldIntoAncestorIds _ _ _) - 1 = 1
    rw [(SameFrame.foldIntoAncestorIds _ _ _).liveCount, modify_liveCount]
    change ScopeTree.liveCount (modify _ _ _) - 1 = 1
    rw [modify_liveCount]
    change t.liveCount + 1 - 1 = 1
    rw [h.live]
  · rw [settleUntrimmed_retained, attach_retained, h.waiting, hid]
  · have hxn : x ≠ node.scopeId := by rw [hid]; exact hxf
    have hxp : x ≠ nr.scopeId := by rw [hkey]; exact hxr
    rw [hget₂, hget, if_neg hxn, if_neg hxp]
    have hsame : ∀ n, settleIn (t.attach nr node 0) node .completed 0 x n = n := by
      intro n
      unfold settleIn
      rw [hancestors, if_neg (by simpa using hxr), if_neg hxn]
    rw [funext hsame, Option.map_id']
  · rw [settleUntrimmed_tombstones, attach_tombstones, hid]

/-- While no more wait than may, nothing is evicted. -/
theorem trimRetained_of_le (hle : t.retained.length ≤ maxRetainedTerminalScopes) :
    t.trimRetained = t := by
  rw [trimRetained]
  rcases hret : t.retained with _ | ⟨c, rest⟩
  · rfl
  · rw [hret, List.length_cons] at hle
    rw [trimFrom, if_neg (not_lt.2 hle)]

/-- When one too many waits and the oldest has nothing below it, that one is evicted. -/
theorem trimRetained_of_oldest {rest : List ScopeId}
    (hret : t.retained = c :: rest) (hlen : rest.length = maxRetainedTerminalScopes)
    (hnc : t.nodes.get c = some nc) (hev : t.evict nc = some t') :
    t.trimRetained = { t' with retained := rest } := by
  rw [trimRetained, hret, trimFrom, if_pos (by omega), hnc]
  dsimp only
  rw [hev]
  change trimFrom { t' with retained := rest } [] rest = _
  rcases rest with _ | ⟨d, rest⟩
  · rfl
  · rw [List.length_cons] at hlen
    rw [trimFrom, if_neg (by omega)]

theorem Idle.turn_kept (h : Idle t root waiting)
    (hf : t.nodes.get f = none) (hlen : waiting.length < maxRetainedTerminalScopes)
    (htomb : t.tombstones = OrderedMap.empty) :
    Idle ((t.apply (openTurn root f)).apply (.complete f 0)) root (waiting ++ [f]) ∧
      ((t.apply (openTurn root f)).apply (.complete f 0)).tombstones = OrderedMap.empty ∧
      ∀ x, x ≠ f → x ≠ root →
        ((t.apply (openTurn root f)).apply (.complete f 0)).nodes.get x = t.nodes.get x := by
  obtain ⟨t₂, heq, hidle, hget, htomb₂⟩ := h.turn hf
  have hle : t₂.retained.length ≤ maxRetainedTerminalScopes := by
    rw [hidle.waiting, List.length_append, List.length_singleton]
    omega
  rw [heq, trimRetained_of_le hle]
  refine ⟨hidle, ?_, hget⟩
  rw [htomb₂, htomb]
  rfl

theorem dropOldest_of_le {m : OrderedMap ScopeId (List ScopeId)}
    (h : m.size ≤ maxEvictedTombstones) : dropOldest m = m := by
  rw [dropOldest, Nat.sub_eq_zero_of_le h]
  rfl

/-- A turn that makes one too many, while the oldest has nothing below it. -/
theorem Idle.turn_evicts (h : Idle t root (c :: waiting)) (hf : t.nodes.get f = none)
    (hlen : waiting.length + 1 = maxRetainedTerminalScopes) (hnc : t.nodes.get c = some nc)
    (hleaf : nc.children = []) (hcr : c ≠ root) (hsize : t.tombstones.size ≤ 1) :
    ∃ t' ids, (t.apply (openTurn root f)).apply (.complete f 0) = t' ∧
      Idle t' root (waiting ++ [f]) ∧ t'.nodes.get c = none ∧
      t'.tombstones = ((t.tombstones.delete f).delete c).set c ids ∧
      (∀ p, nc.parentId = some p → p ∈ ids) ∧
      ∀ x, x ≠ f → x ≠ root → x ≠ c → t'.nodes.get x =
        (t.nodes.get x).map fun n => if nc.parentId = some x then n.withoutChild c else n := by
  obtain ⟨t₂, heq, hidle, hget, htomb₂⟩ := h.turn hf
  have hcf : c ≠ f := by
    rintro rfl
    rw [hf] at hnc
    cases hnc
  have hnc₂ : t₂.nodes.get c = some nc := (hget c hcf hcr).trans hnc
  have hid : nc.scopeId = c := hidle.sound.key hnc₂
  have hnc₂' : t₂.nodes.get nc.scopeId = some nc := by rw [hid, hnc₂]
  obtain ⟨t₃, hev⟩ : ∃ t₃, t₂.evict nc = some t₃ :=
    ⟨_, evict_eq_some.2 ⟨by rw [hleaf]; exact fun _ hd => (by cases hd), rfl⟩⟩
  have hret : t₂.retained = c :: (waiting ++ [f]) := hidle.waiting
  have htrim := trimRetained_of_oldest hret
    (by rw [List.length_append, List.length_singleton]; exact hlen) hnc₂ hev
  have hget₃ : ∀ x, t₃.nodes.get x = if x = c then none
      else (t₂.nodes.get x).map fun n => if nc.parentId = some x then n.withoutChild c else n := by
    intro x
    rw [get_evict hev, hid]
  refine ⟨{ t₃ with retained := waiting ++ [f] }, t₂.ancestorIdsOf nc, by rw [heq, htrim],
    ⟨?_, ?_, ?_, rfl⟩, ?_, ?_, fun p hp => ?_, fun x hxf hxr hxc => ?_⟩
  · have hfirst : t₂.retained = [] ++ nc.scopeId :: (waiting ++ [f]) := by
      rw [hid]
      exact hret
    have hsound := hidle.sound.evict hnc₂' hfirst hev
    exact hsound
  · obtain ⟨nr, hnr, hactive, hparent, hdepth⟩ := hidle.root
    refine ⟨_, (hget₃ root).trans (by rw [if_neg hcr.symm, hnr, Option.map_some]), ?_, ?_, ?_⟩
    · split <;> exact hactive
    · split <;> exact hparent
    · split <;> exact hdepth
  · change t₃.liveCount = 1
    have hlive : t₃.liveCount = t₂.liveCount := by
      rw [(evict_eq_some.1 hev).2]
      change (t₂.detach nc).liveCount = t₂.liveCount
      unfold detach
      rcases nc.parentId with _ | p
      · rfl
      · exact modify_liveCount t₂ _ _
    rw [hlive, hidle.live]
  · change t₃.nodes.get c = none
    rw [hget₃, if_pos rfl]
  · change t₃.tombstones = _
    rw [(evict_eq_some.1 hev).2, rememberTombstone, hid]
    dsimp only
    rw [detach_tombstones, htomb₂]
    refine dropOldest_of_le ?_
    have hset : ∀ m : OrderedMap ScopeId (List ScopeId), c ∉ m.keys →
        (m.set c (t₂.ancestorIdsOf nc)).size = m.size + 1 := by
      intro m hm
      rw [← OrderedMap.length_keys, OrderedMap.keys_set_of_not_mem _ hm, List.length_append,
        OrderedMap.length_keys]
      rfl
    have hdelete : ∀ (m : OrderedMap ScopeId (List ScopeId)) (k : ScopeId),
        (m.delete k).size ≤ m.size := by
      intro m k
      rw [← OrderedMap.length_keys, OrderedMap.keys_delete, ← OrderedMap.length_keys]
      exact List.length_filter_le _ _
    rw [hset _ (by rw [OrderedMap.keys_delete]; simp)]
    have h₁ := hdelete (t.tombstones.delete f) c
    have h₂ := hdelete t.tombstones f
    have hmax : maxEvictedTombstones = 1000 := rfl
    omega
  · exact (mem_ancestorIdsOf hidle.sound.forest hnc₂).2
      (.single ⟨nc.shape, shapeAt_of_get hnc₂, hp⟩)
  · change t₃.nodes.get x = _
    rw [hget₃, if_neg hxc, hget x hxf hxr]

/-- The first `n` turns under a root. -/
def turns (root : ScopeId) (n : ℕ) : List Operation :=
  (List.range n).flatMap fun k => [openTurn root (turnId k), .complete (turnId k) 0]

theorem applyAll_turns_succ (t : ScopeTree) (root : ScopeId) (n : ℕ) :
    t.applyAll (turns root (n + 1)) =
      ((t.applyAll (turns root n)).apply (openTurn root (turnId n))).apply
        (.complete (turnId n) 0) := by
  rw [turns, List.range_succ, List.flatMap_append, applyAll, List.foldl_append]
  rfl

/-- While no more wait than may, the turns come and go and nothing else changes. -/
theorem Idle.turns (h : Idle t root waiting)
    (htomb : t.tombstones = OrderedMap.empty) (hfresh : ∀ k, t.nodes.get (turnId k) = none)
    (hroot : ∀ k, turnId k ≠ root) (n : ℕ) (hn : n ≤ 1000)
    (hlen : waiting.length + n ≤ maxRetainedTerminalScopes) :
    Idle (t.applyAll (ScopeTree.turns root n)) root
        (waiting ++ (List.range n).map turnId) ∧
      (t.applyAll (ScopeTree.turns root n)).tombstones = OrderedMap.empty ∧
      ∀ x, (∀ k < n, x ≠ turnId k) → x ≠ root →
        (t.applyAll (ScopeTree.turns root n)).nodes.get x = t.nodes.get x := by
  induction n with
  | zero =>
    rw [List.range_zero, List.map_nil, List.append_nil]
    exact ⟨h, htomb, fun _ _ _ => rfl⟩
  | succ n ih =>
    obtain ⟨hidle, htomb', hget⟩ := ih (by omega) (by omega)
    have hnone : (t.applyAll (ScopeTree.turns root n)).nodes.get (turnId n) = none := by
      rw [hget _ (fun k hk heq => ?_) (hroot n), hfresh]
      have := turnId_injective (by omega) (by omega) heq
      omega
    obtain ⟨hidle', htomb'', hget'⟩ := hidle.turn_kept hnone
      (by rw [List.length_append, List.length_map, List.length_range]; omega) htomb'
    rw [applyAll_turns_succ]
    refine ⟨?_, htomb'', fun x hx hxr => ?_⟩
    · rw [List.range_succ, List.map_append, ← List.append_assoc]
      exact hidle'
    · rw [hget' x (hx n (Nat.lt_succ_self n)) hxr]
      exact hget x (fun k hk => hx k (hk.trans (Nat.lt_succ_self n))) hxr

/-- A scope `b` under a scope `a`, both settled. -/
def settledPair : List Operation :=
  [openTurn "scope-root" "a", openTurn "a" "b", .complete "b" 0, .complete "a" 0]

/-- Both scopes are evicted, `a` is derived again, and an effect of `b` arrives late. -/
def reusedIdentifier : List Operation :=
  (settledPair ++ turns "scope-root" 1000) ++
    [openTurn "scope-root" "a", .recordLateEffect "b" .uncertain 0]

theorem idle_settledPair :
    Idle ((create "scope-root" none 0).applyAll settledPair) "scope-root" ["b", "a"] := by
  refine ⟨(sound_create _ _ _).applyAll _, ?_, by decide +kernel, by decide +kernel⟩
  have hroot : (((create "scope-root" none 0).applyAll settledPair).nodes.get "scope-root").map
      (fun n => (n.state, n.parentId, n.depth)) = some (.active, none, 0) := by decide +kernel
  obtain ⟨nr, hnr, hfields⟩ := Option.map_eq_some_iff.1 hroot
  simp only [Prod.mk.injEq] at hfields
  exact ⟨nr, hnr, hfields⟩

/-- After a thousand turns both scopes are gone, and the tombstone of `b` names `a`. -/
theorem evictedPair :
    ∃ t ids waiting, (create "scope-root" none 0).applyAll
        (settledPair ++ turns "scope-root" 1000) = t ∧
      Idle t "scope-root" waiting ∧ t.nodes.get "a" = none ∧ t.nodes.get "b" = none ∧
      t.tombstones.get "b" = some ids ∧ "a" ∈ ids := by
  have hturn : ∀ k, turnId k ≠ "scope-root" ∧ turnId k ≠ "a" ∧ turnId k ≠ "b" := fun k =>
    ⟨turnId_ne (by decide), turnId_ne (by decide), turnId_ne (by decide)⟩
  obtain ⟨t₀, ht₀⟩ : ∃ t₀, t₀ = (create "scope-root" none 0).applyAll settledPair := ⟨_, rfl⟩
  have hidle₀ : Idle t₀ "scope-root" ["b", "a"] := ht₀ ▸ idle_settledPair
  have hkeys : t₀.nodes.keys = ["scope-root", "a", "b"] := by rw [ht₀]; decide +kernel
  have htomb₀ : t₀.tombstones = OrderedMap.empty := by rw [ht₀]; rfl
  have hfresh : ∀ k, t₀.nodes.get (turnId k) = none := by
    intro k
    rw [OrderedMap.get_eq_none, hkeys]
    simp [hturn k]
  have hb₀ : (t₀.nodes.get "b").map (fun n => (n.parentId, n.children)) = some (some "a", []) := by
    rw [ht₀]
    decide +kernel
  have ha₀ : (t₀.nodes.get "a").map (fun n => (n.parentId, n.children)) =
      some (some "scope-root", ["b"]) := by
    rw [ht₀]
    decide +kernel
  obtain ⟨nb, hnb, hnb'⟩ := Option.map_eq_some_iff.1 hb₀
  obtain ⟨na, hna, hna'⟩ := Option.map_eq_some_iff.1 ha₀
  simp only [Prod.mk.injEq] at hnb' hna'
  -- 998 turns fill the list
  obtain ⟨hidle₁, htomb₁, hget₁⟩ := hidle₀.turns htomb₀ hfresh (fun k => (hturn k).1) 998 (by decide)
    (by decide)
  obtain ⟨t₁, ht₁⟩ : ∃ t₁, t₁ = t₀.applyAll (turns "scope-root" 998) := ⟨_, rfl⟩
  obtain ⟨l, hl⟩ : ∃ l, l = (List.range 998).map turnId := ⟨_, rfl⟩
  rw [← ht₁] at hidle₁ htomb₁ hget₁
  rw [← hl] at hidle₁
  have hlen : l.length = 998 := by rw [hl, List.length_map, List.length_range]
  have hfresh₁ : ∀ k, 998 ≤ k → k < 1000 → t₁.nodes.get (turnId k) = none := by
    intro k _ hk'
    rw [hget₁ _ (fun _ _ heq => ?_) (hturn k).1, hfresh]
    have := turnId_injective hk' (by omega) heq
    omega
  have hnb₁ : t₁.nodes.get "b" = some nb := by
    rw [hget₁ "b" (fun k _ => (hturn k).2.2.symm) (by decide), hnb]
  have hna₁ : t₁.nodes.get "a" = some na := by
    rw [hget₁ "a" (fun k _ => (hturn k).2.1.symm) (by decide), hna]
  have hlen₁ : ("a" :: l).length + 1 = maxRetainedTerminalScopes := by
    rw [List.length_cons, hlen]
    rfl
  -- the next turn evicts `b`, and the one after it `a`
  obtain ⟨t₂, ids, ht₂, hidle₂, hb₂, htomb₂, hids, hget₂⟩ :=
    hidle₁.turn_evicts (hfresh₁ 998 le_rfl (by decide)) hlen₁ hnb₁ hnb'.2 (by decide)
      (by rw [htomb₁]; exact Nat.zero_le _)
  have hna₂ : t₂.nodes.get "a" = some (na.withoutChild "b") := by
    rw [hget₂ "a" (hturn 998).2.1.symm (by decide) (by decide), hna₁, Option.map_some, hnb'.1,
      if_pos rfl]
  have hfresh₂ : t₂.nodes.get (turnId 999) = none := by
    rw [hget₂ _ (fun heq => ?_) (hturn 999).1 (hturn 999).2.2, hfresh₁ 999 (by decide) (by decide),
      Option.map_none]
    have := turnId_injective (by decide) (by decide) heq
    omega
  have hleaf₂ : (na.withoutChild "b").children = [] := by
    change na.children.erase "b" = []
    rw [hna'.2]
    decide
  have hsize₂ : t₂.tombstones.size ≤ 1 := by
    rw [htomb₂, htomb₁, ← OrderedMap.length_keys]
    rfl
  have hlen₂ : (l ++ [turnId 998]).length + 1 = maxRetainedTerminalScopes := by
    rw [List.length_append, hlen]
    rfl
  obtain ⟨t₃, ids', ht₃, hidle₃, ha₃, htomb₃, -, hget₃⟩ :=
    hidle₂.turn_evicts hfresh₂ hlen₂ hna₂ hleaf₂ (by decide) hsize₂
  refine ⟨t₃, ids, _, ?_, hidle₃, ha₃, ?_, ?_, hids "a" hnb'.1⟩
  · rw [applyAll, List.foldl_append]
    change ScopeTree.applyAll (ScopeTree.applyAll _ settledPair) _ = t₃
    rw [← ht₀, applyAll_turns_succ t₀ "scope-root" 999, applyAll_turns_succ t₀ "scope-root" 998,
      ← ht₁, ht₂, ht₃]
  · rw [hget₃ "b" (hturn 999).2.2.symm (by decide) (by decide), hb₂, Option.map_none]
  · rw [htomb₃, OrderedMap.get_set_ne _ _ (by decide), OrderedMap.get_delete_ne _ (by decide),
      OrderedMap.get_delete_ne _ (hturn 999).2.2.symm, htomb₂, OrderedMap.get_set_self]

/-- Nothing was recorded at or below a scope that has just been born. -/
theorem recordedAtOrBelow_newborn (hord : Ordered births)
    (hknown : ∀ r ∈ recorded, ∃ b ∈ births, b.serial = r.1) (id : ScopeId) (p : Option ScopeId) :
    recordedAtOrBelow (⟨births.length, id, lineUnder births p⟩ :: births) recorded births.length =
      .none := by
  rcases le_recordedAtOrBelow.1 (le_refl (recordedAtOrBelow
    (⟨births.length, id, lineUnder births p⟩ :: births) recorded births.length)) with
    hnone | ⟨r, hr, hbelow, -⟩
  · exact hnone
  · obtain ⟨b, hb, hs⟩ := hknown r hr
    have hlt := hord.fresh b hb
    rcases hbelow with heq | ⟨b', hb', hs', hmem⟩
    · omega
    · have := (hord.cons id p).older b' hb' _ hmem
      omega

/-- A scope that was never below `a` makes it report an uncertain effect. -/
theorem late_effect_is_misattributed :
    let h := (History.start "scope-root" none 0).applyAll reusedIdentifier
    ∃ ba report, bornAs h.births "a" = some ba ∧ h.tree.report "a" = some report ∧
      ¬ report.subtreeEffect ≤ recordedAtOrBelow h.births h.recorded ba.serial := by
  obtain ⟨t, ids, waiting, ht, hidle, ha, hb, hids, hmem⟩ := evictedPair
  obtain ⟨h, hh⟩ : ∃ h, h = (History.start "scope-root" none 0).applyAll
      (settledPair ++ turns "scope-root" 1000) := ⟨_, rfl⟩
  have htree : h.tree = t := by
    rw [hh, History.applyAll_tree]
    exact ht
  have hv : Valid h.births h.recorded h.tree := (kept_applyAll hh).1
  obtain ⟨nr, hnr, hactive, -, hdepth, hok⟩ := hidle.derive_ok ha
  obtain ⟨-, b, hborn, -⟩ := hv.traced.tomb (htree ▸ hids)
  have hrun : (History.start "scope-root" none 0).applyAll reusedIdentifier =
      (h.apply (openTurn "scope-root" "a")).apply (.recordLateEffect "b" .uncertain 0) := by
    rw [reusedIdentifier, History.applyAll_append, ← hh]
    rfl
  obtain ⟨new, hnew⟩ : ∃ new : Birth,
      new = ⟨h.births.length, "a", lineUnder h.births (some "scope-root")⟩ := ⟨_, rfl⟩
  obtain ⟨node, hnode⟩ : ∃ node, node = newNode nr ⟨.turn, none, some "a"⟩ "a" := ⟨_, rfl⟩
  have hopen : h.apply (openTurn "scope-root" "a") =
      ⟨t.attach nr node 0, new :: h.births, h.recorded⟩ := by
    rw [openTurn, History.apply, htree, hok, hnew, hnode]
    rfl
  have hkey := hidle.sound.key hnr
  have hnr' : t.nodes.get nr.scopeId = some nr := by rw [hkey, hnr]
  have hid : node.scopeId = "a" := by rw [hnode]; rfl
  have hne : node.scopeId ≠ nr.scopeId := by rw [hid, hkey]; decide
  have hget := get_attach hne hnr' 0
  have hb' : (t.attach nr node 0).nodes.get "b" = none := by
    rw [hget, hid, hkey, if_neg (by decide), if_neg (by decide), hb]
  have hids' : (t.attach nr node 0).tombstones.get "b" = some ids := by
    rw [attach_tombstones, hid, OrderedMap.get_delete_ne _ (by decide), hids]
  have hborn' : bornAs (new :: h.births) "b" = some b := by
    have hnewId : new.scopeId = "a" := by rw [hnew]
    have hab : ¬ new.scopeId = "b" := by rw [hnewId]; decide
    rw [bornAs_cons, if_neg hab, hborn]
  have hlate : (h.apply (openTurn "scope-root" "a")).apply (.recordLateEffect "b" .uncertain 0) =
      ⟨(t.attach nr node 0).foldIntoAncestorIds ids .uncertain, new :: h.births,
        (b.serial, .uncertain) :: h.recorded⟩ := by
    rw [hopen, History.apply]
    simp only [recordLateEffect, hb', hids', History.record, hborn']
  have hnode' : ((t.attach nr node 0).foldIntoAncestorIds ids .uncertain).nodes.get "a" =
      some (node.absorb .uncertain) := by
    rw [get_foldIntoAncestorIds, hget, if_pos hid.symm, Option.map_some, if_pos hmem]
  have hsound : Sound ((t.attach nr node 0).foldIntoAncestorIds ids .uncertain) := by
    refine Sound.foldIntoAncestorIds ?_ ids .uncertain
    rw [hnode]
    refine hidle.sound.attach _ hnr' (by rw [hactive]; exact id) ha ?_ 0
    rw [hdepth]
    decide
  rw [hrun, hlate]
  refine ⟨new, _, by rw [bornAs_cons, hnew, if_pos rfl], by rw [report, hnode', Option.map_some],
    fun hle => ?_⟩
  -- nothing was recorded for the new scope or below it
  have hnone : recordedAtOrBelow (new :: h.births) ((b.serial, .uncertain) :: h.recorded)
      new.serial = .none := by
    rw [hnew]
    exact recordedAtOrBelow_newborn hv.ordered (hv.known_cons hborn) _ _
  have huncertain : EffectCertainty.uncertain ≤ ((t.attach nr node 0).foldIntoAncestorIds ids
      .uncertain).subtreeEffectOf (node.absorb .uncertain) := by
    refine (le_subtreeEffectOf hsound.forest hnode').2 (.inl ?_)
    rw [ScopeNode.totalEffect_eq]
    exact (effect_le_absorb node .uncertain).trans (le_max_right _ _)
  have hle' := huncertain.trans hle
  rw [hnone] at hle'
  exact absurd hle' (by decide)

end Falryn.Orchestration.ScopeTree
