import Falryn.Orchestration.ScopeHistory

/-!
# What a scope reports of the work below it

An effect that was recorded is not lost: while the scope is live it is the scope's own, and when the
scope settles it goes to every scope above it, so that evicting the scope takes nothing away.  In the
other direction, what a scope reports was recorded for it or below it, as long as no late effect finds
another scope under an identifier that a tombstone kept.
-/

namespace Falryn.Orchestration.ScopeTree

variable {births : List Birth} {recorded : List (ℕ × EffectCertainty)} {t t' : ScopeTree}
  {node : ScopeNode} {id : ScopeId} {b : Birth}

/-! ## Runs of a history -/

/-- A history takes every operation. -/
def History.step (h : History) (op : Operation) : Option History := some (h.apply op)

theorem History.run_step (h : History) (ops : List Operation) :
    StateMachine.run History.step h ops = some (h.applyAll ops) := by
  induction ops generalizing h with
  | nil => rfl
  | cons op ops ih => exact ih (h.apply op)

/-! ## Effects are kept -/

/-- Every recorded effect is the own effect of a live scope, or known to every scope above the one it
was recorded for. -/
def Kept (births : List Birth) (recorded : List (ℕ × EffectCertainty)) (t : ScopeTree) : Prop :=
  ∀ r ∈ recorded,
    (∃ id b n, bornAs births id = some b ∧ b.serial = r.1 ∧ t.nodes.get id = some n ∧
        ¬ n.state.IsTerminal ∧ r.2 ≤ n.effect) ∨
      (∀ a ba na bs, bornAs births a = some ba → t.nodes.get a = some na → bs ∈ births →
        bs.serial = r.1 → ba.serial ∈ bs.line → r.2 ≤ na.settledDescendantEffect)

/-- A step that settles nothing and lowers nothing keeps every effect. -/
theorem Kept.of_rise (h : Kept births recorded t)
    (hlive : ∀ id n, t.nodes.get id = some n → ¬ n.state.IsTerminal →
      ∃ n', t'.nodes.get id = some n' ∧ ¬ n'.state.IsTerminal ∧ n.effect ≤ n'.effect)
    (hfold : ∀ id n', t'.nodes.get id = some n' → ∃ n, t.nodes.get id = some n ∧
      n.settledDescendantEffect ≤ n'.settledDescendantEffect) : Kept births recorded t' := by
  intro r hr
  rcases h r hr with ⟨id, b, n, hb, hserial, hn, hl, he⟩ | hall
  · obtain ⟨n', hn', hl', he'⟩ := hlive id n hn hl
    exact .inl ⟨id, b, n', hb, hserial, hn', hl', he.trans he'⟩
  · refine .inr fun a ba na' bs hba hna' hbs hserial hmem => ?_
    obtain ⟨na, hna, hle⟩ := hfold a na' hna'
    exact (hall a ba na bs hba hna hbs hserial hmem).trans hle

theorem Kept.of_get_map {g : ScopeId → ScopeNode → ScopeNode} (h : Kept births recorded t)
    (hget : ∀ x, t'.nodes.get x = (t.nodes.get x).map (g x))
    (hlive : ∀ x n, ¬ n.state.IsTerminal → ¬ (g x n).state.IsTerminal ∧ n.effect ≤ (g x n).effect)
    (hfold : ∀ x n, n.settledDescendantEffect ≤ (g x n).settledDescendantEffect) :
    Kept births recorded t' := by
  refine h.of_rise (fun id n hn hl => ?_) fun id _ hn' => ?_
  · exact ⟨g id n, by rw [hget, hn, Option.map_some], hlive id n hl⟩
  · rw [hget] at hn'
    obtain ⟨n, hn, rfl⟩ := Option.map_eq_some_iff.1 hn'
    exact ⟨n, hn, hfold id n⟩

theorem le_absorb (n : ScopeNode) (effect : EffectCertainty) :
    n.settledDescendantEffect ≤ (n.absorb effect).settledDescendantEffect := by
  change _ ≤ worstEffect _ _
  rw [worstEffect_eq_max]
  exact le_max_left _ _

theorem effect_le_absorb (n : ScopeNode) (effect : EffectCertainty) :
    effect ≤ (n.absorb effect).settledDescendantEffect := by
  change _ ≤ worstEffect _ _
  rw [worstEffect_eq_max]
  exact le_max_right _ _

theorem effect_stopIn (t : ScopeTree) (target : ScopeNode) (reason : CancellationReason)
    (instant : ℕ) (x : ScopeId) (n : ScopeNode) :
    (t.stopIn target reason instant x n).effect = n.effect ∧
      (t.stopIn target reason instant x n).settledDescendantEffect =
        n.settledDescendantEffect := by
  have hstop : ∀ (n : ScopeNode) (reason : CancellationReason),
      (n.stopIfActive reason instant).effect = n.effect ∧
        (n.stopIfActive reason instant).settledDescendantEffect = n.settledDescendantEffect := by
    intro n reason
    rcases n.stopIfActive_cases reason instant with ⟨-, heq⟩ | ⟨-, heq⟩ <;> rw [heq] <;>
      exact ⟨rfl, rfl⟩
  unfold stopIn
  dsimp only
  split_ifs <;> simp only [(hstop _ _).1, (hstop _ _).2, and_self]

theorem effect_settleIn (t : ScopeTree) (node : ScopeNode) (outcome : TerminalOutcome)
    (instant : ℕ) (x : ScopeId) (n : ScopeNode) :
    (t.settleIn node outcome instant x n).effect = n.effect := by
  unfold settleIn
  dsimp only
  split_ifs <;> rfl

theorem settledDescendantEffect_settleIn (t : ScopeTree) (node : ScopeNode)
    (outcome : TerminalOutcome) (instant : ℕ) (x : ScopeId) (n : ScopeNode) :
    (t.settleIn node outcome instant x n).settledDescendantEffect =
      if x ∈ t.ancestorIdsOf node then max n.settledDescendantEffect node.totalEffect
      else n.settledDescendantEffect := by
  unfold settleIn
  dsimp only
  split_ifs <;> first | rfl | exact worstEffect_eq_max _ _

/-- Settling a scope hands what it did to every scope above it. -/
theorem Kept.settleUntrimmed (h : Kept births recorded t) (hv : Valid births recorded t) (hnode : t.nodes.get node.scopeId = some node) (outcome : TerminalOutcome)
    (instant : ℕ) : Kept births recorded (t.settleUntrimmed node outcome instant) := by
  have hget := get_settleUntrimmed t node outcome instant
  have hfold : ∀ id n', (t.settleUntrimmed node outcome instant).nodes.get id = some n' →
      ∃ n, t.nodes.get id = some n ∧
        n.settledDescendantEffect ≤ n'.settledDescendantEffect := by
    intro id n' hn'
    rw [hget] at hn'
    obtain ⟨n, hn, rfl⟩ := Option.map_eq_some_iff.1 hn'
    refine ⟨n, hn, ?_⟩
    rw [settledDescendantEffect_settleIn]
    split
    · exact le_max_left _ _
    · exact le_rfl
  intro r hr
  rcases h r hr with ⟨id, b, n, hb, hserial, hn, hlive, he⟩ | hall
  · by_cases hid : id = node.scopeId
    · -- the scope the effect was recorded for is the one that settles
      subst hid
      rw [hnode] at hn
      cases hn
      refine .inr fun a ba na' bs hba hna' hbs hbs' hmem => ?_
      have hsame := hv.ordered.unique bs hbs b (bornAs_eq_some hb).1 (hbs'.trans hserial.symm)
      rw [hsame] at hmem
      have habove := (hv.traced.serial_mem_line hv.sound hv.ordered hnode hb hba).1 hmem
      rw [hget] at hna'
      obtain ⟨na, hna, rfl⟩ := Option.map_eq_some_iff.1 hna'
      rw [settledDescendantEffect_settleIn,
        if_pos ((mem_ancestorIdsOf hv.sound.forest hnode).2 habove), ScopeNode.totalEffect_eq]
      exact he.trans ((le_max_left _ _).trans (le_max_right _ _))
    · refine .inl ⟨id, b, _, hb, hserial, by rw [hget, hn, Option.map_some], ?_, ?_⟩
      · rw [state_settleIn, if_neg hid]
        exact hlive
      · rw [effect_settleIn]
        exact he
  · refine .inr fun a ba na' bs hba hna' hbs hserial hmem => ?_
    obtain ⟨na, hna, hle⟩ := hfold a na' hna'
    exact (hall a ba na bs hba hna hbs hserial hmem).trans hle

theorem Kept.move (hv : Valid births recorded t) (h : Kept births recorded t)
    (hmove : Move t t') : Kept births recorded t' := by
  rcases hmove with ⟨reason, instant, hnode⟩ | ⟨outcome, instant, hnode, -⟩ |
    ⟨hnode, hret, hev, -⟩ | ⟨hnode, hactive⟩ | ⟨hnode, hactive, -, -, -⟩
  · refine h.of_get_map (get_cancelSubtree t _ reason instant) (fun x n hl => ⟨?_, ?_⟩) fun x n => ?_
    · exact fun hterminal => hl (isTerminal_stopIn.1 hterminal)
    · exact (effect_stopIn t _ reason instant x n).1.ge
    · exact (effect_stopIn t _ reason instant x n).2.ge
  · exact h.settleUntrimmed hv hnode outcome instant
  · rename_i node _ _
    have hterminal := hv.sound.evicted_terminal hnode hret
    refine h.of_rise (fun id n hn hl => ?_) fun id _ hn' => ?_
    · have hne : id ≠ node.scopeId := by
        rintro rfl
        rw [hnode] at hn
        cases hn
        exact hl hterminal
      refine ⟨_, (get_evict hev id).trans (by rw [if_neg hne, hn, Option.map_some]), ?_, ?_⟩
      · split <;> exact hl
      · split <;> exact le_rfl
    · obtain ⟨n, hn, rfl⟩ := get_evict_eq_some hev hn'
      refine ⟨n, hn, ?_⟩
      split <;> exact le_rfl
  · exact h
  · exact h

theorem Kept.derive (hv : Valid births recorded t) (h : Kept births recorded t)
    {parentId : ScopeId} {options : DeriveScopeOptions} {openedAt requestedAt : ℕ}
    {handle : ScopeHandle}
    (hok : t.derive parentId options openedAt requestedAt = .ok (handle, t')) :
    Kept (⟨births.length, handle.scopeId, lineUnder births (some parentId)⟩ :: births)
      recorded t' := by
  obtain ⟨parent, childId, child, hparent, -, hfresh, hid, -, -, -, -, -, -, -, hget⟩ :=
    get_derive hv.sound hok
  rw [hid]
  have hkept : ∀ {x n}, t.nodes.get x = some n → x ≠ childId ∧
      ∃ n', t'.nodes.get x = some n' ∧ n'.state = n.state ∧ n'.effect = n.effect ∧
        n'.settledDescendantEffect = n.settledDescendantEffect := by
    intro x n hn
    have hx : x ≠ childId := by
      rintro rfl
      rw [hfresh] at hn
      cases hn
    refine ⟨hx, ?_⟩
    rw [hget, if_neg hx]
    by_cases hp : x = parentId
    · rw [hp, hparent] at hn
      cases hn
      exact ⟨_, if_pos hp, rfl, rfl, rfl⟩
    · exact ⟨n, by rw [if_neg hp, hn], rfl, rfl, rfl⟩
  intro r hr
  rcases h r hr with ⟨id, b, n, hb, hserial, hn, hlive, he⟩ | hall
  · obtain ⟨hx, n', hn', hs, hee, -⟩ := hkept hn
    refine .inl ⟨id, b, n', ?_, hserial, hn', hs ▸ hlive, hee ▸ he⟩
    rw [bornAs_cons, if_neg (Ne.symm hx)]
    exact hb
  · refine .inr fun a ba na' bs hba hna' hbs hserial hmem => ?_
    -- the new scope is younger than every scope an effect was recorded for
    obtain ⟨br, hbr, hbrs⟩ := hv.known r hr
    have hold : bs ∈ births := by
      rcases List.mem_cons.1 hbs with rfl | hbs
      · exact absurd (hbrs.trans hserial.symm) (hv.ordered.fresh br hbr).ne
      · exact hbs
    by_cases ha : a = childId
    · rw [bornAs_cons, if_pos ha.symm] at hba
      cases hba
      exact absurd ((hv.ordered.older bs hold _ hmem).trans (hv.ordered.fresh bs hold))
        (lt_irrefl _)
    · rw [bornAs_cons, if_neg (Ne.symm ha)] at hba
      rw [hget, if_neg ha] at hna'
      by_cases hp : a = parentId
      · rw [if_pos hp] at hna'
        cases hna'
        exact hall a ba parent bs hba (hp ▸ hparent) hold hserial hmem
      · rw [if_neg hp] at hna'
        exact hall a ba na' bs hba hna' hold hserial hmem

/-- A record that a live scope keeps or that every scope above knows. -/
theorem Kept.cons (h : Kept births recorded t) {s : ℕ} {effect : EffectCertainty}
    (hnew : (∃ id b n, bornAs births id = some b ∧ b.serial = s ∧ t.nodes.get id = some n ∧
        ¬ n.state.IsTerminal ∧ effect ≤ n.effect) ∨
      (∀ a ba na bs, bornAs births a = some ba → t.nodes.get a = some na → bs ∈ births →
        bs.serial = s → ba.serial ∈ bs.line → effect ≤ na.settledDescendantEffect)) :
    Kept births ((s, effect) :: recorded) t := by
  intro r hr
  rcases List.mem_cons.1 hr with rfl | hr
  · exact hnew
  · exact h r hr

theorem Kept.applyEffect (h : Kept births recorded t)
    (hnode : t.nodes.get id = some node) (hlive : ¬ node.state.IsTerminal)
    (hb : bornAs births id = some b) (effect : EffectCertainty) (instant : ℕ) :
    Kept births ((b.serial, effect) :: recorded) (t.applyEffect id effect instant) := by
  have hget := get_applyEffect t id effect instant
  refine Kept.cons (h.of_get_map hget (fun x n hl => ?_) fun x n => ?_) (.inl ?_)
  · split
    · refine ⟨hl, ?_⟩
      change _ ≤ worstEffect _ _
      rw [worstEffect_eq_max]
      exact le_max_left _ _
    · exact ⟨hl, le_rfl⟩
  · split <;> exact le_rfl
  · refine ⟨id, b, _, hb, rfl, by rw [hget, hnode, Option.map_some], ?_, ?_⟩
    · rw [if_pos rfl]
      exact hlive
    · rw [if_pos rfl]
      change _ ≤ worstEffect _ _
      rw [worstEffect_eq_max]
      exact le_max_right _ _

/-- An effect that reaches every identifier of a scope's line is known to every scope above it. -/
theorem Kept.foldIntoAncestorIds (h : Kept births recorded t) (hord : Ordered births) {ids : List ScopeId} (hb : bornAs births id = some b)
    (hall : ∀ a ba, bornAs births a = some ba → ba.serial ∈ b.line →
      (∃ na, t.nodes.get a = some na) → a ∈ ids) (effect : EffectCertainty) :
    Kept births ((b.serial, effect) :: recorded) (t.foldIntoAncestorIds ids effect) := by
  have hget := get_foldIntoAncestorIds t ids effect
  refine Kept.cons (h.of_get_map hget (fun x n hl => ?_) fun x n => ?_) (.inr ?_)
  · split <;> exact ⟨hl, le_rfl⟩
  · split
    · exact le_absorb n effect
    · exact le_rfl
  · intro a ba na' bs hba hna' hbs hserial hmem
    rw [hord.unique bs hbs b (bornAs_eq_some hb).1 hserial] at hmem
    rw [hget] at hna'
    obtain ⟨na, hna, rfl⟩ := Option.map_eq_some_iff.1 hna'
    rw [if_pos (hall a ba hba hmem ⟨na, hna⟩)]
    exact effect_le_absorb na effect

theorem kept_applyAll {rootId : ScopeId} {rootDeadline : Option Deadline} {instant : ℕ}
    {ops : List Operation} {h : History}
    (hh : h = (History.start rootId rootDeadline instant).applyAll ops) :
    Valid h.births h.recorded h.tree ∧ Kept h.births h.recorded h.tree := by
  have hstart : Valid [⟨0, rootId, []⟩] [] (create rootId rootDeadline instant) ∧
      Kept [⟨0, rootId, []⟩] [] (create rootId rootDeadline instant) :=
    ⟨valid_start rootId rootDeadline instant, fun _ hr => (by cases hr)⟩
  refine StateMachine.run_invariant
    (I := fun h : History => Valid h.births h.recorded h.tree ∧ Kept h.births h.recorded h.tree)
    (fun h op _ hi hstep => ?_) hstart (hh ▸ History.run_step _ ops)
  cases hstep
  refine History.apply_preserves False (fun hv hk hm => hk.move hv hm)
    (fun hv hk hok => hk.derive hv hok)
    (fun effect instant hv hk hnode hlive hb => hk.applyEffect hnode hlive hb effect instant)
    (fun effect hv hk hnode _ hb => ?_) (fun effect hv hk _ hb hall _ => ?_) hi.1 hi.2 op False.elim
  · refine hk.foldIntoAncestorIds hv.ordered hb (fun a ba hba hmem _ => ?_) effect
    have habove := (hv.traced.serial_mem_line hv.sound hv.ordered hnode hb hba).1 hmem
    exact (mem_ancestorIdsOf hv.sound.forest hnode).2 habove
  · refine hk.foldIntoAncestorIds hv.ordered hb (fun a ba hba hmem _ => ?_) effect
    obtain ⟨hmem', hid⟩ := bornAs_eq_some hba
    exact hid ▸ hall ba hmem' hmem

/-- **Uncertainty is never lost from the scope tree.**  After every sequence of operations, an effect
that was accepted for a scope is reported by every proper ancestor of that scope that is still
retained. -/
theorem uncertainty_is_never_lost (rootId : ScopeId) (rootDeadline : Option Deadline)
    (instant : ℕ) (ops : List Operation) :
    let h := (History.start rootId rootDeadline instant).applyAll ops
    ∀ r ∈ h.recorded, ∀ s ∈ h.births, s.serial = r.1 →
      ∀ a ba, bornAs h.births a = some ba → ba.serial ∈ s.line →
        ∀ report, h.tree.report a = some report → r.2 ≤ report.subtreeEffect := by
  intro h r hr s hs hserial a ba hba hmem report hreport
  obtain ⟨hv, hkept⟩ := kept_applyAll (rfl : h = _)
  obtain ⟨na, hna, rfl⟩ := Option.map_eq_some_iff.1 hreport
  refine (le_subtreeEffectOf hv.sound.forest hna).2 ?_
  rcases hkept r hr with ⟨id, b, n, hb, hbs, hn, -, he⟩ | hall
  · -- the scope is still live, and the walk down from the ancestor finds it
    rw [hv.ordered.unique s hs b (bornAs_eq_some hb).1 (hserial.trans hbs.symm)] at hmem
    refine .inr ⟨id, n, (hv.traced.serial_mem_line hv.sound hv.ordered hn hb hba).1 hmem, hn, ?_⟩
    rw [ScopeNode.totalEffect_eq]
    exact he.trans (le_max_left _ _)
  · refine .inl ?_
    rw [ScopeNode.totalEffect_eq]
    exact (hall a ba na s hba hna hs hserial hmem).trans (le_max_right _ _)

end Falryn.Orchestration.ScopeTree
