import Falryn.Orchestration.ScopeCancellation

/-!
# The history of a tree

A tree forgets: settled scopes are evicted, and an identifier that was evicted may be derived again,
for another scope.  The history beside a tree is what it forgets: every scope there ever was, with the
scopes above it, and every effect that was recorded, with the scope it was recorded for.  It decides
nothing; it is what the statements about effects are about.
-/

namespace Falryn.Orchestration.ScopeTree

/-! ## Scopes and records -/

/-- A scope there was.  `line` is the scopes above it, nearest first. -/
structure Birth where
  serial : ℕ
  scopeId : ScopeId
  line : List ℕ

/-- A tree and what became of it.  The newest scope and the newest record come first. -/
structure History where
  tree : ScopeTree
  births : List Birth
  recorded : List (ℕ × EffectCertainty)

/-- The scope that an identifier stands for now: the last one that was given it. -/
def bornAs (births : List Birth) (id : ScopeId) : Option Birth :=
  births.find? fun b => b.scopeId = id

/-- The line of a scope with the given parent. -/
def lineUnder (births : List Birth) : Option ScopeId → List ℕ
  | none => []
  | some p =>
    match bornAs births p with
    | none => []
    | some b => b.serial :: b.line

namespace History

/-- The history of a new tree. -/
def start (rootId : ScopeId) (rootDeadline : Option Deadline) (instant : ℕ) : History :=
  ⟨create rootId rootDeadline instant, [⟨0, rootId, []⟩], []⟩

/-- The records with one for the scope that an identifier stands for. -/
def record (h : History) (id : ScopeId) (effect : EffectCertainty) : List (ℕ × EffectCertainty) :=
  match bornAs h.births id with
  | none => h.recorded
  | some b => (b.serial, effect) :: h.recorded

/-- The history after an operation: an operation that derives a scope adds it, one that records an
effect adds the record. -/
def apply (h : History) (op : Operation) : History :=
  match op with
  | .derive parentId options openedAt requestedAt =>
    match h.tree.derive parentId options openedAt requestedAt with
    | .ok (handle, after) =>
      ⟨after, ⟨h.births.length, handle.scopeId, lineUnder h.births (some parentId)⟩ :: h.births,
        h.recorded⟩
    | .error _ => h
  | .recordEffect id effect instant =>
    match h.tree.recordEffect id effect instant with
    | .ok after => ⟨after, h.births, h.record id effect⟩
    | .error _ => h
  | .recordLateEffect id effect instant =>
    match h.tree.recordLateEffect id effect instant with
    | .ok (_, after) => ⟨after, h.births, h.record id effect⟩
    | .error _ => h
  | op => ⟨h.tree.apply op, h.births, h.recorded⟩

/-- The history after a list of operations. -/
def applyAll (h : History) (ops : List Operation) : History := ops.foldl apply h

theorem applyAll_append (h : History) (ops ops' : List Operation) :
    h.applyAll (ops ++ ops') = (h.applyAll ops).applyAll ops' :=
  List.foldl_append

/-- The history's tree is the tree. -/
theorem apply_tree (h : History) (op : Operation) : (h.apply op).tree = h.tree.apply op := by
  rcases op with _ | ⟨parentId, options, openedAt, requestedAt⟩ | _ | ⟨id, effect, instant⟩ |
    ⟨id, effect, instant⟩ | _ | _ | _ | _ | _
  case derive =>
    rw [apply, ScopeTree.apply]
    rcases h.tree.derive parentId options openedAt requestedAt with _ | ⟨-, after⟩ <;> rfl
  case recordEffect =>
    rw [apply, ScopeTree.apply]
    rcases h.tree.recordEffect id effect instant with _ | after <;> rfl
  case recordLateEffect =>
    rw [apply, ScopeTree.apply]
    rcases h.tree.recordLateEffect id effect instant with _ | ⟨record, after⟩ <;> rfl
  all_goals rfl

theorem applyAll_tree (h : History) (ops : List Operation) :
    (h.applyAll ops).tree = h.tree.applyAll ops := by
  induction ops generalizing h with
  | nil => rfl
  | cons op ops ih =>
    change ((h.apply op).applyAll ops).tree = (h.tree.apply op).applyAll ops
    rw [ih, apply_tree]

end History

/-! ## Where the scopes of a tree come from -/

/-- A list of scopes in the order of their births.  A scope's line is older than the scope, and with a
scope it contains the scope's own line. -/
structure Ordered (births : List Birth) : Prop where
  fresh : ∀ b ∈ births, b.serial < births.length
  unique : ∀ b ∈ births, ∀ b' ∈ births, b.serial = b'.serial → b = b'
  older : ∀ b ∈ births, ∀ s ∈ b.line, s < b.serial
  closed : ∀ b ∈ births, ∀ b' ∈ births, b'.serial ∈ b.line → ∀ s ∈ b'.line, s ∈ b.line

/-- The scopes of a tree are the last ones that were given their identifiers, their lines go through
their parents, and a tombstone names the line of an evicted scope. -/
structure Traced (births : List Birth) (t : ScopeTree) : Prop where
  born : ∀ {id n}, t.nodes.get id = some n →
    ∃ b, bornAs births id = some b ∧ b.line = lineUnder births n.parentId
  tomb : ∀ {id ids}, t.tombstones.get id = some ids →
    t.nodes.get id = none ∧ ∃ b, bornAs births id = some b ∧
      ∀ b' ∈ births, b'.serial ∈ b.line → b'.scopeId ∈ ids

variable {id : ScopeId} {b : Birth}

theorem bornAs_eq_some {births : List Birth}
    (h : bornAs births id = some b) : b ∈ births ∧ b.scopeId = id := by
  refine ⟨List.mem_of_find?_eq_some h, ?_⟩
  have hid := List.find?_some h
  simpa using hid

theorem bornAs_cons (births : List Birth) (b : Birth) (id : ScopeId) :
    bornAs (b :: births) id = if b.scopeId = id then some b else bornAs births id := by
  rw [bornAs, List.find?_cons]
  by_cases h : b.scopeId = id
  · simp [h]
  · simp [h, bornAs]

variable {births : List Birth} {t t' : ScopeTree} {s : ℕ}

/-- **The line of a scope of the tree is the scopes above it.** -/
theorem Traced.mem_line (h : Traced births t) (hsound : Sound t) {n : ScopeNode} (hn : t.nodes.get id = some n) (hb : bornAs births id = some b) :
    s ∈ b.line ↔ ∃ a ba, Above t.shapeAt a id ∧ bornAs births a = some ba ∧ ba.serial = s := by
  obtain ⟨depth, hdepth⟩ : ∃ depth, n.depth = depth := ⟨_, rfl⟩
  induction depth generalizing id n b with
  | zero =>
    have hroot : n.parentId = none := by
      rcases hp : n.parentId with _ | p
      · rfl
      · obtain ⟨s', -, -, hd⟩ := hsound.forest.parent (shapeAt_of_get hn) hp
        change n.depth = _ at hd
        omega
    obtain ⟨b', hb', hline⟩ := h.born hn
    rw [hb] at hb'
    cases hb'
    rw [hline, hroot]
    refine iff_of_false List.not_mem_nil ?_
    rintro ⟨a, ba, habove, -⟩
    exact not_above_of_root (shapeAt_of_get hn) hroot habove
  | succ depth ih =>
    obtain ⟨b', hb', hline⟩ := h.born hn
    rw [hb] at hb'
    cases hb'
    rcases hp : n.parentId with _ | p
    · rw [hline, hp]
      refine iff_of_false List.not_mem_nil ?_
      rintro ⟨a, ba, habove, -⟩
      exact not_above_of_root (shapeAt_of_get hn) hp habove
    · have hparent : ParentOf t.shapeAt p id := ⟨n.shape, shapeAt_of_get hn, hp⟩
      obtain ⟨sp, hsp, -, hd⟩ := hsound.forest.parent (shapeAt_of_get hn) hp
      obtain ⟨np, hnp, rfl⟩ := shapeAt_eq_some.1 hsp
      obtain ⟨bp, hbp, -⟩ := h.born hnp
      have hdp : np.depth = depth := by
        change n.depth = np.depth + 1 at hd
        omega
      have hcons : b.line = bp.serial :: bp.line := by rw [hline, hp, lineUnder, hbp]
      rw [hcons, List.mem_cons, ih hnp hbp hdp]
      constructor
      · rintro (rfl | ⟨a, ba, habove, hba, rfl⟩)
        · exact ⟨p, bp, .single hparent, hbp, rfl⟩
        · exact ⟨a, ba, habove.tail hparent, hba, rfl⟩
      · rintro ⟨a, ba, habove, hba, rfl⟩
        rcases (above_iff hparent).1 habove with rfl | habove
        · rw [hbp] at hba
          cases hba
          exact .inl rfl
        · exact .inr ⟨a, ba, habove, hba, rfl⟩

/-- A scope of the tree is in the line of another one exactly if it is above it. -/
theorem Traced.serial_mem_line (h : Traced births t) (hsound : Sound t) (hord : Ordered births)
    {a d : ScopeId} {nd : ScopeNode} {ba bd : Birth} (hd : t.nodes.get d = some nd)
    (hbd : bornAs births d = some bd) (hba : bornAs births a = some ba) :
    ba.serial ∈ bd.line ↔ Above t.shapeAt a d := by
  rw [h.mem_line hsound hd hbd]
  constructor
  · rintro ⟨a', ba', habove, hba', heq⟩
    obtain ⟨hmem, hid⟩ := bornAs_eq_some hba
    obtain ⟨hmem', hid'⟩ := bornAs_eq_some hba'
    have hsame := hord.unique ba' hmem' ba hmem heq
    rw [← hid, ← hsame, hid']
    exact habove
  · intro habove
    exact ⟨a, ba, habove, hba, rfl⟩

/-- Where scopes only disappear or stay where they are, and the tombstones stay, nothing has to be
traced anew. -/
theorem Traced.of_descends (h : Traced births t)
    (hget : ∀ id n', t'.nodes.get id = some n' →
      ∃ n, t.nodes.get id = some n ∧ n'.parentId = n.parentId)
    (htomb : t'.tombstones = t.tombstones) : Traced births t' where
  born {id n'} hn' := by
    obtain ⟨n, hn, hparent⟩ := hget id n' hn'
    rw [hparent]
    exact h.born hn
  tomb {id ids} hids := by
    rw [htomb] at hids
    obtain ⟨hnone, hb⟩ := h.tomb hids
    refine ⟨?_, hb⟩
    rcases hn' : t'.nodes.get id with _ | n'
    · rfl
    · obtain ⟨n, hn, -⟩ := hget id n' hn'
      rw [hnone] at hn
      cases hn

theorem Traced.of_get_map {g : ScopeId → ScopeNode → ScopeNode} (h : Traced births t)
    (hget : ∀ x, t'.nodes.get x = (t.nodes.get x).map (g x))
    (hshape : ∀ x n, (g x n).shape = n.shape) (htomb : t'.tombstones = t.tombstones) :
    Traced births t' := by
  refine h.of_descends (fun id _ hn' => ?_) htomb
  rw [hget] at hn'
  obtain ⟨n, hn, rfl⟩ := Option.map_eq_some_iff.1 hn'
  exact ⟨n, hn, congrArg Shape.parentId (hshape id n)⟩

theorem Traced.evict (h : Traced births t) (hsound : Sound t) (hord : Ordered births)
    {node : ScopeNode} {retained : List ScopeId} (hnode : t.nodes.get node.scopeId = some node)
    (hev : t.evict node = some t') : Traced births { t' with retained } := by
  have hget : ∀ id n', t'.nodes.get id = some n' →
      ∃ n, t.nodes.get id = some n ∧ n'.parentId = n.parentId := by
    intro id n' hn'
    obtain ⟨n, hn, rfl⟩ := get_evict_eq_some hev hn'
    refine ⟨n, hn, ?_⟩
    split <;> rfl
  refine ⟨fun {id n'} hn' => ?_, fun {id ids} hids => ?_⟩
  · obtain ⟨n, hn, hparent⟩ := hget id n' hn'
    rw [hparent]
    exact h.born hn
  · change t'.tombstones.get id = some ids at hids
    change t'.nodes.get id = none ∧ _
    rw [(evict_eq_some.1 hev).2] at hids
    rcases get_rememberTombstone hids with ⟨rfl, rfl⟩ | ⟨hne, hold⟩
    · -- the new tombstone is read off the scopes above the evicted one
      obtain ⟨b, hb, -⟩ := h.born hnode
      refine ⟨by rw [get_evict hev, if_pos rfl], b, hb, fun b' hb' hmem => ?_⟩
      obtain ⟨a, ba, habove, hba, hserial⟩ := (h.mem_line hsound hnode hb).1 hmem
      obtain ⟨hmem', hid⟩ := bornAs_eq_some hba
      rw [← hord.unique ba hmem' b' hb' hserial, hid]
      exact (mem_ancestorIdsOf hsound.forest hnode).2 habove
    · rw [detach_tombstones] at hold
      obtain ⟨hnone, hb⟩ := h.tomb hold
      refine ⟨?_, hb⟩
      rw [get_evict hev, if_neg hne, hnone, Option.map_none]

theorem Traced.move (hord : Ordered births) (hsound : Sound t) (h : Traced births t)
    (hmove : Move t t') : Traced births t' := by
  rcases hmove with ⟨reason, instant, hnode⟩ | ⟨outcome, instant, hnode, -⟩ |
    ⟨hnode, -, hev, -⟩ | ⟨hnode, hactive⟩ | ⟨hnode, hactive, -, -, -⟩
  · exact h.of_get_map (get_cancelSubtree t _ reason instant) (shape_stopIn t _ reason instant)
      (SameFrame.cancelSubtree t _ reason instant).tombstones
  · exact h.of_get_map (get_settleUntrimmed t _ outcome instant)
      (shape_settleIn t _ outcome instant) (settleUntrimmed_tombstones t _ outcome instant)
  · exact h.evict hsound hord hnode hev
  · exact ⟨h.born, h.tomb⟩
  · exact ⟨h.born, h.tomb⟩

theorem Traced.applyEffect (h : Traced births t) (id : ScopeId) (effect : EffectCertainty)
    (instant : ℕ) : Traced births (t.applyEffect id effect instant) := by
  refine h.of_get_map (get_applyEffect t id effect instant) (fun _ _ => ?_)
    (SameFrame.applyEffect t id effect instant).tombstones
  split <;> rfl

theorem Traced.foldIntoAncestorIds (h : Traced births t) (ids : List ScopeId)
    (effect : EffectCertainty) : Traced births (t.foldIntoAncestorIds ids effect) := by
  refine h.of_get_map (get_foldIntoAncestorIds t ids effect) (fun _ _ => ?_)
    (SameFrame.foldIntoAncestorIds t ids effect).tombstones
  split <;> rfl

/-! ## A scope is born -/

theorem mem_lineUnder {p : Option ScopeId} (hs : s ∈ lineUnder births p) :
    ∃ b ∈ births, s = b.serial ∨ s ∈ b.line := by
  rcases p with _ | p
  · cases hs
  · rw [lineUnder] at hs
    rcases hb : bornAs births p with _ | b
    · rw [hb] at hs
      cases hs
    · rw [hb] at hs
      exact ⟨b, (bornAs_eq_some hb).1, List.mem_cons.1 hs⟩

theorem Ordered.cons (h : Ordered births) (id : ScopeId) (p : Option ScopeId) :
    Ordered (⟨births.length, id, lineUnder births p⟩ :: births) := by
  have hline : ∀ s ∈ lineUnder births p, s < births.length := by
    intro s hs
    obtain ⟨b, hb, rfl | hs⟩ := mem_lineUnder hs
    · exact h.fresh b hb
    · exact (h.older b hb s hs).trans (h.fresh b hb)
  refine ⟨fun b hb => ?_, fun b hb b' hb' heq => ?_, fun b hb s hs => ?_, fun b hb b' hb' hmem s hs => ?_⟩
  · rw [List.length_cons]
    rcases List.mem_cons.1 hb with rfl | hb
    · exact Nat.lt_succ_self _
    · exact (h.fresh b hb).trans (Nat.lt_succ_self _)
  · rcases List.mem_cons.1 hb with rfl | hb <;> rcases List.mem_cons.1 hb' with rfl | hb'
    · rfl
    · exact absurd heq.symm (h.fresh b' hb').ne
    · exact absurd heq (h.fresh b hb).ne
    · exact h.unique b hb b' hb' heq
  · rcases List.mem_cons.1 hb with rfl | hb
    · exact hline s hs
    · exact h.older b hb s hs
  · rcases List.mem_cons.1 hb with rfl | hb <;> rcases List.mem_cons.1 hb' with rfl | hold
    · exact hs
    · -- the line of the new scope is its parent and the parent's line
      change s ∈ lineUnder births p
      change b'.serial ∈ lineUnder births p at hmem
      rcases p with _ | p
      · cases hmem
      · rw [lineUnder] at hmem ⊢
        rcases hbp : bornAs births p with _ | bp
        · rw [hbp] at hmem
          cases hmem
        · rw [hbp] at hmem
          have hbp' := (bornAs_eq_some hbp).1
          rcases List.mem_cons.1 hmem with heq | hmem
          · rw [h.unique b' hold bp hbp' heq] at hs
            exact .tail _ hs
          · exact .tail _ (h.closed bp hbp' b' hold hmem s hs)
    · exact absurd ((h.older b hb _ hmem).trans (h.fresh b hb)) (lt_irrefl _)
    · exact h.closed b hb b' hold hmem s hs

theorem Traced.derive (h : Traced births t) (hsound : Sound t) (hord : Ordered births)
    {parentId : ScopeId} {options : DeriveScopeOptions} {openedAt requestedAt : ℕ}
    {handle : ScopeHandle}
    (hok : t.derive parentId options openedAt requestedAt = .ok (handle, t')) :
    Traced (⟨births.length, handle.scopeId, lineUnder births (some parentId)⟩ :: births) t' := by
  obtain ⟨parent, childId, child, hparent, -, hfresh, hid, -, -, -, -, hshape, -, htomb, hget⟩ :=
    get_derive hsound hok
  rw [hid]
  have hps := shapeAt_of_get hparent
  have hpc : parentId ≠ childId := by
    rintro rfl
    rw [hparent] at hfresh
    cases hfresh
  have hborn : ∀ {x}, x ≠ childId →
      bornAs (⟨births.length, childId, lineUnder births (some parentId)⟩ :: births) x =
        bornAs births x := by
    intro x hx
    rw [bornAs_cons, if_neg (Ne.symm hx)]
  have hline : ∀ {p : Option ScopeId}, p ≠ some childId →
      lineUnder (⟨births.length, childId, lineUnder births (some parentId)⟩ :: births) p =
        lineUnder births p := by
    intro p hp
    rcases p with _ | p
    · rfl
    · rw [lineUnder, hborn (fun heq => hp (congrArg some heq)), lineUnder]
  have hkept : ∀ {x n'}, x ≠ childId → t'.nodes.get x = some n' →
      ∃ n, t.nodes.get x = some n ∧ n'.parentId = n.parentId := by
    intro x n' hx hn'
    rw [hget, if_neg hx] at hn'
    split at hn'
    next heq =>
      cases hn'
      exact ⟨parent, heq ▸ hparent, rfl⟩
    · exact ⟨n', hn', rfl⟩
  refine ⟨fun {x n'} hn' => ?_, fun {x ids} hids => ?_⟩
  · by_cases hx : x = childId
    · subst hx
      refine ⟨_, by rw [bornAs_cons, if_pos rfl], ?_⟩
      have hp : n'.parentId = some parentId := by
        have hs := shapeAt_of_get hn'
        rw [hshape, grow, if_pos rfl] at hs
        exact (congrArg Shape.parentId (Option.some.inj hs)).symm
      rw [hp, hline (fun heq => hpc (Option.some.inj heq))]
    · obtain ⟨n, hn, hp⟩ := hkept hx hn'
      obtain ⟨b, hb, hbline⟩ := h.born hn
      refine ⟨b, (hborn hx).trans hb, ?_⟩
      rw [hbline, hp, hline]
      intro heq
      obtain ⟨s, hs, -⟩ := hsound.forest.parent (shapeAt_of_get hn) heq
      obtain ⟨m, hm, -⟩ := shapeAt_eq_some.1 hs
      rw [hfresh] at hm
      cases hm
  · rw [htomb, OrderedMap.get_delete] at hids
    split at hids
    · cases hids
    next hx =>
      obtain ⟨hnone, b, hb, hall⟩ := h.tomb hids
      refine ⟨?_, b, (hborn hx).trans hb, fun b' hb' hmem => ?_⟩
      · rcases hn' : t'.nodes.get x with _ | n'
        · rfl
        · obtain ⟨n, hn, -⟩ := hkept hx hn'
          rw [hnone] at hn
          cases hn
      · rcases List.mem_cons.1 hb' with rfl | hb'
        · have hbmem := (bornAs_eq_some hb).1
          exact absurd ((hord.older b hbmem _ hmem).trans (hord.fresh b hbmem)) (lt_irrefl _)
        · exact hall b' hb' hmem

/-! ## Every history -/

/-- What holds of every history. -/
structure Valid (births : List Birth) (recorded : List (ℕ × EffectCertainty)) (t : ScopeTree) :
    Prop where
  sound : Sound t
  ordered : Ordered births
  traced : Traced births t
  known : ∀ r ∈ recorded, ∃ b ∈ births, b.serial = r.1

/-- The scopes that a list of identifiers stands for now are in a scope's line. -/
def OwnLine (births : List Birth) (t : ScopeTree) (ids : List ScopeId) (b : Birth) : Prop :=
  ∀ a ∈ ids, ∀ na ba, t.nodes.get a = some na → bornAs births a = some ba → ba.serial ∈ b.line

/-- A late effect on an evicted scope finds no scope under the identifiers of its tombstone that was
not above it. -/
def History.LateEffectIsOwn (h : History) : Operation → Prop
  | .recordLateEffect id _ _ =>
    h.tree.nodes.get id = none → ∀ ids b, h.tree.tombstones.get id = some ids →
      bornAs h.births id = some b → OwnLine h.births h.tree ids b
  | _ => True

section
variable {recorded : List (ℕ × EffectCertainty)} {id : ScopeId} {b : Birth}
  {effect : EffectCertainty}

theorem Valid.move (h : Valid births recorded t) (hmove : Move t t') : Valid births recorded t' :=
  ⟨hmove.sound h.sound, h.ordered, h.traced.move h.ordered h.sound hmove, h.known⟩

theorem Valid.known_cons (h : Valid births recorded t) (hb : bornAs births id = some b) :
    ∀ r ∈ (b.serial, effect) :: recorded, ∃ b ∈ births, b.serial = r.1 := by
  intro r hr
  rcases List.mem_cons.1 hr with rfl | hr
  · exact ⟨b, (bornAs_eq_some hb).1, rfl⟩
  · exact h.known r hr

theorem Valid.applyEffect (h : Valid births recorded t) (hb : bornAs births id = some b)
    (instant : ℕ) :
    Valid births ((b.serial, effect) :: recorded) (t.applyEffect id effect instant) :=
  ⟨h.sound.applyEffect id effect instant, h.ordered, h.traced.applyEffect id effect instant,
    h.known_cons hb⟩

theorem Valid.foldIntoAncestorIds (h : Valid births recorded t) (hb : bornAs births id = some b)
    (ids : List ScopeId) :
    Valid births ((b.serial, effect) :: recorded) (t.foldIntoAncestorIds ids effect) :=
  ⟨h.sound.foldIntoAncestorIds ids effect, h.ordered, h.traced.foldIntoAncestorIds ids effect,
    h.known_cons hb⟩

theorem Valid.derive (h : Valid births recorded t) {parentId : ScopeId}
    {options : DeriveScopeOptions} {openedAt requestedAt : ℕ} {handle : ScopeHandle}
    (hok : t.derive parentId options openedAt requestedAt = .ok (handle, t')) :
    Valid (⟨births.length, handle.scopeId, lineUnder births (some parentId)⟩ :: births)
      recorded t' := by
  refine ⟨h.sound.derive hok, h.ordered.cons _ _, h.traced.derive h.sound h.ordered hok,
    fun r hr => ?_⟩
  obtain ⟨b, hb, hserial⟩ := h.known r hr
  exact ⟨b, .tail _ hb, hserial⟩

end

theorem valid_start (rootId : ScopeId) (rootDeadline : Option Deadline) (instant : ℕ) :
    Valid [⟨0, rootId, []⟩] [] (create rootId rootDeadline instant) := by
  refine ⟨sound_create rootId rootDeadline instant, ⟨?_, ?_, ?_, ?_⟩, ⟨fun {id n} hn => ?_,
    fun {id ids} hids => ?_⟩, fun _ hr => (by cases hr)⟩
  · intro b hb
    rw [List.mem_singleton.1 hb]
    exact Nat.one_pos
  · intro b hb b' hb' _
    rw [List.mem_singleton.1 hb, List.mem_singleton.1 hb']
  · intro b hb s hs
    rw [List.mem_singleton.1 hb] at hs
    cases hs
  · intro b hb b' _ hmem
    rw [List.mem_singleton.1 hb] at hmem
    cases hmem
  · rw [get_create] at hn
    split at hn
    next hid =>
      cases hn
      refine ⟨⟨0, rootId, []⟩, ?_, rfl⟩
      rw [bornAs_cons, if_pos hid.symm]
    · cases hn
  · cases hids

/-- **The invariant rule for histories.**  What moves and births keep, and what the three ways to
record an effect establish, holds of every history.  With `strict`, late effects reach the scope's
own line only. -/
theorem History.apply_preserves {I : List Birth → List (ℕ × EffectCertainty) → ScopeTree → Prop}
    (strict : Prop)
    (hmove : ∀ {births recorded t t'}, Valid births recorded t → I births recorded t →
      Move t t' → I births recorded t')
    (hderive : ∀ {births recorded t t' parentId options openedAt requestedAt handle},
      Valid births recorded t → I births recorded t →
      t.derive parentId options openedAt requestedAt = .ok (handle, t') →
      I (⟨births.length, handle.scopeId, lineUnder births (some parentId)⟩ :: births) recorded t')
    (hlive : ∀ {births recorded t id node b} (effect : EffectCertainty) (instant : ℕ),
      Valid births recorded t → I births recorded t → t.nodes.get id = some node →
      ¬ node.state.IsTerminal → bornAs births id = some b →
      I births ((b.serial, effect) :: recorded) (t.applyEffect id effect instant))
    (hsettled : ∀ {births recorded t id node b} (effect : EffectCertainty),
      Valid births recorded t → I births recorded t → t.nodes.get id = some node →
      node.state.IsTerminal → bornAs births id = some b →
      I births ((b.serial, effect) :: recorded)
        (t.foldIntoAncestorIds (t.ancestorIdsOf node) effect))
    (hevicted : ∀ {births recorded t id ids b} (effect : EffectCertainty),
      Valid births recorded t → I births recorded t → t.nodes.get id = none →
      bornAs births id = some b →
      (∀ b' ∈ births, b'.serial ∈ b.line → b'.scopeId ∈ ids) →
      (strict → OwnLine births t ids b) →
      I births ((b.serial, effect) :: recorded) (t.foldIntoAncestorIds ids effect))
    {h : History} (hv : Valid h.births h.recorded h.tree) (hi : I h.births h.recorded h.tree)
    (op : Operation) (hop : strict → h.LateEffectIsOwn op) :
    Valid (h.apply op).births (h.apply op).recorded (h.apply op).tree ∧
      I (h.apply op).births (h.apply op).recorded (h.apply op).tree := by
  by_cases hplain : op.IsPlain
  · have happly : h.apply op = ⟨h.tree.apply op, h.births, h.recorded⟩ := by
      rcases op with _ | _ | _ | _ | _ | _ | _ | _ | _ | _
      case derive => exact hplain.elim
      case recordEffect => exact hplain.elim
      case recordLateEffect => exact hplain.elim
      all_goals rfl
    rw [happly]
    have hboth := Moves.preserves (I := fun t => Valid h.births h.recorded t ∧ I h.births h.recorded t)
      (fun _ hvi hm => ⟨hvi.1.move hm, hmove hvi.1 hvi.2 hm⟩) (moves_apply hv.sound hplain) hv.sound
      ⟨hv, hi⟩
    exact hboth
  · rcases op with _ | ⟨parentId, options, openedAt, requestedAt⟩ | _ | ⟨id, effect, instant⟩ |
      ⟨id, effect, instant⟩ | _ | _ | _ | _ | _
    case derive =>
      rw [apply]
      rcases hok : h.tree.derive parentId options openedAt requestedAt with _ | ⟨handle, after⟩
      · exact ⟨hv, hi⟩
      · exact ⟨hv.derive hok, hderive hv hi hok⟩
    case recordEffect =>
      rw [apply]
      rcases hok : h.tree.recordEffect id effect instant with _ | after
      · exact ⟨hv, hi⟩
      · obtain ⟨node, hnode, hlv, rfl⟩ := recordEffect_ok hok
        obtain ⟨b, hb, -⟩ := hv.traced.born hnode
        simp only [record, hb]
        exact ⟨hv.applyEffect hb instant, hlive effect instant hv hi hnode hlv hb⟩
    case recordLateEffect =>
      rw [apply]
      rcases hok : h.tree.recordLateEffect id effect instant with _ | ⟨late, after⟩
      · exact ⟨hv, hi⟩
      · rcases recordLateEffect_ok hok with ⟨node, hnode, hlv, rfl⟩ | ⟨node, hnode, hterminal, rfl⟩ |
          ⟨ids, hnone, hids, rfl⟩
        · obtain ⟨b, hb, -⟩ := hv.traced.born hnode
          simp only [record, hb]
          exact ⟨hv.applyEffect hb instant, hlive effect instant hv hi hnode hlv hb⟩
        · obtain ⟨b, hb, -⟩ := hv.traced.born hnode
          simp only [record, hb]
          exact ⟨hv.foldIntoAncestorIds hb _, hsettled effect hv hi hnode hterminal hb⟩
        · obtain ⟨-, b, hb, hall⟩ := hv.traced.tomb hids
          simp only [record, hb]
          exact ⟨hv.foldIntoAncestorIds hb _, hevicted effect hv hi hnone hb hall
            fun hs => hop hs hnone ids b hids hb⟩
    all_goals exact absurd trivial hplain

end Falryn.Orchestration.ScopeTree
