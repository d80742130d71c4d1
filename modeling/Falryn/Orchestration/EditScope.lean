import Mathlib

/-!
# Edit scopes

Where a child may write (`edit-scope.ts`): a list of patterns over workspace-relative paths, each a
prefix whose segments may use "*" and "?".  Whether one scope lies within another is decided on the
patterns, segment by segment, and whether a write is permitted on the path it resolves to.  What a
pattern within another contains, the other contains too (`editScopeContains_of_within`); scopes that do
not overlap contain no path in common (`disjoint_scopes_are_disjoint`).
-/

namespace Falryn.Orchestration

/-! ## Patterns -/

/-- A scope; none is the full inherited scope. -/
abbrev EditScope := Option (List String)

def segments (pattern : String) : List String :=
  if pattern = "" then [] else (pattern.toList.splitOn '/').map String.ofList

/-- `GLOB.test`. -/
def isGlob (segment : String) : Bool := segment.toList.any fun c => c = '*' ∨ c = '?'

/-- A "*": whatever of a text comes before what the rest of a glob matches. -/
def starMatches (rest : List Char → Bool) : List Char → Bool
  | [] => rest []
  | c :: text => rest (c :: text) || (decide (c ≠ '/') && starMatches rest text)

/-- The regular expression of a glob, on a whole text. -/
def globMatches : List Char → List Char → Bool
  | [], text => text.isEmpty
  | c :: glob, text =>
    if c = '*' then starMatches (globMatches glob) text
    else
      match text with
      | [] => false
      | d :: text => decide (if c = '?' then d ≠ '/' else d = c) && globMatches glob text

def segmentMatches (glob text : String) : Bool := globMatches glob.toList text.toList

/-- Whether one list is no longer than another and each of its segments meets the other's at its place. -/
def leads (meets : String → String → Bool) : List String → List String → Bool
  | [], _ => true
  | _ :: _, [] => false
  | part :: parts, actual :: rest => meets part actual && leads meets parts rest

/-! ## Containment -/

/-- Whether a segment of a pattern matches one of a path. -/
def partContains (part actual : String) : Bool :=
  if isGlob part then segmentMatches part actual else decide (part = actual)

def editScopeContains (scope : EditScope) (path : String) : Bool :=
  match scope with
  | none => true
  | some patterns => patterns.any fun pattern => leads partContains (segments pattern) (segments path)

/-- Whether a segment of a pattern is provably within one of another. -/
def partWithin (part actual : String) : Bool :=
  if isGlob part then decide (actual = part) || (!isGlob actual && segmentMatches part actual)
  else decide (part = actual)

def editScopeWithin (child parent : EditScope) : Bool :=
  match parent, child with
  | none, _ => true
  | some _, none => false
  | some candidates, some patterns => patterns.all fun pattern =>
    candidates.any fun candidate => leads partWithin (segments candidate) (segments pattern)

/-! ## Overlap -/

/-- `segmentsMayMeet`: two globs are assumed to. -/
def segmentsMayMeet (left right : String) : Bool :=
  if isGlob left ∧ isGlob right then true
  else if isGlob left then segmentMatches left right
  else if isGlob right then segmentMatches right left
  else decide (left = right)

/-- Whether no segment two patterns share keeps them apart. -/
def segmentsMeet : List String → List String → Bool
  | first :: lefts, second :: rights => segmentsMayMeet first second && segmentsMeet lefts rights
  | _, _ => true

def editScopesOverlap (left right : EditScope) : Bool :=
  match left, right with
  | some lefts, some rights => lefts.any fun a => rights.any fun b => segmentsMeet (segments a) (segments b)
  | _, _ => true

/-! ## Writes -/

inductive WorkspaceWriteClass where
  | none | paths | sandbox | unbounded
  deriving DecidableEq

structure WorkspaceMove where
  source : String
  target : String

structure WorkspaceWriteTargets where
  paths : List String
  moves : List WorkspaceMove

inductive EditScopeRefusal where
  | violation | boundary | unenforceable

/-- A path with forward slashes only. -/
def withForwardSlashes (path : String) : List Char :=
  path.toList.map fun c => if c = '\\' then '/' else c

/-- Whether a path names a root or a drive. -/
def isAbsolute : List Char → Bool
  | '/' :: _ => true
  | drive :: ':' :: '/' :: _ => drive.isAlpha
  | _ => false

/-- The path below a root, when it is the root or below it. -/
def belowRoot (base path : List Char) : Option (List Char) :=
  if path = base ∨ (base ++ ['/']).isPrefixOf path then some (path.drop base.length) else none

/-- One segment in the loop of `workspaceRelative`. -/
def resolvePart (parts : List String) (part : String) : Option (List String) :=
  if part = "" ∨ part = "." then some parts
  else if part = ".." then (if parts = [] then none else some parts.dropLast)
  else some (parts ++ [part])

def workspaceRelative (target : String) (root : Option String) : Option String := do
  if target = "" ∨ target.toList.any (fun c => c.toNat < 32) then none
  else
    let path := withForwardSlashes target
    let path ←
      if isAbsolute path then
        let base := (root.map fun root =>
          ((withForwardSlashes root).reverse.dropWhile (· = '/')).reverse).getD []
        if base = [] then none else belowRoot base path
      else some path
    let parts ← ((path.splitOn '/').map String.ofList).foldlM resolvePart []
    return "/".intercalate parts

def editScopeDirectories (scope : EditScope) : Option (List String) :=
  scope.bind fun patterns => if patterns.any isGlob then none else some patterns

/-- What `checkEditScopeWrites` is given. -/
structure EditScopeWrites where
  scope : EditScope
  root : Option String
  writes : WorkspaceWriteClass
  targets : Option WorkspaceWriteTargets
  confined : Bool

/-- Whether a target resolves to a path in a scope. -/
def insideScope (scope : EditScope) (root : Option String) (target : String) : Bool :=
  (workspaceRelative target root).any (editScopeContains scope)

/-- The loop over the moves of `checkEditScopeWrites`: a move across the boundary ends it, one outside
is held against it. -/
def checkMoves (inside : String → Bool) :
    Option EditScopeRefusal → List WorkspaceMove → Option EditScopeRefusal × Bool
  | refusal, [] => (refusal, false)
  | refusal, move :: moves =>
    if inside move.source ≠ inside move.target then (some .boundary, true)
    else checkMoves inside (if inside move.source then refusal else some .violation) moves

/-- `checkEditScopeWrites`: the refusal of a mutation, or none when the scope permits it. -/
def checkEditScopeWrites (input : EditScopeWrites) : Option EditScopeRefusal :=
  if input.scope.isNone ∨ input.writes = .none then none
  else if input.writes = .unbounded then some .unenforceable
  else if input.writes = .sandbox then
    if input.confined ∧ (editScopeDirectories input.scope).isSome then none else some .unenforceable
  else
    match input.targets with
    | none => some .unenforceable
    | some targets =>
      let inside := insideScope input.scope input.root
      match checkMoves inside none targets.moves with
      | (refusal, true) => refusal
      | (refusal, false) =>
        if targets.paths.any fun path => !inside path then some .violation else refusal

/-! ## Patterns within patterns -/

/-- What meets through a middle list meets. -/
theorem leads_trans {f g k : String → String → Bool}
    (h : ∀ a b c, f a b = true → g b c = true → k a c = true) : ∀ {as bs cs : List String},
    leads f as bs = true → leads g bs cs = true → leads k as cs = true := by
  intro as
  induction as with
  | nil => exact fun _ _ => rfl
  | cons a as ih =>
    intro bs cs hab hbc
    rcases bs with _ | ⟨b, bs⟩
    · cases hab
    · rcases cs with _ | ⟨c, cs⟩
      · cases hbc
      · obtain ⟨hfirst, hrest⟩ := Bool.and_eq_true_iff.1 hab
        obtain ⟨hfirst', hrest'⟩ := Bool.and_eq_true_iff.1 hbc
        exact Bool.and_eq_true_iff.2 ⟨h a b c hfirst hfirst', ih hrest hrest'⟩

/-- A segment that a segment within another matches, the other matches. -/
theorem partContains_of_within (part actual segment : String) (hwithin : partWithin part actual = true)
    (hcontains : partContains actual segment = true) : partContains part segment = true := by
  unfold partWithin at hwithin
  by_cases hglob : isGlob part = true
  · rw [if_pos hglob] at hwithin
    rcases Bool.or_eq_true_iff.1 hwithin with heq | hmatch
    · rwa [← of_decide_eq_true heq]
    · obtain ⟨hliteral, hmatch⟩ := Bool.and_eq_true_iff.1 hmatch
      rw [Bool.not_eq_true'] at hliteral
      -- A literal within a glob matches itself alone.
      unfold partContains at hcontains
      rw [if_neg (by simp [hliteral])] at hcontains
      rw [← of_decide_eq_true hcontains]
      unfold partContains
      rwa [if_pos hglob]
  · rw [if_neg hglob] at hwithin
    rwa [of_decide_eq_true hwithin]

variable {child parent : EditScope} {path : String} {root : Option String}
  {targets : Option WorkspaceWriteTargets} {confined : Bool}

/-- **What a scope within another contains, the other contains.** -/
theorem editScopeContains_of_within (h : editScopeWithin child parent = true) (hpath : editScopeContains child path = true) :
    editScopeContains parent path = true := by
  rcases parent with _ | candidates
  · rfl
  · rcases child with _ | patterns
    · cases h
    · obtain ⟨pattern, hpattern, hcontains⟩ := List.any_eq_true.1 hpath
      obtain ⟨candidate, hcandidate, hwithin⟩ := List.any_eq_true.1 (List.all_eq_true.1 h pattern hpattern)
      have hleads : leads partContains (segments candidate) (segments path) = true :=
        leads_trans partContains_of_within hwithin hcontains
      exact List.any_eq_true.2 ⟨candidate, hcandidate, hleads⟩

/-! ## Scopes that do not overlap -/

theorem segmentsMayMeet_comm (left right : String) :
    segmentsMayMeet left right = segmentsMayMeet right left := by
  unfold segmentsMayMeet
  by_cases hleft : isGlob left = true
  · by_cases hright : isGlob right = true
    · simp [hleft, hright]
    · simp [hleft, hright]
  · by_cases hright : isGlob right = true
    · simp [hleft, hright]
    · simp [hleft, hright, eq_comm]

theorem segmentsMeet_comm : ∀ lefts rights : List String,
    segmentsMeet lefts rights = segmentsMeet rights lefts := by
  intro lefts
  induction lefts with
  | nil => intro rights; cases rights <;> rfl
  | cons _ lefts ih =>
    intro rights
    rcases rights with _ | ⟨second, rights⟩
    · rfl
    · rw [segmentsMeet, segmentsMeet, segmentsMayMeet_comm, ih]

theorem editScopesOverlap_comm (left right : EditScope) :
    editScopesOverlap left right = editScopesOverlap right left := by
  rcases left with _ | lefts
  · cases right <;> rfl
  · rcases right with _ | rights
    · rfl
    · rw [Bool.eq_iff_iff]
      simp only [editScopesOverlap, List.any_eq_true]
      constructor
      · rintro ⟨a, ha, b, hb, h⟩
        exact ⟨b, hb, a, ha, segmentsMeet_comm _ _ ▸ h⟩
      · rintro ⟨b, hb, a, ha, h⟩
        exact ⟨a, ha, b, hb, segmentsMeet_comm _ _ ▸ h⟩

theorem segmentsMayMeet_of_contains {left right actual : String} (hleft : partContains left actual = true)
    (hright : partContains right actual = true) : segmentsMayMeet left right = true := by
  unfold partContains at hleft hright
  unfold segmentsMayMeet
  by_cases hl : isGlob left = true
  · by_cases hr : isGlob right = true
    · simp [hl, hr]
    · rw [if_neg hr, decide_eq_true_iff] at hright
      rw [if_pos hl, ← hright] at hleft
      simp [hl, hr, hleft]
  · rw [if_neg hl, decide_eq_true_iff] at hleft
    by_cases hr : isGlob right = true
    · rw [if_pos hr, ← hleft] at hright
      simp [hl, hr, hright]
    · rw [if_neg hr, decide_eq_true_iff] at hright
      rw [if_neg fun h => hl h.1, if_neg hl, if_neg hr]
      exact decide_eq_true (hleft.trans hright.symm)

theorem segmentsMeet_of_contains : ∀ {lefts rights actuals : List String},
    leads partContains lefts actuals = true → leads partContains rights actuals = true →
      segmentsMeet lefts rights = true := by
  intro lefts
  induction lefts with
  | nil => exact fun _ _ => rfl
  | cons _ lefts ih =>
    intro rights actuals hleft hright
    rcases rights with _ | ⟨second, rights⟩
    · rfl
    · rcases actuals with _ | ⟨actual, actuals⟩
      · cases hleft
      · obtain ⟨hfirst, hlefts⟩ := Bool.and_eq_true_iff.1 hleft
        obtain ⟨hsecond, hrights⟩ := Bool.and_eq_true_iff.1 hright
        exact Bool.and_eq_true_iff.2
          ⟨segmentsMayMeet_of_contains hfirst hsecond, ih hlefts hrights⟩

/-- **Scopes that do not overlap have no path in common.** -/
theorem editScopesOverlap_of_contains {left right : EditScope}
    (hleft : editScopeContains left path = true) (hright : editScopeContains right path = true) :
    editScopesOverlap left right = true := by
  rcases left with _ | lefts
  · rfl
  · rcases right with _ | rights
    · rfl
    · obtain ⟨a, ha, hfirst⟩ := List.any_eq_true.1 hleft
      obtain ⟨b, hb, hsecond⟩ := List.any_eq_true.1 hright
      exact List.any_eq_true.2 ⟨a, ha, List.any_eq_true.2
        ⟨b, hb, segmentsMeet_of_contains hfirst hsecond⟩⟩

/-- Segments without a glob that lie within those of a pattern meet them. -/
theorem segmentsMeet_of_within : ∀ {outer inner : List String}, (∀ segment ∈ inner, isGlob segment = false) →
    leads partWithin outer inner = true → segmentsMeet inner outer = true := by
  intro outer
  induction outer with
  | nil => exact fun {inner} _ _ => (segmentsMeet_comm inner []).trans rfl
  | cons part outer ih =>
    intro inner hliteral hwithin
    rcases inner with _ | ⟨actual, inner⟩
    · cases hwithin
    · obtain ⟨hfirst, hrest⟩ := Bool.and_eq_true_iff.1 hwithin
      obtain ⟨hactual, hinner⟩ := List.forall_mem_cons.1 hliteral
      refine Bool.and_eq_true_iff.2 ⟨?_, ih hinner hrest⟩
      -- A literal contains itself, and so does what it lies within.
      have hself : partContains actual actual = true := by
        rw [partContains, if_neg (by simp [hactual])]
        exact decide_eq_true rfl
      exact segmentsMayMeet_of_contains hself (partContains_of_within part actual actual hfirst hself)

/-- **A scope without globs overlaps what it lies within**, unless it is empty. -/
theorem editScopesOverlap_of_within (hne : child ≠ some [])
    (hliteral : ∀ patterns ∈ child, ∀ pattern ∈ patterns, ∀ segment ∈ segments pattern,
      isGlob segment = false)
    (hwithin : editScopeWithin child parent = true) : editScopesOverlap child parent = true := by
  rcases child with _ | patterns
  · rfl
  · rcases parent with _ | candidates
    · rfl
    · obtain ⟨pattern, hpattern⟩ := List.exists_mem_of_ne_nil patterns fun h => hne (congrArg some h)
      obtain ⟨candidate, hcandidate, hleads⟩ :=
        List.any_eq_true.1 (List.all_eq_true.1 hwithin pattern hpattern)
      exact List.any_eq_true.2 ⟨pattern, hpattern, List.any_eq_true.2 ⟨candidate, hcandidate,
        segmentsMeet_of_within (hliteral patterns rfl pattern hpattern) hleads⟩⟩

/-- What deciding that two scopes overlap is good for. -/
structure OverlapDecides (left right : EditScope) : Prop where
  disjoint : editScopesOverlap left right = false →
    ¬ ∃ path, editScopeContains left path = true ∧ editScopeContains right path = true
  symmetric : editScopesOverlap left right = editScopesOverlap right left
  within : left ≠ some [] → (∀ patterns ∈ left, ∀ pattern ∈ patterns, ∀ segment ∈ segments pattern,
      isGlob segment = false) →
    editScopeWithin left right = true → editScopesOverlap left right = true

/-- **Disjoint edit scopes are really disjoint.** -/
theorem disjoint_scopes_are_disjoint (left right : EditScope) : OverlapDecides left right where
  disjoint hapart := by
    rintro ⟨path, hleft, hright⟩
    rw [editScopesOverlap_of_contains hleft hright] at hapart
    cases hapart
  symmetric := editScopesOverlap_comm left right
  within := editScopesOverlap_of_within

/-! ## What is permitted -/

/-- The loop over the moves finds nothing exactly when both ends of every move are inside. -/
theorem checkMoves_none {inside : String → Bool} : ∀ {moves : List WorkspaceMove}
    {refusal : Option EditScopeRefusal}, checkMoves inside refusal moves = (none, false) ↔
      refusal = none ∧ ∀ move ∈ moves, inside move.source = true ∧ inside move.target = true := by
  intro moves
  induction moves with
  | nil =>
    intro refusal
    simp [checkMoves]
  | cons move moves ih =>
    intro refusal
    rw [checkMoves, List.forall_mem_cons]
    by_cases hacross : inside move.source = inside move.target
    · rw [if_neg (not_not.2 hacross), ih, ← hacross, and_self]
      by_cases hinside : inside move.source = true
      · simp [hinside]
      · simp [hinside]
    · rw [if_pos hacross]
      refine iff_of_false nofun ?_
      rintro ⟨-, ⟨hsource, htarget⟩, -⟩
      exact hacross (hsource.trans htarget.symm)

theorem checkMoves_boundary {inside : String → Bool} : ∀ {moves : List WorkspaceMove}
    {refusal found : Option EditScopeRefusal}, checkMoves inside refusal moves = (found, true) →
      found = some .boundary := by
  intro moves
  induction moves with
  | nil => nofun
  | cons _ moves ih =>
    intro refusal found h
    rw [checkMoves] at h
    split_ifs at h
    · cases h
      rfl
    · exact ih h
    · exact ih h

/-- **When a write to paths is permitted**: in a scope, when every path and both ends of every move
resolve into it. -/
theorem checkEditScopeWrites_paths {patterns : List String} :
    checkEditScopeWrites { scope := some patterns, root, writes := .paths, targets, confined } = none ↔
      ∃ found, targets = some found ∧
        (∀ move ∈ found.moves, insideScope (some patterns) root move.source = true ∧
          insideScope (some patterns) root move.target = true) ∧
        ∀ path ∈ found.paths, insideScope (some patterns) root path = true := by
  unfold checkEditScopeWrites
  rw [if_neg (by simp), if_neg (by simp), if_neg (by simp)]
  rcases targets with _ | targets
  · exact ⟨nofun, fun ⟨_, h, _⟩ => (nomatch h)⟩
  · have hsome : (∃ found, some targets = some found ∧
        (∀ move ∈ found.moves, insideScope (some patterns) root move.source = true ∧
          insideScope (some patterns) root move.target = true) ∧
        ∀ path ∈ found.paths, insideScope (some patterns) root path = true) ↔
      (∀ move ∈ targets.moves, insideScope (some patterns) root move.source = true ∧
          insideScope (some patterns) root move.target = true) ∧
        ∀ path ∈ targets.paths, insideScope (some patterns) root path = true := by
      constructor
      · rintro ⟨_, ⟨⟩, h⟩
        exact h
      · exact fun h => ⟨targets, rfl, h⟩
    rw [hsome]
    dsimp only
    have hmoves := @checkMoves_none (insideScope (some patterns) root) targets.moves none
    rcases hresult : checkMoves (insideScope (some patterns) root) none targets.moves with ⟨refusal, _ | _⟩
    · rw [hresult, Prod.mk.injEq, and_iff_left rfl, eq_self_iff_true, true_and] at hmoves
      dsimp only
      rw [← hmoves]
      split_ifs with houtside
      · refine iff_of_false nofun fun h => ?_
        obtain ⟨path, hpath, houtside⟩ := List.any_eq_true.1 houtside
        rw [h.2 path hpath] at houtside
        cases houtside
      · refine ⟨fun h => ⟨h, fun path hpath => ?_⟩, fun h => h.1⟩
        by_contra hout
        exact houtside (List.any_eq_true.2 ⟨path, hpath, by simpa using hout⟩)
    · rw [hresult, checkMoves_boundary hresult] at hmoves
      rw [checkMoves_boundary hresult]
      refine iff_of_false nofun fun h => ?_
      cases hmoves.2 ⟨rfl, h.1⟩

/-- A write to paths that a scope permits, every scope it lies within permits. -/
theorem checkEditScopeWrites_of_within
    (h : editScopeWithin child parent = true)
    (hpermitted :
      checkEditScopeWrites { scope := child, root, writes := .paths, targets, confined } = none) :
    checkEditScopeWrites { scope := parent, root, writes := .paths, targets, confined } = none := by
  rcases parent with _ | candidates
  · rfl
  · rcases child with _ | patterns
    · cases h
    · have hinside : ∀ target, insideScope (some patterns) root target = true →
          insideScope (some candidates) root target = true := by
        intro target htarget
        unfold insideScope at htarget ⊢
        rcases hrelative : workspaceRelative target root with _ | path
        · rw [hrelative] at htarget
          cases htarget
        · rw [hrelative] at htarget
          exact editScopeContains_of_within h htarget
      obtain ⟨found, rfl, hmoves, hpaths⟩ := checkEditScopeWrites_paths.1 hpermitted
      refine checkEditScopeWrites_paths.2 ⟨found, rfl, fun move hmove => ?_, fun path hpath => ?_⟩
      · exact (hmoves move hmove).imp (hinside _) (hinside _)
      · exact hinside path (hpaths path hpath)

end Falryn.Orchestration
