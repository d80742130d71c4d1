import Falryn.Foundation.Result
import Falryn.Lib.StateMachine
import Falryn.Workspace.LocalPath

/-!
# Bound paths and chains of paths

`bindWorkspacePath` (`domain/workspace/workspace-path.ts`) binds what a tool asked for to a workspace
root, and `resolveLocalPath`, `joinPath` and `parentPath` lead from one path to the next.  A bound path
is a local path below its root.  A chain of paths stays within the local paths as long as nobody asks
for the parent of a drive or of what stands directly below one: `parentPath` answers with the drive
without its slash, which is no path.
-/

namespace Falryn.Workspace.Paths

/-! ## Binding -/

inductive WorkspacePathBindError where
  | malformed (reason : LocalPathErrorCode)
  | escaped
  | absoluteUnscoped

structure BoundWorkspacePath where
  root : PathText
  requested : PathText
  resolved : PathText
  logical : PathText

def logicalRequested (value : PathText) : PathText :=
  let forward := forwardSlashes value
  if forward = [] ∨ forward = ['.'] then ['.']
  else
    let stripped := (forward.reverse.dropWhile (· = '/')).reverse
    if stripped = [] then ['.'] else stripped

def logicalFromRoot (root resolved : PathText) : PathText :=
  if resolved = root then [] else resolved.drop (below root).length

/-- `bindWorkspacePath`, of a string. -/
def bindWorkspacePath (root value : PathText) :
    Except WorkspacePathBindError BoundWorkspacePath :=
  if value = [] ∨ value = ['.'] ∨ value = ['.', '/'] then
    .ok ⟨root, ['.'], root, []⟩
  else if isAbsolute (forwardSlashes value) then
    match parseLocalPath value with
    | .error error => .error (.malformed error)
    | .ok resolved =>
      if isInside root resolved = false then .error .absoluteUnscoped
      else .ok ⟨root, logicalRequested value, resolved, logicalFromRoot root resolved⟩
  else
    match resolveLocalPath root value with
    | .error error => .error (.malformed error)
    | .ok resolved =>
      if isInside root resolved = false then .error .escaped
      else .ok ⟨root, logicalRequested value, resolved, logicalFromRoot root resolved⟩

variable {root : PathText} {resolved : PathText}

/-- What a successful binding is: the root itself, or a local path inside it. -/
theorem bindWorkspacePath_ok {value : PathText} {bound : BoundWorkspacePath}
    (h : bindWorkspacePath root value = .ok bound) :
    bound.resolved = root ∧ bound.logical = []
      ∨ IsLocalPath bound.resolved ∧ isInside root bound.resolved = true
        ∧ bound.logical = logicalFromRoot root bound.resolved := by
  unfold bindWorkspacePath at h
  split_ifs at h with hself habsolute
  · cases h
    exact .inl ⟨rfl, rfl⟩
  · split at h
    · cases h
    · rename_i resolved hparse
      split_ifs at h with hinside
      cases h
      exact .inr ⟨isLocalPath_of_parse hparse, Bool.of_not_eq_false hinside, rfl⟩
  · split at h
    · cases h
    · rename_i resolved hresolve
      split_ifs at h with hinside
      cases h
      exact .inr ⟨isLocalPath_of_resolve hresolve, Bool.of_not_eq_false hinside, rfl⟩

/-! ## Inside a root -/

theorem Location.text_ne_nil (location : Location) : location.text ≠ [] := by
  rw [Location.text]
  rcases location.volume_cases with ⟨_, hvolume⟩ | ⟨c, _, _, hvolume⟩ <;>
    rw [hvolume] <;> exact fun h => by cases h

/-- A text cut at its slashes: what stands before the first, and the segments. -/
theorem Location.splitOn_text (location : Location) :
    ∃ first, location.text.splitOn '/'
      = first :: if location.segments = [] then [[]] else location.segments := by
  have hsplit : ∀ before : PathText, '/' ∉ before →
      (before ++ '/' :: joinSegments location.segments).splitOn '/'
        = before :: if location.segments = [] then [[]] else location.segments := by
    intro before hbefore
    rw [List.splitOn_append_cons_self_of_not_mem hbefore]
    by_cases h : location.segments = []
    · rw [if_pos h, h]
      rfl
    · rw [if_neg h, joinSegments, List.splitOn_intercalate '/'
        (fun segment hmem => (location.proper segment hmem).no_slash) h]
  rcases location.volume_cases with ⟨_, hvolume⟩ | ⟨c, hc, _, hvolume⟩
  · exact ⟨[], by rw [Location.text, hvolume]; exact hsplit [] List.not_mem_nil⟩
  · refine ⟨[c, ':'], ?_⟩
    rw [Location.text, hvolume]
    refine hsplit [c, ':'] fun h => ?_
    rcases List.mem_cons.1 h with h | h
    · exact (alpha_ne hc).1 h.symm
    · exact absurd h (by decide)

theorem below_getLast? (root : PathText) : ∃ before, below root = before ++ ['/'] := by
  unfold below
  split_ifs with h
  · obtain ⟨before, hbefore⟩ := List.getLast?_eq_some_iff.1 h
    exact ⟨before, hbefore⟩
  · exact ⟨root, rfl⟩

/-- What stands below a root consists of proper segments. -/
theorem proper_below {tail : PathText} (hroot : IsLocalPath root)
    (hresolved : IsLocalPath resolved) (hne : resolved ≠ root)
    (htail : resolved = below root ++ tail) : ∀ segment ∈ tail.splitOn '/', ProperSegment segment := by
  obtain ⟨location, rfl⟩ := hresolved.location
  obtain ⟨before, hbefore⟩ := below_getLast? root
  obtain ⟨first, hsplit⟩ := location.splitOn_text
  have hcut : location.text.splitOn '/' = before.splitOn '/' ++ tail.splitOn '/' := by
    rw [htail, hbefore, List.append_assoc]
    exact List.splitOn_append_cons_self _ _
  obtain ⟨head, others, hothers⟩ := List.exists_cons_of_ne_nil (List.splitOn_ne_nil '/' before)
  rw [hcut, hothers, List.cons_append, List.cons.injEq] at hsplit
  by_cases hsegments : location.segments = []
  · -- the path would be a volume, and so would the root
    exfalso
    obtain ⟨rootLocation, rfl⟩ := hroot.location
    have htext : location.text = location.volume := by
      rw [Location.text, hsegments]
      exact List.append_nil _
    rw [if_pos hsegments] at hsplit
    have htailnil : tail = [] := by
      have hlast : tail.splitOn '/' = [[]] := by
        obtain ⟨piece, pieces, hpieces⟩ := List.exists_cons_of_ne_nil (List.splitOn_ne_nil '/' tail)
        rw [hpieces] at hsplit ⊢
        rcases others with _ | ⟨other, others⟩
        · exact hsplit.2
        · have hlength := congrArg List.length hsplit.2
          simp at hlength
      have hjoin : ['/'].intercalate (tail.splitOn '/') = tail := List.intercalate_splitOn '/'
      rw [hlast] at hjoin
      exact hjoin.symm
    rw [htailnil, List.append_nil] at htail
    unfold below at htail
    split_ifs at htail with hslash
    · exact hne htail
    · rw [htext] at htail
      have hlength := congrArg List.length htail
      rw [List.length_append, List.length_singleton, Location.text, List.length_append] at hlength
      rcases rootLocation.volume_cases with ⟨_, hrootVolume⟩ | ⟨d, _, _, hrootVolume⟩
      · rcases location.volume_cases with ⟨_, hvolume⟩ | ⟨c, hc, _, hvolume⟩
        · rw [hvolume, hrootVolume, List.length_singleton] at hlength
          omega
        · rw [hvolume, Location.text, hrootVolume, List.cons_append, List.cons_append] at htail
          exact (alpha_ne hc).1 (List.cons.inj htail).1
      · have hrootLength : rootLocation.volume.length = 3 := by rw [hrootVolume]; rfl
        rcases location.volume_cases with ⟨_, hvolume⟩ | ⟨c, _, _, hvolume⟩
        · have hthis : location.volume.length = 1 := by rw [hvolume]; rfl
          omega
        · have hthis : location.volume.length = 3 := by rw [hvolume]; rfl
          omega
  · rw [if_neg hsegments] at hsplit
    intro segment hmem
    refine location.proper segment ?_
    rw [← hsplit.2]
    exact List.mem_append_right _ hmem

/-- **A path inside a root** is the root, or the root followed by proper segments. -/
theorem logical_of_inside (hroot : IsLocalPath root)
    (hresolved : IsLocalPath resolved) (hinside : isInside root resolved = true) :
    resolved = root ∧ logicalFromRoot root resolved = []
      ∨ resolved = below root ++ logicalFromRoot root resolved
        ∧ ∀ segment ∈ (logicalFromRoot root resolved).splitOn '/', ProperSegment segment := by
  by_cases hsame : resolved = root
  · exact .inl ⟨hsame, if_pos hsame⟩
  · have hstart : below root <+: resolved := by
      rw [isInside, Bool.or_eq_true, decide_eq_true_eq] at hinside
      exact List.isPrefixOf_iff_prefix.1 (hinside.resolve_left hsame)
    obtain ⟨tail, htail⟩ := hstart
    have hlogical : logicalFromRoot root resolved = tail := by
      rw [logicalFromRoot, if_neg hsame, ← htail, List.drop_left]
    rw [hlogical]
    exact .inr ⟨htail.symm, proper_below hroot hresolved hsame htail.symm⟩

/-! ## Parents -/

variable {c : Char} {path : PathText} {last : PathText}

theorem lastIndexOf_none (h : c ∉ path) : lastIndexOf c path = none := by
  induction path with
  | nil => rfl
  | cons d path ih =>
    rw [List.mem_cons, not_or] at h
    rw [lastIndexOf, ih h.2]
    exact if_neg (Ne.symm h.1)

theorem lastIndexOf_append (h : c ∉ last) (before : PathText) :
    lastIndexOf c (before ++ c :: last) = some before.length := by
  induction before with
  | nil =>
    rw [List.nil_append, lastIndexOf, lastIndexOf_none h]
    exact if_pos rfl
  | cons d before ih => rw [List.cons_append, lastIndexOf, ih, List.length_cons]

/-- The parent of what ends with a slash and a name. -/
theorem parentPath_append {before : PathText} (h : '/' ∉ last) (hlast : last ≠ []) :
    parentPath (before ++ '/' :: last) = some (if before = [] then ['/'] else before) := by
  have hne : before ++ '/' :: last ≠ ['/'] := by
    intro heq
    have hlength := congrArg List.length heq
    rw [List.length_append, List.length_cons, List.length_singleton] at hlength
    exact hlast (List.eq_nil_of_length_eq_zero (by omega))
  unfold parentPath
  rw [lastIndexOf_append h]
  dsimp only
  rw [if_neg hne, List.take_left]
  rcases before with _ | ⟨c, before⟩
  · rfl
  · rw [if_neg (by simp), if_neg (List.cons_ne_nil _ _)]

/-- A drive, or what stands directly below one. -/
def AtDrive (path : PathText) : Prop := (windowsRoot path).isSome = true ∧ '/' ∉ path.drop 3

instance (path : PathText) : Decidable (AtDrive path) := by
  unfold AtDrive
  infer_instance

/-- A drive without its slash is no local path. -/
theorem not_isLocalPath_drive (hc : c.isAlpha = true) : ¬ IsLocalPath [c, ':'] := by
  rintro ⟨⟨location, htext⟩, _, _⟩
  rw [Location.text] at htext
  rcases location.volume_cases with ⟨_, hvolume⟩ | ⟨d, _, _, hvolume⟩
  · rw [hvolume, List.cons_append] at htext
    exact (alpha_ne hc).1 (List.cons.inj htext).1
  · rw [hvolume] at htext
    have hlength := congrArg List.length htext
    simp at hlength

namespace Location

/-- The location above: the last name is taken off. -/
def up (location : Location) : Location :=
  { location with
    segments := location.segments.dropLast
    proper := fun segment hmem => location.proper segment (List.dropLast_subset _ hmem) }

/-- What stands before the slash of a volume. -/
def bare (location : Location) : PathText :=
  match location.drive with
  | none => []
  | some c => [c, ':']

theorem volume_eq (location : Location) : location.volume = location.bare ++ ['/'] := by
  rw [volume, bare]
  cases location.drive <;> rfl

theorem up_text (location : Location) : location.up.text
    = location.volume ++ joinSegments location.segments.dropLast := rfl

variable {location : Location} {last : PathText}

/-- The parent of a volume. -/
theorem parentPath_volume (h : location.segments = []) :
    parentPath location.text = location.drive.map fun c => [c, ':'] := by
  have htext : location.text = location.volume := by
    rw [text, h]
    exact List.append_nil _
  rw [htext, volume]
  cases location.drive with
  | none => rfl
  | some c =>
    unfold parentPath
    rw [show lastIndexOf '/' [c, ':', '/'] = some 2 from lastIndexOf_append List.not_mem_nil [c, ':']]
    dsimp only
    rw [if_neg (by simp), if_neg (by decide)]
    rfl

/-- The parent of what stands directly below a volume. -/
theorem parentPath_single (h : location.segments = [last]) : parentPath location.text
      = some (if location.bare = [] then ['/'] else location.bare) := by
  have hlast := location.proper last (by rw [h]; exact List.mem_singleton_self _)
  have htext : location.text = location.bare ++ '/' :: last := by
    rw [text, h, volume_eq, joinSegments, List.intercalate_singleton, List.append_assoc]
    rfl
  rw [htext, parentPath_append hlast.no_slash hlast.nonempty]

/-- The parent of what stands further below. -/
theorem parentPath_deep {init : List PathText}
    (h : location.segments = init ++ [last]) (hinit : init ≠ []) :
    parentPath location.text = some location.up.text := by
  have hlast := location.proper last
    (by rw [h]; exact List.mem_append_right _ (List.mem_singleton_self _))
  have htext : location.text = location.up.text ++ '/' :: last := by
    rw [up_text, text, h, List.dropLast_concat, joinSegments,
      Splitting.intercalate_append hinit (List.cons_ne_nil _ _), List.intercalate_singleton,
      List.append_assoc]
    rfl
  rw [htext, parentPath_append hlast.no_slash hlast.nonempty, if_neg location.up.text_ne_nil]

/-- A drive, or what stands directly below one, in terms of the location. -/
theorem atDrive_text (location : Location) :
    AtDrive location.text ↔ location.drive.isSome = true ∧ location.segments.length ≤ 1 := by
  rw [AtDrive, windowsRoot_text]
  rcases location.volume_cases with ⟨hdrive, _⟩ | ⟨c, _, hdrive, hvolume⟩
  · rw [hdrive]
    simp
  · rw [hdrive]
    have hdrop : location.text.drop 3 = joinSegments location.segments := by
      rw [text, hvolume]
      rfl
    rw [hdrop]
    refine and_congr (iff_of_true rfl rfl) ?_
    rcases hsegments : location.segments with _ | ⟨first, _ | ⟨second, others⟩⟩
    · exact iff_of_true List.not_mem_nil (Nat.zero_le _)
    · refine iff_of_true ?_ le_rfl
      rw [joinSegments, List.intercalate_singleton]
      exact (location.proper first (by rw [hsegments]; exact List.mem_cons_self)).no_slash
    · refine iff_of_false (fun hnot => hnot ?_) ?_
      · rw [joinSegments, List.intercalate_cons_cons]
        exact List.mem_append_left _ (List.mem_append_right _ (List.mem_singleton_self _))
      · rw [List.length_cons, List.length_cons]
        omega

end Location

/-- What is the first part of a local path and the text of a location is a local path. -/
theorem isLocalPath_of_isPrefix {location : Location} (h : IsLocalPath path)
    (hstart : location.text <+: path) : IsLocalPath location.text := by
  refine ⟨⟨location, rfl⟩, ?_, fun hnul => h.no_nul (hstart.subset hnul)⟩
  obtain ⟨rest, hrest⟩ := hstart
  have hshort := h.short
  rw [← hrest, textLength, Splitting.weight_append] at hshort
  rw [textLength]
  omega

/-- **The parent of a local path** is a local path exactly when the path is no drive and does not
stand directly below one. -/
theorem isLocalPath_parent {parent : PathText} (h : IsLocalPath path)
    (hparent : parentPath path = some parent) : IsLocalPath parent ↔ ¬ AtDrive path := by
  obtain ⟨location, rfl⟩ := h.location
  rw [location.atDrive_text]
  rcases List.eq_nil_or_concat' location.segments with hnil | ⟨init, last, hconcat⟩
  · rw [Location.parentPath_volume hnil] at hparent
    rcases location.volume_cases with ⟨hdrive, _⟩ | ⟨c, hc, hdrive, _⟩
    · rw [hdrive] at hparent
      cases hparent
    · rw [hdrive] at hparent
      cases hparent
      rw [hdrive, hnil]
      exact iff_of_false (not_isLocalPath_drive hc) fun hnot => hnot ⟨rfl, Nat.zero_le _⟩
  · by_cases hinit : init = []
    · rw [hinit, List.nil_append] at hconcat
      rw [Location.parentPath_single hconcat, Option.some.injEq] at hparent
      rw [← hparent, hconcat]
      rcases location.volume_cases with ⟨hdrive, hvolume⟩ | ⟨c, hc, hdrive, _⟩
      · rw [Location.bare, hdrive]
        refine iff_of_true ?_ fun hat => (nomatch hat.1)
        have hup : location.up.text = ['/'] := by
          rw [Location.up_text, hvolume, hconcat]
          rfl
        show IsLocalPath ['/']
        rw [← hup]
        refine isLocalPath_of_isPrefix h ?_
        rw [hup, Location.text, hvolume]
        exact List.prefix_append _ _
      · rw [Location.bare, hdrive]
        refine iff_of_false ?_ fun hnot => hnot ⟨rfl, le_rfl⟩
        exact not_isLocalPath_drive hc
    · rw [Location.parentPath_deep hconcat hinit] at hparent
      cases hparent
      refine iff_of_true ?_ fun hat => ?_
      · refine isLocalPath_of_isPrefix h ?_
        rw [Location.up_text, Location.text, hconcat, List.dropLast_concat, joinSegments,
          joinSegments, Splitting.intercalate_append hinit (List.cons_ne_nil _ _),
          ← List.append_assoc]
        exact List.prefix_append _ _
      · have hlength := hat.2
        rw [hconcat, List.length_append, List.length_singleton] at hlength
        exact hinit (List.eq_nil_of_length_eq_zero (by omega))

/-! ## Chains -/

/-- One step from a path to the next. -/
inductive PathStep where
  | resolve (value : PathText)
  | join (segments : List PathText)
  | parent

/-- The path a step leads to, if it leads to one. -/
def PathStep.apply (path : PathText) : PathStep → Option PathText
  | resolve value => (resolveLocalPath path value).toOption
  | join segments => (joinPath path segments).toOption
  | parent => parentPath path

/-- The step does not ask for the parent of a drive or of what stands directly below one. -/
def PathStep.StaysBelowDrive (path : PathText) (step : PathStep) : Prop :=
  step = .parent → ¬ AtDrive path

/-- **One step** from a local path leads to a local path exactly when it stays below the drives. -/
theorem isLocalPath_step {path' : PathText} {step : PathStep} (h : IsLocalPath path)
    (hstep : step.apply path = some path') :
    IsLocalPath path' ↔ step.StaysBelowDrive path := by
  cases step with
  | resolve value =>
    exact iff_of_true (isLocalPath_of_resolve (toOption_eq_some.1 hstep)) fun heq => (nomatch heq)
  | join segments =>
    exact iff_of_true (isLocalPath_of_join (toOption_eq_some.1 hstep)) fun heq => (nomatch heq)
  | parent =>
    rw [isLocalPath_parent h hstep]
    exact ⟨fun hnot _ => hnot, fun hall => hall rfl⟩

/-- **Workspace paths.**  For a root that was parsed: whatever is bound to it is a fixed point of
`parseLocalPath` inside the root, and is the root or the root followed by its logical path, none of
whose segments is empty, `.` or `..`.  And in a chain of resolutions, joins and parents from a parsed
path, all paths are accepted by `parseLocalPath` and returned unchanged exactly when no step asks for
the parent of a drive or of what stands directly below one. -/
theorem workspace_paths {value root : PathText} (hroot : parseLocalPath value = .ok root) :
    (∀ requested bound, bindWorkspacePath root requested = .ok bound →
      parseLocalPath bound.resolved = .ok bound.resolved
        ∧ isInside root bound.resolved = true
        ∧ (bound.resolved = root ∧ bound.logical = []
          ∨ bound.resolved = below root ++ bound.logical
            ∧ ∀ segment ∈ bound.logical.splitOn '/',
              segment ≠ [] ∧ segment ≠ ['.'] ∧ segment ≠ ['.', '.']))
      ∧ ∀ steps path, StateMachine.run (fun path step => PathStep.apply path step) root steps
          = some path →
        ((∀ k path', StateMachine.run (fun path step => PathStep.apply path step) root
            (steps.take k) = some path' → parseLocalPath path' = .ok path')
          ↔ StateMachine.Along (fun path step => PathStep.apply path step)
              PathStep.StaysBelowDrive root steps) := by
  have hlocal := isLocalPath_of_parse hroot
  constructor
  · intro requested bound hbound
    rcases bindWorkspacePath_ok hbound with ⟨hself, hlogical⟩ | ⟨hresolved, hinside, hlogical⟩
    · rw [hself, hlogical]
      exact ⟨isLocalPath_iff.1 hlocal, by simp [isInside], .inl ⟨rfl, rfl⟩⟩
    · refine ⟨isLocalPath_iff.1 hresolved, hinside, ?_⟩
      rw [hlogical]
      rcases logical_of_inside hlocal hresolved hinside with hself | ⟨heq, hproper⟩
      · exact .inl hself
      · exact .inr ⟨heq, fun segment hmem =>
          ⟨(hproper segment hmem).nonempty, (hproper segment hmem).not_dot,
            (hproper segment hmem).not_dots⟩⟩
  · intro steps path hrun
    refine StateMachine.run_take_iff_along (I := fun p : PathText => parseLocalPath p = .ok p) ?_
      (isLocalPath_iff.1 hlocal) hrun
    intro p step p' hp hstep
    rw [← isLocalPath_iff] at hp ⊢
    exact isLocalPath_step hp hstep

theorem workspace_paths_home :
    parseLocalPath "/home/./user//site".toList = .ok "/home/user/site".toList
      ∧ ∀ requested bound, bindWorkspacePath "/home/user/site".toList requested = .ok bound →
        isInside "/home/user/site".toList bound.resolved = true :=
  ⟨by decide +kernel, fun requested bound hbound =>
    ((@workspace_paths "/home/./user//site".toList _ (by decide +kernel)).1 requested bound
      hbound).2.1⟩

/-- The parent of `C:/src` is `C:`, which is no path. -/
theorem parent_leaves_drive :
    parseLocalPath "C:\\src".toList = .ok "C:/src".toList
      ∧ parentPath "C:/src".toList = some "C:".toList
      ∧ parseLocalPath "C:".toList = .error .pathNotAbsolute := by
  decide +kernel

end Falryn.Workspace.Paths
