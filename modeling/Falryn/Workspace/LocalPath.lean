import Falryn.Lib.Splitting

/-!
# Local paths

The textual path rules of `domain/workspace/filesystem/contracts.ts`.  A path is absolute and
forward-slashed: it begins with `/` or with a drive, and `normalize` collapses its separators, `.` and
`..` without touching the disk.  Above the functions stands what such a text says: a `Location`, a
volume and the names below it.  `parseLocalPath` accepts a text and returns it unchanged exactly when
it is the text of a location that is not too long.
-/

namespace Falryn.Workspace.Paths

/-! ## The functions -/

/-- A path as its characters. -/
abbrev PathText := List Char

/-- `MAX_LOCAL_PATH_LENGTH`. -/
def maxLocalPathLength : ℕ := 1024

/-- `LocalPathErrorCode`, of a string. -/
inductive LocalPathErrorCode where
  | pathEmpty
  | pathTooLong
  | pathNotAbsolute
  | pathIllegalCharacter
  | pathEscapesRoot
  deriving DecidableEq

/-- The UTF-16 code units of a character. -/
def codeUnitsOf (c : Char) : ℕ := if c.val < 0x10000 then 1 else 2

/-- `value.length`. -/
def textLength (value : PathText) : ℕ := Splitting.weight codeUnitsOf value

/-- `value.replace(/\\/g, "/")`. -/
def forwardSlashes (value : PathText) : PathText := value.map fun c => if c = '\\' then '/' else c

/-- `WINDOWS_ROOT`: what it matches at the beginning of a text. -/
def windowsRoot : PathText → Option PathText
  | letter :: ':' :: '/' :: _ => if letter.isAlpha then some [letter, ':', '/'] else none
  | _ => none

def isAbsolute (value : PathText) : Bool := value.head? = some '/' || (windowsRoot value).isSome

/-- One segment in the loop of `normalize`. -/
def collapse (segments : List PathText) (segment : PathText) : List PathText :=
  if segment = [] ∨ segment = ['.'] then segments
  else if segment = ['.', '.'] then segments.dropLast
  else segments ++ [segment]

/-- `segments.join("/")`. -/
def joinSegments (segments : List PathText) : PathText := ['/'].intercalate segments

def normalize (value : PathText) : PathText :=
  let forward := forwardSlashes value
  match windowsRoot forward with
  | none => '/' :: joinSegments (((forward.drop 1).splitOn '/').foldl collapse [])
  | some root => root ++ joinSegments (((forward.drop root.length).splitOn '/').foldl collapse [])

def localPathTextError (value : PathText) : Option LocalPathErrorCode :=
  if value = [] then some .pathEmpty
  else if maxLocalPathLength < textLength value then some .pathTooLong
  else if '\x00' ∈ value then some .pathIllegalCharacter
  else none

def parseLocalPath (value : PathText) : Except LocalPathErrorCode PathText :=
  match localPathTextError value with
  | some error => .error error
  | none =>
    if isAbsolute (forwardSlashes value) then .ok (normalize value) else .error .pathNotAbsolute

def resolveLocalPath (base value : PathText) : Except LocalPathErrorCode PathText :=
  match localPathTextError value with
  | some error => .error error
  | none =>
    parseLocalPath (if isAbsolute (forwardSlashes value) then value else base ++ '/' :: value)

/-- What `joinPath` has against a segment. -/
def segmentError (segment : PathText) : Option LocalPathErrorCode :=
  if segment = [] ∨ segment = ['.'] ∨ segment = ['.', '.'] then some .pathEscapesRoot
  else if '/' ∈ segment ∨ '\\' ∈ segment then some .pathEscapesRoot
  else if '\x00' ∈ segment then some .pathIllegalCharacter
  else none

def joinPath (base : PathText) (segments : List PathText) : Except LocalPathErrorCode PathText :=
  match segments.findSome? segmentError with
  | some error => .error error
  | none => parseLocalPath (base ++ '/' :: joinSegments segments)

/-- `path.lastIndexOf(c)`. -/
def lastIndexOf (c : Char) : PathText → Option ℕ
  | [] => none
  | d :: path =>
    match lastIndexOf c path with
    | some index => some (index + 1)
    | none => if d = c then some 0 else none

def parentPath (path : PathText) : Option PathText :=
  match lastIndexOf '/' path with
  | none => none
  | some index =>
    if path = ['/'] then none else some (if index = 0 then ['/'] else path.take index)

/-- What everything below a root begins with. -/
def below (root : PathText) : PathText := if root.getLast? = some '/' then root else root ++ ['/']

def isInside (root candidate : PathText) : Bool :=
  candidate = root || (below root).isPrefixOf candidate

/-! ## Locations -/

/-- A name that a path can go through. -/
structure ProperSegment (segment : PathText) : Prop where
  nonempty : segment ≠ []
  not_dot : segment ≠ ['.']
  not_dots : segment ≠ ['.', '.']
  no_slash : '/' ∉ segment
  no_backslash : '\\' ∉ segment

/-- What a path says: the drive, if there is one, and the names below it. -/
structure Location where
  drive : Option Char
  segments : List PathText
  letter : ∀ c, drive = some c → c.isAlpha = true
  proper : ∀ segment ∈ segments, ProperSegment segment

namespace Location

/-- The root of the volume. -/
def volume (location : Location) : PathText :=
  match location.drive with
  | none => ['/']
  | some c => [c, ':', '/']

/-- The text of a location. -/
def text (location : Location) : PathText := location.volume ++ joinSegments location.segments

end Location

/-! ## Normal forms -/

theorem collapse_proper {segment : PathText} (h : ProperSegment segment) (segments : List PathText) :
    collapse segments segment = segments ++ [segment] := by
  rw [collapse, if_neg (not_or.2 ⟨h.nonempty, h.not_dot⟩), if_neg h.not_dots]

/-- Proper segments stay as they are. -/
theorem foldl_collapse_proper {more : List PathText} (h : ∀ segment ∈ more, ProperSegment segment)
    (segments : List PathText) : more.foldl collapse segments = segments ++ more := by
  induction more generalizing segments with
  | nil => exact (List.append_nil _).symm
  | cons segment more ih =>
    rw [List.foldl_cons, collapse_proper (h segment List.mem_cons_self),
      ih fun s hs => h s (List.mem_cons_of_mem _ hs), List.append_assoc, List.singleton_append]

variable {pieces : List PathText}

/-- Every segment that is left is proper. -/
theorem proper_foldl_collapse (h : ∀ piece ∈ pieces, '/' ∉ piece ∧ '\\' ∉ piece) :
    ∀ {segments : List PathText}, (∀ segment ∈ segments, ProperSegment segment) →
      ∀ segment ∈ pieces.foldl collapse segments, ProperSegment segment := by
  induction pieces with
  | nil => exact fun hsegments => hsegments
  | cons piece pieces ih =>
    intro segments hsegments
    obtain ⟨hpiece, hpieces⟩ := List.forall_mem_cons.1 h
    refine ih hpieces fun segment hmem => ?_
    unfold collapse at hmem
    split_ifs at hmem with hskip hdots
    · exact hsegments segment hmem
    · exact hsegments segment (List.dropLast_subset _ hmem)
    · rcases List.mem_append.1 hmem with hold | hnew
      · exact hsegments segment hold
      · rw [List.mem_singleton.1 hnew]
        rw [not_or] at hskip
        exact ⟨hskip.1, hskip.2, hdots, hpiece.1, hpiece.2⟩

/-- A segment that is left was a piece. -/
theorem mem_foldl_collapse : ∀ {segments : List PathText} {segment : PathText},
    segment ∈ pieces.foldl collapse segments → segment ∈ segments ∨ segment ∈ pieces := by
  induction pieces with
  | nil => exact fun h => .inl h
  | cons _ pieces ih =>
    intro segments segment h
    rcases ih h with hmem | hmem
    · unfold collapse at hmem
      split_ifs at hmem
      · exact .inl hmem
      · exact .inl (List.dropLast_subset _ hmem)
      · rcases List.mem_append.1 hmem with hold | hnew
        · exact .inl hold
        · exact .inr (List.mem_cons.2 (.inl (List.mem_singleton.1 hnew)))
    · exact .inr (List.mem_cons_of_mem _ hmem)

/-- Collapsing makes a path lighter. -/
theorem separatedWeight_foldl_collapse (weigh : Char → ℕ) (pieces segments : List PathText) :
    Splitting.separatedWeight weigh '/' (pieces.foldl collapse segments)
      ≤ Splitting.separatedWeight weigh '/' segments
        + Splitting.separatedWeight weigh '/' pieces := by
  induction pieces generalizing segments with
  | nil => exact le_rfl
  | cons piece pieces ih =>
    have hstep : Splitting.separatedWeight weigh '/' (collapse segments piece)
        ≤ Splitting.separatedWeight weigh '/' segments
          + (Splitting.weight weigh piece + weigh '/') := by
      unfold collapse Splitting.separatedWeight
      split_ifs
      · omega
      · refine le_trans (List.Sublist.sum_le_sum ((List.dropLast_sublist segments).map _) ?_) ?_
        · exact fun n _ => Nat.zero_le n
        · omega
      · rw [List.map_append, List.sum_append]
        simp
    have hrest := ih (collapse segments piece)
    rw [List.foldl_cons]
    have hcons : Splitting.separatedWeight weigh '/' (piece :: pieces)
        = Splitting.weight weigh piece + weigh '/'
          + Splitting.separatedWeight weigh '/' pieces := List.sum_cons
    omega

variable {value : PathText} {c : Char}

theorem forwardSlashes_eq_self (h : '\\' ∉ value) : forwardSlashes value = value := by
  refine (List.map_congr_left fun _ hc => if_neg ?_).trans (List.map_id value)
  rintro rfl
  exact h hc

theorem no_backslash_forwardSlashes (value : PathText) : '\\' ∉ forwardSlashes value := by
  intro h
  obtain ⟨c, _, hc⟩ := List.mem_map.1 h
  split_ifs at hc with hback
  · exact absurd hc (by decide)
  · exact hback hc

/-- Turning the slashes adds no character but the slash. -/
theorem mem_forwardSlashes (h : c ∈ forwardSlashes value) : c = '/' ∨ c ∈ value := by
  obtain ⟨d, hd, heq⟩ := List.mem_map.1 h
  split_ifs at heq
  · exact .inl heq.symm
  · exact .inr (heq ▸ hd)

theorem textLength_forwardSlashes (value : PathText) :
    textLength (forwardSlashes value) = textLength value := by
  rw [textLength, Splitting.weight, forwardSlashes, List.map_map, textLength, Splitting.weight]
  congr 2
  funext c
  show codeUnitsOf (if c = '\\' then '/' else c) = codeUnitsOf c
  split_ifs with hc
  · rw [hc]
    rfl
  · rfl

theorem windowsRoot_some {root : PathText} (h : windowsRoot value = some root) :
    ∃ c, c.isAlpha = true ∧ root = [c, ':', '/'] ∧ value = root ++ value.drop 3 := by
  unfold windowsRoot at h
  split at h
  · rename_i c _
    split_ifs at h with hc
    cases h
    exact ⟨c, hc, rfl, rfl⟩
  · cases h

theorem alpha_ne (h : c.isAlpha = true) : c ≠ '/' ∧ c ≠ '\\' ∧ c ≠ '\x00' :=
  ⟨fun heq => absurd (heq ▸ h) (by decide), fun heq => absurd (heq ▸ h) (by decide),
    fun heq => absurd (heq ▸ h) (by decide)⟩

namespace Location

variable (location : Location)

theorem volume_cases : location.drive = none ∧ location.volume = ['/']
    ∨ ∃ c, c.isAlpha = true ∧ location.drive = some c ∧ location.volume = [c, ':', '/'] := by
  rw [volume]
  cases hdrive : location.drive with
  | none => exact .inl ⟨rfl, rfl⟩
  | some c => exact .inr ⟨c, location.letter c hdrive, rfl, rfl⟩

theorem windowsRoot_text : windowsRoot location.text
    = match location.drive with
      | none => none
      | some _ => some location.volume := by
  rw [text, volume]
  cases hdrive : location.drive with
  | none =>
    show windowsRoot ('/' :: joinSegments location.segments) = none
    unfold windowsRoot
    split
    · rename_i heq
      rw [List.cons.injEq] at heq
      rw [← heq.1]
      rfl
    · rfl
  | some c =>
    show windowsRoot (c :: ':' :: '/' :: joinSegments location.segments) = some [c, ':', '/']
    rw [windowsRoot, if_pos (location.letter c hdrive)]

theorem no_backslash_text : '\\' ∉ location.text := by
  intro h
  rcases List.mem_append.1 h with h | h
  · rcases location.volume_cases with ⟨_, hvolume⟩ | ⟨c, hc, _, hvolume⟩
    · rw [hvolume] at h
      exact absurd (List.mem_singleton.1 h) (by decide)
    · rw [hvolume] at h
      rcases List.mem_cons.1 h with rfl | h
      · exact (alpha_ne hc).2.1 rfl
      · exact absurd h (by decide)
  · rcases Splitting.mem_of_mem_intercalate h with h | ⟨segment, hmem, h⟩
    · exact absurd h (by decide)
    · exact (location.proper segment hmem).no_backslash h

/-- Joined segments come apart again, and collapsing keeps them. -/
theorem foldl_collapse_join :
    ((joinSegments location.segments).splitOn '/').foldl collapse [] = location.segments := by
  by_cases h : location.segments = []
  · rw [h]
    rfl
  · rw [joinSegments, List.splitOn_intercalate '/'
      (fun segment hmem => (location.proper segment hmem).no_slash) h,
      foldl_collapse_proper location.proper]
    rfl

/-- **The text of a location is normal.** -/
theorem normalize_text : normalize location.text = location.text := by
  unfold normalize
  rw [forwardSlashes_eq_self location.no_backslash_text]
  dsimp only
  rw [windowsRoot_text]
  rcases location.volume_cases with ⟨hdrive, hvolume⟩ | ⟨c, _, hdrive, hvolume⟩
  · rw [hdrive]
    dsimp only
    rw [text, hvolume]
    show '/' :: joinSegments (((joinSegments location.segments).splitOn '/').foldl collapse []) = _
    rw [foldl_collapse_join]
    rfl
  · rw [hdrive]
    dsimp only
    rw [text, List.drop_left, foldl_collapse_join]

theorem isAbsolute_text : isAbsolute location.text = true := by
  rw [isAbsolute, windowsRoot_text]
  rcases location.volume_cases with ⟨hdrive, hvolume⟩ | ⟨c, _, hdrive, hvolume⟩
  · rw [text, hvolume]
    rfl
  · rw [hdrive]
    simp

end Location

/-! ## What is accepted -/

/-- A path that `parseLocalPath` can return: the text of a location that is not too long. -/
structure IsLocalPath (path : PathText) : Prop where
  location : ∃ location : Location, path = location.text
  short : textLength path ≤ maxLocalPathLength
  no_nul : '\x00' ∉ path

theorem localPathTextError_none (h : localPathTextError value = none) :
    value ≠ [] ∧ textLength value ≤ maxLocalPathLength ∧ '\x00' ∉ value := by
  unfold localPathTextError at h
  split_ifs at h with hempty hlong hnul
  exact ⟨hempty, Nat.not_lt.1 hlong, hnul⟩

/-- Segments below a volume, collapsed, are a location that is no longer than what it was made of. -/
theorem location_of_body (drive : Option Char) (hletter : ∀ c, drive = some c → c.isAlpha = true)
    {body : PathText} (hback : '\\' ∉ body) :
    ∃ location : Location, location.drive = drive
      ∧ location.segments = (body.splitOn '/').foldl collapse []
      ∧ textLength (joinSegments location.segments) ≤ textLength body
      ∧ ('\x00' ∉ body → '\x00' ∉ joinSegments location.segments) := by
  have hpieces : ∀ piece ∈ body.splitOn '/', '/' ∉ piece ∧ '\\' ∉ piece := fun piece hmem =>
    ⟨Splitting.not_mem_of_mem_splitOn hmem, fun h => hback (Splitting.mem_of_mem_splitOn hmem h)⟩
  refine ⟨⟨drive, (body.splitOn '/').foldl collapse [], hletter,
    proper_foldl_collapse hpieces nofun⟩, rfl, rfl, ?_, fun hnul h => ?_⟩
  · show textLength (joinSegments ((body.splitOn '/').foldl collapse [])) ≤ textLength body
    by_cases hempty : (body.splitOn '/').foldl collapse [] = []
    · rw [hempty]
      exact Nat.zero_le _
    · have hle := separatedWeight_foldl_collapse codeUnitsOf (body.splitOn '/') []
      have hjoined := Splitting.weight_intercalate codeUnitsOf '/' hempty
      have hbody := Splitting.weight_intercalate codeUnitsOf '/' (List.splitOn_ne_nil '/' body)
      rw [List.intercalate_splitOn] at hbody
      have hnil : Splitting.separatedWeight codeUnitsOf '/' [] = 0 := rfl
      rw [joinSegments, textLength, textLength]
      omega
  · rcases Splitting.mem_of_mem_intercalate h with h | ⟨segment, hmem, h⟩
    · exact absurd h (by decide)
    · rcases mem_foldl_collapse hmem with hmem | hmem
      · cases hmem
      · exact hnul (Splitting.mem_of_mem_splitOn hmem h)

variable {path : PathText} {base : PathText}

/-- **What is parsed is a local path.** -/
theorem isLocalPath_of_parse (h : parseLocalPath value = .ok path) : IsLocalPath path := by
  unfold parseLocalPath at h
  split at h
  · cases h
  · rename_i herror
    obtain ⟨_, hlength, hnul⟩ := localPathTextError_none herror
    rw [← textLength_forwardSlashes] at hlength
    have hback := no_backslash_forwardSlashes value
    have hnul : '\x00' ∉ forwardSlashes value := fun h =>
      (mem_forwardSlashes h).elim (by decide) hnul
    split_ifs at h with habsolute
    cases h
    unfold normalize
    generalize forwardSlashes value = forward at hlength hback hnul habsolute
    dsimp only
    cases hroot : windowsRoot forward with
    | none =>
      dsimp only
      rw [isAbsolute, hroot, Option.isSome_none, Bool.or_false, decide_eq_true_eq] at habsolute
      obtain ⟨body, rfl⟩ : ∃ body, forward = '/' :: body := by
        rcases forward with _ | ⟨c, body⟩
        · cases habsolute
        · cases habsolute
          exact ⟨body, rfl⟩
      rw [List.mem_cons, not_or] at hback hnul
      obtain ⟨location, hdrive, hsegments, hle, hnone⟩ :=
        location_of_body none nofun hback.2
      have htext : location.text = '/' :: joinSegments ((body.splitOn '/').foldl collapse []) := by
        rw [Location.text, Location.volume, hdrive, hsegments]
        rfl
      rw [List.drop_one, List.tail_cons, ← htext]
      rw [textLength, Splitting.weight_cons, ← textLength] at hlength
      refine ⟨⟨location, rfl⟩, ?_, fun h => ?_⟩
      · rw [htext, ← hsegments, textLength, Splitting.weight_cons, ← textLength]
        omega
      · rw [htext, ← hsegments] at h
        rcases List.mem_cons.1 h with h | h
        · exact hnul.1 h
        · exact hnone hnul.2 h
    | some =>
      dsimp only
      obtain ⟨c, hc, rfl, hforward⟩ := windowsRoot_some hroot
      generalize forward.drop 3 = body at hforward
      rw [hforward, List.mem_append, not_or] at hback hnul
      obtain ⟨location, hdrive, hsegments, hle, hnone⟩ := location_of_body (some c)
        (fun _ hd => by rw [← Option.some.inj hd]; exact hc) hback.2
      have htext : location.text
          = [c, ':', '/'] ++ joinSegments ((body.splitOn '/').foldl collapse []) := by
        rw [Location.text, Location.volume, hdrive, hsegments]
      rw [← htext]
      rw [hforward, textLength, Splitting.weight_append] at hlength
      rw [textLength, textLength] at hle
      refine ⟨⟨location, rfl⟩, ?_, fun h => ?_⟩
      · rw [htext, ← hsegments, textLength, Splitting.weight_append]
        omega
      · rw [htext, ← hsegments] at h
        rcases List.mem_append.1 h with h | h
        · exact hnul.1 h
        · exact hnone hnul.2 h

/-- **A local path is a fixed point of `parseLocalPath`**, and nothing else is. -/
theorem isLocalPath_iff : IsLocalPath path ↔ parseLocalPath path = .ok path := by
  constructor
  · rintro ⟨⟨location, rfl⟩, hshort, hnul⟩
    have hne : location.text ≠ [] := by
      rw [Location.text]
      rcases location.volume_cases with ⟨_, hvolume⟩ | ⟨c, _, _, hvolume⟩ <;>
        rw [hvolume] <;> nofun
    have herror : localPathTextError location.text = none := by
      rw [localPathTextError, if_neg hne, if_neg (Nat.not_lt.2 hshort), if_neg hnul]
    unfold parseLocalPath
    rw [herror]
    dsimp only
    rw [forwardSlashes_eq_self location.no_backslash_text, if_pos location.isAbsolute_text,
      location.normalize_text]
  · exact isLocalPath_of_parse

theorem isLocalPath_of_resolve (h : resolveLocalPath base value = .ok path) : IsLocalPath path := by
  unfold resolveLocalPath at h
  split at h
  · cases h
  · exact isLocalPath_of_parse h

theorem isLocalPath_of_join {segments : List PathText}
    (h : joinPath base segments = .ok path) : IsLocalPath path := by
  unfold joinPath at h
  split at h
  · cases h
  · exact isLocalPath_of_parse h

end Falryn.Workspace.Paths
