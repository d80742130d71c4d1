import Falryn.Workspace.PatchOrder
import Falryn.Workspace.TextLines

/-!
# Staging a patch target

What `stageTarget` and `readChangedRegions` do with one file (`application/workspace/workspace-patch.ts`):
bind the requested path, look at what it names, read it, and either compute the bytes a patch would
leave or show the lines of a region.

A file system is what its paths name and what its files hold.  Which of the calls on it fail is an
argument, so that a theorem about these functions speaks of every pattern of failures.
-/

namespace Falryn.Workspace

/-! ## Files -/

inductive FileSystemErrorCode where
  | notFound | notADirectory | permissionDenied | notEmpty | rangeOutOfBounds | oversized
  | malformedEncoding | staleWrite | staleRead | publicationUncertain | ioFailure | unsupported
  | crossDevice | cancelled

inductive FileKind where
  | directory | file | symlink | other
  deriving DecidableEq

/-- `PathEntry`, as far as a patch looks at it. -/
structure PathEntry where
  kind : FileKind
  revision : String

/-- What paths name and what files hold.  A file is known by its real path. -/
structure FileSystem where
  /-- Every symlink of a path resolved. -/
  realOf : String → Option String
  /-- What a path names, a final symlink not followed. -/
  entryOf : String → Option PathEntry
  contents : String → Option ByteArray

namespace FileSystem

/-- What the file a path names holds. -/
def bytesAt (fs : FileSystem) (path : String) : Option ByteArray := (fs.realOf path).bind fs.contents

/-- `realPath`, failing as told. -/
def realPath (fs : FileSystem) (fault : Option FileSystemErrorCode) (path : String) :
    Except FileSystemErrorCode String :=
  match fault with
  | some code => .error code
  | none => (fs.realOf path).elim (.error .notFound) .ok

def stat (fs : FileSystem) (fault : Option FileSystemErrorCode) (path : String) :
    Except FileSystemErrorCode (Option PathEntry) :=
  match fault with
  | some code => .error code
  | none => .ok (fs.entryOf path)

def readBytes (fs : FileSystem) (fault : Option FileSystemErrorCode) (path : String)
    (maximumBytes : ℕ) : Except FileSystemErrorCode ByteArray :=
  match fault with
  | some code => .error code
  | none =>
    match fs.bytesAt path with
    | none => .error .notFound
    | some bytes => if bytes.size > maximumBytes then .error .oversized else .ok bytes

end FileSystem

/-! ## Refusals -/

/-- `WorkspacePatchError`, the refusals of the hunks and of their parser in one. -/
inductive PatchRefusal where
  | hunks (error : WorkspacePatchError)
  | malformedPolicy
  | malformedPlanId
  | malformedPath (reason : String)
  | escaped
  | absoluteUnscoped
  | symlinkEscape
  | notFound
  | notAFile
  | digestMismatch
  | revisionMismatch
  | cancelled
  | unsupported
  | stalePlan
  | overlappingTargets (reason : String)
  | dependencyChanged (index : ℕ)
  | oversized (byteLength : ℕ)
  | aggregateLimit
  | planRefused
  | malformedRange
  | filesystem (reason : FileSystemErrorCode)
  | git (reason : String)

def fromFilesystem : FileSystemErrorCode → PatchRefusal
  | .cancelled => .cancelled
  | .notFound => .notFound
  | .notADirectory => .notAFile
  | .oversized => .oversized 0
  | .malformedEncoding => .unsupported
  | code => .filesystem code

/-- A call on the file system in a function that refuses as a patch does. -/
def filed {α : Type} (answer : Except FileSystemErrorCode α) : Except PatchRefusal α :=
  answer.mapError fromFilesystem

theorem mapError_ok {ε ε' α : Type} {answer : Except ε α} {f : ε → ε'} {a : α} :
    answer.mapError f = .ok a ↔ answer = .ok a := by
  rcases answer with _ | _
  · exact ⟨fun h => (nomatch h), fun h => (nomatch h)⟩
  · exact ⟨fun h => congrArg _ (Except.ok.inj h), fun h => congrArg _ (Except.ok.inj h)⟩

/-! ## Binding -/

/-- `BoundWorkspacePath`, under a root. -/
structure BoundWorkspacePath where
  requested : String
  resolved : String
  logical : String

/-- A workspace root: how paths are bound under it, lexically, and which paths are inside it. -/
structure PatchRoot where
  bindWorkspacePath : String → Except PatchRefusal BoundWorkspacePath
  isInside : String → Bool

/-- What goes wrong while one path is bound. -/
structure BindFaults where
  aborted : Bool := false
  realPath : Option FileSystemErrorCode := none

/-- `bindExistingFile`.  What is returned is the lexical binding. -/
def bindExistingFile (fs : FileSystem) (root : PatchRoot) (faults : BindFaults) (value : String) :
    Except PatchRefusal BoundWorkspacePath := do
  let lexical ← root.bindWorkspacePath value
  refuseIf (faults.aborted = true) .cancelled
  let real ← filed (fs.realPath faults.realPath lexical.resolved)
  refuseIf (root.isInside real = false) .symlinkEscape
  return lexical

/-! ## Staging -/

/-- What goes wrong while one target is staged. -/
structure StageFaults where
  abortedBefore : Bool := false
  binding : BindFaults := {}
  abortedAfter : Bool := false
  stat : Option FileSystemErrorCode := none
  read : Option FileSystemErrorCode := none

structure StagedTarget where
  target : ParsedPatchTarget
  bound : BoundWorkspacePath
  bytes : ByteArray
  originalBytes : ByteArray
  regions : List LineRange
  hunks : List PatchHunkPreview

/-- What is at a path must be a file. -/
def existingFile : Option PathEntry → Except PatchRefusal PathEntry
  | none => .error .notFound
  | some entry => if entry.kind ≠ .file then .error .notAFile else .ok entry

/-- The text of a file a patch takes, and its encoding. -/
def decodedText (bytes : ByteArray) : Except PatchRefusal DecodedWorkspaceText :=
  match decodeWorkspaceText bytes with
  | none => .error .unsupported
  | some decoded => .ok decoded

section Digests

variable (sha256 : ByteArray → String)

def digestOf (bytes : ByteArray) : String := "sha-256:" ++ sha256 bytes

/-- The hexadecimal digest of a text. -/
def textDigest (text : String) : String := sha256 text.toUTF8

/-- From the bytes of a bound target on: what a patch makes of them. -/
def stageBytes (target : ParsedPatchTarget) (bound : BoundWorkspacePath) (maxFileBytes : ℕ)
    (raw : ByteArray) : Except PatchRefusal StagedTarget := do
  let decoded ← decodedText raw
  -- Staged bytes are encoded as UTF-8 again, so only UTF-8 files keep their encoding.
  refuseIf (decoded.encoding ≠ .utf8 ∧ decoded.encoding ≠ .utf8Bom) .unsupported
  refuseIf (isBinaryText decoded.text = true) .unsupported
  let newline := detectNewline decoded.text
  refuseIf (newline = .mixed) .unsupported
  let trailingNewline := endsInBreak decoded.text
  let applied ← (applyPatchHunks (textDigest sha256) (splitLines decoded.text) target.hunks).mapError
    .hunks
  let bytes := encoded decoded.encoding (joinPatchedLines applied.lines (markOf newline) trailingNewline)
  refuseIf (bytes.size > maxFileBytes) (.oversized bytes.size)
  return { target, bound, bytes, originalBytes := raw, regions := applied.regions,
           hunks := applied.hunks }

/-- `stageTarget` after the target is bound. -/
def stageBound (fs : FileSystem) (faults : StageFaults) (target : ParsedPatchTarget)
    (bound : BoundWorkspacePath) (maxFileBytes : ℕ) : Except PatchRefusal StagedTarget := do
  refuseIf (faults.abortedAfter = true) .cancelled
  let stated ← filed (fs.stat faults.stat bound.resolved)
  let entry ← existingFile stated
  refuseIf (target.expectedRevision ≠ none ∧ target.expectedRevision ≠ some entry.revision)
    .revisionMismatch
  let raw ← filed (fs.readBytes faults.read bound.resolved maxFileBytes)
  refuseIf (target.expectedDigest ≠ none ∧ target.expectedDigest ≠ some (digestOf sha256 raw))
    .digestMismatch
  stageBytes sha256 target bound maxFileBytes raw

/-- `stageTarget`; a refusal comes with the path when it was bound. -/
def stageTarget (fs : FileSystem) (root : PatchRoot) (faults : StageFaults)
    (target : ParsedPatchTarget) (maxFileBytes : ℕ) :
    Except (PatchRefusal × Option BoundWorkspacePath) StagedTarget :=
  match bindExistingFile fs root faults.binding target.path with
  | .error refusal => .error (refusal, none)
  | .ok bound =>
    (stageBound sha256 fs faults target bound maxFileBytes).mapError (·, some bound)

/-! ## Changed regions -/

structure NumberedLine where
  number : ℕ
  text : String

def numberLines (text : String) : List NumberedLine :=
  ((splitLines text).zipIdx 1).map fun line => ⟨line.2, line.1⟩

/-- `applyLineRange`; what else it returns is not looked at here. -/
def applyLineRange (text : String) (range : LineRange) : Except PatchRefusal (List NumberedLine) :=
  if range.start < 1 ∨ range.stop < range.start then .error .malformedRange
  else .ok ((numberLines text).filter fun line =>
    decide (range.start ≤ line.number) && decide (line.number ≤ range.stop))

/-- `MAX_CHANGED_REGION_LINES`. -/
def maxChangedRegionLines : ℕ := 256

structure WorkspacePatchChangedRegion where
  range : LineRange
  lines : List NumberedLine
  truncated : Bool

def linesForChangedRegion (text : String) (range : LineRange) :
    Except PatchRefusal WorkspacePatchChangedRegion :=
  if range.start < 1 ∨ range.stop < range.start then .error .malformedRange
  else if range.stop = range.start then .ok ⟨range, [], false⟩
  else do
    let sliced ← applyLineRange text ⟨range.start, range.stop - 1⟩
    if sliced.length ≤ maxChangedRegionLines then return ⟨range, sliced, false⟩
    else return ⟨range, sliced.take maxChangedRegionLines, true⟩

structure ParsedPatchChangedRegionRead where
  path : String
  expectedDigest : Option String
  expectedRevision : Option String
  maxFileBytes : ℕ
  regions : List LineRange

structure WorkspacePatchChangedRegionRead where
  path : String
  bound : BoundWorkspacePath
  digest : String
  revision : String
  regions : List WorkspacePatchChangedRegion

/-- The regions of a file, from its bytes on. -/
def changedRegions (raw : ByteArray) (ranges : List LineRange) :
    Except PatchRefusal (List WorkspacePatchChangedRegion) := do
  let decoded ← decodedText raw
  refuseIf (isBinaryText decoded.text = true ∨ detectNewline decoded.text = .mixed) .unsupported
  ranges.mapM (linesForChangedRegion decoded.text)

def readPatchChangedRegions (fs : FileSystem) (root : PatchRoot) (faults : StageFaults)
    (request : ParsedPatchChangedRegionRead) :
    Except PatchRefusal WorkspacePatchChangedRegionRead := do
  let bound ← bindExistingFile fs root faults.binding request.path
  refuseIf (faults.abortedAfter = true) .cancelled
  let stated ← filed (fs.stat faults.stat bound.resolved)
  let entry ← existingFile stated
  refuseIf (request.expectedRevision ≠ none ∧ request.expectedRevision ≠ some entry.revision)
    .revisionMismatch
  let raw ← filed (fs.readBytes faults.read bound.resolved request.maxFileBytes)
  let digest := digestOf sha256 raw
  refuseIf (request.expectedDigest ≠ none ∧ request.expectedDigest ≠ some digest) .digestMismatch
  let regions ← changedRegions raw request.regions
  return { path := request.path, bound, digest, revision := entry.revision, regions }

end Digests

end Falryn.Workspace
