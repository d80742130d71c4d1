import Falryn.Foundation.JsValue
import Falryn.Foundation.Result
import Falryn.Lib.Substitution

/-!
# Workspace patch hunks

The parser of one patch target and the application of its hunks to the lines of a file
(`domain/workspace/workspace-patch.ts`).  A hunk names the lines it expects, `oldLines`, the lines
that replace them, and where they stand: by a 1-based `oldStart`, by the `sha-256:` digest of the
expected lines, or by both.

`applyPatchHunks` makes three passes.  `resolvePatchHunkAddresses` finds the line of every hunk that
has only a digest and checks on a sorted copy that no two hunks overlap; `previewHunks` numbers the
hunks in the new text with a running `delta`; `spliceHunks` replaces the lines, last hunk first.  The
last two passes go through the hunks in the order `parseTarget` left them in.

The digest function is a parameter: nothing below depends on which one it is.
-/

namespace Falryn.Workspace

open Substitution (splice)

/-! ## Data -/

/-- `WorkspacePatchLimits`, as far as one target's parser reads them. -/
structure WorkspacePatchLimits where
  maxHunks : ℕ
  maxHunkLines : ℕ

/-- The refusals of the functions of this file. -/
inductive WorkspacePatchError where
  | malformed (reason : String)
  | malformedPlan
  | malformedHunk
  | malformedText
  | malformedDigest
  | malformedRevision
  | malformedLimit (field : String) (reason : String)
  | overlappingHunks
  | conflict (hunkIndex lineStart lineEnd foundCount : ℕ) (found : List String)
  deriving DecidableEq

/-- One parsed hunk.  `oldStart` is missing when only a digest addresses it. -/
structure ParsedPatchHunk where
  index : ℕ
  hunkId : Option String
  oldStart : Option ℕ
  addressDigest : Option String
  oldLines : List String
  newLines : List String
  deriving DecidableEq

/-- One parsed target, with its hunks in the order they are applied in. -/
structure ParsedPatchTarget where
  index : ℕ
  path : String
  expectedDigest : Option String
  expectedRevision : Option String
  hunks : List ParsedPatchHunk

/-- Where a hunk lands in the new text.  The numbers are the code's own, so a wrong running delta
can make them negative. -/
structure PatchHunkPreview where
  index : ℕ
  status : String
  header : String
  oldStart : ℕ
  oldCount : ℕ
  newStart : ℤ
  newCount : ℕ
  deriving DecidableEq

/-- A half-open range of 1-based lines of the new text. -/
structure LineRange where
  start : ℤ
  stop : ℤ
  deriving DecidableEq

structure PatchHunkApplyResult where
  lines : List String
  regions : List LineRange
  hunks : List PatchHunkPreview
  deriving DecidableEq

/-- `MAX_CONFLICT_CONTEXT_LINES`. -/
def maxConflictContextLines : ℕ := 16

/-- `MAX_WRITE_REVISION_LENGTH`. -/
def maxWriteRevisionLength : ℕ := 256

/-! ## Parsing -/

/-- `contentDigest.parse`: `sha-256:` and 64 lowercase hexadecimal digits. -/
def parseContentDigest : JsValue → Option String
  | .string text =>
    let digits := text.toList.drop 8
    if text.toList.take 8 = "sha-256:".toList ∧ digits.length = 64
        ∧ digits.all (fun c => c.isDigit || ('a' ≤ c && c ≤ 'f')) then
      some text
    else none
  | _ => none

def parsePath : JsValue → Except WorkspacePatchError String
  | .string text =>
    if utf16Length text = 0 then .error (.malformed "path-empty")
    else if includesChar text '\x00' then .error (.malformed "path-illegal-character")
    else .ok text
  | _ => .error (.malformed "path-not-a-string")

/-- One entry of `parseLineList`. -/
def parseLine : JsValue → Except WorkspacePatchError String
  | .string line =>
    if includesChar line '\x00' || includesChar line '\n' || includesChar line '\r' then
      .error .malformedText
    else .ok line
  | _ => .error .malformedText

def parseLineList : JsValue → Except WorkspacePatchError (List String)
  | .array items => items.mapM parseLine
  | _ => .error .malformedHunk

/-- The optional hunk identity of `parseHunk`: `id`, or else `hunkId`. -/
def parseHunkId (value : JsValue) : Except WorkspacePatchError (Option String) :=
  if (value.field "id").isUndefined && (value.field "hunkId").isUndefined then .ok none
  else match (value.field "id").orElse (value.field "hunkId") with
    | .string raw =>
      if utf16Length raw = 0 || utf16Length raw > 128 || includesChar raw '\x00' then
        .error .malformedHunk
      else .ok (some raw)
    | _ => .error .malformedHunk

/-- An optional `sha-256:` digest field. -/
def parseOptionalDigest (value : JsValue) : Except WorkspacePatchError (Option String) :=
  if value.isUndefined then .ok none
  else match parseContentDigest value with
    | some digest => .ok (some digest)
    | none => .error .malformedDigest

/-- The optional 1-based line of `parseHunk`. -/
def parseOldStart (value : JsValue) : Except WorkspacePatchError (Option ℕ) :=
  if value.isUndefined then .ok none
  else match value.safeInteger? with
    | some n => if n < 1 then .error .malformedHunk else .ok (some n.toNat)
    | none => .error .malformedHunk

def parseHunk (value : JsValue) (index maxHunkLines : ℕ) :
    Except WorkspacePatchError ParsedPatchHunk := do
  refuseIf (value.isRecord = false) .malformedHunk
  let oldLines ← parseLineList (value.field "oldLines")
  let newLines ← parseLineList (value.field "newLines")
  refuseIf (oldLines.length = 0 ∧ newLines.length = 0) .malformedHunk
  refuseIf (oldLines.length > maxHunkLines ∨ newLines.length > maxHunkLines)
    (.malformedLimit "maxHunkLines" "above-hard-maximum")
  let hunkId ← parseHunkId value
  let addressDigest ← parseOptionalDigest (value.field "addressDigest")
  let oldStart ← parseOldStart (value.field "oldStart")
  refuseIf (oldStart = none ∧ addressDigest = none) .malformedHunk
  -- inserts need an explicit line: a digest of the empty preimage is ambiguous
  refuseIf (oldStart = none ∧ oldLines.length = 0) .malformedHunk
  return { index, hunkId, oldStart, addressDigest, oldLines, newLines }

/-- The loop of `parseTarget` over its hunks, with the index of the first of them. -/
def parseHunks (maxHunkLines : ℕ) : ℕ → List JsValue →
    Except WorkspacePatchError (List ParsedPatchHunk)
  | _, [] => .ok []
  | index, value :: values => do
    let hunk ← parseHunk value index maxHunkLines
    let hunks ← parseHunks maxHunkLines (index + 1) values
    return hunk :: hunks

/-- The comparator `parseTarget` sorts by: explicit lines first and ascending, then the hunks that
only have a digest, in the order they were listed in. -/
def compareParsed (left right : ParsedPatchHunk) : ℤ :=
  match left.oldStart, right.oldStart with
  | none, none => (left.index : ℤ) - right.index
  | none, some _ => 1
  | some _, none => -1
  | some l, some r => (l : ℤ) - r

def hunksOverlap (left right : ParsedPatchHunk) : Bool :=
  match left.oldStart, right.oldStart with
  | some l, some r =>
    let leftInsert := left.oldLines.length = 0
    let rightInsert := right.oldLines.length = 0
    let leftEnd := if leftInsert then l else l + left.oldLines.length
    let rightEnd := if rightInsert then r else r + right.oldLines.length
    if leftInsert ∧ rightInsert then l = r
    else if leftInsert then decide (l ≥ r ∧ l < rightEnd)
    else if rightInsert then decide (r ≥ l ∧ r < leftEnd)
    else decide (l < rightEnd ∧ r < leftEnd)
  | _, _ => false

/-- Whether some hunk overlaps its successor. -/
def adjacentOverlap : List ParsedPatchHunk → Bool
  | previous :: current :: rest =>
    (previous.oldStart.isSome && current.oldStart.isSome && hunksOverlap previous current)
      || adjacentOverlap (current :: rest)
  | _ => false

/-- The optional revision of `parseTarget`. -/
def parseRevision (value : JsValue) : Except WorkspacePatchError (Option String) :=
  if value.isUndefined then .ok none
  else match value with
    | .string text =>
      if utf16Length text = 0 || utf16Length text > maxWriteRevisionLength
          || includesChar text '\x00' then
        .error .malformedRevision
      else .ok (some text)
    | _ => .error .malformedRevision

/-- The hunk array of `parseTarget`, which may not be empty. -/
def hunkItems : JsValue → Except WorkspacePatchError (List JsValue)
  | .array [] => .error .malformedHunk
  | .array items => .ok items
  | _ => .error .malformedHunk

def parseTarget (value : JsValue) (index : ℕ) (limits : WorkspacePatchLimits) :
    Except WorkspacePatchError ParsedPatchTarget := do
  refuseIf (value.isRecord = false) .malformedPlan
  let path ← parsePath (value.field "path")
  let items ← hunkItems (value.field "hunks")
  refuseIf (items.length > limits.maxHunks) (.malformedLimit "maxHunks" "above-hard-maximum")
  let hunks ← parseHunks limits.maxHunkLines 0 items
  let ordered := hunks.mergeSort fun left right => compareParsed left right ≤ 0
  refuseIf (adjacentOverlap ordered = true) .overlappingHunks
  let expectedDigest ← parseOptionalDigest (value.field "expectedDigest")
  let expectedRevision ← parseRevision (value.field "expectedRevision")
  return { index, path, expectedDigest, expectedRevision, hunks := ordered }

/-! ## Resolving addresses -/

section Apply

/-- `digestOfPatchOldLines`, over the hexadecimal SHA-256 of a UTF-8 text. -/
def digestOfPatchOldLines (sha256 : String → String) (oldLines : List String) : String :=
  "sha-256:" ++ sha256 ("\n".intercalate oldLines)

/-- `lines.slice(start, start + count)`. -/
def sliceLines (lines : List String) (start count : ℕ) : List String :=
  (lines.drop start).take count

/-- The `conflict` refusal, with the lines found where the hunk pointed (`conflictContext`). -/
def conflictAt (lines : List String) (hunkIndex start count : ℕ) : WorkspacePatchError :=
  let startIndex := start - 1
  let available := lines.length - startIndex
  let found := sliceLines lines startIndex
    (min (min (max count 1) available) maxConflictContextLines)
  .conflict hunkIndex start (start + found.length) found.length found

/-- The 1-based lines at which `needle` occurs. -/
def matchesOf (lines needle : List String) : List ℕ :=
  ((List.range (lines.length + 1)).filter fun start =>
    start + needle.length ≤ lines.length
      && sliceLines lines start needle.length = needle).map (· + 1)

variable (sha256 : String → String)

/-- Whether the digest a hunk names is the digest of `text`; a hunk that names none passes. -/
def addressMatches (hunk : ParsedPatchHunk) (text : List String) : Bool :=
  match hunk.addressDigest with
  | some address => digestOfPatchOldLines sha256 text = address
  | none => true

/-- One round of the loop of `resolvePatchHunkAddresses`. -/
def resolveHunk (lines : List String) (hunk : ParsedPatchHunk) :
    Except WorkspacePatchError ParsedPatchHunk := do
  let oldCount := hunk.oldLines.length
  refuseIf (addressMatches sha256 hunk hunk.oldLines = false)
    (conflictAt lines hunk.index (hunk.oldStart.getD 1) (max 1 oldCount))
  match hunk.oldStart with
  | some start =>
    if hunk.addressDigest.isSome ∧ oldCount > 0 then
      refuseIf (start = 0 ∨ start - 1 + oldCount > lines.length)
        (conflictAt lines hunk.index start oldCount)
      refuseIf (addressMatches sha256 hunk (sliceLines lines (start - 1) oldCount) = false)
        (conflictAt lines hunk.index start oldCount)
      return hunk
    else return hunk
  | none =>
    match matchesOf lines hunk.oldLines with
    | [start] => return { hunk with oldStart := some start }
    | starts => throw (conflictAt lines hunk.index (starts.headD 1) (max 1 oldCount))

/-- `resolvePatchHunkAddresses`.  The overlap check is made on a copy sorted by line; the hunks
themselves are returned in the order they came in. -/
def resolvePatchHunkAddresses (lines : List String) (hunks : List ParsedPatchHunk) :
    Except WorkspacePatchError (List ParsedPatchHunk) := do
  let resolved ← hunks.mapM (resolveHunk sha256 lines)
  let ordered := resolved.mergeSort fun left right =>
    decide (left.oldStart.getD (2 ^ 53 - 1) ≤ right.oldStart.getD (2 ^ 53 - 1))
  refuseIf (adjacentOverlap ordered = true) .overlappingHunks
  return resolved

/-! ## Applying -/

def hunkHeader (oldStart oldCount : ℕ) (newStart : ℤ) (newCount : ℕ) : String :=
  s!"@@ -{oldStart},{oldCount} +{newStart},{newCount} @@"

/-- Whether a hunk's expected lines stand at its line; an insertion only needs a line to go to. -/
def hunkApplies (lines : List String) (start : ℕ) (oldLines : List String) : Bool :=
  if oldLines.length = 0 then decide (1 ≤ start ∧ start - 1 ≤ lines.length)
  else decide (1 ≤ start ∧ start - 1 + oldLines.length ≤ lines.length)
    && sliceLines lines (start - 1) oldLines.length = oldLines

/-- The numbering pass of `applyPatchHunks`, from a running `delta` on. -/
def previewHunks (lines : List String) : List ParsedPatchHunk → ℤ →
    Except WorkspacePatchError (List PatchHunkPreview × List LineRange)
  | [], _ => .ok ([], [])
  | hunk :: rest, delta =>
    match hunk.oldStart with
    | none => .error .malformedHunk
    | some start =>
      let oldCount := hunk.oldLines.length
      let newCount := hunk.newLines.length
      let newStart : ℤ := start + delta
      if hunkApplies lines start hunk.oldLines then do
        let (previews, regions) ← previewHunks lines rest (delta + (newCount - oldCount))
        let preview : PatchHunkPreview :=
          { index := hunk.index
            status := "ready"
            header := hunkHeader start oldCount newStart newCount
            oldStart := start, oldCount, newStart, newCount }
        return (preview :: previews, ⟨newStart, newStart + newCount⟩ :: regions)
      else .error (conflictAt lines hunk.index start oldCount)

/-- The splicing pass of `applyPatchHunks` over the hunks it is given. -/
def spliceHunks : List ParsedPatchHunk → List String → Except WorkspacePatchError (List String)
  | [], next => .ok next
  | hunk :: rest, next =>
    match hunk.oldStart with
    | none => .error .malformedHunk
    | some start => spliceHunks rest (splice next (start - 1) hunk.oldLines.length hunk.newLines)

def applyPatchHunks (lines : List String) (hunks : List ParsedPatchHunk) :
    Except WorkspacePatchError PatchHunkApplyResult := do
  let concrete ← resolvePatchHunkAddresses sha256 lines hunks
  let (previews, regions) ← previewHunks lines concrete 0
  let next ← spliceHunks concrete.reverse lines
  return { lines := next, regions, hunks := previews }

end Apply

end Falryn.Workspace
