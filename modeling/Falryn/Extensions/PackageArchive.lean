import Falryn.Extensions.PackagePath
import Falryn.Foundation.NumberText
import Falryn.Workspace.TextBytes

/-!
# Package archives

`readPackageArchive` of `domain/extensions/package-archive.ts`: a compressed tar is read into the files of a
package, or refused.

Three helpers answer in band: `decodePath` and `paxPath` with the text `malformed`, `entryPath` with the
text `invalid`.  They do so here too, so that a name that is spelled like one of these is read as the
source reads it.  `gunzipSync` belongs to the runtime: of it is assumed that it inverts `gzip`.
-/

namespace Falryn.Extensions

/-- The bytes of a file or of an archive. -/
abbrev Bytes := List UInt8

/-- A file of a package. -/
structure PackageFile where
  path : CodeUnits
  bytes : Bytes

inductive PackageArchiveError where
  | notGzip
  | expandedTooLarge
  | malformed
  | entryLink
  | entrySpecial
  | pathInvalid
  | pathDuplicate
  | tooManyEntries
  | rootAmbiguous

/-- What a reading can end in besides files: an answer of its own, or an exception. -/
inductive ArchiveFailure where
  | refused (error : PackageArchiveError)
  | thrown

namespace PackageArchiveLimits

def expandedBytes : ℕ := 67108864
def files : ℕ := 4096
def records : ℕ := 16384
def pathBytes : ℕ := 1024
def depth : ℕ := 32

end PackageArchiveLimits

/-- The compression of the runtime. -/
structure Gzip where
  gzip : Bytes → Bytes
  /-- `gunzipSync` with a bound on what it expands to; `true` stands for `ERR_BUFFER_TOO_LARGE`. -/
  gunzipSync : Bytes → ℕ → Except Bool Bytes
  gzip_magic : ∀ bytes, (gzip bytes)[0]? = some 0x1f ∧ (gzip bytes)[1]? = some 0x8b
  gunzipSync_gzip : ∀ bytes limit, bytes.length ≤ limit → gunzipSync (gzip bytes) limit = .ok bytes

/-- `BLOCK`. -/
def blockBytes : ℕ := 512

/-- The text in band for a name that does not decode. -/
def malformed : CodeUnits := utf16 "malformed"

/-- The text in band for a path that is refused. -/
def invalid : CodeUnits := utf16 "invalid"

/-- `field`: the bytes of a range up to the first zero. -/
def field (block : Bytes) (offset length : ℕ) : Bytes :=
  ((block.drop offset).take length).takeWhile (· ≠ 0)

/-- The digits of `/^[0-7]{1,12}$/u`. -/
def isOctalText (text : CodeUnits) : Bool :=
  1 ≤ text.length && text.length ≤ 12 && text.all fun u => 0x30 ≤ u && u ≤ 0x37

/-- `octal`.  Bytes that are no text decode to characters that are no digits. -/
def octal (block : Bytes) (offset length : ℕ) : Option ℕ :=
  (decode (field block offset length)).bind fun text =>
    if isOctalText (trim text) then
      let value := (trim text).foldl (fun value u => 8 * value + digitValue u) 0
      if value ≤ 2 ^ 53 - 1 then some value else none
    else none

/-- The sum of a header, its checksum field read as blanks. -/
def headerSum (block : Bytes) : ℕ :=
  ((List.range blockBytes).map fun i =>
    if 148 ≤ i ∧ i < 156 then 0x20 else (block.getD i 0).toNat).sum

def checksumValid (block : Bytes) : Bool := octal block 148 8 == some (headerSum block)

/-! ## Names -/

/-- The record a pax text begins with: its length, its key and its value. -/
def paxRecord (text : CodeUnits) : Option (ℕ × CodeUnits × CodeUnits) := do
  let space ← text.findIdx? (· = 0x20)
  let length ← safeIntegerOf (text.take space)
  if length ≤ space then none
  else
    let record := (text.take length.toNat).drop (space + 1)
    if record.getLast? ≠ some 0xa then none
    else
      let equals ← record.findIdx? (· = 0x3d)
      return (length.toNat, record.take equals, (record.drop (equals + 1)).dropLast)

theorem paxRecord_pos {text key value : CodeUnits} {length : ℕ}
    (h : paxRecord text = some (length, key, value)) : 0 < length := by
  unfold paxRecord at h
  simp only [Option.bind_eq_bind, Option.bind_eq_some_iff] at h
  obtain ⟨space, _, n, _, h⟩ := h
  split_ifs at h with hle
  simp only [Option.bind_eq_some_iff] at h
  obtain ⟨equals, _, h⟩ := h
  have : n.toNat = length := congrArg Prod.fst (Option.some.inj h)
  omega

/-- The loop of `paxPath` from where it stands, with the path it has seen. -/
def paxRecords (path : Option CodeUnits) (text : CodeUnits) : Option CodeUnits :=
  if text = [] then path
  else
    match _hrecord : paxRecord text with
    | none => some malformed
    | some (length, key, value) =>
      paxRecords (if key = utf16 "path" then some value else path) (text.drop length)
termination_by text.length
decreasing_by
  have := paxRecord_pos _hrecord
  have := List.length_pos_of_ne_nil ‹text ≠ []›
  rw [List.length_drop]
  omega

def paxPath (bytes : Bytes) : Option CodeUnits :=
  match decode bytes with
  | none => some malformed
  | some text => paxRecords none text

def decodePath (bytes : Bytes) : Option CodeUnits :=
  if bytes = [] then none else some ((decode bytes).getD malformed)

/-- `while (path.startsWith("./")) path = path.slice(2)` -/
def dropDotSlashes : CodeUnits → CodeUnits
  | 0x2e :: 0x2f :: rest => dropDotSlashes rest
  | path => path

/-- `entryPath`: outside `none` is what it throws, inside `null`. -/
def entryPath (tables : UnicodeTables) (raw : CodeUnits) (directory : Bool) : Option (Option CodeUnits) :=
  let path := dropDotSlashes (if directory then raw.rdropWhile (· = 0x2f) else raw)
  if path = [0x2e] ∨ path = [] then some (if directory then none else some invalid)
  else if path.head? = some 0x2f ∨ 0x5c ∈ path ∨ 0x0 ∈ path ∨ PackageArchiveLimits.pathBytes < utf8Length path
      ∨ PackageArchiveLimits.depth < (path.splitOn 0x2f).length then
    some (some invalid)
  else
    (packageRelativePath tables path).map fun normalized =>
      if normalized = some path then some path else some invalid

/-- The name in a header, behind its prefix field if that holds one. -/
def headerPath (header : Bytes) : Option CodeUnits :=
  let name := decodePath (field header 0 100)
  let directory := decodePath (field header 345 155)
  if name = some malformed ∨ directory = some malformed then none
  else
    match name, directory with
    | none, _ => none
    | some name, none => some name
    | some name, some directory => some (directory ++ 0x2f :: name)

/-! ## The records of an archive -/

/-- What the loop over the records has gathered. -/
structure Walk where
  files : List PackageFile
  /-- a set -/
  directories : List CodeUnits
  pendingPath : Option CodeUnits

def Walk.start : Walk := ⟨[], [], none⟩

/-- The type of a record. -/
def recordType (header : Bytes) : UInt8 := header.getD 156 0

/-- A file or directory with its name, after `pendingPath` has been taken. -/
def readEntry (tables : UnicodeTables) (w : Walk) (directory : Bool) (raw : CodeUnits) (data : Bytes) :
    Except ArchiveFailure Walk :=
  if raw = malformed then .error (.refused .malformed)
  else
    match entryPath tables raw directory with
    | none => .error .thrown
    | some none => .ok { w with pendingPath := none }
    | some (some path) =>
      if path = invalid then .error (.refused .pathInvalid)
      else if directory then .ok { w with directories := w.directories ++ [path], pendingPath := none }
      else if PackageArchiveLimits.files ≤ w.files.length then .error (.refused .tooManyEntries)
      else .ok { w with files := w.files ++ [⟨path, data⟩], pendingPath := none }

/-- One record, its header checked and its data found. -/
def readRecord (tables : UnicodeTables) (w : Walk) (header data : Bytes) : Except ArchiveFailure Walk :=
  let type := recordType header
  if type = 0x78 ∨ type = 0x4c then
    if PackageArchiveLimits.pathBytes * 4 < data.length then .error (.refused .malformed)
    else
      let named := if type = 0x4c then decodePath (field data 0 data.length) else paxPath data
      if named = some malformed then .error (.refused .malformed) else .ok { w with pendingPath := named }
  else if type = 0x67 then .ok w
  else if type = 0x31 ∨ type = 0x32 ∨ type = 0x4b then .error (.refused .entryLink)
  else if type ≠ 0x30 ∧ type ≠ 0 ∧ type ≠ 0x35 then .error (.refused .entrySpecial)
  else
    match w.pendingPath.or (headerPath header) with
    | none => .error (.refused .malformed)
    | some raw => readEntry tables w (type = 0x35) raw data

/-- How many bytes of data follow the header an archive begins with. -/
def recordSize (tar : Bytes) : Option ℕ :=
  let header := tar.take blockBytes
  if (header.drop 257).take 5 ≠ [0x75, 0x73, 0x74, 0x61, 0x72] ∨ ¬ checksumValid header then none
  else
    match octal header 124 12 with
    | none => none
    | some size => if tar.length < blockBytes + size then none else some size

/-- The bytes a record takes behind its header. -/
def paddedSize (size : ℕ) : ℕ := (size + (blockBytes - 1)) / blockBytes * blockBytes

/-- The loop over the records, so many of them left; whether it met the block that ends them. -/
def readRecords (tables : UnicodeTables) : ℕ → Bytes → Walk → Except ArchiveFailure (Walk × Bool)
  | 0, tar, w =>
    if tar.length < blockBytes then .ok (w, false)
    else if (tar.take blockBytes).all (· = 0) then .ok (w, true)
    else .error (.refused .tooManyEntries)
  | left + 1, tar, w =>
    if tar.length < blockBytes then .ok (w, false)
    else if (tar.take blockBytes).all (· = 0) then .ok (w, true)
    else
      match recordSize tar with
      | none => .error (.refused .malformed)
      | some size => do
        let w ← readRecord tables w (tar.take blockBytes) ((tar.drop blockBytes).take size)
        readRecords tables left (tar.drop (blockBytes + paddedSize size)) w

/-! ## The files of a package -/

/-- The folded paths of files, if no two are alike and none is a directory. -/
def foldedPaths (tables : UnicodeTables) (directories : List CodeUnits) :
    List CodeUnits → List PackageFile → Option (List CodeUnits)
  | seen, [] => some seen
  | seen, file :: files =>
    if tables.toLowerCase file.path ∈ seen ∨ file.path ∈ directories then none
    else foldedPaths tables directories (seen ++ [tables.toLowerCase file.path]) files

/-- The paths above a path: `parts.slice(0, depth).join("/")` for each depth. -/
def ancestors (path : CodeUnits) : List CodeUnits :=
  (List.range ((path.splitOn 0x2f).length - 1)).map fun i =>
    List.intercalate [0x2f] ((path.splitOn 0x2f).take (i + 1))

/-- The order of texts: by their code units. -/
def pathKey (path : CodeUnits) : List ℕ := path.map UInt16.toNat

/-- `files.sort`.  No two paths are alike where it is called. -/
def sortFiles (files : List PackageFile) : List PackageFile :=
  files.mergeSort fun a b => pathKey a.path ≤ pathKey b.path

/-- `path.split("/")[0]` -/
def topOf (path : CodeUnits) : CodeUnits := (path.splitOn 0x2f).headD []

/-- The checks over all files and what makes them the files of a package. -/
def packageFiles (tables : UnicodeTables) (w : Walk) : Except PackageArchiveError (List PackageFile) :=
  match foldedPaths tables w.directories [] w.files with
  | none => .error .pathDuplicate
  | some seen =>
    if w.files.any fun file => (ancestors file.path).any fun path => tables.toLowerCase path ∈ seen then
      .error .pathDuplicate
    else if w.files.any fun file => file.path = utf16 "plugin.json" then .ok (sortFiles w.files)
    else
      match (w.files.map fun file => topOf file.path).dedup with
      | [top] =>
        if w.files.any fun file => 0x2f ∉ file.path then .error .rootAmbiguous
        else .ok (sortFiles (w.files.map fun file => ⟨file.path.drop (top.length + 1), file.bytes⟩))
      | _ => .error .rootAmbiguous

def readPackageArchive (z : Gzip) (tables : UnicodeTables) (compressed : Bytes) :
    Except ArchiveFailure (List PackageFile) :=
  if compressed[0]? ≠ some 0x1f ∨ compressed[1]? ≠ some 0x8b then .error (.refused .notGzip)
  else
    match z.gunzipSync compressed PackageArchiveLimits.expandedBytes with
    | .error tooLarge => .error (.refused (if tooLarge then .expandedTooLarge else .notGzip))
    | .ok tar => do
      let (w, ended) ← readRecords tables PackageArchiveLimits.records tar Walk.start
      if ended = false ∨ w.pendingPath ≠ none then .error (.refused .malformed)
      else (packageFiles tables w).mapError .refused

end Falryn.Extensions
