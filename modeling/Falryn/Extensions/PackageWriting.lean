import Falryn.Extensions.PackageArchive

/-!
# Writing package archives

What it is for bytes to be an archive of given files and directories: ustar headers, with the name in
the name field or cut at a solidus between that and the prefix field, GNU records that carry a long
name and pax records that carry a path.  A header is any block whose fields say what the record needs
them to say; nothing is required of the others.  Nothing here mentions the reader but through the
place of the type in a header and the sum over one.
-/

namespace Falryn.Extensions

/-- A field whose start holds these bytes, with a zero behind them unless they fill it. -/
def HoldsBytes (field bytes : Bytes) : Prop :=
  ∃ rest, field = bytes ++ rest ∧ rest.headD 0 = 0 ∧ (0 : UInt8) ∉ bytes

/-- A field that spells a number in octal digits, with or without blanks around them. -/
def Spells (field : Bytes) (n : ℕ) : Prop :=
  ∃ (before after : ℕ) (digits : List Char),
    HoldsBytes field (utf8 (String.ofList
      (List.replicate before ' ' ++ digits ++ List.replicate after ' ')))
    ∧ 1 ≤ digits.length ∧ digits.length ≤ 12 ∧ (∀ c ∈ digits, '0' ≤ c ∧ c ≤ '7')
    ∧ Nat.ofDigitChars 8 digits 0 = n

/-- A header with the data that belongs to it, filled up to whole blocks. -/
structure TarRecord where
  header : Bytes
  data : Bytes
  padding : Bytes
  header_length : header.length = blockBytes
  magic : (header.drop 257).take 5 = utf8 "ustar"
  size : Spells ((header.drop 124).take 12) data.length
  checksum : Spells ((header.drop 148).take 8) (headerSum header)
  whole : (data.length + padding.length) % blockBytes = 0
  padding_lt : padding.length < blockBytes

/-- The bytes of a record. -/
def TarRecord.bytes (record : TarRecord) : Bytes := record.header ++ record.data ++ record.padding

/-- A pax record, the length of which counts the bytes of its encoding. -/
structure PaxRecord where
  length : ℕ
  key : String
  value : String
  key_plain : '=' ∉ key.toList
  counted : (utf8 (toString length ++ " " ++ key ++ "=" ++ value ++ "\n")).length = length

/-- The text of a pax record. -/
def PaxRecord.text (record : PaxRecord) : String :=
  toString record.length ++ " " ++ record.key ++ "=" ++ record.value ++ "\n"

/-- The text of several. -/
def paxText : List PaxRecord → String
  | [] => ""
  | record :: records => record.text ++ paxText records

/-- How an archive names an entry. -/
inductive Naming where
  | whole (name : String)
  | split (directory name : String)
  | longName (record : TarRecord) (name : String)
  | pax (record : TarRecord) (before : List PaxRecord) (path : PaxRecord) (after : List PaxRecord)

namespace Naming

/-- The name as it is spelled. -/
def raw : Naming → String
  | whole name => name
  | split directory name => directory ++ "/" ++ name
  | longName _ name => name
  | pax _ _ path _ => path.value

/-- The records that stand before the entry's own. -/
def records : Naming → List TarRecord
  | whole _ => []
  | split _ _ => []
  | longName record _ => [record]
  | pax record _ _ _ => [record]

/-- The header and the records hold the name. -/
def Stands (header : Bytes) : Naming → Prop
  | whole name => name ≠ "" ∧ HoldsBytes ((header.drop 0).take 100) (utf8 name)
      ∧ HoldsBytes ((header.drop 345).take 155) []
  | split directory name => directory ≠ "" ∧ name ≠ ""
      ∧ HoldsBytes ((header.drop 0).take 100) (utf8 name)
      ∧ HoldsBytes ((header.drop 345).take 155) (utf8 directory)
  | longName record name => name ≠ "" ∧ recordType record.header = 0x4c ∧ HoldsBytes record.data (utf8 name)
  | pax record before path after => recordType record.header = 0x78 ∧ path.key = "path"
      ∧ (∀ record ∈ after, record.key ≠ "path")
      ∧ record.data = utf8 (paxText (before ++ path :: after))

end Naming

/-- An entry of an archive, as it is written. -/
structure ArchiveEntry where
  path : CodeUnits
  directory : Bool
  naming : Naming
  record : TarRecord
  stands : naming.Stands record.header
  /-- The name is the path, behind any number of `./` and, for a directory, before any number of `/`. -/
  spelled : ∃ dots slashes : ℕ, utf16 naming.raw
      = (List.replicate dots [0x2e, 0x2f]).flatten ++ path ++ List.replicate slashes 0x2f
    ∧ (directory = false → slashes = 0)
  typed : if directory then recordType record.header = 0x35
    else recordType record.header = 0x30 ∨ recordType record.header = 0

namespace ArchiveEntry

/-- The records of an entry. -/
def records (entry : ArchiveEntry) : List TarRecord := entry.naming.records ++ [entry.record]

/-- The file an entry is. -/
def file (entry : ArchiveEntry) : PackageFile := ⟨entry.path, entry.record.data⟩

end ArchiveEntry

/-- The records of entries, in their order. -/
def archiveRecords (entries : List ArchiveEntry) : List TarRecord := entries.flatMap ArchiveEntry.records

/-- The archive of entries, with anything behind the block that ends it. -/
def archiveBytes (entries : List ArchiveEntry) (rest : Bytes) : Bytes :=
  (archiveRecords entries).flatMap TarRecord.bytes ++ (List.replicate blockBytes 0 ++ rest)

/-- The entries that are files. -/
def fileEntries (entries : List ArchiveEntry) : List ArchiveEntry :=
  entries.filter fun entry => !entry.directory

/-- The files of entries. -/
def packedFiles (entries : List ArchiveEntry) : List PackageFile := (fileEntries entries).map ArchiveEntry.file

/-- The paths of directories. -/
def packedDirectories (entries : List ArchiveEntry) : List CodeUnits :=
  (entries.filter fun entry => entry.directory).map ArchiveEntry.path

/-- **What may be packed**: files and directories with safe paths. -/
structure Packable (tables : UnicodeTables) (entries : List ArchiveEntry) : Prop where
  portable : ∀ entry ∈ entries, Portable tables entry.path
  short : ∀ entry ∈ entries, utf8Length entry.path ≤ PackageArchiveLimits.pathBytes
  shallow : ∀ entry ∈ entries, (entry.path.splitOn 0x2f).length ≤ PackageArchiveLimits.depth
  distinct : entries.Pairwise fun a b => tables.toLowerCase a.path ≠ tables.toLowerCase b.path
  apart : ∀ file ∈ fileEntries entries, ∀ entry ∈ entries, ∀ rest, entry.path ≠ file.path ++ 0x2f :: rest
  rooted : (∃ file ∈ fileEntries entries, file.path = utf16 "plugin.json")
    ∨ ∃ top, (0x2f : UInt16) ∉ top ∧ ∀ file ∈ fileEntries entries, ∃ rest, file.path = top ++ 0x2f :: rest

/-- Equality of texts is decided as it is for lists. -/
local instance : LawfulBEq CodeUnits := inferInstance

/-- The root of a package: that of the archive when it holds the manifest, else the one top directory. -/
def RootOf (paths : List CodeUnits) (root : CodeUnits) : Prop :=
  if utf16 "plugin.json" ∈ paths then root = []
  else ∃ top, (0x2f : UInt16) ∉ top ∧ root = top ++ [0x2f] ∧ ∀ path ∈ paths, root <+: path

/-- **The files that were packed**: their paths relative to the root of the package, in path order. -/
def Unpacked (packed files : List PackageFile) : Prop :=
  ∃ root, RootOf (packed.map PackageFile.path) root
    ∧ (files.map fun file => (⟨root ++ file.path, file.bytes⟩ : PackageFile)).Perm packed
    ∧ files.Pairwise fun a b => pathKey a.path < pathKey b.path

/-! ## Names that are read as they are written -/

/-- A text that neither begins with a byte order mark nor is the word for a name that does not decode. -/
def PlainText (text : String) : Prop :=
  text.toList.head? ≠ some Workspace.byteOrderMark ∧ text ≠ "malformed"

/-- The name is read as it is written: nothing in it is taken for a mark or for the word, and no pax
record holds more bytes than code units with another behind it. -/
def Naming.Plain : Naming → Prop
  | .whole name => PlainText name
  | .split directory name => PlainText directory ∧ PlainText name
  | .longName record name => record.data.length ≤ PackageArchiveLimits.pathBytes * 4 ∧ PlainText name
  | .pax record before path after => record.data.length ≤ PackageArchiveLimits.pathBytes * 4
      ∧ path.value ≠ "malformed" ∧ ∀ record ∈ (before ++ path :: after).dropLast, IsAscii record.text

/-- **An archive that is read back**: one within the limits of the reader, with a file in it, no file
that becomes another's directory in lower case, no path that is the word for a refused one, and names
that are read as they are written. -/
structure Plain (tables : UnicodeTables) (entries : List ArchiveEntry) (rest : Bytes) : Prop where
  some_file : fileEntries entries ≠ []
  files_le : (fileEntries entries).length ≤ PackageArchiveLimits.files
  records_le : (archiveRecords entries).length ≤ PackageArchiveLimits.records
  expanded_le : (archiveBytes entries rest).length ≤ PackageArchiveLimits.expandedBytes
  folded : ∀ file ∈ fileEntries entries, ∀ other ∈ fileEntries entries, ∀ above ∈ ancestors other.path,
    tables.toLowerCase file.path ≠ tables.toLowerCase above
  word : ∀ entry ∈ entries, entry.path ≠ invalid
  names : ∀ entry ∈ entries, entry.naming.Plain

end Falryn.Extensions
