import Falryn.Foundation.Identity
import Falryn.Lib.OrderedMap
import Falryn.Orchestration.Outcome

/-!
# The rows recovery reads

The runs, the artifacts and the records of a database, as startup recovery reads them
(`domain/sessions/run.ts`, `domain/artifacts/artifact.ts`).  A table is a map from its primary key.  A row is
what the columns hold; a record is what the codecs make of it.  Instants are milliseconds since the epoch.
-/

namespace Falryn.Recovery

/-! ## Timestamps -/

/-- `CANONICAL_UTC`, a `d` for each digit. -/
def canonicalUtc : List Char := "dddd-dd-ddTdd:dd:dd.dddZ".toList

/-- The text has the form of a template. -/
def hasForm : List Char → List Char → Bool
  | [], [] => true
  | t :: template, c :: text => (if t = 'd' then c.isDigit else decide (c = t)) && hasForm template text
  | _, _ => false

/-- The number at a place of a text. -/
def digitsAt (text : List Char) (place count : ℕ) : ℕ :=
  ((text.drop place).take count).foldl (fun n c => 10 * n + (c.toNat - '0'.toNat)) 0

def isLeapYear (year : ℕ) : Bool := year % 4 = 0 ∧ (year % 100 ≠ 0 ∨ year % 400 = 0)

def daysInMonth (year month : ℕ) : ℕ :=
  if month = 2 then if isLeapYear year then 29 else 28
  else if month = 4 ∨ month = 6 ∨ month = 9 ∨ month = 11 then 30 else 31

/-- The days from the first day of the year 0 to the first day of a year. -/
def daysBeforeYear (year : ℕ) : ℕ := 365 * year + (year + 3) / 4 - (year + 99) / 100 + (year + 399) / 400

/-- The days from the first day of 1970 to a date. -/
def daysSinceEpoch (year month day : ℕ) : ℤ :=
  daysBeforeYear year + ((List.range (month - 1)).map fun m => daysInMonth year (m + 1)).sum + (day - 1)
    - daysBeforeYear 1970

/-- `parseTimestamp` with `timestampToEpochMilliseconds`: the instant of a text that is a date in the one form
`toISOString` produces. -/
def parseTimestamp (value : String) : Option ℤ :=
  if hasForm canonicalUtc value.toList
      ∧ 1 ≤ digitsAt value.toList 5 2 ∧ digitsAt value.toList 5 2 ≤ 12
      ∧ 1 ≤ digitsAt value.toList 8 2
      ∧ digitsAt value.toList 8 2 ≤ daysInMonth (digitsAt value.toList 0 4) (digitsAt value.toList 5 2)
      ∧ digitsAt value.toList 11 2 < 24 ∧ digitsAt value.toList 14 2 < 60 ∧ digitsAt value.toList 17 2 < 60 then
    some ((((daysSinceEpoch (digitsAt value.toList 0 4) (digitsAt value.toList 5 2) (digitsAt value.toList 8 2)
      * 24 + digitsAt value.toList 11 2) * 60 + digitsAt value.toList 14 2) * 60
      + digitsAt value.toList 17 2) * 1000 + digitsAt value.toList 20 3)
  else none

/-! ## Runs -/

/-- A row of the runs, under its `run_id`. -/
structure RunRow where
  startedAt : String
  endedAt : Option String
  schemaVersion : ℕ
  deriving DecidableEq

/-- One execution of the process. -/
structure RunRecord where
  runId : String
  startedAt : ℤ
  endedAt : Option ℤ
  schemaVersion : ℕ

/-- `timestampSchema.nullable()`. -/
def parseNullableTimestamp : Option String → Option (Option ℤ)
  | none => some none
  | some value => (parseTimestamp value).map some

def parseRunRecord (row : String × RunRow) : Option RunRecord :=
  (identifier? row.1).bind fun runId =>
    (parseTimestamp row.2.startedAt).bind fun startedAt =>
      (parseNullableTimestamp row.2.endedAt).bind fun endedAt =>
        if row.2.schemaVersion ≤ 2 ^ 53 - 1 then some ⟨runId, startedAt, endedAt, row.2.schemaVersion⟩ else none

/-- `isPresumedLive`: a run with no end time may still be writing. -/
def isPresumedLive (record : RunRecord) (thisRun : String) : Bool :=
  record.endedAt = none ∧ record.runId ≠ thisRun

/-- A record is about its row: the run, and whether it ended. -/
theorem parseRunRecord_eq_some {row : String × RunRow} {record : RunRecord}
    (h : parseRunRecord row = some record) :
    record.runId = row.1 ∧ (record.endedAt = none ↔ row.2.endedAt = none) ∧ isIdentifier row.1 = true := by
  obtain ⟨runId, hrun, h⟩ := Option.bind_eq_some_iff.1 h
  obtain ⟨startedAt, -, h⟩ := Option.bind_eq_some_iff.1 h
  obtain ⟨endedAt, hended, h⟩ := Option.bind_eq_some_iff.1 h
  split_ifs at h
  rw [identifier?] at hrun
  split_ifs at hrun with hidentifier
  cases hrun
  cases h
  refine ⟨rfl, ?_, hidentifier⟩
  rcases hend : row.2.endedAt with _ | value
  · rw [hend] at hended
    cases hended
    exact ⟨fun _ => rfl, fun _ => rfl⟩
  · rw [hend, parseNullableTimestamp] at hended
    obtain ⟨instant, -, heq⟩ := Option.map_eq_some_iff.1 hended
    exact ⟨fun hnone => absurd (heq.trans hnone) (by simp), nofun⟩

/-! ## Artifacts -/

inductive ArtifactAvailability where
  | reserved
  | available
  | quarantined
  | missing
  deriving DecidableEq

/-- A row of the artifacts, under its `artifact_id`. -/
structure ArtifactRow where
  digest : String
  byteLength : ℕ
  runId : Option String
  availability : ArtifactAvailability
  createdAt : String
  finalizedAt : Option ℤ
  deriving DecidableEq

/-- `MAX_ARTIFACT_ID_LENGTH`. -/
def maxArtifactIdLength : ℕ := 128

/-- `/^[A-Za-z0-9][A-Za-z0-9._-]*$/`, within the length. -/
def isArtifactId (text : String) : Bool :=
  utf16Length text ≤ maxArtifactIdLength
    && match text.toList with
      | [] => false
      | c :: cs => c.isAlphanum && cs.all fun c => c.isAlphanum || c = '.' || c = '_' || c = '-'

/-- `/^sha-256:[0-9a-f]{64}$/`. -/
def isContentDigest (text : String) : Bool :=
  text.toList.take 8 = "sha-256:".toList && (text.toList.drop 8).length = 64
    && (text.toList.drop 8).all fun c => c.isDigit || ('a' ≤ c && c ≤ 'f')

/-- One artifact, as the pass needs to see it. -/
structure ReservedArtifact where
  artifactId : String
  digest : String
  byteLength : ℕ
  runId : Option String
  deriving DecidableEq

def parseReserved (row : String × ArtifactRow) : Option ReservedArtifact :=
  if isArtifactId row.1 ∧ isContentDigest row.2.digest then
    some ⟨row.1, row.2.digest, row.2.byteLength, row.2.runId.bind identifier?⟩
  else none

theorem parseReserved_eq_some {row : String × ArtifactRow} {artifact : ReservedArtifact}
    (h : parseReserved row = some artifact) :
    artifact = ⟨row.1, row.2.digest, row.2.byteLength, row.2.runId.bind identifier?⟩ := by
  rw [parseReserved] at h
  split_ifs at h
  exact (Option.some.inj h).symm

/-- The artifacts of a database. -/
abbrev ArtifactTable := OrderedMap String ArtifactRow

namespace ArtifactTable

/-- `ORDER BY created_at, artifact_id`. -/
def comesFirst (row row' : String × ArtifactRow) : Bool :=
  row.2.createdAt < row'.2.createdAt || (row.2.createdAt = row'.2.createdAt && !decide (row'.1 < row.1))

/-- The rows of one availability. -/
def rowsOf (artifacts : ArtifactTable) (availability : ArtifactAvailability) : List (String × ArtifactRow) :=
  artifacts.entries.filter fun row => row.2.availability = availability

/-- `SELECT_RESERVED` and `SELECT_AVAILABLE`. -/
def select (artifacts : ArtifactTable) (availability : ArtifactAvailability) (limit : ℕ) :
    List (String × ArtifactRow) :=
  ((artifacts.rowsOf availability).mergeSort comesFirst).take limit

variable {artifacts : ArtifactTable} {availability : ArtifactAvailability} {limit : ℕ}
  {row : String × ArtifactRow}

theorem mem_of_mem_select (h : row ∈ artifacts.select availability limit) :
    artifacts.get row.1 = some row.2 ∧ row.2.availability = availability := by
  have hmem := (List.mergeSort_perm _ _).mem_iff.1 (List.mem_of_mem_take h)
  obtain ⟨hrow, havailability⟩ := List.mem_filter.1 hmem
  exact ⟨OrderedMap.mem_entries.1 hrow, of_decide_eq_true havailability⟩

/-- A query that was not cut short lists every row. -/
theorem mem_select_of_lt (hrow : artifacts.get row.1 = some row.2)
    (havailability : row.2.availability = availability)
    (h : (artifacts.select availability limit).length < limit) : row ∈ artifacts.select availability limit := by
  rw [select, List.length_take] at h
  rw [select, List.take_of_length_le (by omega)]
  exact (List.mergeSort_perm _ _).mem_iff.2
    (List.mem_filter.2 ⟨OrderedMap.mem_entries.2 hrow, decide_eq_true havailability⟩)

/-- A row that moves between other availabilities is no concern of a query. -/
theorem rowsOf_set {id : String} {row row' : ArtifactRow} (h : artifacts.get id = some row)
    (hrow : row.availability ≠ availability) (hrow' : row'.availability ≠ availability) :
    rowsOf (artifacts.set id row') availability = artifacts.rowsOf availability := by
  rw [rowsOf, OrderedMap.set, dif_pos (OrderedMap.mem_keys.2 ⟨row, h⟩)]
  change (artifacts.entries.map _).filter _ = artifacts.entries.filter _
  rw [List.filter_map]
  have hfilter : ∀ entry ∈ artifacts.entries,
      ((fun row => decide (row.2.availability = availability)) ∘ fun entry =>
        if entry.1 = id then (id, row') else entry) entry = decide (entry.2.availability = availability) := by
    intro entry hentry
    by_cases hid : entry.1 = id
    · have hsame : entry.2 = row := by
        have hget := OrderedMap.mem_entries.1 hentry
        rw [hid, h] at hget
        exact (Option.some.inj hget).symm
      simp [hid, hsame, hrow, hrow']
    · simp [hid]
  rw [List.filter_congr hfilter]
  refine (List.map_congr_left fun entry hentry => ?_).trans (List.map_id _)
  obtain ⟨hmem, havailability⟩ := List.mem_filter.1 hentry
  have hid : entry.1 ≠ id := fun hid => by
    have hget := OrderedMap.mem_entries.1 hmem
    rw [hid, h] at hget
    cases hget
    exact hrow (of_decide_eq_true havailability)
  rw [if_neg hid, id_eq]

/-- No artifact is listed twice. -/
theorem nodup_select : ((artifacts.select availability limit).map Prod.fst).Nodup := by
  have hrows : ((artifacts.rowsOf availability).map Prod.fst).Nodup :=
    artifacts.nodup.sublist (List.filter_sublist.map _)
  have hsorted : (((artifacts.rowsOf availability).mergeSort comesFirst).map Prod.fst).Nodup :=
    ((List.mergeSort_perm _ _).map Prod.fst).nodup_iff.2 hrows
  exact hsorted.sublist ((List.take_sublist _ _).map _)

end ArtifactTable

/-! ## Records -/

/-- The entities a run leaves running, in the order of `NON_TERMINAL`. -/
inductive RecordEntity where
  | invocation
  | modelAttempt
  | turn
  | session
  deriving DecidableEq

/-- `NON_TERMINAL`. -/
def nonTerminal : List RecordEntity := [.invocation, .modelAttempt, .turn, .session]

/-- The columns of a record its completion is about. -/
structure RecordRow where
  id : String
  completedAt : Option ℤ
  outcome : Option Orchestration.TerminalOutcome

end Falryn.Recovery
