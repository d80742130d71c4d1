import Falryn.Sessions.HistoryRecords

/-!
# Resolving the evidence of one event

`resolve` of the history reader (`domain/sessions/history-reader.ts`): who may see the event, whether its
restore point was retired, and where its text is.  A text kept in an artifact is looked at before and
after the bytes are read.  A call that starts at moment `t` has its bytes at `t + 1` and the answer about
a checkpoint at `t + 2`; a refusal carries no text.

* `resolve_text` says what stands behind a text: `Behind` lists everything that was checked, and when.
* `behind_exact` says when such a text is the one the evidence records: when the bytes that were read do
  not begin with a byte order mark.
-/

namespace Falryn.Sessions.History

open Recovery (isArtifactId isContentDigest ArtifactAvailability)

/-! ## Refusals -/

/-- Evidence that is left out. -/
def leftOut (reason : OmissionReason) (reference : Option ArtifactReference) : HistoryEvidence :=
  .unavailable ⟨reason, reference⟩

/-- The event without the text that stands in it. -/
def RuntimeEvent.withoutInline (event : RuntimeEvent) : RuntimeEvent :=
  match event.body with
  | .historyRecorded payload =>
    match payload.evidence with
    | .inline _ => event.withEvidence payload (leftOut .redacted none) payload.references
    | _ => event
  | .other _ => event

def fail (event : RuntimeEvent) (availability : HistoryAvailability) (reason : String) : Refusal where
  val :=
    { references := none
      event := if availability = .unauthorized then none else some event.withoutInline
      availability
      text := none
      reason := some reason }
  property := ⟨rfl, rfl⟩

def deniedEvidence (options : Options) (event : RuntimeEvent) (reason : String) : Refusal where
  val :=
    { references := none
      event :=
        match event.body with
        | .historyRecorded payload =>
          if options.redactDeniedEvidence then
            some (event.withEvidence payload (leftOut .redacted none) (some []))
          else none
        | .other _ => none
      availability := .unauthorized
      text := none
      reason := some reason }
  property := ⟨rfl, rfl⟩

/-- `omit`. -/
def omitEvidence : HistoryEvidence → UnavailableEvidence
  | .retained e => ⟨.expired, some ⟨e.artifactId, e.digest, e.byteLength⟩⟩
  | .unavailable e => ⟨.expired, e.reference⟩
  | .inline _ => ⟨.expired, none⟩

def retired (now : World) (event : RuntimeEvent) : Option Refusal :=
  match event.body with
  | .historyRecorded payload =>
    match payload.type with
    | .restorePoint restorePointId =>
      match now.historyRetirement event.streamId restorePointId with
      | none =>
        some ⟨⟨none, none, .unavailable, none, some "restore-lineage-unavailable"⟩, rfl, rfl⟩
      | some none => none
      | some (some reason) =>
        let evidence := .unavailable (omitEvidence payload.evidence)
        let references := payload.references.map
          (·.map fun reference => HistoryReference.unavailable (omitEvidence reference.evidence))
        some ⟨⟨none, some (event.withEvidence payload evidence references), .expired, none,
          some ("restore-point-" ++ reason.text)⟩, rfl, rfl⟩
    | _ => none
  | .other _ => none

/-- An event whose evidence is unavailable is refused with the reason it was recorded with. -/
def OmissionReason.availability : OmissionReason → HistoryAvailability
  | redacted => .redacted
  | missing => .missing
  | expired => .expired
  | corrupt => .corrupt
  | cancelled => .cancelled
  | _ => .unavailable

/-- What a text is marked as. -/
def Fidelity.availability (fidelity : Fidelity) : HistoryAvailability :=
  if fidelity = .exact then .exact else .redacted

/-- `if (refusal) return refusal;` -/
def unlessRefused (refusal : Option Refusal) : Except Refusal Unit :=
  match refusal with
  | some refusal => .error refusal
  | none => .ok ()

/-- `if (!value) return refusal;` -/
def orRefuse {α : Type} (value : Option α) (refusal : Refusal) : Except Refusal α :=
  match value with
  | some a => .ok a
  | none => .error refusal

/-! ## Artifacts -/

section

variable (options : Options) (world : ℕ → World)

/-- The checks of an artifact record that ask for authority. -/
def MayRead (now : World) (event : RuntimeEvent) (record : ArtifactRecord) : Prop :=
  now.authorize event (some record) = true ∧ record.sensitivity ≠ .restricted

instance (now : World) (event : RuntimeEvent) (record : ArtifactRecord) :
    Decidable (MayRead now event record) := inferInstanceAs (Decidable (_ ∧ _))

/-- The record of an artifact, if there is one. -/
def World.record (now : World) (artifactId : String) : Option ArtifactRecord :=
  match now.get artifactId with
  | .ok record => record
  | .error _ => none

/-- Before the bytes are read. -/
def admitArtifact (event : RuntimeEvent) (e : RetainedEvidence) (remaining : ℤ) (now : World) :
    Except Refusal Unit := do
  refuseIf (options.artifacts = false) (fail event .unavailable "artifact-store")
  refuseIf (isArtifactId e.artifactId = false) (fail event .corrupt "artifact-identity")
  let found ← orRefuse (now.get e.artifactId).toOption (fail event .unavailable "artifact-metadata")
  let record ← orRefuse found (fail event .missing "artifact-metadata")
  refuseIf (¬ MayRead now event record) (deniedEvidence options event "artifact-authority")
  refuseIf (record.availability = .missing) (fail event .expired "retained-bytes-unavailable")
  refuseIf (record.availability = .quarantined) (fail event .corrupt "quarantined")
  refuseIf (record.availability ≠ .available) (fail event .unavailable "unsealed")
  refuseIf (record.digest ≠ e.digest ∨ record.byteLength ≠ e.byteLength)
    (fail event .corrupt "metadata-digest")
  refuseIf (remaining < e.byteLength) (fail event .reduced "page-byte-limit")

/-- After the bytes are read. -/
def recheckArtifact (event : RuntimeEvent) (e : RetainedEvidence) (now : World) :
    Except Refusal Unit := do
  unlessRefused (retired now event)
  let current ← orRefuse (now.record e.artifactId) (fail event .missing "authority-metadata-unavailable")
  refuseIf (¬ MayRead now event current) (deniedEvidence options event "authority-changed")
  refuseIf (now.aborted = true) (fail event .cancelled "cancelled")
  refuseIf (current.availability ≠ .available ∨ current.digest ≠ e.digest)
    (fail event .unavailable "retention-changed")

/-- The projection of a published checkpoint, at the moment its sources were found authorized. -/
def checkProjection (event : RuntimeEvent) (e : RetainedEvidence) (text : CodeUnits) (now : World) :
    Except Refusal Unit :=
  match now.checkpointFailure event text with
  | .error _ => .error (fail event .corrupt "encoding")
  | .ok (some .unauthorized) => .error (deniedEvidence options event "checkpoint-source-authority")
  | .ok (some failure) => .error (fail event failure "checkpoint-source-unavailable")
  | .ok none => do
    let final ← orRefuse (now.record e.artifactId) (fail event .missing "projection-missing")
    refuseIf (¬ MayRead now event final) (deniedEvidence options event "projection-authority-changed")
    refuseIf (final.availability ≠ .available ∨ final.digest ≠ e.digest
      ∨ final.byteLength ≠ e.byteLength) (fail event .expired "projection-retention-changed")

/-- The text of an artifact. -/
def readArtifact (event : RuntimeEvent) (payload : HistoryPayload) (e : RetainedEvidence)
    (remaining : ℤ) (t : ℕ) (primary : Bool) : Except Refusal CodeUnits := do
  admitArtifact options event e remaining (world t)
  let range ← orRefuse ((world (t + 1)).readRange e.artifactId 0 e.byteLength)
    (fail event (if (world (t + 1)).aborted then .cancelled else .missing) "artifact-read")
  refuseIf (range.byteLength ≠ e.byteLength ∨ options.digest range.bytes ≠ e.digest)
    (fail event .corrupt "content-digest")
  recheckArtifact options event e (world (t + 1))
  let text ← orRefuse (decode range.bytes) (fail event .corrupt "encoding")
  if primary ∧ payload.type = .checkpoint true then
    checkProjection options event e text (world (t + 2))
  return text

/-! ## Resolving -/

/-- The text of an event and what it is marked as. -/
def resolveText (event : RuntimeEvent) (remaining : ℤ) (t : ℕ) (primary : Bool) :
    Except Refusal (Option CodeUnits × HistoryAvailability) := do
  refuseIf ((world t).authorize event none = false) (fail event .unauthorized "current-authority")
  refuseIf ((world t).aborted = true) (fail event .cancelled "cancelled")
  match event.body with
  | .other _ => return (none, .exact)
  | .historyRecorded payload =>
    unlessRefused (retired (world t) event)
    match payload.evidence with
    | .unavailable e => throw (fail event e.reason.availability e.reason.text)
    | .inline e =>
      refuseIf ((encode e.text).length ≠ e.byteLength ∨ options.digest (encode e.text) ≠ e.digest)
        (fail event .corrupt "inline-digest")
      refuseIf (remaining < e.byteLength) (fail event .reduced "page-byte-limit")
      return (some e.text, e.fidelity.availability)
    | .retained e =>
      let text ← readArtifact options world event payload e remaining t primary
      return (some text, e.fidelity.availability)

def resolve (event : RuntimeEvent) (remaining : ℤ) (t : ℕ) (primary : Bool) : HistoryReadItem :=
  match resolveText options world event remaining t primary with
  | .error refusal => refusal.1
  | .ok (text, availability) => ⟨none, some event, availability, text, none⟩

end

/-! ## What stands behind a text -/

/-- No restore point the event is about was retired. -/
def Unretired (now : World) (event : RuntimeEvent) : Prop :=
  ∀ payload restorePointId, event.body = .historyRecorded payload →
    payload.type = .restorePoint restorePointId →
    now.historyRetirement event.streamId restorePointId = some none

/-- **Everything that was checked for a text**, and when: for a text of the event itself at the moment
`t` its call began; for a text of an artifact also at `t + 1`, when its bytes were read. -/
inductive Behind (options : Options) (world : ℕ → World) (event : RuntimeEvent) (remaining : ℤ)
    (t : ℕ) : HistoryEvidence → CodeUnits → Prop
  | inline {e : InlineEvidence}
      (authorized : (world t).authorize event none = true)
      (unretired : Unretired (world t) event)
      (length : (encode e.text).length = e.byteLength)
      (digest : options.digest (encode e.text) = e.digest)
      (fits : (e.byteLength : ℤ) ≤ remaining) :
      Behind options world event remaining t (.inline e) e.text
  | retained {e : RetainedEvidence} {range : ArtifactRange} {record : ArtifactRecord} {text : CodeUnits}
      (authorized : (world t).authorize event none = true)
      (fits : (e.byteLength : ℤ) ≤ remaining)
      (read : (world (t + 1)).readRange e.artifactId 0 e.byteLength = some range)
      (length : range.byteLength = e.byteLength)
      (digest : options.digest range.bytes = e.digest)
      (unretired : Unretired (world (t + 1)) event)
      (found : (world (t + 1)).record e.artifactId = some record)
      (mayRead : MayRead (world (t + 1)) event record)
      (available : record.availability = .available)
      (unchanged : record.digest = e.digest)
      (decoded : decode range.bytes = some text) :
      Behind options world event remaining t (.retained e) text

section

variable {options : Options} {world : ℕ → World} {event : RuntimeEvent} {remaining : ℤ} {t : ℕ}

variable {u : Unit}

theorem unlessRefused_ok {refusal : Option Refusal} :
    unlessRefused refusal = .ok u ↔ refusal = none := by
  cases refusal with
  | some refusal => exact ⟨fun h => (nomatch h), fun h => (nomatch h)⟩
  | none => exact ⟨fun _ => rfl, fun _ => rfl⟩

theorem orRefuse_ok {α : Type} {value : Option α} {refusal : Refusal} {a : α} :
    orRefuse value refusal = .ok a ↔ value = some a := by
  cases value with
  | some b => exact ⟨fun h => by cases h; rfl, fun h => by cases h; rfl⟩
  | none => exact ⟨fun h => (nomatch h), fun h => (nomatch h)⟩

variable {now : World}

theorem unretired_of_retired (h : retired now event = none) : Unretired now event := by
  intro payload restorePointId hbody htype
  rw [retired, hbody] at h
  dsimp only at h
  rw [htype] at h
  dsimp only at h
  cases hretirement : now.historyRetirement event.streamId restorePointId with
  | none => rw [hretirement] at h; cases h
  | some retirement =>
    rw [hretirement] at h
    cases retirement with
    | none => rfl
    | some reason => cases h

variable {e : RetainedEvidence}

theorem admitArtifact_ok
    (h : admitArtifact options event e remaining now = .ok u) : (e.byteLength : ℤ) ≤ remaining := by
  obtain ⟨_, -, h⟩ := except_bind_ok.1 h
  obtain ⟨_, -, h⟩ := except_bind_ok.1 h
  obtain ⟨_, -, h⟩ := except_bind_ok.1 h
  obtain ⟨_, -, h⟩ := except_bind_ok.1 h
  obtain ⟨_, -, h⟩ := except_bind_ok.1 h
  obtain ⟨_, -, h⟩ := except_bind_ok.1 h
  obtain ⟨_, -, h⟩ := except_bind_ok.1 h
  obtain ⟨_, -, h⟩ := except_bind_ok.1 h
  obtain ⟨_, -, h⟩ := except_bind_ok.1 h
  exact not_lt.1 (refuseIf_ok.1 h)

/-- What holds of an artifact when its text is given out. -/
theorem recheckArtifact_ok (h : recheckArtifact options event e now = .ok u) :
    Unretired now event ∧ ∃ record, now.record e.artifactId = some record ∧ MayRead now event record
      ∧ record.availability = .available ∧ record.digest = e.digest := by
  obtain ⟨_, hretired, h⟩ := except_bind_ok.1 h
  obtain ⟨record, hrecord, h⟩ := except_bind_ok.1 h
  obtain ⟨_, hread, h⟩ := except_bind_ok.1 h
  obtain ⟨_, -, h⟩ := except_bind_ok.1 h
  obtain ⟨havailable, hdigest⟩ := not_or.1 (refuseIf_ok.1 h)
  exact ⟨unretired_of_retired (unlessRefused_ok.1 hretired), record, orRefuse_ok.1 hrecord,
    not_not.1 (refuseIf_ok.1 hread), not_not.1 havailable, not_not.1 hdigest⟩

variable {text : CodeUnits} {primary : Bool} {evidence : HistoryEvidence}

theorem readArtifact_ok {payload : HistoryPayload} (hauthorized : (world t).authorize event none = true)
    (h : readArtifact options world event payload e remaining t primary = .ok text) :
    Behind options world event remaining t (.retained e) text := by
  obtain ⟨_, hadmit, h⟩ := except_bind_ok.1 h
  obtain ⟨range, hread, h⟩ := except_bind_ok.1 h
  obtain ⟨_, hcontent, h⟩ := except_bind_ok.1 h
  obtain ⟨_, hrecheck, h⟩ := except_bind_ok.1 h
  obtain ⟨decoded, hdecode, h⟩ := except_bind_ok.1 h
  have htext : text = decoded := by
    split_ifs at h
    · obtain ⟨_, -, h⟩ := except_bind_ok.1 h
      exact except_pure_ok.1 h
    · exact except_pure_ok.1 h
  subst htext
  obtain ⟨hlength, hdigest⟩ := not_or.1 (refuseIf_ok.1 hcontent)
  obtain ⟨hunretired, record, hfound, hmay, havailable, hunchanged⟩ := recheckArtifact_ok hrecheck
  exact .retained hauthorized (admitArtifact_ok hadmit) (orRefuse_ok.1 hread) (not_not.1 hlength)
    (not_not.1 hdigest) hunretired hfound hmay havailable hunchanged (orRefuse_ok.1 hdecode)

/-- **What stands behind a text that `resolve` gives out.** -/
theorem resolve_text (h : (resolve options world event remaining t primary).text = some text) :
    ∃ payload, event.body = .historyRecorded payload
      ∧ Behind options world event remaining t payload.evidence text := by
  unfold resolve at h
  cases hresolve : resolveText options world event remaining t primary with
  | error refusal =>
    rw [hresolve, refusal.2.1] at h
    cases h
  | ok answer =>
    rw [hresolve] at h
    obtain ⟨shown, availability⟩ := answer
    obtain rfl : shown = some text := h
    obtain ⟨_, hauthority, hresolve⟩ := except_bind_ok.1 hresolve
    obtain ⟨_, -, hresolve⟩ := except_bind_ok.1 hresolve
    have hauthorized := eq_true_of_ne_false (refuseIf_ok.1 hauthority)
    cases hbody : event.body with
    | other kind =>
      rw [hbody] at hresolve
      cases hresolve
    | historyRecorded payload =>
      rw [hbody] at hresolve
      obtain ⟨_, hretired, hresolve⟩ := except_bind_ok.1 hresolve
      refine ⟨payload, rfl, ?_⟩
      cases hevidence : payload.evidence with
      | unavailable e =>
        rw [hevidence] at hresolve
        cases hresolve
      | inline e =>
        rw [hevidence] at hresolve
        obtain ⟨_, hintact, hresolve⟩ := except_bind_ok.1 hresolve
        obtain ⟨_, hfits, hresolve⟩ := except_bind_ok.1 hresolve
        cases except_pure_ok.1 hresolve
        obtain ⟨hlength, hdigest⟩ := not_or.1 (refuseIf_ok.1 hintact)
        exact .inline hauthorized (unretired_of_retired (unlessRefused_ok.1 hretired))
          (not_not.1 hlength) (not_not.1 hdigest) (not_lt.1 (refuseIf_ok.1 hfits))
      | retained e =>
        rw [hevidence] at hresolve
        obtain ⟨read, hread, hresolve⟩ := except_bind_ok.1 hresolve
        cases except_pure_ok.1 hresolve
        exact readArtifact_ok hauthorized hread

theorem resolve_references (primary : Bool) :
    (resolve options world event remaining t primary).references = none := by
  unfold resolve
  cases resolveText options world event remaining t primary with
  | error refusal => exact refusal.2.2
  | ok answer => rfl

/-! ## Texts and what is recorded of them -/

/-- The text is the one the evidence records. -/
def Intact (options : Options) (evidence : HistoryEvidence) (text : CodeUnits) : Prop :=
  evidence.recorded = some ((encode text).length, options.digest (encode text))

/-- The bytes that were read for the text of an event do not begin with a byte order mark. -/
def Unmarked (now : World) : HistoryEvidence → Prop
  | .retained e => ∀ range ∈ now.readRange e.artifactId 0 e.byteLength, ¬ Marked range.bytes
  | _ => True

/-- A text is never longer than its evidence says, so that what fits is what is given out. -/
theorem behind_size (h : Behind options world event remaining t evidence text) :
    ((encode text).length : ℤ) ≤ remaining := by
  cases h with
  | inline _ _ hlength _ hfits => rwa [hlength]
  | @retained e range _ _ _ hfits _ hlength _ _ _ _ _ _ hdecoded =>
    have hbytes : (encode text).length ≤ range.bytes.length := by
      rcases encode_of_decode hdecoded with ⟨-, hmark⟩ | ⟨-, hsame⟩
      · rw [hmark, List.length_append]
        exact Nat.le_add_left _ _
      · rw [← hsame]
    have := range.reported
    omega

/-- **When a text is the one its evidence records**: when the bytes read for it bear no mark. -/
theorem behind_exact (h : Behind options world event remaining t evidence text) :
    Intact options evidence text ↔ Unmarked (world (t + 1)) evidence := by
  cases h with
  | inline _ _ hlength hdigest _ => exact iff_of_true (by rw [Intact, hlength, hdigest]; rfl) trivial
  | @retained e range _ _ _ _ hread hlength hdigest _ _ _ _ _ hdecoded =>
    have hunmarked : Unmarked (world (t + 1)) (.retained e) ↔ ¬ Marked range.bytes := by
      rw [Unmarked, hread]
      exact ⟨fun h => h range rfl, fun h other hother => Option.some.inj hother ▸ h⟩
    rw [hunmarked]
    have hreported := range.reported
    rcases encode_of_decode hdecoded with ⟨hmarked, hbytes⟩ | ⟨hunmarked, hbytes⟩
    · -- the decoder leaves the mark out, so that the text is three bytes short
      refine iff_of_false (fun hintact => ?_) (not_not_intro hmarked)
      have hshort := congrArg List.length hbytes
      have hsame : e.byteLength = (encode text).length := congrArg Prod.fst (Option.some.inj hintact)
      rw [List.length_append, List.length_cons, List.length_cons, List.length_singleton] at hshort
      omega
    · refine iff_of_true ?_ hunmarked
      rw [Intact, ← hbytes, hdigest, ← hreported, hlength]
      rfl

end

end Falryn.Sessions.History
