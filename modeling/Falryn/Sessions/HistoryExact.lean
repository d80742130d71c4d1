import Falryn.Sessions.HistoryPages

/-!
# What a history page shows

The texts of a page are authorized, stay within the budget and, with one exception, are the texts that were
recorded; nothing of an event with a denied reference is shown, and following the pages shows every event
once (`historyReads_iff`).  The exception is a text whose bytes begin with a byte order mark: the decoder
leaves the mark out, after the digest of the bytes was found to be right (`not_historyReads`).
-/

namespace Falryn.Sessions.History

/-! ## The texts of a page -/

/-- A text that an item carries. -/
def HistoryReadItem.Carries (item : HistoryReadItem) (text : CodeUnits) : Prop :=
  item.text = some text ∨ ∃ references ∈ item.references, ∃ reference ∈ references,
    reference.text = some text

/-- The item of an entry shows a text for a piece of evidence, by a call of `resolve`. -/
inductive Shows (options : Options) (world : ℕ → World) (entry : Entry) :
    Call → HistoryEvidence → CodeUnits → Prop
  /-- The text of the event. -/
  | own {payload : HistoryPayload} {text : CodeUnits}
      (body : entry.event.body = .historyRecorded payload) (text_eq : entry.item.text = some text) :
      Shows options world entry entry.call payload.evidence text
  /-- The text of a reference. -/
  | reference {references : List ReferenceItem} {i : ℕ} {reference : HistoryReference} {call : Call}
      {shown : ReferenceItem} {text : CodeUnits} (references_eq : entry.item.references = some references)
      (call_eq : entry.references[i]? = some (reference, call)) (shown_eq : references[i]? = some shown)
      (text_eq : shown.text = some text) :
      Shows options world entry call reference.evidence text

/-- **A page shows only authorized, intact and budgeted text.** -/
structure HistoryPage.Good (options : Options) (world : ℕ → World) (page : HistoryPage) : Prop where
  authorized : ∀ entry ∈ page.entries, ∀ text, entry.item.Carries text →
    ∃ call evidence, Shows options world entry call evidence text
      ∧ Behind options world call.event call.remaining call.started evidence text
  intact : ∀ entry ∈ page.entries, ∀ call evidence text, Shows options world entry call evidence text →
    evidence.IsExact → Intact options evidence text
  budget : (page.items.map HistoryReadItem.size).sum ≤ page.maxBytes
  counted : (∀ entry ∈ page.entries, ¬ entry.Denied options world) →
    (page.items.map HistoryReadItem.size).sum = page.bytes
  denied : ∀ entry ∈ page.entries, entry.Denied options world →
    entry.item.text = none ∧ entry.item.references = none
      ∧ (options.redactDeniedEvidence = false → entry.item.event = none)

/-- **The pages show every event behind the cursor**, each once and in their order, and come to an end
where the stream does. -/
structure VisitsOnce (options : Options) (worlds : Worlds) (streamId : String)
    (requests : List PageRequest) (cursor : Option ℕ) (t : ℕ) : Prop where
  visits : ∃ t', t ≤ t' ∧ ∃ rest,
    worlds.after streamId cursor t' = visited (follow options worlds streamId requests cursor t) ++ rest
      ∧ (Completed (follow options worlds streamId requests cursor t) → rest = [])
  completes : ∀ n < requests.length, (∀ t', (worlds.world t').failure = none) →
    (∀ request ∈ requests, (pageLimits options request).isSome = true) →
    (∀ t', t ≤ t' → (worlds.after streamId cursor t').length ≤ n) →
    Completed (follow options worlds streamId requests cursor t)

/-- What a reader that follows `next` is promised. -/
def HistoryReads (options : Options) (worlds : Worlds) (streamId : String) (requests : List PageRequest)
    (cursor : Option ℕ) (t : ℕ) : Prop :=
  (∀ page, .ok page ∈ follow options worlds streamId requests cursor t → page.Good options worlds.world)
    ∧ VisitsOnce options worlds streamId requests cursor t

/-- No bytes that were read for an exact text of a page begin with a byte order mark. -/
def HistoryPage.BytesUnmarked (options : Options) (world : ℕ → World) (page : HistoryPage) : Prop :=
  ∀ entry ∈ page.entries, ∀ call evidence text, Shows options world entry call evidence text →
    evidence.IsExact → Unmarked (world (call.started + 1)) evidence

section

variable {options : Options} {world : ℕ → World} {event : RuntimeEvent} {entry : Entry}
  {call : Call} {text : CodeUnits} {entries : List Entry}

theorem Reads.getElem_references (h : Reads options world event entry) {references : List ReferenceItem}
    (hreferences : entry.item.references = some references) {i : ℕ} {reference : HistoryReference} (hcall : entry.references[i]? = some (reference, call)) :
    references[i]? = some (referenceItem reference (call.answer options world)) := by
  rw [h.references references hreferences, Entry.referenceItems, List.getElem?_map, hcall]
  rfl

/-- Every text that is shown was authorized. -/
theorem Reads.behind (h : Reads options world event entry) {evidence : HistoryEvidence} (hshows : Shows options world entry call evidence text) :
    Behind options world call.event call.remaining call.started evidence text := by
  cases hshows with
  | @own payload _ hbody htext =>
    obtain ⟨found, hfound, hbehind⟩ := resolve_text (h.text text htext)
    rw [h.call_event, ← h.entry_event, hbody] at hfound
    cases hfound
    exact hbehind
  | @reference references i reference _ shown _ hreferences hcall hshown htext =>
    rw [h.getElem_references hreferences hcall] at hshown
    cases hshown
    obtain ⟨payload, -, hevent⟩ := h.reference_event _ (List.mem_of_getElem? hcall)
    obtain ⟨found, hfound, hbehind⟩ := resolve_text htext
    rw [hevent] at hfound
    cases hfound
    exact hbehind

/-- Every text an item carries is shown. -/
theorem Reads.shows (h : Reads options world event entry)
    (hcarries : entry.item.Carries text) : ∃ call evidence, Shows options world entry call evidence text := by
  rcases hcarries with htext | ⟨references, hreferences, shown, hshown, htext⟩
  · obtain ⟨payload, hbody, -⟩ := resolve_text (h.text text htext)
    rw [h.call_event, ← h.entry_event] at hbody
    exact ⟨_, _, .own hbody htext⟩
  · obtain ⟨i, hi, hget⟩ := List.mem_iff_getElem.1 hshown
    have hlength : i < entry.references.length := by
      rw [h.references references hreferences, Entry.referenceItems, List.length_map] at hi
      exact hi
    exact ⟨_, _, .reference hreferences (List.getElem?_eq_getElem hlength)
      (hget ▸ List.getElem?_eq_getElem hi) htext⟩

theorem exists_reads {events : List RuntimeEvent}
    (h : List.Forall₂ (Reads options world) events entries) :
    ∀ entry ∈ entries, ∃ event, Reads options world event entry := by
  induction h with
  | nil => exact fun _ h => absurd h List.not_mem_nil
  | cons hreads _ ih => exact List.forall_mem_cons.2 ⟨⟨_, hreads⟩, ih⟩

theorem sum_size_le (h : ∀ entry ∈ entries, ∃ event, Reads options world event entry) :
    ((entries.map Entry.item).map HistoryReadItem.size).sum
      ≤ (entries.map fun entry => entry.counted options world).sum := by
  rw [List.map_map]
  refine List.sum_le_sum fun entry hentry => ?_
  obtain ⟨event, hreads⟩ := h entry hentry
  exact hreads.size_le

end

/-! ## When the texts are intact -/

section

variable {options : Options} {worlds : Worlds} {streamId : String}

theorem mem_follow : ∀ {requests : List PageRequest} {cursor : Option ℕ} {t : ℕ} {read : HistoryPage},
    .ok read ∈ follow options worlds streamId requests cursor t →
    ∃ cursor t, IsPage options worlds streamId cursor t read := by
  intro requests
  induction requests with
  | nil => exact fun h => absurd h List.not_mem_nil
  | cons request requests ih =>
    intro cursor t read h
    rw [follow] at h
    cases hpage : page options worlds streamId request cursor t with
    | error code =>
      rw [hpage, List.mem_singleton] at h
      cases h
    | ok first =>
      rw [hpage] at h
      dsimp only at h
      rcases List.mem_cons.1 h with hfirst | hlater
      · cases hfirst
        exact ⟨cursor, t, isPage_of_ok hpage⟩
      · cases hnext : first.next with
        | none => rw [hnext] at hlater; exact absurd hlater List.not_mem_nil
        | some next => rw [hnext] at hlater; exact ih hlater

/-- **When a page is good**: when no bytes read for it bear a mark. -/
theorem IsPage.good_iff {cursor : Option ℕ} {t : ℕ} {read : HistoryPage}
    (h : IsPage options worlds streamId cursor t read) :
    read.Good options worlds.world ↔ read.BytesUnmarked options worlds.world := by
  have hreads := exists_reads h.reads
  constructor
  · intro hgood entry hentry call evidence text hshows hexact
    obtain ⟨event, hread⟩ := hreads entry hentry
    exact (behind_exact (hread.behind hshows)).1 (hgood.intact entry hentry call evidence text hshows hexact)
  · intro hunmarked
    refine ⟨fun entry hentry text hcarries => ?_, fun entry hentry call evidence text hshows hexact => ?_,
      ?_, fun hnone => ?_, fun entry hentry hdenied => ?_⟩
    · obtain ⟨event, hread⟩ := hreads entry hentry
      obtain ⟨call, evidence, hshows⟩ := hread.shows hcarries
      exact ⟨call, evidence, hshows, hread.behind hshows⟩
    · obtain ⟨event, hread⟩ := hreads entry hentry
      exact (behind_exact (hread.behind hshows)).2 (hunmarked entry hentry call evidence text hshows hexact)
    · exact (sum_size_le hreads).trans (h.counted ▸ h.bounded)
    · rw [h.counted, HistoryPage.items, List.map_map]
      refine congrArg List.sum (List.map_congr_left fun entry hentry => ?_)
      obtain ⟨event, hread⟩ := hreads entry hentry
      exact hread.size (hnone entry hentry)
    · obtain ⟨event, hread⟩ := hreads entry hentry
      rw [hread.denied hdenied]
      refine ⟨rfl, rfl, fun hredact => ?_⟩
      unfold deniedEvidence
      cases hbody : event.body with
      | other kind => rfl
      | historyRecorded payload => exact if_neg (by rw [hredact]; exact Bool.false_ne_true)

end

/-- **What a reader that follows `next` is promised holds exactly when** no bytes read for an exact text
begin with a byte order mark. -/
theorem historyReads_iff (options : Options) (worlds : Worlds) (streamId : String)
    (requests : List PageRequest) (cursor : Option ℕ) (t : ℕ) :
    HistoryReads options worlds streamId requests cursor t ↔
      ∀ page, .ok page ∈ follow options worlds streamId requests cursor t →
        page.BytesUnmarked options worlds.world := by
  have hvisits : VisitsOnce options worlds streamId requests cursor t :=
    ⟨follow_visits requests cursor t, fun n hn hreads hvalid hshort =>
      follow_complete hreads requests cursor t n hvalid hshort hn⟩
  rw [HistoryReads, and_iff_left hvisits]
  refine forall_congr' fun read => forall_congr' fun hread => ?_
  obtain ⟨_, _, hpage⟩ := mem_follow hread
  exact hpage.good_iff

/-! ## A text that begins with a mark -/

/-- The bytes of `hi` behind a mark. -/
def markedBytes : List UInt8 := [0xef, 0xbb, 0xbf, 0x68, 0x69]

/-- The digests of the bytes above, and of those without the mark. -/
def sampleDigest (bytes : List UInt8) : String :=
  if bytes = markedBytes then "sha-256:7611e336d2b333aa772acee003373474c86cd9ce975c10d66a4b0156e8641dca"
  else if bytes = [0x68, 0x69] then "sha-256:8f434346648f6b96df89dda901c5176b10a6d83961dd3c1ac88b59b2dc327aa4"
  else ""

/-- A message whose text is kept in an artifact. -/
def markedPayload : HistoryPayload where
  type := .message
  id := "message-1"
  generation := 0
  evidence := .retained ⟨"artifact-1", sampleDigest markedBytes, 5, .exact⟩
  references := none

def markedEvent : RuntimeEvent := ⟨"event-1", "stream-1", 1, .historyRecorded markedPayload⟩

/-- Everything is allowed, and the one artifact holds the marked bytes. -/
def markedWorld : World where
  authorize _ _ := true
  get _ := .ok (some ⟨"artifact-1", sampleDigest markedBytes, 5, .userContent, .available⟩)
  readRange _ _ _ := some ⟨markedBytes, 5, rfl⟩
  historyRetirement _ _ := some none
  checkpointFailure _ _ := .ok none
  aborted := false
  stream _ := [markedEvent]
  failure := none

def markedWorlds : Worlds where
  world _ := markedWorld
  positive _ _ event h := by
    cases List.mem_singleton.1 h
    exact le_rfl
  ordered _ _ := List.pairwise_singleton _ _
  grows _ _ := List.prefix_rfl

def sampleOptions : Options := ⟨sampleDigest, true, false, none⟩

theorem markedPayload_valid : markedPayload.Valid :=
  ⟨⟨by decide +kernel, by decide +kernel, by decide⟩, fun _ h => nomatch h⟩

/-- The text of a page is not the one that was recorded: it is three bytes short. -/
theorem not_historyReads : markedPayload.Valid
    ∧ ¬ HistoryReads sampleOptions markedWorlds "stream-1" [⟨none, none⟩] none 0 := by
  refine ⟨markedPayload_valid, fun h => ?_⟩
  have hlimits : pageLimits sampleOptions ⟨none, none⟩ = some (32, 65536) := by decide +kernel
  have hpage : ∃ read, page sampleOptions markedWorlds "stream-1" ⟨none, none⟩ none 0 = .ok read
      ∧ ∃ entry ∈ read.entries, entry.event = markedEvent ∧ entry.item.text = some [0x68, 0x69] := by
    rw [page, hlimits]
    exact ⟨_, rfl, _, List.mem_cons_self, rfl, by decide +kernel⟩
  obtain ⟨read, hread, entry, hentry, hevent, htext⟩ := hpage
  have hmem : .ok read ∈ follow sampleOptions markedWorlds "stream-1" [⟨none, none⟩] none 0 := by
    rw [follow, hread]
    exact List.mem_cons_self
  have hbody : entry.event.body = .historyRecorded markedPayload := by rw [hevent]; rfl
  have hintact := (h.1 read hmem).intact entry hentry _ _ _ (.own hbody htext) rfl
  have hlength : 5 = (encode [0x68, 0x69]).length := congrArg Prod.fst (Option.some.inj hintact)
  revert hlength
  decide +kernel

end Falryn.Sessions.History
