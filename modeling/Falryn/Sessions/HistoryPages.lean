import Falryn.Lib.Cursor
import Falryn.Sessions.HistoryReader

/-!
# Pages of the history

`page` of the history reader (`domain/sessions/history-reader.ts`), and a reader that follows `next` from
one page to the next one.  Of every event a page also knows which calls of `resolve` were made for it
(`Entry`), so that it can be said what stands behind the texts of its item.  A call takes three moments;
the texts of a page share one budget of bytes.

* `readEvent_spec` is the budget of one event, `readEvents_spec` that of a page.
* `follow_visits`: following the pages visits the events behind the cursor, each once and in their
  order, and `follow_complete`: it comes to an end.
-/

namespace Falryn.Sessions.History

/-! ## One event -/

/-- A call of `resolve`. -/
structure Call where
  event : RuntimeEvent
  remaining : ℤ
  started : ℕ
  primary : Bool

/-- What one event came to: the calls made for it and its references, and the item. -/
structure Entry where
  event : RuntimeEvent
  call : Call
  references : List (HistoryReference × Call)
  item : HistoryReadItem

section

variable (options : Options) (world : ℕ → World)

def Call.answer (call : Call) : HistoryReadItem :=
  resolve options world call.event call.remaining call.started call.primary

/-- What an item says of one reference. -/
def referenceItem (reference : HistoryReference) (answer : HistoryReadItem) : ReferenceItem where
  artifactId :=
    if answer.availability = .unauthorized then none
    else
      match reference with
      | .retained e => some e.artifactId
      | .unavailable e => e.reference.map ArtifactReference.artifactId
  availability := answer.availability
  text := answer.text
  reason := answer.reason

/-- The loop over the references of an event, with the bytes it counts. -/
def readReferences (event : RuntimeEvent) (payload : HistoryPayload) (maxBytes : ℕ) :
    List HistoryReference → ℕ → ℕ → List (HistoryReference × Call) × ℕ
  | [], _, bytes => ([], bytes)
  | reference :: references, t, bytes =>
    let call : Call :=
      { event := event.withEvidence payload reference.evidence (some [])
        remaining := maxBytes - bytes
        started := t
        primary := false }
    let rest := readReferences event payload maxBytes references (t + 3)
      (bytes + textSize (call.answer options world).text)
    ((reference, call) :: rest.1, rest.2)

/-- The items of the references an entry has. -/
def Entry.referenceItems (entry : Entry) : List ReferenceItem :=
  entry.references.map fun reference => referenceItem reference.1 (reference.2.answer options world)

/-- The event has a reference that was answered with "unauthorized". -/
def Entry.Denied (entry : Entry) : Prop :=
  ∃ reference ∈ entry.references, (reference.2.answer options world).availability = .unauthorized

instance (entry : Entry) : Decidable (entry.Denied options world) :=
  inferInstanceAs (Decidable (∃ _ ∈ _, _))

/-- The item of an event with references. -/
def withReferences (item : HistoryReadItem) (references : List ReferenceItem) : HistoryReadItem :=
  if item.availability = .exact ∧ ∃ reference ∈ references, reference.availability ≠ .exact then
    { item with
      references := some references
      availability := .reduced
      reason := some "referenced-evidence-unavailable" }
  else { item with references := some references }

/-- The references of an event that are looked at when its own evidence came to an item. -/
def listed (event : RuntimeEvent) (item : HistoryReadItem) :
    Option (HistoryPayload × List HistoryReference) :=
  match event.body with
  | .historyRecorded payload =>
    let references := payload.references.getD []
    if item.event.isSome = true ∧ item.availability ≠ .expired ∧ references ≠ [] then
      some (payload, references)
    else none
  | .other _ => none

/-- One turn of the loop over the events, with the bytes it counts. -/
def readEvent (maxBytes : ℕ) (event : RuntimeEvent) (t bytes : ℕ) : Entry × ℕ :=
  let call : Call := { event, remaining := maxBytes - bytes, started := t, primary := true }
  let item := call.answer options world
  let bytes := bytes + textSize item.text
  match listed event item with
  | none => (⟨event, call, [], item⟩, bytes)
  | some (payload, references) =>
    let read := readReferences options world event payload maxBytes references (t + 3) bytes
    let entry : Entry := ⟨event, call, read.1, item⟩
    if entry.Denied options world then
      ({ entry with item := (deniedEvidence options event "referenced-evidence-authority").1 }, read.2)
    else
      ({ entry with item := withReferences item (entry.referenceItems options world) }, read.2)

/-- The moment after the calls of an entry. -/
def Entry.finished (entry : Entry) : ℕ := entry.call.started + 3 + 3 * entry.references.length

/-- The loop over the events: the entries, the bytes and the moment it ends. -/
def readEvents (maxBytes : ℕ) : List RuntimeEvent → ℕ → ℕ → List Entry × ℕ × ℕ
  | [], t, bytes => ([], bytes, t)
  | event :: events, t, bytes =>
    let read := readEvent options world maxBytes event t bytes
    let rest := readEvents maxBytes events read.1.finished read.2
    (read.1 :: rest.1, rest.2)

end

/-! ## Pages -/

/-- The two numbers of a page request. -/
structure PageRequest where
  limit : Option ℚ
  maxBytes : Option ℚ

/-- A page. -/
structure HistoryPage where
  entries : List Entry
  bytes : ℕ
  next : Option ℕ
  /-- The bytes that were asked for at most. -/
  maxBytes : ℕ
  /-- The moment the page was there. -/
  finished : ℕ

def HistoryPage.items (page : HistoryPage) : List HistoryReadItem := page.entries.map Entry.item

/-- `partial`. -/
def HistoryPage.isIncomplete (page : HistoryPage) : Bool :=
  page.items.any fun item => item.availability ≠ .exact

/-- A number that `Number.isSafeInteger` accepts. -/
def safeInteger (q : ℚ) : Option ℤ :=
  if q.den = 1 ∧ q.num.natAbs ≤ 2 ^ 53 - 1 then some q.num else none

/-- The bytes a page may have at most. -/
def Options.readBound (options : Options) : ℕ :=
  min (options.maximumReadBytes.getD readBytes) contentBytes

/-- The limits of a page, if the request is well formed. -/
def pageLimits (options : Options) (request : PageRequest) : Option (ℕ × ℕ) := do
  let limit ← safeInteger (request.limit.getD 32)
  let maxBytes ← safeInteger (request.maxBytes.getD readBytes)
  if limit < 1 ∨ pageEvents < limit ∨ maxBytes < 0 ∨ options.readBound < maxBytes then none
  else some (limit.toNat, maxBytes.toNat)

def World.readFrom (now : World) (streamId : String) (afterSequence : Option ℕ) (limit : ℕ) :
    Except String (List RuntimeEvent) :=
  match now.failure with
  | some code => .error code
  | none => .ok ((Cursor.after RuntimeEvent.sequence afterSequence (now.stream streamId)).take limit)

section

variable (options : Options) (worlds : Worlds) (streamId : String)

def page (request : PageRequest) (afterSequence : Option ℕ) (t : ℕ) : Except String HistoryPage :=
  match pageLimits options request with
  | none => .error "malformed"
  | some (limit, maxBytes) => do
    let read ← (worlds.world (t + 1)).readFrom streamId afterSequence (limit + 1)
    let (entries, bytes, finished) :=
      readEvents options worlds.world maxBytes (read.take limit) (t + 2) 0
    let next := if limit < read.length then read[limit - 1]?.map RuntimeEvent.sequence else none
    return ⟨entries, bytes, next, maxBytes, finished⟩

/-- The pages a reader gets that follows `next`. -/
def follow : List PageRequest → Option ℕ → ℕ → List (Except String HistoryPage)
  | [], _, _ => []
  | request :: requests, afterSequence, t =>
    match page options worlds streamId request afterSequence t with
    | .error code => [.error code]
    | .ok read =>
      .ok read :: match read.next with
        | none => []
        | some next => follow requests (some next) (read.finished + 1)

end

/-! ## Budgets -/

section

variable {options : Options} {world : ℕ → World} {maxBytes : ℕ} {bytes : ℕ} {event : RuntimeEvent}

theorem answer_size (call : Call) (h : 0 ≤ call.remaining) :
    (textSize (call.answer options world).text : ℤ) ≤ call.remaining := by
  cases htext : (call.answer options world).text with
  | none => exact h
  | some text =>
    obtain ⟨payload, -, hbehind⟩ := resolve_text htext
    exact behind_size hbehind

/-- What a call adds to the bytes stays within the bound. -/
theorem add_answer_size_le (hbytes : bytes ≤ maxBytes) {call : Call}
    (hcall : call.remaining = maxBytes - bytes) :
    bytes + textSize (call.answer options world).text ≤ maxBytes := by
  have hsize := @answer_size options world call (by omega)
  omega

/-- The bytes of the texts that references were answered with. -/
def referenceBytes (options : Options) (world : ℕ → World) (references : List (HistoryReference × Call)) : ℕ :=
  (references.map fun reference => textSize (reference.2.answer options world).text).sum

theorem readReferences_spec (event : RuntimeEvent) (payload : HistoryPayload)
    (references : List HistoryReference) : ∀ {t bytes : ℕ}, bytes ≤ maxBytes →
    (readReferences options world event payload maxBytes references t bytes).2
        = bytes + referenceBytes options world
          (readReferences options world event payload maxBytes references t bytes).1
      ∧ (readReferences options world event payload maxBytes references t bytes).2 ≤ maxBytes := by
  induction references with
  | nil => exact fun hbytes => ⟨rfl, hbytes⟩
  | cons reference references ih =>
    intro t bytes hbytes
    rw [readReferences]
    dsimp only
    obtain ⟨hsum, hle⟩ := ih (t := t + 3) (@add_answer_size_le options world _ _ hbytes
      ⟨event.withEvidence payload reference.evidence (some []), maxBytes - bytes, t, false⟩ rfl)
    refine ⟨?_, hle⟩
    rw [hsum, referenceBytes, referenceBytes, List.map_cons, List.sum_cons, Nat.add_assoc]

theorem readReferences_events (event : RuntimeEvent) (payload : HistoryPayload)
    (references : List HistoryReference) : ∀ {t bytes : ℕ},
    ∀ reference ∈ (readReferences options world event payload maxBytes references t bytes).1,
      reference.2.event = event.withEvidence payload reference.1.evidence (some []) := by
  induction references with
  | nil => exact fun reference h => absurd h List.not_mem_nil
  | cons reference references ih =>
    intro t bytes other hother
    rw [readReferences, List.mem_cons] at hother
    rcases hother with rfl | hother
    · rfl
    · exact ih other hother

/-- What the loop makes of an event. -/
structure Reads (options : Options) (world : ℕ → World) (event : RuntimeEvent) (entry : Entry) : Prop where
  entry_event : entry.event = event
  call_event : entry.call.event = event
  reference_event : ∀ reference ∈ entry.references, ∃ payload, event.body = .historyRecorded payload
    ∧ reference.2.event = event.withEvidence payload reference.1.evidence (some [])
  /-- A text of the item is that of the event. -/
  text : ∀ text, entry.item.text = some text → (entry.call.answer options world).text = some text
  /-- What the item says of the references is what they were answered with. -/
  references : ∀ items ∈ entry.item.references, items = entry.referenceItems options world
  denied : entry.Denied options world →
    entry.item = (deniedEvidence options event "referenced-evidence-authority").1
  size : ¬ entry.Denied options world → entry.item.size
    = textSize (entry.call.answer options world).text + referenceBytes options world entry.references

/-- The bytes that were counted for an entry. -/
def Entry.counted (options : Options) (world : ℕ → World) (entry : Entry) : ℕ :=
  textSize (entry.call.answer options world).text + referenceBytes options world entry.references

theorem Reads.size_le {entry : Entry} (h : Reads options world event entry) :
    entry.item.size ≤ entry.counted options world := by
  by_cases hdenied : entry.Denied options world
  · rw [h.denied hdenied]
    exact Nat.zero_le _
  · exact le_of_eq (h.size hdenied)

theorem withReferences_text (item : HistoryReadItem) (references : List ReferenceItem) :
    (withReferences item references).text = item.text := by
  unfold withReferences
  split_ifs
  · rfl
  · rfl

theorem withReferences_references (item : HistoryReadItem) (references : List ReferenceItem) :
    (withReferences item references).references = some references := by
  unfold withReferences
  split_ifs
  · rfl
  · rfl

theorem listed_body {item : HistoryReadItem} {payload : HistoryPayload}
    {references : List HistoryReference} (h : listed event item = some (payload, references)) :
    event.body = .historyRecorded payload := by
  unfold listed at h
  cases hbody : event.body with
  | other kind => rw [hbody] at h; cases h
  | historyRecorded found =>
    rw [hbody] at h
    dsimp only at h
    split_ifs at h
    cases h
    rfl

theorem referenceItems_size (entry : Entry) :
    ((entry.referenceItems options world).map fun reference => textSize reference.text).sum
      = referenceBytes options world entry.references := by
  rw [Entry.referenceItems, referenceBytes, List.map_map]
  rfl

/-- **One turn of the loop over the events**: what it makes of the event, and what it adds to the bytes. -/
theorem readEvent_spec (event : RuntimeEvent) (t : ℕ) (hbytes : bytes ≤ maxBytes) :
    Reads options world event (readEvent options world maxBytes event t bytes).1
      ∧ (readEvent options world maxBytes event t bytes).2
        = bytes + (readEvent options world maxBytes event t bytes).1.counted options world
      ∧ (readEvent options world maxBytes event t bytes).2 ≤ maxBytes := by
  have hcall := @add_answer_size_le options world _ _ hbytes ⟨event, maxBytes - bytes, t, true⟩ rfl
  rw [readEvent]
  dsimp only
  cases hlisted : listed event (Call.answer options world ⟨event, maxBytes - bytes, t, true⟩) with
  | none =>
    refine ⟨⟨rfl, rfl, fun _ h => absurd h List.not_mem_nil, fun _ h => h, fun items hitems => ?_,
      fun ⟨_, h, _⟩ => absurd h List.not_mem_nil, fun _ => ?_⟩, rfl, hcall⟩
    · rw [Call.answer, resolve_references] at hitems
      cases hitems
    · rw [HistoryReadItem.size, Call.answer, resolve_references]
      rfl
  | some found =>
    obtain ⟨payload, references⟩ := found
    have hbody := listed_body hlisted
    obtain ⟨hsum, hle⟩ := @readReferences_spec options world _ event payload references (t + 3) _ hcall
    have hevents := @readReferences_events options world maxBytes event payload references (t + 3)
      (bytes + textSize (Call.answer options world ⟨event, maxBytes - bytes, t, true⟩).text)
    dsimp only
    split_ifs with hdenied
    · refine ⟨⟨rfl, rfl, fun reference h => ⟨payload, hbody, hevents reference h⟩, fun _ h => (nomatch h),
        fun _ h => (nomatch h), fun _ => rfl, fun h => absurd hdenied h⟩, ?_, hle⟩
      rw [hsum, Nat.add_assoc]
      rfl
    · refine ⟨⟨rfl, rfl, fun reference h => ⟨payload, hbody, hevents reference h⟩, fun text htext => ?_,
        fun items hitems => ?_, fun h => absurd h hdenied, fun _ => ?_⟩, ?_, hle⟩
      · rwa [withReferences_text] at htext
      · rw [withReferences_references] at hitems
        exact (Option.some.inj hitems).symm
      · rw [HistoryReadItem.size, withReferences_text, withReferences_references, Option.getD_some,
          referenceItems_size]
      · rw [hsum, Nat.add_assoc]
        rfl

theorem readEvent_started (event : RuntimeEvent) (t bytes : ℕ) :
    (readEvent options world maxBytes event t bytes).1.call.started = t := by
  rw [readEvent]
  dsimp only
  cases listed event (Call.answer options world ⟨event, maxBytes - bytes, t, true⟩) with
  | none => rfl
  | some found =>
    dsimp only
    split_ifs
    · rfl
    · rfl

/-- **The budget of a page.** -/
theorem readEvents_spec (events : List RuntimeEvent) : ∀ {t bytes : ℕ}, bytes ≤ maxBytes →
    List.Forall₂ (Reads options world) events
        (readEvents options world maxBytes events t bytes).1
      ∧ (readEvents options world maxBytes events t bytes).2.1
        = bytes + ((readEvents options world maxBytes events t bytes).1.map
          fun entry => entry.counted options world).sum
      ∧ (readEvents options world maxBytes events t bytes).2.1 ≤ maxBytes
      ∧ t ≤ (readEvents options world maxBytes events t bytes).2.2 := by
  induction events with
  | nil => exact fun hbytes => ⟨.nil, rfl, hbytes, le_rfl⟩
  | cons event events ih =>
    intro t bytes hbytes
    obtain ⟨hreads, hcounted, hle⟩ :=
      @readEvent_spec options world _ _ event t hbytes
    obtain ⟨hrest, hsum, hbound, hlater⟩ := ih (t := (readEvent options world maxBytes event t bytes).1.finished) hle
    refine ⟨.cons hreads hrest, ?_, hbound, le_trans ?_ hlater⟩
    · rw [readEvents, hsum, hcounted, List.map_cons, List.sum_cons, Nat.add_assoc]
    · rw [Entry.finished, readEvent_started]
      omega

end

/-! ## Following -/

section

variable {options : Options} {worlds : Worlds} {streamId : String}

/-- The events of a stream that come after a cursor. -/
def Worlds.after (worlds : Worlds) (streamId : String) (cursor : Option ℕ) (t : ℕ) : List RuntimeEvent :=
  Cursor.after RuntimeEvent.sequence cursor ((worlds.world t).stream streamId)

/-- The events a page shows, those whose item hides the event among them. -/
def HistoryPage.events (page : HistoryPage) : List RuntimeEvent := page.entries.map Entry.event

variable {request : PageRequest} {limit : ℕ} {maxBytes next : ℕ} {entries : List Entry}
  {all : List RuntimeEvent}

theorem pageLimits_pos (h : pageLimits options request = some (limit, maxBytes)) : 0 < limit := by
  obtain ⟨l, -, h⟩ := Option.bind_eq_some_iff.1 h
  obtain ⟨m, -, h⟩ := Option.bind_eq_some_iff.1 h
  split_ifs at h with hbounds
  cases h
  omega

/-- **What a page is made of.** -/
structure IsPage (options : Options) (worlds : Worlds) (streamId : String) (afterSequence : Option ℕ)
    (t : ℕ) (page : HistoryPage) : Prop where
  reads : List.Forall₂ (Reads options worlds.world) page.events page.entries
  counted : page.bytes = (page.entries.map fun entry => entry.counted options worlds.world).sum
  bounded : page.bytes ≤ page.maxBytes
  later : t + 1 ≤ page.finished
  /-- There is no next page: everything was shown. -/
  last : page.next = none → page.events = worlds.after streamId afterSequence (t + 1)
  /-- There is one: it begins behind what was shown. -/
  more : ∀ next ∈ page.next, ∀ t', t + 1 ≤ t' →
    page.events ≠ [] ∧
      worlds.after streamId afterSequence t' = page.events ++ worlds.after streamId (some next) t'

theorem forall₂_reads_events {events : List RuntimeEvent}
    {world : ℕ → World} (h : List.Forall₂ (Reads options world) events entries) :
    entries.map Entry.event = events := by
  induction h with
  | nil => rfl
  | cons hreads _ ih => rw [List.map_cons, hreads.entry_event, ih]

/-- A piece that is not followed by another holds all there is. -/
theorem next_none (hpositive : 0 < limit) (h : (if limit < (all.take (limit + 1)).length then
      (all.take (limit + 1))[limit - 1]?.map RuntimeEvent.sequence else none) = none) :
    all.length ≤ limit := by
  rw [List.length_take] at h
  by_contra hlong
  rw [if_pos (by omega), Option.map_eq_none_iff, List.getElem?_eq_none_iff, List.length_take] at h
  omega

theorem next_some (hpositive : 0 < limit) (h : next ∈ if limit < (all.take (limit + 1)).length then
      (all.take (limit + 1))[limit - 1]?.map RuntimeEvent.sequence else none) :
    ∃ hlong : limit - 1 < all.length, limit < all.length ∧ all[limit - 1].sequence = next := by
  rw [List.length_take] at h
  split_ifs at h with hlong
  · rw [List.getElem?_take_of_lt (by omega), Option.mem_def, Option.map_eq_some_iff] at h
    obtain ⟨event, hevent, hnext⟩ := h
    obtain ⟨hlt, rfl⟩ := List.getElem?_eq_some_iff.1 hevent
    exact ⟨hlt, by omega, hnext⟩
  · cases h

variable {t : ℕ} {afterSequence : Option ℕ}

/-- What is read behind a cursor, in one piece or as the first of several. -/
theorem isPage_of_reads (hpositive : 0 < limit) {bytes finished : ℕ}
    (h : readEvents options worlds.world maxBytes
      (((worlds.after streamId afterSequence (t + 1)).take (limit + 1)).take limit) (t + 2) 0
        = (entries, bytes, finished)) :
    IsPage options worlds streamId afterSequence t
      ⟨entries, bytes,
        if limit < ((worlds.after streamId afterSequence (t + 1)).take (limit + 1)).length then
          ((worlds.after streamId afterSequence (t + 1)).take (limit + 1))[limit - 1]?.map
            RuntimeEvent.sequence
        else none, maxBytes, finished⟩ := by
  obtain ⟨hreads, hcounted, hbound, hlater⟩ := @readEvents_spec options worlds.world _
    (((worlds.after streamId afterSequence (t + 1)).take (limit + 1)).take limit) (t + 2) _
    (Nat.zero_le maxBytes)
  rw [h] at hreads hcounted hbound hlater
  rw [List.take_take, min_eq_left (Nat.le_succ limit)] at hreads
  have hevents := forall₂_reads_events hreads
  refine ⟨?_, hcounted.trans (Nat.zero_add _), hbound, ?_, fun hnext => ?_, fun next hnext t' ht' => ?_⟩
  · rwa [HistoryPage.events, hevents]
  · dsimp only at hlater ⊢
    omega
  · exact hevents.trans (List.take_of_length_le (next_none hpositive hnext))
  · obtain ⟨hlt, hlong, hkey⟩ := next_some hpositive hnext
    have hsplit := Cursor.after_grown (worlds.stream_mono ht' streamId) (worlds.ordered t' streamId) hlt
    rw [Nat.sub_add_cancel hpositive] at hsplit
    refine ⟨fun hnil => ?_, ?_⟩
    · have hempty := congrArg List.length (hevents.symm.trans hnil)
      rw [List.length_take, List.length_nil] at hempty
      omega
    · rw [HistoryPage.events, hevents, ← hkey]
      exact hsplit

variable {read : HistoryPage} {pages : List (Except String HistoryPage)}

theorem isPage_of_ok (h : page options worlds streamId request afterSequence t = .ok read) :
    IsPage options worlds streamId afterSequence t read := by
  unfold page at h
  cases hlimits : pageLimits options request with
  | none => rw [hlimits] at h; cases h
  | some limits =>
    obtain ⟨limit, maxBytes⟩ := limits
    rw [hlimits] at h
    have hpositive := pageLimits_pos hlimits
    obtain ⟨events, hevents, h⟩ := except_bind_ok.1 h
    cases except_pure_ok.1 h
    unfold World.readFrom at hevents
    cases hfailure : (worlds.world (t + 1)).failure with
    | some code => rw [hfailure] at hevents; cases hevents
    | none =>
      rw [hfailure] at hevents
      cases hevents
      exact isPage_of_reads hpositive rfl

/-- The events that pages show. -/
def visited (pages : List (Except String HistoryPage)) : List RuntimeEvent :=
  pages.flatMap fun read => read.toOption.elim [] HistoryPage.events

/-- The last page says that there is no next one. -/
def Completed (pages : List (Except String HistoryPage)) : Prop :=
  ∃ read : HistoryPage, pages.getLast? = some (.ok read) ∧ read.next = none

theorem visited_cons (read : HistoryPage) (pages : List (Except String HistoryPage)) :
    visited (.ok read :: pages) = read.events ++ visited pages := rfl

theorem completed_tail (hnext : read.next = some next) (h : Completed (.ok read :: pages)) : Completed pages := by
  obtain ⟨last, hlast, hnone⟩ := h
  cases pages with
  | nil =>
    cases Option.some.inj hlast
    rw [hnext] at hnone
    cases hnone
  | cons other pages => exact ⟨last, hlast, hnone⟩

theorem completed_cons (h : Completed pages) : Completed (.ok read :: pages) := by
  obtain ⟨last, hlast, hnone⟩ := h
  refine ⟨last, ?_, hnone⟩
  cases pages with
  | nil => cases hlast
  | cons other pages => exact hlast

/-- **Following the pages visits the events behind the cursor**, each once and in their order: at the
moment of the last page nothing else is there when it says so. -/
theorem follow_visits : ∀ (requests : List PageRequest) (cursor : Option ℕ) (t : ℕ), ∃ t', t ≤ t' ∧ ∃ rest,
    worlds.after streamId cursor t' = visited (follow options worlds streamId requests cursor t) ++ rest
      ∧ (Completed (follow options worlds streamId requests cursor t) → rest = []) := by
  intro requests
  induction requests with
  | nil =>
    intro cursor t
    exact ⟨t, le_rfl, _, rfl, fun ⟨_, hlast, _⟩ => nomatch hlast⟩
  | cons request requests ih =>
    intro cursor t
    rw [follow]
    cases hpage : page options worlds streamId request cursor t with
    | error code =>
      refine ⟨t, le_rfl, _, rfl, ?_⟩
      rintro ⟨_, hlast, -⟩
      cases hlast
    | ok read =>
      have hread := isPage_of_ok hpage
      dsimp only
      cases hnext : read.next with
      | none =>
        refine ⟨t + 1, Nat.le_succ t, [], ?_, fun _ => rfl⟩
        rw [← hread.last hnext, visited_cons, List.append_nil]
        exact (List.append_nil _).symm
      | some next =>
        obtain ⟨t', ht', rest, hrest, hcompleted⟩ := ih (some next) (read.finished + 1)
        have hlater := hread.later
        refine ⟨t', by omega, rest, ?_, fun h => hcompleted (completed_tail hnext h)⟩
        rw [(hread.more next hnext t' (by omega)).2, hrest, visited_cons, List.append_assoc]

/-- A page that is well asked for is read, unless the stream cannot be. -/
theorem page_of_valid {cursor : Option ℕ} (hlimits : (pageLimits options request).isSome = true)
    (hread : (worlds.world (t + 1)).failure = none) :
    ∃ read, page options worlds streamId request cursor t = .ok read := by
  obtain ⟨limits, hlimits⟩ := Option.isSome_iff_exists.1 hlimits
  rw [page, hlimits]
  dsimp only
  rw [World.readFrom, hread]
  exact ⟨_, rfl⟩

/-- **Following the pages comes to an end** where the stream never holds more than so many events. -/
theorem follow_complete (hreads : ∀ t, (worlds.world t).failure = none) :
    ∀ (requests : List PageRequest) (cursor : Option ℕ) (t n : ℕ),
    (∀ request ∈ requests, (pageLimits options request).isSome = true) →
    (∀ t', t ≤ t' → (worlds.after streamId cursor t').length ≤ n) → n < requests.length →
    Completed (follow options worlds streamId requests cursor t) := by
  intro requests
  induction requests with
  | nil => exact fun _ _ n _ _ h => absurd h (Nat.not_lt_zero n)
  | cons request requests ih =>
    intro cursor t n hvalid hshort hn
    obtain ⟨hfirst, hothers⟩ := List.forall_mem_cons.1 hvalid
    rw [follow]
    cases hpage : page options worlds streamId request cursor t with
    | error code =>
      obtain ⟨read, hread⟩ := @page_of_valid _ _ _ _ t cursor hfirst (hreads (t + 1))
      rw [hpage] at hread
      cases hread
    | ok read =>
      have hread := isPage_of_ok hpage
      dsimp only
      cases hnext : read.next with
      | none => exact ⟨read, rfl, hnext⟩
      | some next =>
        have hlater := hread.later
        refine completed_cons (ih (some next) (read.finished + 1) (n - 1) hothers (fun t' ht' => ?_) ?_)
        · obtain ⟨hne, hsplit⟩ := hread.more next hnext t' (by omega)
          have hlength := congrArg List.length hsplit
          have hbound := hshort t' (by omega)
          have hpositive := List.length_pos_iff.2 hne
          rw [List.length_append] at hlength
          omega
        · obtain ⟨hne, hsplit⟩ := hread.more next hnext (read.finished + 1) (by omega)
          have hlength := congrArg List.length hsplit
          have hbound := hshort (read.finished + 1) (by omega)
          have hpositive := List.length_pos_iff.2 hne
          rw [List.length_append] at hlength
          rw [List.length_cons] at hn
          omega

end

end Falryn.Sessions.History
