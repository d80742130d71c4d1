import Falryn.Orchestration.QuestionRuns

/-!
# A question is settled once

A question that is settled stays as it is, and one that is not can be settled at any time.  It is
answered by a presenter who is connected when the answer is committed, after the question was published
and before it expires, and with an answer that fits; whoever gives the same answer again is told of the
settlement.
-/

namespace Falryn.Orchestration

open StateMachine

/-- The digest under which an answer settles a question. -/
def QuestionRecord.answerDigest (ports : QuestionPorts) (record : QuestionRecord)
    (given : QuestionAnswer) : String :=
  ports.hash (.action .answer record.input.presenter (some (given.normalized ports)))

section
variable {ports : QuestionPorts} {current next : QuestionRecord} {call : PresenterCall}
  {now settledAt : ℕ} {credential : Option String} {settlement : QuestionSettlement}

/-! ## Ways to settle -/

theorem closeOpen_kind {kind : QuestionTerminal} (hopen : current.settlement = none)
    (h : current.closeOpen ports kind settledAt = .ok next) :
    ∃ settlement, next.settlement = some settlement ∧ settlement.kind = kind := by
  rw [QuestionRecord.closeOpen, if_neg (not_not.2 hopen)] at h
  cases h
  exact ⟨_, rfl, rfl⟩

theorem ownerClosed_kind (hopen : current.settlement = none)
    (h : ownerClosed ports credential settledAt current = .ok next) :
    ∃ settlement, next.settlement = some settlement ∧ settlement.kind = .cancelled := by
  unfold ownerClosed at h
  split_ifs at h
  exact closeOpen_kind hopen h

/-- What an owner asks for never answers a question, and a cancellation settles it. -/
theorem ownerChange_kind {kind : OwnerChange} (hopen : current.settlement = none)
    (h : ownerChange ports kind credential now settledAt current = .ok next) :
    (∀ settlement ∈ next.settlement, settlement.kind ≠ .answered)
      ∧ (kind = .cancel → next.settlement ≠ none) := by
  unfold ownerChange at h
  rw [if_neg (c := current.settlement ≠ none) (not_not.2 hopen)] at h
  split_ifs at h <;> cases h <;>
    simp_all [QuestionRecord.close, QuestionRecord.settle]

/-- A presenter that was admitted answers with its answer, while it is connected and in time. -/
theorem presenterChange_kind (hcall : call.Admitted ports current) (hopen : current.settlement = none)
    (h : presenterChange ports call now settledAt current = .ok next)
    (hsettled : next.settlement = some settlement) (hkind : settlement.kind = .answered) :
    call.action = .answer ∧ now < current.expiresAt ∧ current.state ≠ .created
      ∧ current.presenter = .connected
      ∧ next = current.settle ports .answered call.digest call.answer settledAt := by
  rcases le_or_gt current.expiresAt now with hlate | hearly
  · rw [presenterChange_expired hcall hopen hlate] at h
    cases h
    cases hsettled
    cases hkind
  · have hmoved {presenter : PresenterState} (hpresenter : call.action = .connect ∧ presenter = .connected
        ∨ call.action = .disconnect ∧ presenter = .disconnected) : next.settlement = none := by
      rcases presenterChange_moved hcall hopen hearly hpresenter h with rfl | ⟨-, rfl⟩ <;> exact hopen
    cases haction : call.action with
    | connect => cases (hmoved (.inl ⟨haction, rfl⟩)).symm.trans hsettled
    | disconnect => cases (hmoved (.inr ⟨haction, rfl⟩)).symm.trans hsettled
    | answer =>
      obtain ⟨hstate, hpresenter, hnext⟩ :=
        (presenterChange_answered hcall hopen hearly (.inl ⟨haction, rfl⟩)).1 h
      exact ⟨rfl, hearly, hstate, hpresenter, hnext⟩
    | refuse =>
      obtain ⟨-, -, rfl⟩ := (presenterChange_answered hcall hopen hearly (.inr ⟨haction, rfl⟩)).1 h
      cases hsettled
      cases hkind

/-- A presenter does not publish a question. -/
theorem presenterChange_created (hcall : call.Admitted ports current) (hopen : current.settlement = none)
    (hcreated : current.state = .created)
    (h : presenterChange ports call now settledAt current = .ok next) :
    next.settlement ≠ none ∨ next.state = .created := by
  rcases le_or_gt current.expiresAt now with hlate | hearly
  · rw [presenterChange_expired hcall hopen hlate] at h
    cases h
    exact .inl nofun
  · have hmoved {presenter : PresenterState} (hpresenter : call.action = .connect ∧ presenter = .connected
        ∨ call.action = .disconnect ∧ presenter = .disconnected) : next.state = .created := by
      rcases presenterChange_moved hcall hopen hearly hpresenter h with rfl | ⟨-, rfl⟩
      · exact hcreated
      · exact if_pos hcreated
    cases haction : call.action with
    | connect => exact .inr (hmoved (.inl ⟨haction, rfl⟩))
    | disconnect => exact .inr (hmoved (.inr ⟨haction, rfl⟩))
    | answer =>
      exact absurd hcreated ((presenterChange_answered hcall hopen hearly (.inl ⟨haction, rfl⟩)).1 h).1
    | refuse =>
      exact absurd hcreated ((presenterChange_answered hcall hopen hearly (.inr ⟨haction, rfl⟩)).1 h).1

/-! ## Settled for good -/

section
variable {taskStream : ProcessTaskHandle → String} {handle : ProcessTaskHandle} {s t : QuestionSystem}
  {record : QuestionRecord} {es : List QuestionEvent} {e : QuestionEvent} {later : ℕ}

namespace QuestionSystem

/-- **A settled question stays as it is**, whatever happens to it. -/
theorem Tells.settled_stays (h : s.Tells ports handle record) (hsettled : record.settlement ≠ none)
    (hrun : run (QuestionSystem.step ports taskStream handle) s es = some t) :
    t.tables = s.tables ∧ t.Tells ports handle record := by
  refine run_invariant (I := fun t => t.tables = s.tables ∧ t.Tells ports handle record) ?_ ⟨rfl, h⟩ hrun
  rintro t e t' ⟨htables, htells⟩ hstep
  rcases htells.step hstep with ⟨hsame, hstill⟩ | ⟨next, -, hopen, -⟩
  · exact ⟨hsame.trans htables, hstill⟩
  · exact absurd hopen hsettled

/-- The event that answers a question is an answer of a presenter. -/
theorem Leads.answered (hlead : s.Leads ports record next e) (h : s.Tells ports handle record)
    (hopen : record.settlement = none) (hsettled : next.settlement = some settlement)
    (hkind : settlement.kind = .answered) :
    ∃ index now later call given, e = .commit index now later ∧ s.calls[index]? = some call
      ∧ call.action = .answer ∧ call.given = some given ∧ QuestionAnswer.Schema given
      ∧ ValidQuestionAnswer record.input given ∧ now < record.expiresAt ∧ record.state ≠ .created
      ∧ record.presenter = .connected
      ∧ next = record.settle ports .answered (record.answerDigest ports given)
          (some (given.normalized ports)) later := by
  cases hlead with
  | abandon hok =>
    obtain ⟨_, hsome, hcancelled⟩ := closeOpen_kind hopen hok
    cases hsettled.symm.trans hsome
    cases hkind.symm.trans hcancelled
  | owner hok => exact absurd hkind ((ownerChange_kind hopen hok).1 _ hsettled)
  | ownerCloses hok =>
    obtain ⟨_, hsome, hcancelled⟩ := ownerClosed_kind hopen hok
    cases hsettled.symm.trans hsome
    cases hkind.symm.trans hcancelled
  | commit hcall hok =>
    have hadmitted := h.calls _ (List.mem_of_getElem? hcall)
    obtain ⟨haction, hearly, hstate, hconnected, hnext⟩ :=
      presenterChange_kind hadmitted hopen hok hsettled hkind
    obtain ⟨given, hgiven, hschema, hfits, hanswer⟩ := hadmitted.answers haction
    refine ⟨_, _, _, _, given, rfl, hcall, haction, hgiven, hschema, hfits, hearly, hstate, hconnected, ?_⟩
    rw [hnext, hadmitted.digest, haction, hanswer, QuestionRecord.answerDigest]
  | deadline hok =>
    obtain ⟨_, hsome, hexpired⟩ := closeOpen_kind hopen hok
    cases hsettled.symm.trans hsome
    cases hkind.symm.trans hexpired

/-- The event after which a question is no longer only created is a publication, unless it settles it. -/
theorem Leads.published (hlead : s.Leads ports record next e) (h : s.Tells ports handle record)
    (hopen : record.settlement = none) (hcreated : record.state = .created)
    (hstill : next.settlement = none) (hstate : next.state ≠ .created) :
    ∃ credential now later, e = .owner .publish credential now later := by
  cases hlead with
  | abandon hok | deadline hok =>
    obtain ⟨_, hsome, -⟩ := closeOpen_kind hopen hok
    cases hstill.symm.trans hsome
  | owner hok =>
    rename_i change credential now later
    cases change with
    | publish => exact ⟨credential, now, later, rfl⟩
    | cancel => exact absurd hstill ((ownerChange_kind hopen hok).2 rfl)
  | ownerCloses hok =>
    obtain ⟨_, hsome, -⟩ := ownerClosed_kind hopen hok
    cases hstill.symm.trans hsome
  | commit hcall hok =>
    rcases presenterChange_created (h.calls _ (List.mem_of_getElem? hcall)) hopen hcreated hok with
      hsettled | hagain
    · exact absurd hstill hsettled
    · exact absurd hagain hstate

end QuestionSystem
end
end

/-! ## What happens in a run -/

section
variable (ports : QuestionPorts) (taskStream : ProcessTaskHandle → String) (handle : ProcessTaskHandle)

/-- The owner published the question in the course of a run. -/
def PublishedIn (es : List QuestionEvent) : Prop :=
  ∃ es₁ es₂ credential now later s t before after,
    es = es₁ ++ .owner .publish credential now later :: es₂
      ∧ run (QuestionSystem.step ports taskStream handle) .initial es₁ = some s
      ∧ s.step ports taskStream handle (.owner .publish credential now later) = some t
      ∧ s.record ports handle = .ok before ∧ before.state = .created
      ∧ t.record ports handle = .ok after ∧ after.settlement = none ∧ after.state ≠ .created

/-- A presenter gave an answer in the course of a run, and it led to `record`: the answer fits, the
presenter was connected, the question was published and not expired. -/
def AnsweredIn (es : List QuestionEvent) (record : QuestionRecord) (given : QuestionAnswer) : Prop :=
  ∃ es₁ es₂ index now later s t call before,
    es = es₁ ++ .commit index now later :: es₂
      ∧ run (QuestionSystem.step ports taskStream handle) .initial es₁ = some s
      ∧ s.step ports taskStream handle (.commit index now later) = some t
      ∧ s.record ports handle = .ok before ∧ t.record ports handle = .ok record
      ∧ s.calls[index]? = some call ∧ call.action = .answer ∧ call.given = some given
      ∧ QuestionAnswer.Schema given ∧ ValidQuestionAnswer record.input given
      ∧ PublishedIn ports taskStream handle es₁ ∧ before.state ≠ .created
      ∧ before.presenter = .connected ∧ now < record.expiresAt
      ∧ before.settlement = none
      ∧ record = before.settle ports .answered
          (record.answerDigest ports given) (some (given.normalized ports)) later

section
variable {ports} {taskStream} {handle} {s : QuestionSystem} {record : QuestionRecord}
  {es : List QuestionEvent} {settlement : QuestionSettlement}

theorem publishedIn_of_run (hrun : run (QuestionSystem.step ports taskStream handle) .initial es = some s)
    (h : s.Tells ports handle record) (hopen : record.settlement = none) (hstate : record.state ≠ .created) :
    PublishedIn ports taskStream handle es := by
  obtain ⟨es₁, e, es₂, s₁, s₂, rfl, hrun₁, hnot, hstep, ⟨after, hafter, hstill, hpublished⟩, -⟩ :=
    run_first (P := fun s => ∃ record, s.record ports handle = .ok record ∧ record.settlement = none
      ∧ record.state ≠ .created) (by rintro ⟨_, hrecord, -⟩; cases hrecord)
      ⟨record, h.record_eq, hopen, hstate⟩ hrun
  rcases QuestionSystem.sound_of_run hrun₁ with ⟨htables, hcalls⟩ | ⟨before, hbefore⟩
  · rcases QuestionSystem.step_empty htables hcalls hstep with ⟨hempty, -⟩ | ⟨made, hmade, hcreated, -⟩
    · rw [QuestionSystem.record, hempty] at hafter
      cases hafter
    · cases hafter.symm.trans hmade.record_eq
      exact absurd hcreated hpublished
  · rcases hbefore.step hstep with ⟨-, hsame⟩ | ⟨next, hlead, hopened, hnext⟩
    · cases hafter.symm.trans hsame.record_eq
      exact absurd ⟨after, hbefore.record_eq, hstill, hpublished⟩ hnot
    · cases hafter.symm.trans hnext.record_eq
      have hcreated : before.state = .created := by
        by_contra hne
        exact hnot ⟨before, hbefore.record_eq, hopened, hne⟩
      obtain ⟨credential, now, later, rfl⟩ :=
        hlead.published hbefore hopened hcreated hstill hpublished
      exact ⟨es₁, es₂, credential, now, later, s₁, s₂, before, after, rfl, hrun₁, hstep,
        hbefore.record_eq, hcreated, hafter, hstill, hpublished⟩

/-- **A question that is answered was answered by a presenter**, in the course of the run. -/
theorem answeredIn_of_run (hrun : run (QuestionSystem.step ports taskStream handle) .initial es = some s)
    (h : s.Tells ports handle record) (hsettled : record.settlement = some settlement)
    (hkind : settlement.kind = .answered) :
    ∃ given, AnsweredIn ports taskStream handle es record given := by
  obtain ⟨es₁, e, es₂, s₁, s₂, rfl, hrun₁, hnot, hstep, ⟨after, hafter, hsome⟩, hrun₂⟩ :=
    run_first (P := fun s => ∃ record, s.record ports handle = .ok record ∧ record.settlement ≠ none)
      (by rintro ⟨_, hrecord, -⟩; cases hrecord) ⟨record, h.record_eq, by simp [hsettled]⟩ hrun
  rcases QuestionSystem.sound_of_run hrun₁ with ⟨htables, hcalls⟩ | ⟨before, hbefore⟩
  · rcases QuestionSystem.step_empty htables hcalls hstep with ⟨hempty, -⟩ | ⟨made, hmade, -, hopen⟩
    · rw [QuestionSystem.record, hempty] at hafter
      cases hafter
    · cases hafter.symm.trans hmade.record_eq
      exact absurd hopen hsome
  · rcases hbefore.step hstep with ⟨-, hsame⟩ | ⟨next, hlead, hopen, hnext⟩
    · cases hafter.symm.trans hsame.record_eq
      exact absurd ⟨after, hbefore.record_eq, hsome⟩ hnot
    · cases hafter.symm.trans hnext.record_eq
      -- nothing happens to the record any more
      have hlast : record = after :=
        (hnext.settled_stays hsome hrun₂).2.consistent.unique h.consistent
      subst hlast
      obtain ⟨index, now, later, call, given, rfl, hcall, haction, hgiven, hschema, hfits, hearly, hstate,
        hconnected, hrecord⟩ := hlead.answered hbefore hopen hsettled hkind
      have hinput : record.input = before.input := by rw [hrecord]; rfl
      have hexpires : record.expiresAt = before.expiresAt := by rw [hrecord]; rfl
      refine ⟨given, es₁, es₂, index, now, later, s₁, s₂, call, before, rfl, hrun₁, hstep,
        hbefore.record_eq, hnext.record_eq, hcall, haction, hgiven, hschema, hinput ▸ hfits,
        publishedIn_of_run hrun₁ hbefore hopen hstate, hstate, hconnected, hexpires ▸ hearly, hopen, ?_⟩
      rw [QuestionRecord.answerDigest, hinput]
      exact hrecord

/-! ## The same answer again -/

variable {given : QuestionAnswer} {call : PresenterCall}

theorem AnsweredIn.digest (h : AnsweredIn ports taskStream handle es record given)
    (hsettled : record.settlement = some settlement) :
    ValidQuestionAnswer record.input given ∧ settlement.digest = record.answerDigest ports given := by
  obtain ⟨-, -, -, -, later, -, -, -, before, -, -, -, -, -, -, -, -, -, hfits, -, -, -, -, -, hrecord⟩ := h
  refine ⟨hfits, ?_⟩
  rw [hrecord] at hsettled
  rw [← Option.some.inj hsettled]

/-- What is stored of an answer. -/
theorem QuestionSystem.Tells.stored (h : s.Tells ports handle record) {entry : ℕ × QuestionRecord}
    (hentry : entry ∈ s.tables.revisions) (hsettlement : entry.2.settlement = some settlement)
    (hanswer : settlement.answer ≠ none) :
    settlement.kind = .answered ∧ entry.2.input.sensitivity = .normal
      ∧ entry.2.input.retention = .answer := by
  have hlast : entry.2 = record := h.settled entry hentry (by simp [hsettlement])
  obtain ⟨-, -, -, hagrees⟩ := h.consistent.schema
  rw [← hlast, hsettlement] at hagrees
  obtain ⟨-, -, hkept⟩ := hagrees
  split_ifs at hkept with hretained
  · exact ⟨hkept.1, hkept.2.1, hkept.2.2.1⟩
  · exact absurd hkept hanswer

/-- The call gives the answer `given` again, whatever the order of its items and of their options. -/
def PresenterCall.Repeats (call : PresenterCall) (given : QuestionAnswer) : Prop :=
  call.action = .answer ∧ ∃ again, call.given = some again ∧ given.Reorders again

/-- A call that repeats the answer of a question has its digest. -/
theorem PresenterCall.Admitted.digest_of_repeats
    (h : call.Admitted ports record) (hids : (given.map (·.itemId)).Nodup) (hrepeats : call.Repeats given) :
    call.digest = record.answerDigest ports given := by
  obtain ⟨haction, again, hagain, hreorders⟩ := hrepeats
  obtain ⟨_, hgiven, -, -, hanswer⟩ := h.answers haction
  cases hagain.symm.trans hgiven
  rw [h.digest, haction, hanswer, ← (normalized_eq_iff ports hids).2 hreorders]
  rfl

/-- A call that does not repeat the answer of a question has another digest, unless two values have one. -/
theorem PresenterCall.Admitted.digest_ne
    (h : call.Admitted ports record) (hids : (given.map (·.itemId)).Nodup) (hrepeats : ¬ call.Repeats given)
    (hcollision : call.digest = record.answerDigest ports given →
      call.action = .answer ∧ call.answer = some (given.normalized ports)) :
    call.digest ≠ record.answerDigest ports given := by
  intro hsame
  obtain ⟨haction, hanswer⟩ := hcollision hsame
  obtain ⟨again, hagain, -, -, hnormalized⟩ := h.answers haction
  refine hrepeats ⟨haction, again, hagain, (normalized_eq_iff ports hids).1 ?_⟩
  exact Option.some.inj (hanswer.symm.trans hnormalized)

/-! ## Room for a settlement -/

/-- The changes that close a question: its abandonment, its deadline, the end of its owner's resources
and its cancellation. -/
def closings (ports : QuestionPorts) (credential : Option String) (now later : ℕ) :
    List (QuestionRecord → Except QuestionRefusal QuestionRecord) :=
  [QuestionRecord.closeOpen ports .cancelled later, QuestionRecord.closeOpen ports .expired later,
    ownerClosed ports credential later, ownerChange ports .cancel credential now later]

/-- **A question that is not settled can be closed.** -/
theorem QuestionSystem.Tells.closes (h : s.Tells ports handle record) (hopen : record.settlement = none)
    {credential : Option String} (hcredential : credentialMatches ports credential record.ownerKey)
    {now later : ℕ} (hclock : s.clock ≤ later) (htime : isCanonicalTime later = true)
    {update : QuestionRecord → Except QuestionRefusal QuestionRecord}
    (hupdate : update ∈ closings ports credential now later) :
    ∃ next, (s.change ports taskStream handle update later).1 = .ok next ∧ next.settlement ≠ none := by
  have hclose (kind : QuestionTerminal) : record.closeOpen ports kind later
      = .ok (record.close ports kind later) := if_neg (not_not.2 hopen)
  have hsettles (kind : QuestionTerminal) (hkind : kind ≠ .answered)
      (hok : update record = .ok (record.close ports kind later)) :
      ∃ next, (s.change ports taskStream handle update later).1 = .ok next ∧ next.settlement ≠ none := by
    obtain ⟨tables, heq, -⟩ := h.changed taskStream hclock htime hopen
      (.settled kind _ none fun h => absurd h hkind) hok
    exact ⟨_, congrArg Prod.fst heq, nofun⟩
  simp only [closings, List.mem_cons, List.not_mem_nil, or_false] at hupdate
  rcases hupdate with rfl | rfl | rfl | rfl
  · exact hsettles .cancelled nofun (hclose .cancelled)
  · exact hsettles .expired nofun (hclose .expired)
  · refine hsettles .cancelled nofun ?_
    rw [ownerClosed, if_neg (not_not.2 hcredential)]
    exact hclose .cancelled
  · by_cases hlate : record.expiresAt ≤ now
    · refine hsettles .expired nofun ?_
      simp [ownerChange, hcredential, hopen, hlate]
    · refine hsettles .cancelled nofun ?_
      simp [ownerChange, hcredential, hopen, hlate]

end
end

/-! ## A question that is answered -/

/-- A digest whose digits are all the same. -/
def plainDigest (digit : Char) : String := String.ofList (List.replicate 64 digit)

theorem isHex64_plainDigest {digit : Char} (h : isHex64 (List.replicate 64 digit) = true) :
    isHex64 (plainDigest digit).toList = true := by
  rwa [plainDigest, String.toList_ofList]

/-- A credential whose characters are all the same. -/
def plainToken (letter : Char) : String := String.ofList (List.replicate 43 letter)

/-- Ports whose digests tell the kinds of values apart, and the credential of an owner from others. -/
def plainPorts : QuestionPorts where
  hash
    | .token token => plainDigest (if token = plainToken 'o' then '0' else '1')
    | .intent _ _ => plainDigest '2'
    | .ownerIdentity _ _ _ => plainDigest '3'
    | .handle _ => plainDigest '4'
    | .closing _ _ => plainDigest '5'
    | .action .connect _ _ => plainDigest '6'
    | .action .disconnect _ _ => plainDigest '7'
    | .action .refuse _ _ => plainDigest '8'
    | .action .answer _ _ => plainDigest '9'
  hex value := by split <;> (try split_ifs) <;> exact isHex64_plainDigest (by decide)
  precedes a b := decide (a ≤ b)
  total a b := by simpa using String.le_total a b
  trans a b c hab hbc := by
    simpa using String.le_trans (of_decide_eq_true hab) (of_decide_eq_true hbc)
  antisymm a b hab hba := String.le_antisymm (of_decide_eq_true hab) (of_decide_eq_true hba)
  runId := "run-1"
  process := none
  supervised := by decide

/-- A question that asks for a review. -/
def reviewQuestion : QuestionInput where
  handle := ⟨"task-1", "generation-1"⟩
  items := [.review "item-1" "Is this right?"]
  sensitivity := .normal
  retention := .answer
  presenter := ⟨"user-1", .localUser, "terminal-1"⟩
  waitMs := 1000
  missingPresenter := .wait

/-- The question is created and published, its presenter connects and answers. -/
def reviewEvents : List QuestionEvent :=
  [.create reviewQuestion
      ⟨⟨"session-1", "workspace-1", "turn-1", "invocation-1", "attempt-1", 1, "resources-1"⟩,
        "generation-1"⟩ (plainToken 'o') (plainToken 'p') 10 5000 false 20,
    .owner .publish (some (plainToken 'o')) 30 30,
    .admitAction (some (plainToken 'p')) reviewQuestion.presenter .connect none, .commit 0 40 40,
    .admitAction (some (plainToken 'p')) reviewQuestion.presenter .answer (some [.review "item-1"]),
    .commit 1 50 50]

/-- The record of that question, until it is published, and until it is answered. -/
def createdReview : QuestionRecord :=
  newQuestion plainPorts reviewQuestion
    ⟨⟨"session-1", "workspace-1", "turn-1", "invocation-1", "attempt-1", 1, "resources-1"⟩,
      "generation-1"⟩ (plainToken 'o') (plainToken 'p') 10 5000

def publishedReview : QuestionRecord := { createdReview with revision := 2, state := .waiting }

def connectedReview : QuestionRecord := { publishedReview with revision := 3, presenter := .connected }

/-- The run of `reviewEvents`, one event after the other. -/
theorem review_answered : ∃ s record,
    run (QuestionSystem.step plainPorts (·.taskId) reviewQuestion.handle) .initial reviewEvents = some s
      ∧ s.record plainPorts reviewQuestion.handle = .ok record
      ∧ record.settlement.map (·.kind) = some .answered := by
  obtain ⟨tables, hcreate⟩ := Option.isSome_iff_exists.1 (show (QuestionTables.empty.create plainPorts
    createdReview false).toOption.isSome = true by decide +kernel)
  obtain ⟨hconsistent, hrevisions⟩ :=
    QuestionTables.Consistent.create rfl (toOption_eq_some.1 hcreate)
  have hcreated : QuestionSystem.Tells plainPorts reviewQuestion.handle ⟨tables, 20, []⟩
      createdReview := by
    refine ⟨hconsistent, show 10 ≤ 20 by decide, by simp, fun _ hentry _ => ?_⟩
    obtain rfl := List.mem_singleton.1 (hrevisions ▸ hentry)
    rfl
  have hopens : QuestionSystem.step plainPorts (·.taskId) reviewQuestion.handle .initial
      (.create reviewQuestion createdReview.owner (plainToken 'o') (plainToken 'p') 10 5000 false 20)
        = some ⟨tables, 20, []⟩ := by
    rw [QuestionSystem.step, if_pos (by decide)]
    change some (QuestionSystem.mk (Option.getD (QuestionTables.create plainPorts .empty createdReview
      false).toOption _) 20 []) = _
    rw [hcreate, Option.getD_some]
  obtain ⟨tables₁, hpublish, hpublished⟩ := hcreated.changed (·.taskId) (show 20 ≤ 30 by decide)
    (by decide +kernel) rfl (.moved .waiting .unavailable (by decide) (by simp))
    (show ownerChange plainPorts .publish (some (plainToken 'o')) 30 30 createdReview
      = .ok publishedReview by decide +kernel)
  -- the presenter connects
  have hallowed : credentialMatches plainPorts (some (plainToken 'p')) createdReview.presenterKey := by
    decide +kernel
  obtain ⟨connect, hconnect, hchange⟩ : ∃ call, presenterCall plainPorts publishedReview
      (some (plainToken 'p')) reviewQuestion.presenter .connect none = .ok call
        ∧ presenterChange plainPorts call 40 40 publishedReview = .ok connectedReview :=
    ⟨_, presenterCall_ok.2 ⟨⟨hallowed, rfl⟩, by simp, rfl⟩, by decide +kernel⟩
  obtain ⟨tables₂, hcommit, hconnected⟩ := (hpublished.called (admitted_of_presenterCall hconnect)).changed
    (·.taskId) (show 30 ≤ 40 by decide) (by decide +kernel) rfl
    (.moved .waiting .connected (by decide) (by simp)) hchange
  -- and answers
  obtain ⟨answer, hanswer, hchange', hvalid⟩ : ∃ call, presenterCall plainPorts connectedReview
      (some (plainToken 'p')) reviewQuestion.presenter .answer (some [.review "item-1"]) = .ok call
        ∧ presenterChange plainPorts call 50 50 connectedReview
          = .ok (connectedReview.settle plainPorts .answered
            (plainPorts.hash (.action .answer reviewQuestion.presenter call.answer)) call.answer 50)
        ∧ ∃ given ∈ call.answer, QuestionAnswer.Schema given
          ∧ ValidQuestionAnswer reviewQuestion given :=
    ⟨_, presenterCall_ok.2 ⟨⟨hallowed, rfl⟩, fun _ => by decide +kernel, rfl⟩, by decide +kernel,
      by decide +kernel⟩
  obtain ⟨tables₃, hcommit', hanswered⟩ := (hconnected.called (admitted_of_presenterCall hanswer)).changed
    (·.taskId) (show 40 ≤ 50 by decide) (by decide +kernel) rfl (.settled .answered _ _ fun _ => hvalid)
    hchange'
  refine ⟨⟨tables₃, 50, [connect, answer]⟩, _, run_cons.2 ⟨_, hopens, run_cons.2 ⟨⟨tables₁, 30, []⟩, ?_,
    run_cons.2 ⟨⟨tables₁, 30, [connect]⟩, ?_, run_cons.2 ⟨⟨tables₂, 40, [connect]⟩, ?_,
      run_cons.2 ⟨⟨tables₂, 40, [connect, answer]⟩, ?_, run_cons.2 ⟨_, ?_, rfl⟩⟩⟩⟩⟩⟩,
    hanswered.record_eq, rfl⟩
  · rw [QuestionSystem.step, if_pos ⟨show 20 ≤ 30 by decide, le_rfl⟩, hpublish]
  · rw [QuestionSystem.step, (show QuestionSystem.Tells _ _ _ publishedReview from hpublished).record_eq]
    simp only [hconnect]
    rfl
  · change (if 30 ≤ 40 ∧ 40 ≤ 40 then some (QuestionSystem.change _ _ _ _ _ _).2 else none) = _
    rw [if_pos (by decide)]
    exact congrArg (fun changed => some changed.2) hcommit
  · rw [QuestionSystem.step, (show QuestionSystem.Tells _ _ _ connectedReview from hconnected).record_eq]
    simp only [hanswer]
    rfl
  · change (if 40 ≤ 50 ∧ 50 ≤ 50 then some (QuestionSystem.change _ _ _ _ _ _).2 else none) = _
    rw [if_pos (by decide)]
    exact congrArg (fun changed => some changed.2) hcommit'

end Falryn.Orchestration
