import Falryn.Orchestration.QuestionAnswers

/-!
# Records of questions

What the changes of a question make of its record.  A record that is not settled has a revision to
spare for its settlement, because nothing else takes the last one; and whatever is in it, its text stays
below the bound of its table.
-/

namespace Falryn.Orchestration

/-! ## The size of a record -/

/-- A printable character that JSON does not escape. -/
theorem jsonCharBytes_of_plain {c : Char} (hlow : 0x20 ≤ c.val.toNat) (hhigh : c.val.toNat ≤ 0x7f)
    (hquote : c ≠ '"') (hslash : c ≠ '\\') : jsonCharBytes c = 1 := by
  have hval : c.val.toNat ≠ 8 ∧ c.val.toNat ≠ 9 ∧ c.val.toNat ≠ 10 ∧ c.val.toNat ≠ 12
      ∧ c.val.toNat ≠ 13 := by omega
  have hcontrol : c.val ∉ ([8, 9, 10, 12, 13] : List UInt32) := by
    simp only [List.mem_cons, List.not_mem_nil, or_false, not_or]
    refine ⟨fun h => hval.1 ?_, fun h => hval.2.1 ?_, fun h => hval.2.2.1 ?_, fun h => hval.2.2.2.1 ?_,
      fun h => hval.2.2.2.2 ?_⟩ <;> rw [h] <;> rfl
  have hprintable : ¬ c.val < 0x20 := by
    rw [UInt32.lt_iff_toNat_lt]
    exact not_lt.2 hlow
  rw [jsonCharBytes, if_neg (not_or.2 ⟨hquote, hslash⟩), if_neg hcontrol, if_neg hprintable,
    Char.utf8Size]
  exact if_pos (UInt32.le_iff_toNat_le.2 hhigh)

theorem sum_map_jsonCharBytes {text : List Char} (h : ∀ c ∈ text, jsonCharBytes c = 1) :
    (text.map jsonCharBytes).sum = text.length := by
  rw [List.map_congr_left h, List.map_const', List.sum_replicate, smul_eq_mul, mul_one]

theorem jsonCharBytes_of_identity {c : Char}
    (h : (c.isAlphanum || ['.', '_', ':', '-'].contains c) = true) : jsonCharBytes c = 1 := by
  simp only [Bool.or_eq_true, Char.isAlphanum, Char.isAlpha, Char.isUpper, Char.isLower, Char.isDigit,
    Bool.and_eq_true, decide_eq_true_eq, ge_iff_le, UInt32.le_iff_toNat_le, List.contains_eq_mem,
    List.mem_cons, List.not_mem_nil, or_false] at h
  rcases h with ((h | h) | h) | (rfl | rfl | rfl | rfl)
  all_goals try rfl
  all_goals
    have hlow : 48 ≤ c.val.toNat := le_trans (by decide) h.1
    have hhigh : c.val.toNat ≤ 122 := le_trans h.2 (by decide)
    refine jsonCharBytes_of_plain (by omega) (by omega) ?_ ?_ <;> rintro rfl <;>
      simp at h hlow

variable {text : String}

theorem jsonStringBytes_le_of_identity (h : isIdentity text = true) :
    jsonStringBytes text ≤ 130 := by
  simp only [isIdentity, Bool.and_eq_true, decide_eq_true_eq, List.all_eq_true] at h
  rw [jsonStringBytes, sum_map_jsonCharBytes fun c hc => jsonCharBytes_of_identity (h.2 c hc),
    String.length_toList]
  omega

/-- A digit of a digest is a character of an identity. -/
theorem isHex64_chars {text : List Char} (h : isHex64 text = true) :
    text.length = 64 ∧ ∀ c ∈ text, (c.isAlphanum || ['.', '_', ':', '-'].contains c) = true := by
  simp only [isHex64, Bool.and_eq_true, beq_iff_eq, List.all_eq_true] at h
  refine ⟨h.1, fun c hc => ?_⟩
  rcases Bool.or_eq_true _ _ ▸ h.2 c hc with hdigit | hletter
  · simp [Char.isAlphanum, hdigit]
  · have hlower : c.isLower = true := by
      simp only [Bool.and_eq_true, decide_eq_true_eq, Char.le_def] at hletter
      simp only [Char.isLower, Bool.and_eq_true, decide_eq_true_eq, ge_iff_le]
      exact ⟨hletter.1, UInt32.le_trans hletter.2 (by decide)⟩
    simp [Char.isAlphanum, Char.isAlpha, hlower]

theorem jsonStringBytes_of_hex (h : isHex64 text.toList = true) : jsonStringBytes text = 66 := by
  obtain ⟨hlength, hchars⟩ := isHex64_chars h
  rw [jsonStringBytes, sum_map_jsonCharBytes fun c hc => jsonCharBytes_of_identity (hchars c hc), hlength]

theorem jsonNatBytes_le {n : ℕ} (h : IsSafeInteger n) : jsonNatBytes n ≤ 16 := by
  have hlog : Nat.log 10 n < 16 := Nat.log_lt_of_lt_pow' (by norm_num)
    (lt_of_le_of_lt (isSafeInteger_natCast.1 h) (by norm_num))
  exact hlog

/-- The bytes of the keys of an object and of what is between them. -/
def jsonKeyBytes (keys : List String) : ℕ := jsonObjectBytes (keys.map fun key => (key, 0))

/-- The keys of an object and its values count apart. -/
theorem jsonObjectBytes_eq (fields : List (String × ℕ)) :
    jsonObjectBytes fields = jsonKeyBytes (fields.map (·.1)) + (fields.map (·.2)).sum := by
  have hsum : (fields.map fun field => jsonStringBytes field.1 + 1 + field.2).sum
      = (fields.map fun field => jsonStringBytes field.1 + 1).sum + (fields.map (·.2)).sum :=
    List.sum_map_add
  simp only [jsonKeyBytes, jsonObjectBytes, List.map_map, List.length_map, Function.comp_def,
    Nat.add_zero, hsum]
  omega

theorem jsonObjectBytes_le {fields : List (String × ℕ)} (values : ℕ) (keys : List String)
    (hkeys : fields.map (·.1) = keys) (hvalues : (fields.map (·.2)).sum ≤ values) :
    jsonObjectBytes fields ≤ jsonKeyBytes keys + values :=
  hkeys ▸ (jsonObjectBytes_eq fields).le.trans (Nat.add_le_add_left hvalues _)

theorem QuestionOwner.bytes_le {owner : QuestionOwner} (h : owner.Schema) : owner.bytes ≤ 1100 := by
  obtain ⟨⟨h₁, h₂, h₃, h₄, h₅, hgeneration, h₆⟩, h₇⟩ := h
  refine (jsonObjectBytes_le 926 ["sessionId", "workspaceId", "turnId", "invocationId",
    "attemptId", "configurationGeneration", "resourceTaskId", "generation"] rfl ?_).trans (by decide)
  simp only [List.map_cons, List.map_nil, List.sum_cons, List.sum_nil]
  have := jsonStringBytes_le_of_identity h₁
  have := jsonStringBytes_le_of_identity h₂
  have := jsonStringBytes_le_of_identity h₃
  have := jsonStringBytes_le_of_identity h₄
  have := jsonStringBytes_le_of_identity h₅
  have := jsonStringBytes_le_of_identity h₆
  have := jsonStringBytes_le_of_identity h₇
  have := jsonNatBytes_le hgeneration
  omega

theorem QuestionSettlement.bytes_le {settlement : QuestionSettlement} (h : settlement.Formats) :
    settlement.bytes ≤ 16384 + 400 := by
  obtain ⟨hid, hat, hdigest, hanswer⟩ := h
  refine (jsonObjectBytes_le (16384 + 300) ["id", "kind", "at", "digest", "answer",
    "retained", "effectAuthority"] rfl ?_).trans (by decide)
  simp only [List.map_cons, List.map_nil, List.sum_cons, List.sum_nil]
  have := jsonStringBytes_le_of_identity hid
  have := jsonNatBytes_le hat
  have := jsonStringBytes_of_hex hdigest
  have hname : jsonStringBytes settlement.kind.name ≤ 13 := by cases settlement.kind <;> decide
  have hgiven : (settlement.answer.map QuestionAnswer.bytes).getD 4 ≤ 16384 := by
    cases hsome : settlement.answer with
    | none => decide
    | some answer => exact (hanswer answer hsome).2.2
  have hretained : (if settlement.retained = true then 4 else 5) ≤ 5 := by split_ifs <;> decide
  omega

/-- **The text of a record** is below the bound of its table. -/
theorem QuestionRecord.bytes_le {record : QuestionRecord} (h : record.Schema) :
    record.bytes ≤ questionRecordBytes := by
  obtain ⟨⟨hinput, howner, hownerKey, hpresenterKey, hintent, ⟨-, hrevision⟩, hcreated, hexpires,
    hsettlement⟩, -⟩ := h
  refine (jsonObjectBytes_le (32768 + 1100 + (16384 + 400) + 400) ["input", "owner",
    "ownerKey", "presenterKey", "intent", "revision", "createdAt", "expiresAt", "state", "presenter",
    "settlement"] rfl ?_).trans (by decide)
  simp only [List.map_cons, List.map_nil, List.sum_cons, List.sum_nil]
  have hbytes : record.input.bytes ≤ 32768 := hinput.2.2.2.2.2.1
  have := QuestionOwner.bytes_le howner
  have := jsonStringBytes_of_hex hownerKey
  have := jsonStringBytes_of_hex hpresenterKey
  have := jsonStringBytes_of_hex hintent
  have hsafe : IsSafeInteger record.revision := isSafeInteger_natCast.2 (hrevision.trans (by norm_num))
  have := jsonNatBytes_le hsafe
  have := jsonNatBytes_le hcreated
  have := jsonNatBytes_le hexpires
  have hstate : jsonStringBytes record.state.name ≤ 13 := by
    cases record.state with
    | settled kind => cases kind <;> decide
    | _ => decide
  have hpresenter : jsonStringBytes record.presenter.name ≤ 14 := by cases record.presenter <;> decide
  have hsettled : (record.settlement.map QuestionSettlement.bytes).getD 4 ≤ 16384 + 400 := by
    cases hsome : record.settlement with
    | none => decide
    | some settlement => exact QuestionSettlement.bytes_le (hsettlement settlement hsome)
  omega

/-! ## What a change makes of a record -/

theorem isIdentity_answer (h : isHex64 text.toList = true) :
    isIdentity ("answer:" ++ text) = true := by
  obtain ⟨hlength, hchars⟩ := isHex64_chars h
  have hsize : text.length = 64 := by rw [← String.length_toList, hlength]
  have hprefix : "answer:".length = 7 := rfl
  simp only [isIdentity, Bool.and_eq_true, decide_eq_true_eq, String.length_append, hsize, hprefix,
    String.toList_append, List.all_append]
  refine ⟨by omega, by decide, ?_⟩
  rw [List.all_eq_true]
  exact hchars

section
variable (ports : QuestionPorts)

/-- What the changes of a question do to a record that is not settled. -/
inductive QuestionRecord.Changes (settledAt : ℕ) (current : QuestionRecord) : QuestionRecord → Prop
  | moved (state : QuestionState) (presenter : PresenterState) (room : current.revision < 63)
      (unsettled : state = .created ∨ state = .published ∨ state = .waiting) :
      Changes settledAt current { current with revision := current.revision + 1, state, presenter }
  | settled (kind : QuestionTerminal) (value : QuestionDigested) (answer : Option QuestionAnswer)
      (valid : kind = .answered →
        ∃ given ∈ answer, QuestionAnswer.Schema given ∧ ValidQuestionAnswer current.input given) :
      Changes settledAt current (current.settle ports kind (ports.hash value) answer settledAt)

/-- The fields that no change of a question touches. -/
structure QuestionRecord.Continues (current next : QuestionRecord) : Prop where
  input : next.input = current.input
  owner : next.owner = current.owner
  ownerKey : next.ownerKey = current.ownerKey
  presenterKey : next.presenterKey = current.presenterKey
  intent : next.intent = current.intent
  createdAt : next.createdAt = current.createdAt
  expiresAt : next.expiresAt = current.expiresAt

section
variable {ports} {settledAt : ℕ} {current next : QuestionRecord}

theorem QuestionRecord.Changes.continues (h : current.Changes ports settledAt next) :
    current.Continues next := by
  cases h <;> exact ⟨rfl, rfl, rfl, rfl, rfl, rfl, rfl⟩

theorem QuestionRecord.Changes.revision (h : current.Changes ports settledAt next) :
    next.revision = current.revision + 1 := by
  cases h <;> rfl

/-- A record whose settlement has its formats and agrees with it is a record like the one before. -/
theorem QuestionRecord.settle_schema {kind : QuestionTerminal} {digest : String}
    {answer : Option QuestionAnswer} (h : current.Schema) (hroom : current.revision ≤ 63)
    (hcreated : current.createdAt ≤ settledAt) (hsafe : IsSafeInteger settledAt)
    (hdigest : isHex64 digest.toList = true)
    (hvalid : kind = .answered →
      ∃ given ∈ answer, QuestionAnswer.Schema given ∧ ValidQuestionAnswer current.input given) :
    (current.settle ports kind digest answer settledAt).Schema := by
  obtain ⟨⟨hinput, howner, hownerKey, hpresenterKey, hintent, ⟨-, -⟩, hcreatedAt, hexpiresAt, -⟩,
    hlater, hwait, -⟩ := h
  refine ⟨⟨hinput, howner, hownerKey, hpresenterKey, hintent, ⟨?_, ?_⟩, hcreatedAt, hexpiresAt, ?_⟩,
    hlater, hwait, ?_⟩
  · exact Nat.le_add_left 1 current.revision
  · exact Nat.succ_le_succ hroom
  · rintro settlement ⟨⟩
    refine ⟨isIdentity_answer (ports.hex _), hsafe, hdigest, fun given hgiven => ?_⟩
    -- what is kept of an answer is an answer that fits
    by_cases hkept : kind = .answered ∧ current.input.retention = .answer
        ∧ current.input.sensitivity = .normal
    · obtain ⟨_, hanswer, hschema, -⟩ := hvalid hkept.1
      simp only [decide_eq_true_eq, if_pos hkept] at hgiven
      rw [hanswer] at hgiven
      cases hgiven
      exact hschema
    · simp [hkept] at hgiven
  · refine ⟨rfl, hcreated, ?_⟩
    by_cases hkept : kind = .answered ∧ current.input.retention = .answer
        ∧ current.input.sensitivity = .normal
    · obtain ⟨given, hanswer, -, hfits⟩ := hvalid hkept.1
      simp only [decide_eq_true_eq, if_pos hkept]
      exact ⟨hkept.1, hkept.2.2, hkept.2.1, given, hanswer, hfits⟩
    · simp [hkept]

/-- **A change keeps the schema** of a record. -/
theorem QuestionRecord.Changes.schema (h : current.Changes ports settledAt next)
    (hschema : current.Schema) (hopen : current.settlement = none) (hroom : current.revision ≤ 63)
    (hcreated : current.createdAt ≤ settledAt) (hsafe : next.settlement ≠ none → IsSafeInteger settledAt) :
    next.Schema := by
  cases h with
  | moved _ _ _ hstate =>
    obtain ⟨⟨hinput, howner, hownerKey, hpresenterKey, hintent, -, hcreatedAt, hexpiresAt, hformats⟩,
      hlater, hwait, -⟩ := hschema
    refine ⟨⟨hinput, howner, hownerKey, hpresenterKey, hintent, ⟨?_, ?_⟩, hcreatedAt, hexpiresAt,
      hformats⟩, hlater, hwait, ?_⟩
    · exact Nat.le_add_left 1 current.revision
    · exact Nat.succ_le_succ hroom
    · simp only [hopen]
      exact hstate
  | settled _ value _ hvalid =>
    exact settle_schema hschema hroom hcreated (hsafe (by simp [settle])) (ports.hex value) hvalid

/-- A record that stays unsettled keeps a revision for its settlement. -/
theorem QuestionRecord.Changes.room (h : current.Changes ports settledAt next)
    (hopen : next.settlement = none) : next.revision ≤ 63 := by
  cases h with
  | moved _ _ hrevision => exact hrevision
  | settled => cases hopen

end

/-! ## The changes -/

/-- The call is what its presenter's admission makes of it. -/
def PresenterCall.Admitted (call : PresenterCall) (record : QuestionRecord) : Prop :=
  presenterCall ports record call.credential call.principal call.action call.given = .ok call

section
variable {ports} {call : PresenterCall} {current next : QuestionRecord} {now settledAt : ℕ}
  {credential : Option String} {principal : QuestionPresenter} {action : PresenterAction}
  {given : Option QuestionAnswer} {kind : QuestionTerminal}

/-- An admission looks at nothing that changes. -/
theorem QuestionRecord.Continues.admitted (h : current.Continues next) (hcall : call.Admitted ports current) :
    call.Admitted ports next := by
  unfold PresenterCall.Admitted presenterCall at *
  rw [h.input, h.presenterKey]
  exact hcall

/-- **A presenter is admitted** with its credential, under its name, and with an answer that fits if it
answers. -/
theorem presenterCall_ok :
    presenterCall ports current credential principal action given = .ok call ↔
      (credentialMatches ports credential current.presenterKey ∧ principal = current.input.presenter)
        ∧ (action = .answer →
          ∃ answer ∈ given, QuestionAnswer.Schema answer ∧ ValidQuestionAnswer current.input answer)
        ∧ call = ⟨credential, principal, action, given,
            if action = .answer then given.map (QuestionAnswer.normalized ports) else none,
            ports.hash (.action action current.input.presenter
              (if action = .answer then given.map (QuestionAnswer.normalized ports) else none))⟩ := by
  simp only [presenterCall, except_bind_ok, refuseIf_ok, except_pure_ok, exists_const, not_or, not_not,
    not_and, ne_eq]

theorem admitted_of_presenterCall
    (h : presenterCall ports current credential principal action given = .ok call) :
    call.Admitted ports current := by
  obtain ⟨-, -, heq⟩ := presenterCall_ok.1 h
  unfold PresenterCall.Admitted
  rw [heq] at h ⊢
  exact h

theorem closeOpen_ok (hkind : kind ≠ .answered)
    (h : current.closeOpen ports kind settledAt = .ok next) :
    next = current ∨ current.settlement = none ∧ current.Changes ports settledAt next := by
  unfold QuestionRecord.closeOpen at h
  split_ifs at h with hsettled
  · exact .inl (Except.ok.inj h).symm
  · cases h
    exact .inr ⟨not_not.1 hsettled, .settled kind _ none fun h => absurd h hkind⟩

theorem ownerClosed_ok (h : ownerClosed ports credential settledAt current = .ok next) :
    next = current ∨ current.settlement = none ∧ current.Changes ports settledAt next := by
  unfold ownerClosed at h
  split_ifs at h
  exact closeOpen_ok (by decide) h

theorem ownerChange_ok {kind : OwnerChange}
    (h : ownerChange ports kind credential now settledAt current = .ok next) :
    next = current ∨ current.settlement = none ∧ current.Changes ports settledAt next := by
  unfold ownerChange at h
  split_ifs at h with hdenied hsettled hexpired hcancel hstate hroom hmissing
  · exact .inl (Except.ok.inj h).symm
  · cases h
    exact .inr ⟨not_not.1 hsettled, .settled .expired _ none nofun⟩
  · cases h
    exact .inr ⟨not_not.1 hsettled, .settled .cancelled _ none nofun⟩
  · exact .inl (Except.ok.inj h).symm
  · cases h
    exact .inr ⟨not_not.1 hsettled, .settled .unavailable _ none nofun⟩
  · cases h
    exact .inr ⟨not_not.1 hsettled, .settled .unavailable _ none nofun⟩
  · cases h
    exact .inr ⟨not_not.1 hsettled, .moved .published _ (not_le.1 hroom) (by simp)⟩
  · cases h
    exact .inr ⟨not_not.1 hsettled, .moved .waiting _ (not_le.1 hroom) (by simp)⟩

/-- The answer with which a call settles a question fits it. -/
theorem PresenterCall.Admitted.answers (hcall : call.Admitted ports current) (h : call.action = .answer) :
    ∃ given, call.given = some given ∧ QuestionAnswer.Schema given
      ∧ ValidQuestionAnswer current.input given ∧ call.answer = some (given.normalized ports) := by
  obtain ⟨-, hvalid, heq⟩ := presenterCall_ok.1 hcall
  obtain ⟨given, hgiven, hschema, hfits⟩ := hvalid h
  refine ⟨given, hgiven, hschema, hfits, ?_⟩
  rw [heq, if_pos h, hgiven]
  rfl

theorem PresenterCall.Admitted.digest (hcall : call.Admitted ports current) :
    call.digest = ports.hash (.action call.action current.input.presenter call.answer) := by
  rw [(presenterCall_ok.1 hcall).2.2]

theorem PresenterCall.Admitted.not_denied (hcall : call.Admitted ports current) :
    ¬ (¬ credentialMatches ports call.credential current.presenterKey
      ∨ call.principal ≠ current.input.presenter) := by
  obtain ⟨⟨hcredential, hprincipal⟩, -⟩ := presenterCall_ok.1 hcall
  simp [hcredential, hprincipal]

theorem presenterChange_settled (hcall : call.Admitted ports current) {settlement : QuestionSettlement}
    (h : current.settlement = some settlement) :
    presenterChange ports call now settledAt current =
      if settlement.digest = call.digest then .ok current else .error .conflictingAnswer := by
  rw [presenterChange, if_neg hcall.not_denied]
  simp only [h]

theorem presenterChange_expired (hcall : call.Admitted ports current) (h : current.settlement = none)
    (hlate : current.expiresAt ≤ now) :
    presenterChange ports call now settledAt current = .ok (current.close ports .expired settledAt) := by
  rw [presenterChange, if_neg hcall.not_denied]
  simp only [h, if_pos hlate]

/-- What an answer or a refusal settles. -/
theorem presenterChange_answered (hcall : call.Admitted ports current)
    (h : current.settlement = none) (hearly : now < current.expiresAt)
    (hkind : call.action = .answer ∧ kind = .answered ∨ call.action = .refuse ∧ kind = .refused) :
    presenterChange ports call now settledAt current = .ok next ↔
      current.state ≠ .created ∧ current.presenter = .connected
        ∧ next = current.settle ports kind call.digest call.answer settledAt := by
  rw [presenterChange, if_neg hcall.not_denied]
  rcases hkind with ⟨haction, rfl⟩ | ⟨haction, rfl⟩
  all_goals
    simp only [h, if_neg (not_le.2 hearly), haction]
    split_ifs with hcreated hconnected <;> simp_all [eq_comm]

/-- What a presenter who comes or goes moves. -/
theorem presenterChange_moved {presenter : PresenterState} (hcall : call.Admitted ports current)
    (h : current.settlement = none) (hearly : now < current.expiresAt)
    (hpresenter : call.action = .connect ∧ presenter = .connected
      ∨ call.action = .disconnect ∧ presenter = .disconnected)
    (hok : presenterChange ports call now settledAt current = .ok next) :
    next = current ∨ current.revision < 63
      ∧ next = { current with
          revision := current.revision + 1, presenter
          state := if current.state = .created then .created else .waiting } := by
  have heq : presenterChange ports call now settledAt current =
      if current.presenter = presenter then .ok current
      else if 63 ≤ current.revision then .error .resourceExhausted
      else .ok { current with
        revision := current.revision + 1, presenter
        state := if current.state = .created then .created else .waiting } := by
    rw [presenterChange, if_neg hcall.not_denied]
    rcases hpresenter with ⟨haction, rfl⟩ | ⟨haction, rfl⟩ <;>
      simp only [h, if_neg (not_le.2 hearly), haction]
  rw [heq] at hok
  by_cases hsame : current.presenter = presenter
  · rw [if_pos hsame] at hok
    exact .inl (Except.ok.inj hok).symm
  · rw [if_neg hsame] at hok
    by_cases hroom : 63 ≤ current.revision
    · rw [if_pos hroom] at hok
      cases hok
    · rw [if_neg hroom] at hok
      exact .inr ⟨not_le.1 hroom, (Except.ok.inj hok).symm⟩

theorem presenterChange_ok (hcall : call.Admitted ports current)
    (hok : presenterChange ports call now settledAt current = .ok next) :
    next = current ∨ current.settlement = none ∧ current.Changes ports settledAt next := by
  cases hsettlement : current.settlement with
  | some settlement =>
    rw [presenterChange_settled hcall hsettlement] at hok
    split_ifs at hok
    exact .inl (Except.ok.inj hok).symm
  | none =>
    rcases le_or_gt current.expiresAt now with hlate | hearly
    · rw [presenterChange_expired hcall hsettlement hlate] at hok
      cases hok
      exact .inr ⟨rfl, .settled .expired _ none nofun⟩
    · have hmoved (presenter : PresenterState) : current.revision < 63 →
          current.Changes ports settledAt { current with
            revision := current.revision + 1, presenter
            state := if current.state = .created then .created else .waiting } := fun hroom =>
        .moved _ presenter hroom (by split_ifs <;> simp)
      cases haction : call.action with
      | connect =>
        refine (presenterChange_moved hcall hsettlement hearly (.inl ⟨haction, rfl⟩) hok).imp_right ?_
        rintro ⟨hroom, rfl⟩
        exact ⟨rfl, hmoved _ hroom⟩
      | disconnect =>
        refine (presenterChange_moved hcall hsettlement hearly (.inr ⟨haction, rfl⟩) hok).imp_right ?_
        rintro ⟨hroom, rfl⟩
        exact ⟨rfl, hmoved _ hroom⟩
      | answer =>
        obtain ⟨-, -, rfl⟩ :=
          (presenterChange_answered hcall hsettlement hearly (.inl ⟨haction, rfl⟩)).1 hok
        obtain ⟨given, -, hschema, hfits, hanswer⟩ := hcall.answers haction
        rw [hcall.digest]
        exact .inr ⟨rfl, .settled .answered _ _ fun _ => ⟨_, hanswer,
          (normalized_schema ports given).2 hschema, (valid_normalized ports given).2 hfits⟩⟩
      | refuse =>
        obtain ⟨-, -, rfl⟩ :=
          (presenterChange_answered hcall hsettlement hearly (.inr ⟨haction, rfl⟩)).1 hok
        rw [hcall.digest]
        exact .inr ⟨rfl, .settled .refused _ _ nofun⟩

end
end

end Falryn.Orchestration
