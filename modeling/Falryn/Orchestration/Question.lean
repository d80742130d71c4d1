import Falryn.Foundation.JsValue
import Falryn.Orchestration.ProcessTask

/-!
# Structured questions

A question that a presenter answers (`question.ts`): its items, the answers that fit them, and the
record of one question with its one settlement.  What a record may weigh is the size of its JSON text,
which is counted here without writing the text.  An answer is compared after its items and the options
of each item are put in order.
-/

namespace Falryn.Orchestration

/-! ## The size of a JSON text -/

/-- The bytes of a character in a JSON string. -/
def jsonCharBytes (c : Char) : ℕ :=
  if c = '"' ∨ c = '\\' then 2
  else if c.val ∈ [8, 9, 10, 12, 13] then 2
  else if c.val < 0x20 then 6
  else c.utf8Size

/-- The bytes of a string in a JSON text. -/
def jsonStringBytes (text : String) : ℕ := 2 + (text.toList.map jsonCharBytes).sum

/-- The bytes of a natural number in a JSON text. -/
def jsonNatBytes (n : ℕ) : ℕ := Nat.log 10 n + 1

/-- The bytes of an array, given those of its items. -/
def jsonArrayBytes (items : List ℕ) : ℕ := 2 + items.sum + (items.length - 1)

/-- The bytes of an object, given those of its values. -/
def jsonObjectBytes (fields : List (String × ℕ)) : ℕ :=
  2 + (fields.map fun field => jsonStringBytes field.1 + 1 + field.2).sum + (fields.length - 1)

/-! ## Questions -/

structure QuestionOption where
  id : String
  label : String
  deriving DecidableEq

/-- An item of a question. -/
inductive QuestionItem where
  | singleSelect (id prompt : String) (options : List QuestionOption)
  | multiSelect (id prompt : String) (options : List QuestionOption) (minimum maximum : ℕ)
  | freeText (id prompt : String) (maxBytes : ℕ)
  | review (id prompt : String)
  deriving DecidableEq

inductive QuestionSensitivity where
  | normal
  | protected_
  deriving DecidableEq

inductive QuestionRetention where
  | answer
  | metadataOnly
  deriving DecidableEq

inductive PresenterChannel where
  | localUser
  | headlessUser
  | authenticatedUser
  deriving DecidableEq

/-- Who may answer. -/
structure QuestionPresenter where
  actorId : String
  channel : PresenterChannel
  bindingId : String
  deriving DecidableEq

inductive MissingPresenter where
  | wait
  | unavailable
  deriving DecidableEq

/-- A question before it is checked. -/
structure QuestionInput where
  handle : ProcessTaskHandle
  items : List QuestionItem
  sensitivity : QuestionSensitivity
  retention : QuestionRetention
  presenter : QuestionPresenter
  waitMs : ℕ
  missingPresenter : MissingPresenter
  deriving DecidableEq

namespace QuestionItem

def id : QuestionItem → String
  | singleSelect id _ _ | multiSelect id _ _ _ _ | freeText id _ _ | review id _ => id

def prompt : QuestionItem → String
  | singleSelect _ prompt _ | multiSelect _ prompt _ _ _ | freeText _ prompt _ | review _ prompt => prompt

/-- `options`, of an item that has some. -/
def options : QuestionItem → List QuestionOption
  | singleSelect _ _ options | multiSelect _ _ options _ _ => options
  | _ => []

/-- The bytes of an item. -/
def bytes : QuestionItem → ℕ
  | singleSelect id prompt options => jsonObjectBytes [("id", jsonStringBytes id),
      ("kind", jsonStringBytes "single-select"), ("prompt", jsonStringBytes prompt),
      ("options", optionBytes options)]
  | multiSelect id prompt options minimum maximum => jsonObjectBytes [("id", jsonStringBytes id),
      ("kind", jsonStringBytes "multi-select"), ("prompt", jsonStringBytes prompt),
      ("options", optionBytes options), ("minimum", jsonNatBytes minimum),
      ("maximum", jsonNatBytes maximum)]
  | freeText id prompt maxBytes => jsonObjectBytes [("id", jsonStringBytes id),
      ("kind", jsonStringBytes "free-text"), ("prompt", jsonStringBytes prompt),
      ("maxBytes", jsonNatBytes maxBytes)]
  | review id prompt => jsonObjectBytes [("id", jsonStringBytes id),
      ("kind", jsonStringBytes "review"), ("prompt", jsonStringBytes prompt)]
where
  optionBytes (options : List QuestionOption) : ℕ :=
    jsonArrayBytes (options.map fun option =>
      jsonObjectBytes [("id", jsonStringBytes option.id), ("label", jsonStringBytes option.label)])

/-- `text`: 1 to 8192 code units. -/
def isText (text : String) : Bool := decide (1 ≤ utf16Length text ∧ utf16Length text ≤ 8192)

/-- The fields of an item have their formats. -/
def Formats (item : QuestionItem) : Prop :=
  isIdentity item.id ∧ isText item.prompt
    ∧ (∀ option ∈ item.options, isIdentity option.id ∧ isText option.label)
    ∧ match item with
      | singleSelect _ _ options => 1 ≤ options.length ∧ options.length ≤ 32
      | multiSelect _ _ options minimum maximum =>
        (1 ≤ options.length ∧ options.length ≤ 32) ∧ minimum ≤ 32 ∧ 1 ≤ maximum ∧ maximum ≤ 32
      | freeText _ _ maxBytes => 1 ≤ maxBytes ∧ maxBytes ≤ 16384
      | review _ _ => True

instance (item : QuestionItem) : Decidable item.Formats := by
  unfold Formats
  cases item <;> infer_instance

/-- The selection bounds of an item fit its options, no two of which have the same id. -/
def Agrees (item : QuestionItem) : Prop :=
  (item.options.map (·.id)).Nodup
    ∧ match item with
      | multiSelect _ _ options minimum maximum => minimum ≤ maximum ∧ maximum ≤ options.length
      | _ => True

instance (item : QuestionItem) : Decidable item.Agrees := by
  unfold Agrees
  cases item <;> infer_instance

end QuestionItem

/-- `QUESTION_LIMITS.requestBytes`. -/
def questionRequestBytes : ℕ := 32768

/-- `QUESTION_LIMITS.answerBytes`. -/
def questionAnswerBytes : ℕ := 16384

/-- `QUESTION_LIMITS.maxWaitMs`. -/
def questionMaxWaitMs : ℕ := 1800000

/-- The bytes of a handle, whose version is 1. -/
def ProcessTaskHandle.bytes (handle : ProcessTaskHandle) : ℕ :=
  jsonObjectBytes [("version", jsonNatBytes 1), ("taskId", jsonStringBytes handle.taskId),
    ("generation", jsonStringBytes handle.generation)]

namespace QuestionInput

/-- The bytes of a question. -/
def bytes (input : QuestionInput) : ℕ :=
  jsonObjectBytes
    [("version", jsonNatBytes 1), ("handle", input.handle.bytes),
      ("items", jsonArrayBytes (input.items.map QuestionItem.bytes)),
      ("sensitivity", jsonStringBytes
        (match input.sensitivity with | .normal => "normal" | .protected_ => "protected")),
      ("retention", jsonStringBytes
        (match input.retention with | .answer => "answer" | .metadataOnly => "metadata-only")),
      ("presenter", jsonObjectBytes
        [("actorId", jsonStringBytes input.presenter.actorId),
          ("channel", jsonStringBytes (match input.presenter.channel with
            | .localUser => "local-user"
            | .headlessUser => "headless-user"
            | .authenticatedUser => "authenticated-user")),
          ("bindingId", jsonStringBytes input.presenter.bindingId)]),
      ("waitMs", jsonNatBytes input.waitMs),
      ("missingPresenter", jsonStringBytes
        (match input.missingPresenter with | .wait => "wait" | .unavailable => "unavailable"))]

/-- `questionInputSchema`. -/
def Schema (input : QuestionInput) : Prop :=
  input.handle.Schema ∧ (1 ≤ input.items.length ∧ input.items.length ≤ 8)
    ∧ (∀ item ∈ input.items, item.Formats)
    ∧ (isIdentity input.presenter.actorId ∧ isIdentity input.presenter.bindingId)
    ∧ (1 ≤ input.waitMs ∧ input.waitMs ≤ questionMaxWaitMs)
    ∧ input.bytes ≤ questionRequestBytes ∧ (input.items.map (·.id)).Nodup
    ∧ (input.sensitivity = .protected_ → input.retention = .metadataOnly)
    ∧ ∀ item ∈ input.items, item.Agrees

instance (input : QuestionInput) : Decidable input.Schema := by
  unfold Schema
  infer_instance

end QuestionInput

/-- `questionOwnerSchema`. -/
structure QuestionOwner where
  task : ProcessTaskOwner
  generation : String
  deriving DecidableEq

/-- `questionOwnerSchema`. -/
def QuestionOwner.Schema (owner : QuestionOwner) : Prop := owner.task.Schema ∧ isIdentity owner.generation

instance (owner : QuestionOwner) : Decidable owner.Schema := by
  unfold QuestionOwner.Schema
  infer_instance

/-! ## Answers -/

/-- The answer to one item.  What was protected is never part of it. -/
inductive ItemAnswer where
  | selection (itemId : String) (optionIds : List String)
  | text (itemId body : String)
  | review (itemId : String)
  | protected_ (itemId : String)
  deriving DecidableEq

namespace ItemAnswer

def itemId : ItemAnswer → String
  | selection itemId _ | text itemId _ | review itemId | protected_ itemId => itemId

/-- The bytes of the answer to one item. -/
def bytes : ItemAnswer → ℕ
  | selection itemId optionIds => jsonObjectBytes [("itemId", jsonStringBytes itemId),
      ("kind", jsonStringBytes "selection"),
      ("optionIds", jsonArrayBytes (optionIds.map jsonStringBytes))]
  | text itemId body => jsonObjectBytes [("itemId", jsonStringBytes itemId),
      ("kind", jsonStringBytes "text"), ("text", jsonStringBytes body)]
  | review itemId => jsonObjectBytes [("itemId", jsonStringBytes itemId),
      ("kind", jsonStringBytes "review"), ("acknowledged", 4)]
  | protected_ itemId => jsonObjectBytes [("itemId", jsonStringBytes itemId),
      ("kind", jsonStringBytes "protected"), ("retained", 5)]

/-- The fields of the answer to one item have their formats. -/
def Formats (answer : ItemAnswer) : Prop :=
  isIdentity answer.itemId
    ∧ match answer with
      | selection _ optionIds => optionIds.length ≤ 32 ∧ ∀ id ∈ optionIds, isIdentity id
      | text _ body => utf16Length body ≤ 16384
      | _ => True

instance (answer : ItemAnswer) : Decidable answer.Formats := by
  unfold Formats
  cases answer <;> infer_instance

end ItemAnswer

abbrev QuestionAnswer := List ItemAnswer

namespace QuestionAnswer

/-- The bytes of an answer. -/
def bytes (answer : QuestionAnswer) : ℕ := jsonArrayBytes (answer.map ItemAnswer.bytes)

/-- `questionAnswerSchema`. -/
def Schema (answer : QuestionAnswer) : Prop :=
  (1 ≤ answer.length ∧ answer.length ≤ 8) ∧ (∀ item ∈ answer, item.Formats)
    ∧ bytes answer ≤ questionAnswerBytes

instance (answer : QuestionAnswer) : Decidable (Schema answer) := by
  unfold Schema
  infer_instance

end QuestionAnswer

/-- What an item of a question that is not protected accepts. -/
def QuestionItem.Accepts (item : QuestionItem) (answer : ItemAnswer) : Prop :=
  match item, answer with
  | review _ _, .review _ => True
  | freeText _ _ maxBytes, .text _ body => body.utf8ByteSize ≤ maxBytes
  | singleSelect _ _ options, .selection _ optionIds =>
    optionIds.Nodup ∧ (∀ id ∈ optionIds, id ∈ options.map (·.id)) ∧ optionIds.length = 1
  | multiSelect _ _ options minimum maximum, .selection _ optionIds =>
    optionIds.Nodup ∧ (∀ id ∈ optionIds, id ∈ options.map (·.id))
      ∧ minimum ≤ optionIds.length ∧ optionIds.length ≤ maximum
  | _, _ => False

instance (item : QuestionItem) (answer : ItemAnswer) : Decidable (item.Accepts answer) := by
  unfold QuestionItem.Accepts
  cases item <;> cases answer <;> infer_instance

/-- `validQuestionAnswer`. -/
def ValidQuestionAnswer (input : QuestionInput) (answer : QuestionAnswer) : Prop :=
  answer.length = input.items.length ∧ (answer.map (·.itemId)).Nodup
    ∧ ∀ item ∈ input.items, ∃ value ∈ answer.find? fun value => value.itemId = item.id,
      if input.sensitivity = .protected_ then value = .protected_ item.id else item.Accepts value

instance (input : QuestionInput) (answer : QuestionAnswer) :
    Decidable (ValidQuestionAnswer input answer) := by
  unfold ValidQuestionAnswer
  infer_instance

/-! ## Records -/

/-- `QUESTION_TERMINALS`. -/
inductive QuestionTerminal where
  | answered
  | refused
  | expired
  | cancelled
  | unavailable
  deriving DecidableEq

/-- `questionSettlementSchema`. -/
structure QuestionSettlement where
  id : String
  kind : QuestionTerminal
  settledAt : ℕ
  digest : String
  answer : Option QuestionAnswer
  retained : Bool
  deriving DecidableEq

inductive QuestionState where
  | created
  | published
  | waiting
  | settled (kind : QuestionTerminal)
  deriving DecidableEq

inductive PresenterState where
  | unavailable
  | connected
  | disconnected
  deriving DecidableEq

/-- `questionRecordSchema`. -/
structure QuestionRecord where
  input : QuestionInput
  owner : QuestionOwner
  ownerKey : String
  presenterKey : String
  intent : String
  revision : ℕ
  createdAt : ℕ
  expiresAt : ℕ
  state : QuestionState
  presenter : PresenterState
  settlement : Option QuestionSettlement
  deriving DecidableEq

namespace QuestionSettlement

/-- The fields of a settlement have their formats. -/
def Formats (settlement : QuestionSettlement) : Prop :=
  isIdentity settlement.id ∧ IsSafeInteger settlement.settledAt ∧ isHex64 settlement.digest.toList
    ∧ ∀ answer ∈ settlement.answer, QuestionAnswer.Schema answer

/-- What is kept of an answer: all of it where the question allows it, and nothing elsewhere. -/
def Agrees (settlement : QuestionSettlement) (record : QuestionRecord) : Prop :=
  record.state = .settled settlement.kind ∧ record.createdAt ≤ settlement.settledAt
    ∧ if settlement.retained then
        settlement.kind = .answered ∧ record.input.sensitivity = .normal
          ∧ record.input.retention = .answer
          ∧ ∃ answer ∈ settlement.answer, ValidQuestionAnswer record.input answer
      else settlement.answer = none

instance (settlement : QuestionSettlement) (record : QuestionRecord) :
    Decidable (settlement.Agrees record) := by
  unfold Agrees
  infer_instance

end QuestionSettlement

namespace QuestionRecord

/-- The fields of a record have their formats. -/
def Formats (record : QuestionRecord) : Prop :=
  record.input.Schema ∧ record.owner.Schema ∧ isHex64 record.ownerKey.toList
    ∧ isHex64 record.presenterKey.toList ∧ isHex64 record.intent.toList
    ∧ (1 ≤ record.revision ∧ record.revision ≤ 64) ∧ IsSafeInteger record.createdAt
    ∧ IsSafeInteger record.expiresAt ∧ ∀ settlement ∈ record.settlement, settlement.Formats

/-- The rules between the fields of a record. -/
def Agrees (record : QuestionRecord) : Prop :=
  record.createdAt < record.expiresAt ∧ record.expiresAt - record.createdAt ≤ questionMaxWaitMs
    ∧ match record.settlement with
      | none => record.state = .created ∨ record.state = .published ∨ record.state = .waiting
      | some settlement => settlement.Agrees record

/-- `questionRecordSchema`. -/
def Schema (record : QuestionRecord) : Prop := record.Formats ∧ record.Agrees

instance (record : QuestionRecord) : Decidable record.Schema := by
  unfold Schema Formats Agrees QuestionSettlement.Formats
  cases record.settlement <;> infer_instance

end QuestionRecord

end Falryn.Orchestration
