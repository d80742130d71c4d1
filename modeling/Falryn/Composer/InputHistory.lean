import Falryn.Composer.Attachment

/-!
# Input history and pastes

What was submitted before and how a reader walks through it (`tui/composer/history.ts`), and what a pasted
block is classified as (`tui/composer/paste.ts`).  A walk puts the draft aside when it leaves it and gives
it back when it walks past the newest entry.
-/

namespace Falryn.Composer

/-! ## Credentials -/

/-- A code unit in lower case, as far as `/i` reads it beside these words. -/
def lowerUnit (u : UInt16) : UInt16 := if unit 'A' ≤ u ∧ u ≤ unit 'Z' then u + 32 else u

/-- The words of `SECRET_SHAPED` but the last. -/
def secretWords : List CodeUnits :=
  ["apikey", "api_key", "api-key", "secret", "token", "password", "passwd", "bearer", "privatekey",
    "private_key", "private-key"].map codeUnits

/-- `BEGIN [A-Z ]*PRIVATE KEY`, in lower case. -/
def isKeyHeader (word : CodeUnits) : Bool :=
  let opening := codeUnits "begin "
  let closing := codeUnits "private key"
  decide (opening.length + closing.length ≤ word.length) && opening.isPrefixOf word && closing.isSuffixOf word
    && (slice word opening.length (word.length - closing.length)).all fun u =>
      (unit 'a' ≤ u && u ≤ unit 'z') || u == unit ' '

/-- `\b` at a place. -/
def isBoundary (text : CodeUnits) (index : ℕ) : Bool :=
  (decide (0 < index) && (text[index - 1]?).any isWord) != (text[index]?).any isWord

def looksSecret (text : CodeUnits) : Bool :=
  (List.range text.length).any fun start =>
    isBoundary text start && (List.range (text.length - start)).any fun more =>
      let word := (slice text start (start + more + 1)).map lowerUnit
      (secretWords.contains word || isKeyHeader word) && isBoundary text (start + more + 1)

/-! ## Pastes -/

/-- `PASTE_REFUSALS`. -/
inductive PasteRefusal
  | tooLarge | binary | invalidEncoding

inductive PasteNotice
  | inline (characters : ℕ) (secret : Bool)
  | preview (characters lines : ℕ) (secret : Bool)
  | refused (refusal : PasteRefusal)

def isHighSurrogate (u : UInt16) : Bool := 0xd800 ≤ u.toNat && u.toNat ≤ 0xdbff

def isLowSurrogate (u : UInt16) : Bool := 0xdc00 ≤ u.toNat && u.toNat ≤ 0xdfff

/-- A surrogate without its other half. -/
def isUnpaired (text : CodeUnits) (index : ℕ) : Bool :=
  ((text[index]?).any isHighSurrogate && !(text[index + 1]?).any isLowSurrogate)
    || ((text[index]?).any isLowSurrogate && !(decide (0 < index) && (text[index - 1]?).any isHighSurrogate))

/-- `noticeOfPaste(classifyPaste(text))`; the details of a refusal say its kind in words. -/
def pasteNotice (text : CodeUnits) : PasteNotice :=
  if text.length > 4 * 1024 * 1024 then .refused .tooLarge
  else if (text.take 4096).contains 0 then .refused .binary
  else if (List.range text.length).any (isUnpaired text) then .refused .invalidEncoding
  else if text.length ≤ 2048 then .inline text.length (looksSecret text)
  else .preview text.length (text.count (unit '\n') + 1) (looksSecret text)

/-- The verdict of a paste that goes in as text. -/
def PasteNotice.isInline : PasteNotice → Bool
  | inline _ _ => true
  | _ => false

/-! ## History -/

structure HistoryEntry where
  text : CodeUnits
  tokens : List ComposerToken

/-- `InputHistory`: the entries, oldest first, how far back the reader has walked, and the draft that the
walk put aside. -/
structure InputHistory where
  entries : List HistoryEntry
  recalled : Option ℕ
  draft : Option HistoryEntry

/-- `EMPTY_HISTORY`. -/
def emptyHistory : InputHistory := ⟨[], none, none⟩

/-- `HISTORY_LIMIT`. -/
def historyLimit : ℕ := 100

/-- `text.trim() === ""`. -/
def isBlank (text : CodeUnits) : Bool := text.all isSpace

/-- The newest entry repeats a submission. -/
def repeatsTop (history : InputHistory) (text : CodeUnits) (tokens : List ComposerToken) : Bool :=
  history.entries.getLast?.any fun top => decide (top.text = text ∧ top.tokens.length = tokens.length)

def remember (history : InputHistory) (text : CodeUnits) (tokens : List ComposerToken) : InputHistory :=
  if isBlank text || looksSecret text || repeatsTop history text tokens then ⟨history.entries, none, none⟩
  else
    let entries := history.entries ++ [⟨text, tokens⟩]
    ⟨entries.drop (entries.length - historyLimit), none, none⟩

/-- The entry that is a number of steps back. -/
def InputHistory.entryBack (history : InputHistory) (back : ℕ) : Option HistoryEntry :=
  history.entries[history.entries.length - back]?

/-- `recallPrevious`, with what the composer is to hold; nothing if nothing moved. -/
def recallPrevious (history : InputHistory) (current : HistoryEntry) : Option (InputHistory × HistoryEntry) :=
  let next := history.recalled.getD 0 + 1
  if next > history.entries.length then none
  else
    (history.entryBack next).map fun entry =>
      (⟨history.entries, some next, if history.recalled = none then some current else history.draft⟩, entry)

/-- `recallNext`, with what the composer is to hold; nothing if nothing moved. -/
def recallNext (history : InputHistory) : Option (InputHistory × HistoryEntry) :=
  match history.recalled with
  | none => none
  | some back =>
    if back ≤ 1 then some (⟨history.entries, none, none⟩, history.draft.getD ⟨[], []⟩)
    else (history.entryBack (back - 1)).map fun entry => (⟨history.entries, some (back - 1), history.draft⟩, entry)

end Falryn.Composer
