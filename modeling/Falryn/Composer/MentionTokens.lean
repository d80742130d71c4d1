import Falryn.Foundation.JsValue

/-!
# Mention tokens

The bound tokens of a draft (`domain/context/composer-mentions.ts`).  A token is a pick that has a place
in the text; this file has what opens a list of suggestions (`detectMentionTrigger`), what puts a label
into the text (`insertTokenText`), what becomes of the tokens when the text changes (`reconcileTokens`),
and what binds them again in a rewritten text (`restoreTokenPlaceholders`).  A text is its UTF-16 code
units, and a place is a number of code units.
-/

namespace Falryn.Composer

/-! ## Texts -/

/-- The code unit of a character of the basic plane. -/
def unit (c : Char) : UInt16 := c.val.toUInt16

/-- `text.slice(start, stop)`. -/
def slice (text : CodeUnits) (start stop : ℕ) : CodeUnits := (text.take stop).drop start

/-- `/\s/u` of one code unit. -/
def isSpace (u : UInt16) : Bool :=
  (9 ≤ u.toNat && u.toNat ≤ 13) || (0x2000 ≤ u.toNat && u.toNat ≤ 0x200a)
    || [0x20, 0xa0, 0x1680, 0x2028, 0x2029, 0x202f, 0x205f, 0x3000, 0xfeff].contains u.toNat

def isDigit (u : UInt16) : Bool := unit '0' ≤ u && u ≤ unit '9'

/-- The code points of a text; a surrogate without its other half stands for itself. -/
def codePoints : CodeUnits → List ℕ
  | [] => []
  | [u] => [u.toNat]
  | high :: low :: rest =>
    if 0xd800 ≤ high.toNat ∧ high.toNat < 0xdc00 ∧ 0xdc00 ≤ low.toNat ∧ low.toNat < 0xe000 then
      (0x10000 + (high.toNat - 0xd800) * 0x400 + (low.toNat - 0xdc00)) :: codePoints rest
    else high.toNat :: codePoints (low :: rest)

/-! ## Tokens -/

/-- `MENTION_TRIGGERS`. -/
inductive MentionTrigger
  | slash | dollar | atSign
  deriving DecidableEq

def MentionTrigger.unit : MentionTrigger → UInt16
  | slash => Composer.unit '/'
  | dollar => Composer.unit '$'
  | atSign => Composer.unit '@'

/-- `MENTION_TOKEN_KINDS`. -/
inductive MentionTokenKind
  | skill | package | mcpServer | template | file | directory | symbol | resource
  deriving DecidableEq

/-- `ComposerTokenPick`: a token before it has a place in the text. -/
structure ComposerTokenPick where
  trigger : MentionTrigger
  kind : MentionTokenKind
  identity : String
  label : CodeUnits
  source : String
  generation : String
  deriving DecidableEq

structure ComposerToken extends ComposerTokenPick where
  id : String
  start : ℕ
  stop : ℕ
  deriving DecidableEq

structure TokenRange where
  start : ℕ
  stop : ℕ

/-- A token as the pick it was made from, at a place. -/
def ComposerTokenPick.place (pick : ComposerTokenPick) (id : String) (start stop : ℕ) : ComposerToken :=
  { pick with id, start, stop }

/-- A token at another place. -/
def ComposerToken.moved (token : ComposerToken) (start stop : ℕ) : ComposerToken := { token with start, stop }

@[simp] theorem ComposerToken.moved_label (token : ComposerToken) (start stop : ℕ) :
    (token.moved start stop).label = token.label := rfl

@[simp] theorem ComposerToken.moved_start (token : ComposerToken) (start stop : ℕ) :
    (token.moved start stop).start = start := rfl

@[simp] theorem ComposerToken.moved_stop (token : ComposerToken) (start stop : ℕ) :
    (token.moved start stop).stop = stop := rfl

/-- `[…].sort((a, b) => a.start - b.start)`. -/
def sortByStart (tokens : List ComposerToken) : List ComposerToken :=
  tokens.mergeSort fun a b => a.start ≤ b.start

/-! ## Triggers -/

structure MentionTriggerMatch where
  trigger : MentionTrigger
  start : ℕ
  stop : ℕ
  query : CodeUnits

/-- `OPENERS`. -/
def openers : List UInt16 := ['(', '[', '{', '"', '\''].map unit

/-- `ENVIRONMENT_NAMES`. -/
def environmentNames : List CodeUnits :=
  ["HOME", "PATH", "USER", "SHELL", "PWD", "OLDPWD", "TMPDIR", "LANG", "TERM", "EDITOR", "VISUAL", "PAGER",
    "HOSTNAME", "LOGNAME", "CI"].map codeUnits

/-- `isShellLikeDollarQuery`. The names are in upper case, so that the test for it says nothing more. -/
def isShellLikeDollarQuery : CodeUnits → Bool
  | [] => false
  | first :: rest =>
    isDigit first || (['$', '?', '!', '#', '*', '@', '_', '{', '(', '-'].map unit).contains first
      || environmentNames.contains ((first :: rest).takeWhile (· ≠ unit ':'))

/-- `MENTION_TOKEN_LIMITS.queryCharacters`. -/
def maxQueryCharacters : ℕ := 128

/-- The loop that looks for the start of the word before the cursor, and gives up on a long one. -/
def wordStart (text : CodeUnits) (cursor : ℕ) : ℕ → Option ℕ
  | 0 => some 0
  | start + 1 =>
    if (text[start]?).any isSpace then some (start + 1)
    else if cursor - start > maxQueryCharacters + 2 then none
    else wordStart text cursor start

/-- One opening bracket or quote may stand before the trigger. -/
def afterOpener (text : CodeUnits) (cursor start : ℕ) : ℕ :=
  if (text[start]?).any openers.contains ∧ start + 1 < cursor then start + 1 else start

/-- `isEnabledTrigger`, with the trigger. -/
def enabledTrigger (enabled : List MentionTrigger) (u : Option UInt16) : Option MentionTrigger :=
  [MentionTrigger.slash, .dollar, .atSign].find? fun trigger =>
    decide (u = some trigger.unit) && enabled.contains trigger

section Detection

-- `\p{L}` and `\p{N}` of the Unicode database.
variable (isLetterOrNumber : ℕ → Bool)

/-- `QUERY`. -/
def isQuery (query : CodeUnits) : Bool :=
  (codePoints query).all fun point =>
    isLetterOrNumber point || ['.', '_', ':', '/', '-'].any fun c => decide (point = c.toNat)

/-- The end of `detectMentionTrigger`: what the word at a place says. -/
def triggerAt (text : CodeUnits) (cursor : ℕ) (enabled : List MentionTrigger) (tokens : List ComposerToken)
    (start : ℕ) : Option MentionTriggerMatch :=
  (enabledTrigger enabled text[start]?).bind fun trigger =>
    if tokens.any fun token => decide (token.start ≤ start ∧ start < token.stop) then none
    else if isQuery isLetterOrNumber (slice text (start + 1) cursor) = false then none
    else if trigger = .dollar ∧ isShellLikeDollarQuery (slice text (start + 1) cursor) = true then none
    else some ⟨trigger, start, cursor, slice text (start + 1) cursor⟩

def detectMentionTrigger (text : CodeUnits) (cursor : ℤ) (enabled : List MentionTrigger)
    (tokens : List ComposerToken) : Option MentionTriggerMatch :=
  if cursor < 1 ∨ cursor > text.length then none
  else if tokens.any fun token => decide (cursor > token.start ∧ cursor ≤ token.stop) then none
  else
    (wordStart text cursor.toNat cursor.toNat).bind fun start =>
      triggerAt isLetterOrNumber text cursor.toNat enabled tokens (afterOpener text cursor.toNat start)

end Detection

/-! ## A pick in the text -/

/-- What `insertTokenText` returns. -/
structure InsertedText where
  text : CodeUnits
  start : ℕ
  stop : ℕ
  cursor : ℕ

/-- The space after a label, unless one is there. -/
def spacer (after : CodeUnits) : CodeUnits := if after.head? = some (unit ' ') then [] else [unit ' ']

def insertTokenText (text : CodeUnits) (start stop : ℕ) (label : CodeUnits) : InsertedText where
  text := text.take start ++ label ++ spacer (text.drop stop) ++ text.drop stop
  start := start
  stop := start + label.length
  cursor := start + label.length + 1

/-! ## Tokens across a change -/

/-- Where a token now sits: where the editor says, or where it was. -/
def reportedRange (ranges : Option (List (String × TokenRange))) (token : ComposerToken) : Option TokenRange :=
  match ranges with
  | none => some ⟨token.start, token.stop⟩
  | some reported => reported.lookup token.id

/-- A token that still reads its label at a place. -/
def keptToken (text : CodeUnits) (ranges : Option (List (String × TokenRange))) (token : ComposerToken) :
    Option ComposerToken :=
  (reportedRange ranges token).bind fun range =>
    if slice text range.start range.stop = token.label then some (token.moved range.start range.stop) else none

/-- A token whose place holds another text. -/
def isDemoted (text : CodeUnits) (ranges : Option (List (String × TokenRange))) (token : ComposerToken) : Bool :=
  (reportedRange ranges token).any fun range => decide (slice text range.start range.stop ≠ token.label)

structure TokenReconciliation where
  tokens : List ComposerToken
  demoted : List ComposerToken

def reconcileTokens (tokens : List ComposerToken) (text : CodeUnits)
    (ranges : Option (List (String × TokenRange))) : TokenReconciliation where
  tokens := sortByStart (tokens.filterMap (keptToken text ranges))
  demoted := tokens.filter (isDemoted text ranges)

/-! ## Tokens in a rewritten text -/

/-- One match of `PLACEHOLDER`. -/
structure PlaceholderMatch where
  position : ℕ
  length : ℕ
  index : ℕ

/-- The number in a placeholder at the start of a text, and the length of the placeholder. -/
def placeholderAt : CodeUnits → Option (ℕ × ℕ)
  | [] => none
  | first :: rest =>
    let digits := rest.takeWhile isDigit
    if first = 0x27e6 ∧ 1 ≤ digits.length ∧ digits.length ≤ 3 ∧ rest[digits.length]? = some 0x27e7 then
      some (digits.foldl (fun value digit => value * 10 + (digit.toNat - 48)) 0, digits.length + 2)
    else none

/-- `proposal.matchAll(PLACEHOLDER)`; two matches never overlap, so that every place is tried. -/
def placeholders (position : ℕ) : CodeUnits → List PlaceholderMatch
  | [] => []
  | first :: rest =>
    match placeholderAt (first :: rest) with
    | some (index, length) => ⟨position, length, index⟩ :: placeholders (position + 1) rest
    | none => placeholders (position + 1) rest

/-- What the loop of `restoreTokenPlaceholders` carries. -/
structure Rebinding where
  text : CodeUnits
  position : ℕ
  rebound : List ComposerToken

/-- One placeholder becomes the label of its token. -/
def rebind (proposal : CodeUnits) (tokens : List ComposerToken) (r : Rebinding) (found : PlaceholderMatch) :
    Rebinding :=
  match tokens[found.index - 1]? with
  | none => r
  | some token =>
    let text := r.text ++ slice proposal r.position found.position
    { text := text ++ token.label
      position := found.position + found.length
      rebound := r.rebound ++ [token.moved text.length (text.length + token.label.length)] }

/-- Every placeholder is there once, and no other is. -/
def boundOnce (tokens : List ComposerToken) (found : List PlaceholderMatch) : Bool :=
  decide (found.map (·.index)).Nodup
    && (found.all fun one => decide (1 ≤ one.index ∧ one.index ≤ tokens.length))
    && decide (found.length = tokens.length)

def restoreTokenPlaceholders (proposal : CodeUnits) (tokens : List ComposerToken) :
    Option (CodeUnits × List ComposerToken) :=
  if boundOnce tokens (placeholders 0 proposal) = false then none
  else
    let last := (placeholders 0 proposal).foldl (rebind proposal tokens) ⟨[], 0, []⟩
    some (last.text ++ proposal.drop last.position, sortByStart last.rebound)

/-! ## Limits -/

def tokenLimitReason (tokens : List ComposerToken) (next : ComposerTokenPick) : Option CodeUnits :=
  if tokens.length ≥ 64 then some (codeUnits "A draft holds at most 64 mentions.")
  else if next.trigger = .dollar ∧ (tokens.filter (·.trigger = .dollar)).length ≥ 8 then
    some (codeUnits "At most 8 capabilities per prompt.")
  else if next.trigger = .dollar ∧ next.kind = .skill
      ∧ ((tokens.filter (·.trigger = .dollar)).filter (·.kind = .skill)).length ≥ 4 then
    some (codeUnits "At most 4 skills per prompt.")
  else none

end Falryn.Composer
