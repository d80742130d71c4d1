import Falryn.Foundation.JsValue
import Falryn.Lib.Splitting

/-!
# Lines and bytes of a text

How the bytes of a file become lines (`workspace-read.ts`) and lines become bytes again
(`joinPatchedLines`).  A text is split at any kind of line break and a last empty piece is dropped;
lines are joined with one kind of break, and one is put at the end when the file had one.

* `splitLines_join` says when the lines come back: when there is one, and the last is not an empty
  one left without a break after it.
* `decode_encode` says when the text does: when it does not begin with a byte order mark.
-/

namespace Falryn.Workspace

/-! ## Line breaks -/

inductive NewlineStyle where
  | none | lf | crlf | cr | mixed
  deriving DecidableEq

/-- The break lines are joined with. -/
inductive NewlineMark where
  | lf | crlf | cr

def NewlineMark.text : NewlineMark → String
  | .lf => "\n"
  | .crlf => "\r\n"
  | .cr => "\r"

def NewlineMark.style : NewlineMark → NewlineStyle
  | .lf => .lf
  | .crlf => .crlf
  | .cr => .cr

/-- The mark the lines of a file are joined with. -/
def markOf : NewlineStyle → NewlineMark
  | .crlf => .crlf
  | .cr => .cr
  | _ => .lf

/-- `text.includes("\r\n")`. -/
def includesCrlf : List Char → Bool
  | c :: d :: text => (decide (c = '\r') && decide (d = '\n')) || includesCrlf (d :: text)
  | _ => false

/-- `text.replaceAll("\r\n", mark)`. -/
def replaceCrlf (mark : List Char) : List Char → List Char
  | [] => []
  | [c] => [c]
  | c :: d :: text =>
    if c = '\r' ∧ d = '\n' then mark ++ replaceCrlf mark text
    else c :: replaceCrlf mark (d :: text)

def detectNewline (text : String) : NewlineStyle :=
  let crlf := includesCrlf text.toList
  let stripped := if crlf then replaceCrlf [] text.toList else text.toList
  let cr := stripped.contains '\r'
  let lf := stripped.contains '\n'
  if crlf = true ∧ (cr = true ∨ lf = true) then .mixed
  else if cr = true ∧ lf = true then .mixed
  else if crlf = true then .crlf
  else if cr = true then .cr
  else if lf = true then .lf
  else .none

def isBinaryText (text : String) : Bool := includesChar text '\x00'

/-- Whether a text ends in a line break. -/
def endsInBreak (text : String) : Bool :=
  decide (text.toList.getLast? = some '\n') || decide (text.toList.getLast? = some '\r')

/-- A text with every break a line feed. -/
def normalized (text : List Char) : List Char :=
  (replaceCrlf ['\n'] text).map fun c => if c = '\r' then '\n' else c

def splitLines (text : String) : List String :=
  if text = "" then [""]
  else
    let parts := ((normalized text.toList).splitOn '\n').map String.ofList
    if 1 < parts.length ∧ parts.getLast? = some "" then parts.dropLast else parts

def joinPatchedLines (lines : List String) (newline : NewlineMark) (trailingNewline : Bool) : String :=
  if lines = [""] ∧ trailingNewline = false then ""
  else
    let body := newline.text.intercalate lines
    if trailingNewline then body ++ newline.text else body

/-! ## Encodings -/

/-- `DecodedWorkspaceText.encoding`. -/
inductive TextEncoding where
  | utf8 | utf8Bom | utf16le | utf16be
  deriving DecidableEq

structure DecodedWorkspaceText where
  text : String
  encoding : TextEncoding
  deriving DecidableEq

/-- The byte order mark. -/
def byteOrderMark : Char := '\uFEFF'

/-- What a decoder does with a byte order mark at the start of its input. -/
def ignoreMark (text : String) : String :=
  match text.toList with
  | c :: rest => if c = byteOrderMark then String.ofList rest else text
  | [] => text

/-- `new TextDecoder("utf-8", { fatal: true }).decode(bytes)`. -/
def decodeUtf8 (bytes : ByteArray) : Option String := (String.fromUTF8? bytes).map ignoreMark

/-- The code units of `decodeUtf16`. -/
def utf16Units (littleEndian : Bool) : List UInt8 → List ℕ
  | first :: second :: rest =>
    (if littleEndian then second.toNat * 256 + first.toNat else first.toNat * 256 + second.toNat)
      :: utf16Units littleEndian rest
  | _ => []

/-- The characters of code units; one without its partner reads as the replacement character. -/
def charsOfUnits : List ℕ → List Char
  | [] => []
  | [unit] => [if 0xd800 ≤ unit ∧ unit < 0xe000 then '\uFFFD' else Char.ofNat unit]
  | high :: low :: rest =>
    if 0xd800 ≤ high ∧ high < 0xdc00 ∧ 0xdc00 ≤ low ∧ low < 0xe000 then
      Char.ofNat (0x10000 + (high - 0xd800) * 0x400 + (low - 0xdc00)) :: charsOfUnits rest
    else (if 0xd800 ≤ high ∧ high < 0xe000 then '\uFFFD' else Char.ofNat high)
      :: charsOfUnits (low :: rest)

def decodeUtf16 (bytes : ByteArray) (littleEndian : Bool) : String :=
  String.ofList (charsOfUnits (utf16Units littleEndian bytes.toList))

/-- `decodeWorkspaceText`; it has the one refusal "malformed-encoding". -/
def decodeWorkspaceText (bytes : ByteArray) : Option DecodedWorkspaceText :=
  let rest (count : ℕ) := bytes.extract count bytes.size
  if bytes[0]? = some 0xef ∧ bytes[1]? = some 0xbb ∧ bytes[2]? = some 0xbf then
    (decodeUtf8 (rest 3)).map (⟨·, .utf8Bom⟩)
  else if bytes[0]? = some 0xff ∧ bytes[1]? = some 0xfe then
    if (bytes.size - 2) % 2 ≠ 0 then none else some ⟨decodeUtf16 (rest 2) true, .utf16le⟩
  else if bytes[0]? = some 0xfe ∧ bytes[1]? = some 0xff then
    if (bytes.size - 2) % 2 ≠ 0 then none else some ⟨decodeUtf16 (rest 2) false, .utf16be⟩
  else (decodeUtf8 bytes).map (⟨·, .utf8⟩)

/-- The three bytes of a byte order mark. -/
def markBytes : ByteArray := ⟨#[0xef, 0xbb, 0xbf]⟩

/-- The bytes of a text in an encoding a patch keeps. -/
def encoded (encoding : TextEncoding) (text : String) : ByteArray :=
  if encoding = .utf8Bom then markBytes ++ text.toUTF8 else text.toUTF8

/-! ## Joined lines -/

/-- A line holds no break. -/
def Unbroken (line : String) : Prop := '\n' ∉ line.toList ∧ '\r' ∉ line.toList

instance (line : String) : Decidable (Unbroken line) := inferInstanceAs (Decidable (_ ∧ _))

variable {mark : List Char} {c : Char}

theorem replaceCrlf_cons (h : c ≠ '\r') (text : List Char) :
    replaceCrlf mark (c :: text) = c :: replaceCrlf mark text := by
  rcases text with _ | ⟨d, text⟩
  · rfl
  · rw [replaceCrlf, if_neg fun hcrlf => h hcrlf.1]

theorem replaceCrlf_cr {text : List Char} (h : text.head? ≠ some '\n') :
    replaceCrlf mark ('\r' :: text) = '\r' :: replaceCrlf mark text := by
  rcases text with _ | ⟨d, text⟩
  · rfl
  · rw [replaceCrlf, if_neg fun hcrlf => h (congrArg some hcrlf.2)]

theorem replaceCrlf_crlf (mark text : List Char) :
    replaceCrlf mark ('\r' :: '\n' :: text) = mark ++ replaceCrlf mark text := by
  rw [replaceCrlf, if_pos ⟨rfl, rfl⟩]

theorem replaceCrlf_append {mark line : List Char} (h : '\r' ∉ line) (rest : List Char) :
    replaceCrlf mark (line ++ rest) = line ++ replaceCrlf mark rest := by
  induction line with
  | nil => rfl
  | cons _ line ih =>
    rw [List.cons_append, replaceCrlf_cons (Ne.symm (List.ne_of_not_mem_cons h)),
      ih (List.not_mem_of_not_mem_cons h), List.cons_append]

theorem mem_intercalate : ∀ {lines : List (List Char)},
    c ∈ mark.intercalate lines → c ∈ mark ∨ ∃ line ∈ lines, c ∈ line := by
  intro lines
  induction lines with
  | nil => nofun
  | cons line lines ih =>
    intro h
    rcases lines with _ | ⟨next, lines⟩
    · rw [List.intercalate_singleton] at h
      exact .inr ⟨line, List.mem_cons_self, h⟩
    · rw [List.intercalate_cons_cons, List.mem_append, List.mem_append] at h
      rcases h with (h | h) | h
      · exact .inr ⟨line, List.mem_cons_self, h⟩
      · exact .inl h
      · obtain hmark | ⟨found, hfound, hc⟩ := ih h
        · exact .inl hmark
        · exact .inr ⟨found, List.mem_cons_of_mem _ hfound, hc⟩

theorem normalized_line {line : List Char} (h : '\r' ∉ line) (rest : List Char) :
    normalized (line ++ rest) = line ++ normalized rest := by
  have hmap : line.map (fun c => if c = '\r' then '\n' else c) = line := by
    refine (List.map_congr_left fun c hc => if_neg ?_).trans (List.map_id line)
    rintro rfl
    exact h hc
  rw [normalized, replaceCrlf_append h, List.map_append, hmap, normalized]

/-- Every break reads as a line feed, a lone carriage return unless a line feed follows it. -/
theorem normalized_mark (newline : NewlineMark) {rest : List Char}
    (h : newline = .cr → rest.head? ≠ some '\n') :
    normalized (newline.text.toList ++ rest) = '\n' :: normalized rest := by
  rcases newline with _ | _ | _
  · exact congrArg _ (replaceCrlf_cons (by decide) rest)
  · exact congrArg _ (replaceCrlf_crlf _ rest)
  · exact congrArg _ (replaceCrlf_cr (h rfl))

/-- **Whatever lines are joined with, they read as joined with line feeds.** -/
theorem normalized_intercalate (newline : NewlineMark) : ∀ {lines : List (List Char)},
    (∀ line ∈ lines, '\n' ∉ line ∧ '\r' ∉ line) →
    normalized (newline.text.toList.intercalate lines) = ['\n'].intercalate lines := by
  intro lines
  induction lines with
  | nil => exact fun _ => rfl
  | cons line lines ih =>
    intro h
    obtain ⟨hline, hrest⟩ := List.forall_mem_cons.1 h
    rcases lines with _ | ⟨next, lines⟩
    · rw [List.intercalate_singleton, List.intercalate_singleton]
      have hnormalized := normalized_line hline.2 []
      rwa [List.append_nil, show normalized [] = [] from rfl, List.append_nil] at hnormalized
    · rw [List.intercalate_cons_cons, List.intercalate_cons_cons, List.append_assoc,
        normalized_line hline.2, normalized_mark, ih hrest, List.append_assoc, List.singleton_append]
      rintro rfl hhead
      -- After a carriage return no text of this mark goes on with a line feed.
      rcases mem_intercalate (List.mem_of_mem_head? hhead) with hmark | ⟨found, hfound, hbreak⟩
      · revert hmark
        decide
      · exact (hrest found hfound).1 hbreak

variable {lines : List String}

/-- The pieces of joined lines are the lines. -/
theorem pieces_intercalate (newline : NewlineMark) (hne : lines ≠ [])
    (h : ∀ line ∈ lines, Unbroken line) :
    ((normalized (newline.text.intercalate lines).toList).splitOn '\n').map String.ofList = lines := by
  have hunbroken : ∀ line ∈ lines.map String.toList, '\n' ∉ line ∧ '\r' ∉ line := by
    intro line hline
    obtain ⟨text, htext, rfl⟩ := List.mem_map.1 hline
    exact h text htext
  rw [String.toList_intercalate, normalized_intercalate newline hunbroken,
    List.splitOn_intercalate _ (fun line hline => (hunbroken line hline).1) (by simpa using hne),
    List.map_map]
  exact (List.map_congr_left fun line _ => String.ofList_toList).trans (List.map_id lines)

/-- A break at the end is one more empty line. -/
theorem intercalate_break (hne : lines ≠ []) (newline : NewlineMark) :
    newline.text.intercalate lines ++ newline.text = newline.text.intercalate (lines ++ [""]) := by
  rw [String.intercalate_append_of_ne_nil hne (by simp), String.intercalate_singleton,
    String.append_empty]

/-! ## What is split from joined lines -/

theorem splitLines_ne_nil (text : String) : splitLines text ≠ [] := by
  unfold splitLines
  dsimp only
  split_ifs with hempty hlast
  · exact List.cons_ne_nil _ _
  · intro hdrop
    have hlength := congrArg List.length hdrop
    rw [List.length_dropLast, List.length_nil] at hlength
    omega
  · simp [List.splitOn_ne_nil]

/-- Lines can be read back from their text. -/
def ReadsBack (lines : List String) (trailingNewline : Bool) : Prop :=
  lines ≠ [] ∧ (trailingNewline = true ∨ lines = [""] ∨ lines.getLast? ≠ some "")

instance (lines : List String) (trailingNewline : Bool) : Decidable (ReadsBack lines trailingNewline) :=
  inferInstanceAs (Decidable (_ ∧ _))

variable {text : String}

theorem splitLines_of_pieces (hne : text ≠ "")
    (h : ((normalized text.toList).splitOn '\n').map String.ofList = lines) :
    splitLines text =
      if 1 < lines.length ∧ lines.getLast? = some "" then lines.dropLast else lines := by
  rw [splitLines, if_neg hne]
  dsimp only
  rw [h]

theorem intercalate_ne_empty (newline : NewlineMark) (hne : lines ≠ [])
    (hone : lines ≠ [""]) (h : ∀ line ∈ lines, Unbroken line) : newline.text.intercalate lines ≠ "" := by
  intro hempty
  have hpieces := pieces_intercalate newline hne h
  rw [hempty] at hpieces
  exact hone (hpieces.symm.trans (by decide))

theorem joinPatchedLines_trailing (lines : List String) (newline : NewlineMark) :
    joinPatchedLines lines newline true = newline.text.intercalate lines ++ newline.text := by
  rw [joinPatchedLines, if_neg (by simp)]
  rfl

theorem joinPatchedLines_open (hone : lines ≠ [""]) (newline : NewlineMark) :
    joinPatchedLines lines newline false = newline.text.intercalate lines := by
  rw [joinPatchedLines, if_neg fun h => hone h.1]
  rfl

/-- **When joined lines are split into themselves.** -/
theorem splitLines_join (h : ∀ line ∈ lines, Unbroken line)
    (newline : NewlineMark) (trailingNewline : Bool) :
    splitLines (joinPatchedLines lines newline trailingNewline) = lines ↔
      ReadsBack lines trailingNewline := by
  by_cases hne : lines = []
  · subst hne
    exact iff_of_false (splitLines_ne_nil _) fun h => h.1 rfl
  rw [ReadsBack, and_iff_right hne]
  rcases trailingNewline with _ | _
  · by_cases hone : lines = [""]
    · subst hone
      exact iff_of_true rfl (.inr (.inl rfl))
    · rw [joinPatchedLines_open hone,
        splitLines_of_pieces (intercalate_ne_empty newline hne hone h) (pieces_intercalate newline hne h)]
      by_cases hlast : lines.getLast? = some ""
      · -- The empty line left at the end is dropped.
        have hlength : 1 < lines.length := by
          rcases lines with _ | ⟨line, _ | ⟨next, lines⟩⟩
          · exact absurd rfl hne
          · exact absurd (congrArg (· :: []) (Option.some.inj hlast)) hone
          · simp
        rw [if_pos ⟨hlength, hlast⟩]
        refine iff_of_false (fun hdrop => ?_) (by simp [hone, hlast])
        have hshorter := congrArg List.length hdrop
        rw [List.length_dropLast] at hshorter
        omega
      · rw [if_neg fun h => hlast h.2]
        exact iff_of_true rfl (.inr (.inr hlast))
  · have hall : ∀ line ∈ lines ++ [""], Unbroken line := by
      intro line hline
      rcases List.mem_append.1 hline with hline | hline
      · exact h line hline
      · rw [List.mem_singleton.1 hline]
        decide
    have hpieces := pieces_intercalate newline (by simp) hall
    have htext : newline.text.intercalate (lines ++ [""]) ≠ "" :=
      intercalate_ne_empty newline (by simp) (by simp [hne]) hall
    rw [joinPatchedLines_trailing, intercalate_break hne, splitLines_of_pieces htext hpieces,
      if_pos ⟨by simpa using List.length_pos_iff.2 hne, List.getLast?_concat⟩, List.dropLast_concat]
    exact iff_of_true rfl (.inl rfl)

theorem endsInBreak_mark (newline : NewlineMark) (text : String) :
    endsInBreak (text ++ newline.text) = true := by
  rcases newline with _ | _ | _
  all_goals simp [endsInBreak, NewlineMark.text]

/-- Lines that can be read back keep whether the text ends in a break. -/
theorem endsInBreak_join (h : ∀ line ∈ lines, Unbroken line)
    (newline : NewlineMark) {trailingNewline : Bool} (hback : ReadsBack lines trailingNewline) :
    endsInBreak (joinPatchedLines lines newline trailingNewline) = trailingNewline := by
  rcases trailingNewline with _ | _
  · by_cases hone : lines = [""]
    · subst hone
      rfl
    · obtain ⟨hne, hlast⟩ := hback
      obtain ⟨front, last, rfl⟩ := List.eq_nil_or_concat' lines |>.resolve_left hne
      have hlast : last.toList ≠ [] := by
        rw [List.getLast?_concat] at hlast
        simp only [Bool.false_eq_true, hone, false_or, ne_eq, Option.some.injEq] at hlast
        exact fun hnil => hlast (String.toList_eq_nil_iff.1 hnil)
      have hends : (newline.text.intercalate (front ++ [last])).toList.getLast? = last.toList.getLast? := by
        rcases eq_or_ne front [] with rfl | hfront
        · rw [List.nil_append, String.intercalate_singleton]
        · rw [String.intercalate_append_of_ne_nil hfront (by simp), String.intercalate_singleton,
            String.toList_append, List.getLast?_append_of_ne_nil _ hlast]
      have hunbroken := h last (List.mem_append_right _ (List.mem_singleton_self _))
      rw [joinPatchedLines_open hone, endsInBreak, hends]
      refine Bool.or_eq_false_iff.2 ⟨decide_eq_false fun hbreak => ?_, decide_eq_false fun hbreak => ?_⟩
      · exact hunbroken.1 (List.mem_of_getLast? hbreak)
      · exact hunbroken.2 (List.mem_of_getLast? hbreak)
  · rw [joinPatchedLines_trailing]
    exact endsInBreak_mark newline _

/-! ## The style of joined lines -/

theorem includesCrlf_append (line rest : List Char) :
    includesCrlf (line ++ '\r' :: '\n' :: rest) = true := by
  induction line with
  | nil => rfl
  | cons _ line ih =>
    rcases line with _ | ⟨d, line⟩
    · exact Bool.or_eq_true_iff.2 (.inr ih)
    · exact Bool.or_eq_true_iff.2 (.inr ih)

theorem mem_of_includesCrlf {text : List Char} (h : includesCrlf text = true) :
    '\r' ∈ text ∧ '\n' ∈ text := by
  induction text with
  | nil => cases h
  | cons _ text ih =>
    rcases text with _ | ⟨d, text⟩
    · cases h
    · rcases Bool.or_eq_true_iff.1 h with hhere | hrest
      · obtain ⟨hc, hd⟩ := Bool.and_eq_true_iff.1 hhere
        rw [of_decide_eq_true hc, of_decide_eq_true hd]
        simp
      · exact (ih hrest).imp (List.mem_cons_of_mem _) (List.mem_cons_of_mem _)

theorem replaceCrlf_intercalate : ∀ {lines : List (List Char)},
    (∀ line ∈ lines, '\r' ∉ line) → replaceCrlf [] (['\r', '\n'].intercalate lines) = lines.flatten := by
  intro lines
  induction lines with
  | nil => exact fun _ => rfl
  | cons line lines ih =>
    intro h
    obtain ⟨hline, hrest⟩ := List.forall_mem_cons.1 h
    rcases lines with _ | ⟨next, lines⟩
    · rw [List.intercalate_singleton, List.flatten_singleton]
      simpa [replaceCrlf] using @replaceCrlf_append [] line hline []
    · rw [List.intercalate_cons_cons, List.append_assoc, replaceCrlf_append hline, List.cons_append,
        List.cons_append, List.nil_append, replaceCrlf_crlf, List.nil_append, ih hrest,
        ← List.flatten_cons]

/-- A text without the break of one kind has the style of the other, if any. -/
theorem detectNewline_of_no_crlf (h : includesCrlf text.toList = false) : detectNewline text =
      if '\r' ∈ text.toList ∧ '\n' ∈ text.toList then .mixed
      else if '\r' ∈ text.toList then .cr else if '\n' ∈ text.toList then .lf else .none := by
  simp [detectNewline, h]

variable {line : String} {byte : UInt8}

/-- **Two lines or more take the style of what they are joined with.** -/
theorem detectNewline_intercalate (newline : NewlineMark) {next : String}
    (h : ∀ l ∈ line :: next :: lines, Unbroken l) :
    detectNewline (newline.text.intercalate (line :: next :: lines)) = newline.style := by
  have hchars : (newline.text.intercalate (line :: next :: lines)).toList
      = line.toList ++ newline.text.toList
        ++ newline.text.toList.intercalate ((next :: lines).map String.toList) := by
    rw [String.toList_intercalate, List.map_cons, List.map_cons, List.intercalate_cons_cons]
  have hmem : ∀ c, c ∈ (newline.text.intercalate (line :: next :: lines)).toList →
      (c = '\n' ∨ c = '\r') → c ∈ newline.text.toList := by
    intro c hc hbreak
    rw [String.toList_intercalate] at hc
    rcases mem_intercalate hc with hmark | ⟨found, hfound, hc⟩
    · exact hmark
    · obtain ⟨l, hl, rfl⟩ := List.mem_map.1 hfound
      rcases hbreak with rfl | rfl
      · exact absurd hc (h l hl).1
      · exact absurd hc (h l hl).2
  have hmark : ∀ c ∈ newline.text.toList,
      c ∈ (newline.text.intercalate (line :: next :: lines)).toList := by
    intro c hc
    rw [hchars]
    exact List.mem_append_left _ (List.mem_append_right _ hc)
  rcases newline with _ | _ | _
  · have hcr : '\r' ∉ (NewlineMark.lf.text.intercalate (line :: next :: lines)).toList :=
      fun hc => absurd (hmem _ hc (.inr rfl)) (by decide)
    rw [detectNewline_of_no_crlf (Bool.eq_false_iff.2 fun hcrlf => hcr (mem_of_includesCrlf hcrlf).1),
      if_neg fun hboth => hcr hboth.1, if_neg hcr, if_pos (hmark _ (by decide))]
    rfl
  · have hcrlf : includesCrlf (NewlineMark.crlf.text.intercalate (line :: next :: lines)).toList = true := by
      rw [hchars, List.append_assoc]
      exact includesCrlf_append _ _
    have hstripped : replaceCrlf [] (NewlineMark.crlf.text.intercalate (line :: next :: lines)).toList
        = ((line :: next :: lines).map String.toList).flatten := by
      rw [String.toList_intercalate]
      refine replaceCrlf_intercalate fun found hfound => ?_
      obtain ⟨l, hl, rfl⟩ := List.mem_map.1 hfound
      exact (h l hl).2
    have hnone : ∀ c, c = '\n' ∨ c = '\r' →
        ((line :: next :: lines).map String.toList).flatten.contains c = false := by
      intro c hc
      refine Bool.eq_false_iff.2 fun hcontains => ?_
      obtain ⟨found, hfound, hmem⟩ := List.mem_flatten.1 (List.contains_iff_mem.1 hcontains)
      obtain ⟨l, hl, rfl⟩ := List.mem_map.1 hfound
      rcases hc with rfl | rfl
      · exact (h l hl).1 hmem
      · exact (h l hl).2 hmem
    unfold detectNewline
    dsimp only
    rw [hcrlf, if_pos rfl, hstripped, hnone _ (.inl rfl), hnone _ (.inr rfl)]
    rfl
  · have hlf : '\n' ∉ (NewlineMark.cr.text.intercalate (line :: next :: lines)).toList :=
      fun hc => absurd (hmem _ hc (.inl rfl)) (by decide)
    rw [detectNewline_of_no_crlf (Bool.eq_false_iff.2 fun hcrlf => hlf (mem_of_includesCrlf hcrlf).2),
      if_neg fun hboth => hlf hboth.2, if_pos (hmark _ (by decide))]
    rfl

theorem detectNewline_unbroken (h : Unbroken line) : detectNewline line = .none := by
  rw [detectNewline_of_no_crlf (Bool.eq_false_iff.2 fun hcrlf => h.1 (mem_of_includesCrlf hcrlf).2),
    if_neg fun hboth => h.1 hboth.2, if_neg h.2, if_neg h.1]

/-- The style of joined lines: that of the break, when there is one. -/
theorem detectNewline_join (hne : lines ≠ [])
    (h : ∀ line ∈ lines, Unbroken line) (newline : NewlineMark) (trailingNewline : Bool) :
    detectNewline (joinPatchedLines lines newline trailingNewline) =
      if lines.length = 1 ∧ trailingNewline = false then .none else newline.style := by
  rcases lines with _ | ⟨line, lines⟩
  · exact absurd rfl hne
  rcases trailingNewline with _ | _
  · rcases lines with _ | ⟨next, lines⟩
    · rw [if_pos ⟨rfl, rfl⟩]
      by_cases hone : line = ""
      · subst hone
        rfl
      · rw [joinPatchedLines_open (by simpa using hone), String.intercalate_singleton]
        exact detectNewline_unbroken (h line List.mem_cons_self)
    · rw [if_neg (by simp), joinPatchedLines_open (by simp)]
      exact detectNewline_intercalate newline h
  · rw [if_neg (by simp), joinPatchedLines_trailing, intercalate_break (by simp)]
    rcases lines with _ | ⟨next, lines⟩
    · refine detectNewline_intercalate newline fun l hl => ?_
      rcases List.mem_cons.1 hl with rfl | hl
      · exact h l List.mem_cons_self
      · rw [List.mem_singleton.1 hl]
        decide
    · refine detectNewline_intercalate newline fun l hl => ?_
      have hl : l ∈ (line :: next :: lines) ++ [""] := hl
      rcases List.mem_append.1 hl with hl | hl
      · exact h l hl
      · rw [List.mem_singleton.1 hl]
        decide

/-! ## What is split from a text -/

theorem mem_replaceCrlf : ∀ (text : List Char), c ∈ replaceCrlf mark text → c ∈ mark ∨ c ∈ text
  | [], h => (nomatch h)
  | [_], h => .inr h
  | d :: e :: text, h => by
    rw [replaceCrlf] at h
    split_ifs at h with hcrlf
    · rcases List.mem_append.1 h with h | h
      · exact .inl h
      · exact (mem_replaceCrlf text h).imp_right fun h => List.mem_cons_of_mem _ (List.mem_cons_of_mem _ h)
    · rcases List.mem_cons.1 h with rfl | h
      · exact .inr List.mem_cons_self
      · exact (mem_replaceCrlf (e :: text) h).imp_right (List.mem_cons_of_mem _)

/-- Normalizing adds line feeds only, and leaves no carriage return. -/
theorem mem_normalized {text : List Char} (h : c ∈ normalized text) :
    c ≠ '\r' ∧ (c = '\n' ∨ c ∈ text) := by
  obtain ⟨d, hd, rfl⟩ := List.mem_map.1 h
  split_ifs with hcr
  · exact ⟨by decide, .inl rfl⟩
  · refine ⟨hcr, ?_⟩
    rcases mem_replaceCrlf text hd with hmark | htext
    · exact .inl (List.mem_singleton.1 hmark)
    · exact .inr htext

/-- The lines of a text hold no break, and nothing that is not in the text. -/
theorem mem_splitLines (h : line ∈ splitLines text) :
    Unbroken line ∧ ∀ c ∈ line.toList, c ∈ text.toList := by
  unfold splitLines at h
  dsimp only at h
  have hpiece : ∀ l ∈ ((normalized text.toList).splitOn '\n').map String.ofList,
      Unbroken l ∧ ∀ c ∈ l.toList, c ∈ text.toList := by
    intro l hl
    obtain ⟨piece, hpiece, rfl⟩ := List.mem_map.1 hl
    have hlf := Splitting.not_mem_of_mem_splitOn hpiece
    rw [Unbroken, String.toList_ofList]
    refine ⟨⟨hlf, fun hcr => (mem_normalized (Splitting.mem_of_mem_splitOn hpiece hcr)).1 rfl⟩, fun c hc => ?_⟩
    rcases (mem_normalized (Splitting.mem_of_mem_splitOn hpiece hc)).2 with rfl | htext
    · exact absurd hc hlf
    · exact htext
  split_ifs at h
  · rw [List.mem_singleton.1 h]
    exact ⟨by decide, nofun⟩
  · exact hpiece line (List.dropLast_subset _ h)
  · exact hpiece line h

/-! ## Bytes -/

theorem toUTF8_eq (text : String) : text.toUTF8 = text.toList.utf8Encode :=
  String.utf8Encode_toList.symm

theorem fromUTF8?_toUTF8 (text : String) : String.fromUTF8? text.toUTF8 = some text := by
  exact dif_pos text.isValidUTF8

theorem ignoreMark_of_no_mark (h : text.toList.head? ≠ some byteOrderMark) :
    ignoreMark text = text := by
  unfold ignoreMark
  split
  · rename_i htext
    rw [htext] at h
    exact if_neg fun hc => h (congrArg some hc)
  · rfl

theorem decodeUtf8_toUTF8 (h : text.toList.head? ≠ some byteOrderMark) :
    decodeUtf8 text.toUTF8 = some text := by
  rw [decodeUtf8, fromUTF8?_toUTF8, Option.map_some, ignoreMark_of_no_mark h]

theorem utf8Encode_mark : [byteOrderMark].utf8Encode = markBytes := by decide +kernel

theorem getElem?_eq_some_bytes {bytes : ByteArray} {i : ℕ}
    (h : bytes[i]? = some byte) : ∃ hi : i < bytes.size, bytes[i] = byte := by
  rw [getElem?_def] at h
  split_ifs at h with hi
  exact ⟨hi, Option.some.inj h⟩

/-- Bytes that begin with the three of a mark are the encoding of a text that begins with one. -/
theorem head_of_markBytes (h0 : text.toUTF8[0]? = some 0xef)
    (h1 : text.toUTF8[1]? = some 0xbb) (h2 : text.toUTF8[2]? = some 0xbf) :
    text.toList.head? = some byteOrderMark := by
  obtain ⟨hi0, h0⟩ := getElem?_eq_some_bytes h0
  obtain ⟨hi1, h1⟩ := getElem?_eq_some_bytes h1
  obtain ⟨hi2, h2⟩ := getElem?_eq_some_bytes h2
  have hfirst : text.toUTF8.extract 0 3 = [byteOrderMark].utf8Encode := by
    have hthree := @ByteArray.extract_add_three text.toUTF8 0 (by omega)
    rw [hthree, h0, h1, h2, utf8Encode_mark]
    rfl
  have hbytes : [byteOrderMark].utf8Encode ++ text.toUTF8.extract 3 text.toUTF8.size
      = text.toList.utf8Encode := by
    rw [← hfirst, ← ByteArray.extract_eq_extract_append_extract 3 (by omega) (by omega),
      ByteArray.extract_zero_size, toUTF8_eq]
  obtain ⟨rest, hrest⟩ := List.isPrefix_of_utf8Encode_append_eq_utf8Encode _ hbytes
  rw [← hrest]
  rfl

/-- No text begins with a byte that begins no character. -/
theorem not_first_byte (hbyte : ¬ byte.IsUTF8FirstByte) : text.toUTF8[0]? ≠ some byte := by
  intro h
  obtain ⟨hi, rfl⟩ := getElem?_eq_some_bytes h
  exact hbyte (text.isValidUTF8.isUTF8FirstByte_getElem_zero hi)

/-- **When a text is decoded from its bytes**, without a mark before them. -/
theorem decode_utf8 (h : text.toList.head? ≠ some byteOrderMark) :
    decodeWorkspaceText text.toUTF8 = some ⟨text, .utf8⟩ := by
  unfold decodeWorkspaceText
  dsimp only
  rw [if_neg fun hmark => h (head_of_markBytes hmark.1 hmark.2.1 hmark.2.2),
    if_neg fun hle => not_first_byte (by decide) hle.1,
    if_neg fun hbe => not_first_byte (by decide) hbe.1, decodeUtf8_toUTF8 h]
  rfl

theorem begins_markBytes (rest : ByteArray) : (markBytes ++ rest)[0]? = some 0xef ∧
    (markBytes ++ rest)[1]? = some 0xbb ∧ (markBytes ++ rest)[2]? = some 0xbf := by
  have hget : ∀ i (hi : i < 3), (markBytes ++ rest)[i]? = markBytes[i]? := by
    intro i hi
    have hleft : i < markBytes.size := hi
    have hsize : (markBytes ++ rest).size = markBytes.size + rest.size := ByteArray.size_append
    rw [getElem?_def, getElem?_def, dif_pos (by omega), dif_pos hleft,
      ByteArray.getElem_append_left hleft]
  rw [hget 0 (by decide), hget 1 (by decide), hget 2 (by decide)]
  decide +kernel

/-- And with one. -/
theorem decode_utf8Bom (h : text.toList.head? ≠ some byteOrderMark) :
    decodeWorkspaceText (markBytes ++ text.toUTF8) = some ⟨text, .utf8Bom⟩ := by
  have hsize : (markBytes ++ text.toUTF8).size = markBytes.size + text.toUTF8.size :=
    ByteArray.size_append
  have hrest : (markBytes ++ text.toUTF8).extract 3 (markBytes ++ text.toUTF8).size = text.toUTF8 :=
    ByteArray.extract_append_eq_right rfl hsize
  unfold decodeWorkspaceText
  dsimp only
  rw [if_pos (begins_markBytes _), hrest, decodeUtf8_toUTF8 h]
  rfl

end Falryn.Workspace
