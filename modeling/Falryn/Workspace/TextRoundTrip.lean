import Falryn.Workspace.TextLines

/-!
# A text from its own lines

Split and joined with the breaks it was found to have, a text that does not mix breaks is itself
again (`join_splitLines`), and so are its bytes (`encoded_of_decoded`), unless a decoder took a second
byte order mark off them.
-/

namespace Falryn.Workspace

/-! ## Joining what was split -/

/-- A line feed as a break of another kind. -/
def expandBreak (mark : List Char) (c : Char) : List Char := if c = '\n' then mark else [c]

variable {mark : List Char}

theorem flatMap_expandBreak {piece : List Char} (h : '\n' ∉ piece) :
    piece.flatMap (expandBreak mark) = piece := by
  induction piece with
  | nil => rfl
  | cons c piece ih =>
    rw [List.flatMap_cons, ih (List.not_mem_of_not_mem_cons h), expandBreak,
      if_neg (Ne.symm (List.ne_of_not_mem_cons h)), List.singleton_append]

theorem flatMap_intercalate (mark : List Char) : ∀ {pieces : List (List Char)},
    (∀ piece ∈ pieces, '\n' ∉ piece) →
    (['\n'].intercalate pieces).flatMap (expandBreak mark) = mark.intercalate pieces := by
  intro pieces
  induction pieces with
  | nil => exact fun _ => rfl
  | cons piece pieces ih =>
    intro h
    obtain ⟨hpiece, hrest⟩ := List.forall_mem_cons.1 h
    rcases pieces with _ | ⟨next, pieces⟩
    · rw [List.intercalate_singleton, List.intercalate_singleton]
      exact flatMap_expandBreak hpiece
    · rw [List.intercalate_cons_cons, List.intercalate_cons_cons, List.flatMap_append,
        List.flatMap_append, flatMap_expandBreak hpiece, ih hrest, List.flatMap_singleton]
      rfl

theorem replaceCrlf_of_no_feed : ∀ {text : List Char}, '\n' ∉ text →
    replaceCrlf mark text = text := by
  intro text
  induction text with
  | nil => exact fun _ => rfl
  | cons c text ih =>
    intro h
    rcases text with _ | ⟨d, text⟩
    · rfl
    · rw [replaceCrlf, if_neg fun hcrlf => h (by simp [hcrlf.2]), ih (List.not_mem_of_not_mem_cons h)]

/-- Without a lone break, every line feed of the normalized text was a carriage return and a line
feed. -/
theorem expand_crlf : ∀ (text : List Char), '\r' ∉ replaceCrlf [] text → '\n' ∉ replaceCrlf [] text →
    (normalized text).flatMap (expandBreak ['\r', '\n']) = text
  | [], _, _ => rfl
  | [c], hcr, hlf => by
    have hc : c ≠ '\r' := fun h => hcr (by simp [h, replaceCrlf])
    have hc' : c ≠ '\n' := fun h => hlf (by simp [h, replaceCrlf])
    simp [normalized, replaceCrlf, expandBreak, hc, hc']
  | c :: d :: text, hcr, hlf => by
    by_cases hcrlf : c = '\r' ∧ d = '\n'
    · obtain ⟨rfl, rfl⟩ := hcrlf
      rw [replaceCrlf_crlf, List.nil_append] at hcr hlf
      have hrest := expand_crlf text hcr hlf
      rw [show normalized ('\r' :: '\n' :: text) = '\n' :: normalized text from
        normalized_mark .crlf (fun h => by cases h), List.flatMap_cons, hrest]
      rfl
    · rw [replaceCrlf, if_neg hcrlf] at hcr hlf
      have hrest := expand_crlf (d :: text) (List.not_mem_of_not_mem_cons hcr)
        (List.not_mem_of_not_mem_cons hlf)
      have hc : c ≠ '\r' := Ne.symm (List.ne_of_not_mem_cons hcr)
      have hc' : c ≠ '\n' := Ne.symm (List.ne_of_not_mem_cons hlf)
      have hline := @normalized_line [c] (fun h => hc (List.mem_singleton.1 h).symm) (d :: text)
      rw [List.singleton_append, List.singleton_append] at hline
      rw [hline, List.flatMap_cons, hrest, expandBreak, if_neg hc', List.singleton_append]

theorem normalized_of_no_return {text : List Char} (h : '\r' ∉ text) : normalized text = text := by
  have hline := @normalized_line text h []
  rwa [List.append_nil, show normalized [] = [] from rfl, List.append_nil] at hline

theorem expand_cr {text : List Char} (h : '\n' ∉ text) :
    (normalized text).flatMap (expandBreak ['\r']) = text := by
  rw [normalized, replaceCrlf_of_no_feed h, List.flatMap_map]
  induction text with
  | nil => rfl
  | cons c text ih =>
    rw [List.flatMap_cons, ih (List.not_mem_of_not_mem_cons h)]
    have hc : c ≠ '\n' := Ne.symm (List.ne_of_not_mem_cons h)
    by_cases hcr : c = '\r'
    · rw [if_pos hcr, hcr]
      rfl
    · rw [if_neg hcr, expandBreak, if_neg hc, List.singleton_append]

theorem expand_lf {text : List Char} (h : '\r' ∉ text) :
    (normalized text).flatMap (expandBreak ['\n']) = text := by
  rw [normalized_of_no_return h]
  refine Eq.trans ?_ (List.flatMap_singleton' text)
  refine List.flatMap_congr fun c _ => ?_
  unfold expandBreak
  split_ifs with hc
  · rw [hc]
  · rfl

variable {text : String}

/-- The line feeds of the normalized text are the breaks the text was found to have. -/
theorem expand_normalized (h : detectNewline text ≠ .mixed) :
    (normalized text.toList).flatMap (expandBreak (markOf (detectNewline text)).text.toList)
      = text.toList := by
  rcases hcrlf : includesCrlf text.toList with _ | _
  · rw [detectNewline_of_no_crlf hcrlf] at h ⊢
    split_ifs at h ⊢ with hboth hcr hlf
    · exact absurd rfl h
    · exact expand_cr fun hlf => hboth ⟨hcr, hlf⟩
    · exact expand_lf hcr
    · exact expand_lf hcr
  · have hstyle : '\r' ∉ replaceCrlf [] text.toList ∧ '\n' ∉ replaceCrlf [] text.toList ∧
        detectNewline text = .crlf := by
      by_cases hlone : '\r' ∈ replaceCrlf [] text.toList ∨ '\n' ∈ replaceCrlf [] text.toList
      · exact absurd (by simp [detectNewline, hcrlf, hlone]) h
      · obtain ⟨hcr, hlf⟩ := not_or.1 hlone
        exact ⟨hcr, hlf, by simp [detectNewline, hcrlf, hcr, hlf]⟩
    rw [hstyle.2.2]
    exact expand_crlf text.toList hstyle.1 hstyle.2.1

/-- The pieces of a text, joined with its own breaks. -/
theorem intercalate_pieces (h : detectNewline text ≠ .mixed) :
    (markOf (detectNewline text)).text.intercalate
      (((normalized text.toList).splitOn '\n').map String.ofList) = text := by
  have hpieces : (((normalized text.toList).splitOn '\n').map String.ofList).map String.toList
      = (normalized text.toList).splitOn '\n' := by
    rw [List.map_map]
    exact (List.map_congr_left fun _ _ => String.toList_ofList).trans (List.map_id _)
  apply String.toList_inj.1
  rw [String.toList_intercalate, hpieces,
    ← flatMap_intercalate _ fun piece hpiece => Splitting.not_mem_of_mem_splitOn hpiece,
    List.intercalate_splitOn, expand_normalized h]

/-- **A text from its own lines.** -/
theorem join_splitLines (h : detectNewline text ≠ .mixed) :
    joinPatchedLines (splitLines text) (markOf (detectNewline text)) (endsInBreak text) = text := by
  by_cases hempty : text = ""
  · subst hempty
    rfl
  have hjoined := intercalate_pieces h
  generalize markOf (detectNewline text) = newline at hjoined ⊢
  have hunbroken : ∀ line ∈ ((normalized text.toList).splitOn '\n').map String.ofList, Unbroken line := by
    intro line hline
    obtain ⟨piece, hpiece, rfl⟩ := List.mem_map.1 hline
    rw [Unbroken, String.toList_ofList]
    exact ⟨Splitting.not_mem_of_mem_splitOn hpiece,
      fun hcr => (mem_normalized (Splitting.mem_of_mem_splitOn hpiece hcr)).1 rfl⟩
  have hpieces : ((normalized text.toList).splitOn '\n').map String.ofList ≠ [] := by
    simp [List.splitOn_ne_nil]
  rw [splitLines_of_pieces hempty rfl]
  generalize ((normalized text.toList).splitOn '\n').map String.ofList = lines at *
  have hone : lines ≠ [""] := by
    rintro rfl
    exact hempty (hjoined.symm.trans String.intercalate_singleton)
  by_cases hlast : lines.getLast? = some ""
  · -- A break ends the text: the empty piece after it is no line.
    obtain ⟨front, last, rfl⟩ := List.eq_nil_or_concat' lines |>.resolve_left hpieces
    rw [List.getLast?_concat, Option.some.injEq] at hlast
    subst hlast
    have hfront : front ≠ [] := by
      rintro rfl
      exact hone rfl
    rw [if_pos ⟨by simpa using List.length_pos_iff.2 hfront, List.getLast?_concat⟩,
      List.dropLast_concat]
    rw [← intercalate_break hfront] at hjoined
    rw [← hjoined, endsInBreak_mark, joinPatchedLines_trailing]
  · rw [if_neg fun h => hlast h.2]
    have hback : ReadsBack lines false := ⟨hpieces, .inr (.inr hlast)⟩
    have hends := endsInBreak_join hunbroken newline hback
    rw [joinPatchedLines_open hone, hjoined] at hends
    rw [hends, joinPatchedLines_open hone, hjoined]

/-! ## Encoding what was decoded -/

variable {bytes : ByteArray}

theorem toUTF8_of_fromUTF8? (h : String.fromUTF8? bytes = some text) : bytes = text.toUTF8 := by
  unfold String.fromUTF8? at h
  split_ifs at h
  cases h
  rfl

/-- A text that begins with a mark, and what a decoder leaves of it. -/
theorem toUTF8_of_head (h : text.toList.head? = some byteOrderMark) :
    text.toUTF8 = markBytes ++ (ignoreMark text).toUTF8 := by
  rcases htext : text.toList with _ | ⟨c, rest⟩
  · rw [htext] at h
    cases h
  · rw [htext, List.head?_cons, Option.some.injEq] at h
    subst h
    have hignored : (ignoreMark text).toList = rest := by
      unfold ignoreMark
      rw [htext]
      exact (congrArg _ (if_pos rfl)).trans String.toList_ofList
    rw [toUTF8_eq, toUTF8_eq, hignored, htext, ← utf8Encode_mark, ← List.utf8Encode_append,
      List.singleton_append]

theorem head_of_begins {rest : ByteArray} (h : text.toUTF8 = markBytes ++ rest) :
    text.toList.head? = some byteOrderMark := by
  obtain ⟨h0, h1, h2⟩ := h ▸ begins_markBytes rest
  exact head_of_markBytes h0 h1 h2

/-- The bytes begin with two byte order marks. -/
def BeginsWithTwoMarks (bytes : ByteArray) : Prop :=
  ∃ rest : ByteArray, bytes = markBytes ++ (markBytes ++ rest)

theorem append_extract_of_begins (h0 : bytes[0]? = some 0xef)
    (h1 : bytes[1]? = some 0xbb) (h2 : bytes[2]? = some 0xbf) :
    bytes = markBytes ++ bytes.extract 3 bytes.size := by
  obtain ⟨hi0, h0⟩ := getElem?_eq_some_bytes h0
  obtain ⟨hi1, h1⟩ := getElem?_eq_some_bytes h1
  obtain ⟨hi2, h2⟩ := getElem?_eq_some_bytes h2
  have hthree := @ByteArray.extract_add_three bytes 0 (by omega)
  have hmark : bytes.extract 0 3 = markBytes := by
    rw [hthree, h0, h1, h2]
    rfl
  rw [← hmark, ← ByteArray.extract_eq_extract_append_extract 3 (by omega) (by omega),
    ByteArray.extract_zero_size]

/-- **When a text has the bytes it was decoded from**, in an encoding a patch keeps: unless they
begin with two marks. -/
theorem encoded_of_decoded {decoded : DecodedWorkspaceText}
    (h : decodeWorkspaceText bytes = some decoded)
    (hkept : decoded.encoding = .utf8 ∨ decoded.encoding = .utf8Bom) :
    encoded decoded.encoding decoded.text = bytes ↔ ¬ BeginsWithTwoMarks bytes := by
  unfold decodeWorkspaceText at h
  dsimp only at h
  split_ifs at h with hmark hle hodd hbe hodd'
  · obtain ⟨text, htext, rfl⟩ := Option.map_eq_some_iff.1 h
    obtain ⟨raw, hraw, rfl⟩ := Option.map_eq_some_iff.1 htext
    have hbytes := append_extract_of_begins hmark.1 hmark.2.1 hmark.2.2
    rw [toUTF8_of_fromUTF8? hraw] at hbytes
    rw [show encoded TextEncoding.utf8Bom (ignoreMark raw) = markBytes ++ (ignoreMark raw).toUTF8 from
      if_pos rfl, hbytes]
    by_cases hhead : raw.toList.head? = some byteOrderMark
    · -- The decoder took the second mark off, and it is not written again.
      refine iff_of_false (fun heq => ?_) fun hnot => hnot ⟨_, congrArg _ (toUTF8_of_head hhead)⟩
      have hsize := congrArg ByteArray.size heq
      rw [toUTF8_of_head hhead, ByteArray.size_append, ByteArray.size_append,
        ByteArray.size_append, show markBytes.size = 3 from rfl] at hsize
      omega
    · rw [ignoreMark_of_no_mark hhead]
      refine iff_of_true rfl ?_
      rintro ⟨rest, hrest⟩
      exact hhead (head_of_begins ((ByteArray.append_right_inj _).1 hrest))
  · cases h
    rcases hkept with hkept | hkept <;> cases hkept
  · cases h
    rcases hkept with hkept | hkept <;> cases hkept
  · obtain ⟨text, htext, rfl⟩ := Option.map_eq_some_iff.1 h
    obtain ⟨raw, hraw, rfl⟩ := Option.map_eq_some_iff.1 htext
    have hbytes := toUTF8_of_fromUTF8? hraw
    have hhead : raw.toList.head? ≠ some byteOrderMark := by
      intro hhead
      rw [hbytes, toUTF8_of_head hhead] at hmark
      exact hmark (begins_markBytes _)
    rw [ignoreMark_of_no_mark hhead]
    refine iff_of_true hbytes.symm ?_
    rintro ⟨rest, hrest⟩
    exact hhead (head_of_begins (hbytes.symm.trans hrest))

end Falryn.Workspace
