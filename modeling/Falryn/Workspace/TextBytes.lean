import Falryn.Foundation.CodeUnits
import Falryn.Workspace.TextLines

/-!
# Texts and their bytes

The encoding of a text as a list of bytes and what `TextDecoder` makes of bytes as code units.  A text
comes back from its encoding unless it begins with a byte order mark (`decode_utf8`), which the decoder
leaves out; and what a decoder answers encodes to the bytes it was given, less that mark
(`encode_of_decode`).
-/

namespace Falryn

open Workspace

/-- The encoding of a text made of characters. -/
def utf8 (text : String) : List UInt8 := text.toUTF8.data.toList

/-- `new TextDecoder("utf-8", { fatal: true }).decode`, a mark at the start left out; `none` where it
throws. -/
def decode (bytes : List UInt8) : Option CodeUnits := (decodeUtf8 ⟨bytes.toArray⟩).map utf16

/-- `new TextEncoder().encode`; half of a pair that stands alone is encoded as the replacement character. -/
def encode (text : CodeUnits) : List UInt8 :=
  (charsOfUnits (text.map UInt16.toNat)).flatMap String.utf8EncodeChar

/-- A text of single bytes. -/
def IsAscii (text : String) : Prop := ∀ c ∈ text.toList, c.val < 0x80

theorem utf8_eq (text : String) : utf8 text = text.toList.flatMap String.utf8EncodeChar := by
  rw [utf8, toUTF8_eq, List.utf8Encode, List.toList_data_toByteArray]

theorem utf8_append (text more : String) : utf8 (text ++ more) = utf8 text ++ utf8 more := by
  rw [utf8_eq, utf8_eq, utf8_eq, String.toList_append, List.flatMap_append]

variable {text : String} {c : Char} {bytes : List UInt8}

/-- **What a text's bytes decode to**, when it does not begin with a mark. -/
theorem decode_utf8 (h : text.toList.head? ≠ some byteOrderMark) :
    decode (utf8 text) = some (utf16 text) := by
  rw [decode, utf8, Array.toArray_toList, decodeUtf8_toUTF8 h, Option.map_some]

theorem utf8EncodeChar_ascii (h : c.val < 0x80) : String.utf8EncodeChar c = [c.val.toUInt8] := by
  refine String.utf8EncodeChar_eq_singleton (Char.utf8Size_eq_one_iff.2 ?_)
  rw [UInt32.lt_iff_toNat_lt] at h
  rw [UInt32.le_iff_toNat_le]
  exact Nat.le_of_lt_succ h

theorem charUnits_ascii (h : c.val < 0x80) : charUnits c = [c.val.toUInt16] :=
  if_pos (UInt32.lt_trans h (by decide))

theorem utf8_ascii (h : IsAscii text) : utf8 text = text.toList.map fun c => c.val.toUInt8 := by
  rw [utf8_eq, List.map_eq_flatMap]
  exact List.flatMap_congr fun c hc => utf8EncodeChar_ascii (h c hc)

theorem utf16_ascii (h : IsAscii text) : utf16 text = text.toList.map fun c => c.val.toUInt16 := by
  rw [utf16, List.map_eq_flatMap]
  exact List.flatMap_congr fun c hc => charUnits_ascii (h c hc)

/-- Single bytes are as many as the code units. -/
theorem length_utf16_ascii (h : IsAscii text) : (utf16 text).length = (utf8 text).length := by
  rw [utf16_ascii h, utf8_ascii h, List.length_map, List.length_map]

theorem length_charUnits_le (c : Char) : (charUnits c).length ≤ (String.utf8EncodeChar c).length := by
  rw [String.length_utf8EncodeChar, charUnits]
  split_ifs with h
  · exact Char.utf8Size_pos c
  · -- a pair stands for a character above the basic plane, which takes more than one byte
    by_contra hlt
    have hone : c.utf8Size = 1 := le_antisymm (Nat.le_of_lt_succ (not_le.1 hlt)) (Char.utf8Size_pos c)
    have hle := UInt32.le_iff_toNat_le.1 (Char.utf8Size_eq_one_iff.1 hone)
    exact h (UInt32.lt_iff_toNat_lt.2 (lt_of_le_of_lt hle (by decide)))

/-- There are never more code units than bytes. -/
theorem length_utf16_le (text : String) : (utf16 text).length ≤ (utf8 text).length := by
  rw [utf16, utf8_eq]
  induction text.toList with
  | nil => exact le_rfl
  | cons c _ ih =>
    rw [List.flatMap_cons, List.flatMap_cons, List.length_append, List.length_append]
    exact Nat.add_le_add (length_charUnits_le c) ih

/-! ## Encoding what was decoded -/

theorem charsOfUnits_charUnits_append (c : Char) (rest : CodeUnits) :
    charsOfUnits ((charUnits c ++ rest).map UInt16.toNat) = c :: charsOfUnits (rest.map UInt16.toNat) := by
  have hvalid : c.val.toNat < 0xd800 ∨ (0xdfff < c.val.toNat ∧ c.val.toNat < 0x110000) := c.valid
  have hchar : Char.ofNat c.val.toNat = c := Char.ofNat_toNat c
  rcases lt_or_ge c.val.toNat 0x10000 with hlt | hle
  · obtain ⟨u, hunits, hu⟩ := charUnits_of_lt hlt
    have hsurrogate : ¬ (0xd800 ≤ c.val.toNat ∧ c.val.toNat < 0xe000) := by omega
    rw [hunits, List.singleton_append, List.map_cons, hu]
    cases rest with
    | nil =>
      simp only [List.map_nil, charsOfUnits]
      rw [if_neg hsurrogate, hchar]
    | cons v rest =>
      rw [List.map_cons, charsOfUnits, if_neg (by omega), if_neg hsurrogate, hchar]
  · obtain ⟨u, v, hunits, hu, hv⟩ := charUnits_of_le hle
    have hvalue : 0x10000 + (u.toNat - 0xd800) * 0x400 + (v.toNat - 0xdc00) = c.val.toNat := by omega
    rw [hunits, List.cons_append, List.singleton_append, List.map_cons, List.map_cons, charsOfUnits,
      if_pos (by omega), hvalue, hchar]

theorem charsOfUnits_utf16 (text : String) : charsOfUnits ((utf16 text).map UInt16.toNat) = text.toList := by
  rw [utf16]
  induction text.toList with
  | nil => rfl
  | cons _ _ ih => rw [List.flatMap_cons, charsOfUnits_charUnits_append, ih]

theorem encode_utf16 (text : String) : encode (utf16 text) = utf8 text := by
  rw [encode, charsOfUnits_utf16, utf8_eq]

theorem utf8_of_fromUTF8 {whole : String}
    (h : String.fromUTF8? ⟨bytes.toArray⟩ = some whole) : bytes = utf8 whole := by
  unfold String.fromUTF8? at h
  by_cases hvalid : ByteArray.IsValidUTF8 ⟨bytes.toArray⟩
  · rw [dif_pos hvalid] at h
    cases h
    rfl
  · rw [dif_neg hvalid] at h
    cases h

/-- The bytes begin with a byte order mark. -/
def Marked (bytes : List UInt8) : Prop := [0xef, 0xbb, 0xbf] <+: bytes

instance (bytes : List UInt8) : Decidable (Marked bytes) := inferInstanceAs (Decidable (_ <+: _))

theorem getElem?_utf8 (text : String) (i : ℕ) : text.toUTF8[i]? = (utf8 text)[i]? := by
  rw [utf8, Array.getElem?_toList, getElem?_def, getElem?_def]
  rfl

theorem marked_utf8 : Marked (utf8 text) ↔ text.toList.head? = some byteOrderMark := by
  constructor
  · rintro ⟨rest, hrest⟩
    have hbyte (i : ℕ) : text.toUTF8[i]? = ([0xef, 0xbb, 0xbf] ++ rest)[i]? := by
      rw [getElem?_utf8, hrest]
    exact head_of_markBytes (hbyte 0) (hbyte 1) (hbyte 2)
  · intro hhead
    obtain ⟨rest, hrest⟩ := List.head?_eq_some_iff.1 hhead
    refine ⟨rest.flatMap String.utf8EncodeChar, ?_⟩
    rw [utf8_eq, hrest, List.flatMap_cons]
    exact congrArg (· ++ _) (by decide)

theorem utf8_ignoreMark (whole : String) :
    Marked (utf8 whole) ∧ utf8 whole = [0xef, 0xbb, 0xbf] ++ utf8 (ignoreMark whole)
      ∨ ¬ Marked (utf8 whole) ∧ utf8 whole = utf8 (ignoreMark whole) := by
  rw [marked_utf8]
  by_cases hmark : whole.toList.head? = some byteOrderMark
  · obtain ⟨rest, hrest⟩ := List.head?_eq_some_iff.1 hmark
    have hignore : ignoreMark whole = String.ofList rest := by
      rw [ignoreMark, hrest]
      exact if_pos rfl
    refine .inl ⟨hmark, ?_⟩
    rw [hignore, utf8_eq, utf8_eq, hrest, String.toList_ofList, List.flatMap_cons]
    exact congrArg (· ++ _) (by decide)
  · refine .inr ⟨hmark, congrArg utf8 ?_⟩
    unfold ignoreMark
    split
    · next rest hwhole =>
      rw [if_neg]
      rintro rfl
      exact hmark (by rw [hwhole]; rfl)
    · rfl

/-- **What a decoder answers encodes to the bytes it was given**, less a mark at their start. -/
theorem encode_of_decode {text : CodeUnits} (h : decode bytes = some text) :
    Marked bytes ∧ bytes = [0xef, 0xbb, 0xbf] ++ encode text
      ∨ ¬ Marked bytes ∧ bytes = encode text := by
  rw [decode, Option.map_eq_some_iff] at h
  obtain ⟨string, hdecode, rfl⟩ := h
  rw [decodeUtf8, Option.map_eq_some_iff] at hdecode
  obtain ⟨whole, hwhole, rfl⟩ := hdecode
  rw [encode_utf16, utf8_of_fromUTF8 hwhole]
  exact utf8_ignoreMark whole

end Falryn
