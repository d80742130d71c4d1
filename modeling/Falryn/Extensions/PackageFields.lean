import Falryn.Extensions.PackageWriting

/-!
# Reading fields back

What `field`, `octal`, `decodePath` and `paxPath` make of fields that hold a text, spell a number or
carry pax records.

* `decode_utf8` needs a text that does not begin with a byte order mark.
* `paxPath_paxText` needs every record but the last to be of single bytes: the length of a record counts
  bytes, and `paxPath` cuts the decoded text by code units.
-/

namespace Falryn.Extensions

open Workspace

/-! ## Fields -/

variable {bytes : Bytes}

theorem takeWhile_ne_zero {rest : Bytes} (hzero : (0 : UInt8) ∉ bytes) (hrest : rest.headD 0 = 0) :
    (bytes ++ rest).takeWhile (· ≠ 0) = bytes := by
  rw [List.takeWhile_append_of_pos fun b hb => by simpa using fun h : b = 0 => hzero (h ▸ hb)]
  cases rest with
  | nil => rw [List.takeWhile_nil, List.append_nil]
  | cons b rest =>
    have hb : b = 0 := hrest
    rw [hb, List.takeWhile_cons_of_neg (by simp), List.append_nil]

variable {length : ℕ} {block : Bytes} {offset : ℕ}

/-- **What a field that holds bytes reads as.** -/
theorem field_of_holds
    (h : HoldsBytes ((block.drop offset).take length) bytes) : field block offset length = bytes := by
  obtain ⟨rest, hfield, hrest, hzero⟩ := h
  rw [field, hfield, takeWhile_ne_zero hzero hrest]

theorem field_whole {data : Bytes} (h : HoldsBytes data bytes) : field data 0 data.length = bytes :=
  field_of_holds (by rwa [List.drop_zero, List.take_length])

variable {text : String} {record : PaxRecord}

theorem utf8_ne_nil (h : text ≠ "") : utf8 text ≠ [] := by
  rw [utf8_eq]
  intro hnil
  rw [List.flatMap_eq_nil_iff] at hnil
  cases hlist : text.toList with
  | nil => exact h (String.toList_eq_nil_iff.1 hlist)
  | cons c => exact String.utf8EncodeChar_ne_nil (hnil c (hlist ▸ List.mem_cons_self))

/-- **What the bytes of a plain text decode to as a name.** -/
theorem decodePath_utf8 (hne : text ≠ "") (h : PlainText text) :
    decodePath (utf8 text) = some (utf16 text) := by
  rw [decodePath, if_neg (utf8_ne_nil hne), decode_utf8 h.1, Option.getD_some]

theorem malformed_ne (h : text ≠ "malformed") : utf16 text ≠ malformed :=
  fun heq => h (utf16_inj heq)

/-! ## Numbers in octal digits -/

theorem octalDigit {c : Char} (h : '0' ≤ c ∧ c ≤ '7') : c.val < 0x80 ∧ IsDigit c.val.toUInt16
    ∧ c.val.toUInt16 ≤ 0x37 ∧ digitValue c.val.toUInt16 = c.toNat - '0'.toNat
    ∧ digitValue c.val.toUInt16 < 8 := by
  have hlow : 0x30 ≤ c.val.toNat := UInt32.le_iff_toNat_le.1 h.1
  have hhigh : c.val.toNat ≤ 0x37 := UInt32.le_iff_toNat_le.1 h.2
  have hdigit : c.isDigit := by
    rw [Char.isDigit_iff_toNat]
    exact ⟨hlow, hhigh.trans (by decide)⟩
  obtain ⟨-, hunit, hvalue⟩ := charUnits_digit hdigit
  refine ⟨UInt32.lt_iff_toNat_lt.2 (lt_of_le_of_lt hhigh (by decide)), hunit, ?_, hvalue, ?_⟩
  · rw [UInt16.le_iff_toNat_le, UInt32.toNat_toUInt16, Nat.mod_eq_of_lt (by omega)]
    exact hhigh
  · have hzero : '0'.toNat = 0x30 := rfl
    have hc : c.toNat = c.val.toNat := rfl
    rw [hvalue, hzero, hc]
    omega

theorem foldl_octal_lt {text : CodeUnits} (h : ∀ u ∈ text, digitValue u < 8) (start : ℕ) :
    text.foldl (fun value u => 8 * value + digitValue u) start < (start + 1) * 8 ^ text.length := by
  induction text generalizing start with
  | nil => simp
  | cons u text ih =>
    have hu := h u List.mem_cons_self
    calc (u :: text).foldl (fun value u => 8 * value + digitValue u) start
        < (8 * start + digitValue u + 1) * 8 ^ text.length :=
          ih (fun v hv => h v (List.mem_cons_of_mem _ hv)) _
      _ ≤ ((start + 1) * 8) * 8 ^ text.length := Nat.mul_le_mul_right _ (by omega)
      _ = (start + 1) * 8 ^ (u :: text).length := by rw [List.length_cons, pow_succ]; ring

theorem foldl_octal (digits : List Char) (h : ∀ c ∈ digits, '0' ≤ c ∧ c ≤ '7') (start : ℕ) :
    (digits.map fun c => c.val.toUInt16).foldl (fun value u => 8 * value + digitValue u) start
      = Nat.ofDigitChars 8 digits start := by
  induction digits generalizing start with
  | nil => rfl
  | cons c digits ih =>
    rw [List.map_cons, List.foldl_cons, (octalDigit (h c List.mem_cons_self)).2.2.2.1,
      ih (fun d hd => h d (List.mem_cons_of_mem _ hd)), Nat.ofDigitChars_cons]

theorem trim_blanks (before after : ℕ) {digits : CodeUnits} (h : ∀ u ∈ digits, IsDigit u) (hne : digits ≠ []) :
    trim (List.replicate before 0x20 ++ digits ++ List.replicate after 0x20) = digits := by
  have hblank : isBlank 0x20 = true := by decide
  obtain ⟨first, tail, hdigits⟩ := List.exists_cons_of_ne_nil hne
  have hfirst : isBlank first = false := (h first (hdigits ▸ List.mem_cons_self)).not_isBlank
  have hdrop : (List.replicate before 0x20 ++ digits ++ List.replicate after 0x20).dropWhile isBlank
      = digits ++ List.replicate after 0x20 := by
    rw [List.append_assoc, List.dropWhile_append_of_pos fun u hu => by rw [List.eq_of_mem_replicate hu, hblank],
      hdigits, List.cons_append, List.dropWhile_cons_of_neg (by rw [hfirst]; decide)]
  rw [trim, hdrop, List.rdropWhile, List.reverse_append, List.reverse_replicate,
    List.dropWhile_append_of_pos fun u hu => by rw [List.eq_of_mem_replicate hu, hblank]]
  refine List.rdropWhile_eq_self_iff.2 fun hlast => ?_
  rw [(h _ (List.getLast_mem hlast)).not_isBlank]
  decide

/-- **What a field that spells a number reads as.** -/
theorem octal_of_spells {n : ℕ}
    (h : Spells ((block.drop offset).take length) n) : octal block offset length = some n := by
  obtain ⟨before, after, digits, hholds, hpos, hle, hdigits, hvalue⟩ := h
  have hascii : IsAscii (String.ofList (List.replicate before ' ' ++ digits ++ List.replicate after ' ')) := by
    intro c hc
    rw [String.toList_ofList, List.mem_append, List.mem_append] at hc
    rcases hc with (hc | hc) | hc
    · rw [List.eq_of_mem_replicate hc]
      decide
    · exact (octalDigit (hdigits c hc)).1
    · rw [List.eq_of_mem_replicate hc]
      decide
  have hmark : (String.ofList (List.replicate before ' ' ++ digits ++ List.replicate after ' ')).toList.head?
      ≠ some byteOrderMark := by
    intro hhead
    have := hascii _ (List.mem_of_mem_head? hhead)
    exact absurd this (by decide)
  have hunits : utf16 (String.ofList (List.replicate before ' ' ++ digits ++ List.replicate after ' '))
      = List.replicate before 0x20 ++ digits.map (fun c => c.val.toUInt16) ++ List.replicate after 0x20 := by
    rw [utf16_ascii hascii, String.toList_ofList, List.map_append, List.map_append, List.map_replicate,
      List.map_replicate]
    rfl
  have hmem : ∀ u ∈ digits.map (fun c => c.val.toUInt16), IsDigit u ∧ u ≤ 0x37 ∧ digitValue u < 8 := by
    intro u hu
    obtain ⟨c, hc, rfl⟩ := List.mem_map.1 hu
    obtain ⟨-, hdigit, hupper, -, hlt⟩ := octalDigit (hdigits c hc)
    exact ⟨hdigit, hupper, hlt⟩
  have hne : digits.map (fun c => c.val.toUInt16) ≠ [] := by
    intro hnil
    rw [List.map_eq_nil_iff.1 hnil] at hpos
    exact absurd hpos (by decide)
  have htrim := trim_blanks before after (fun u hu => (hmem u hu).1) hne
  have htext : isOctalText (digits.map fun c => c.val.toUInt16) = true := by
    rw [isOctalText, List.length_map, Bool.and_eq_true, Bool.and_eq_true, decide_eq_true_eq,
      decide_eq_true_eq, List.all_eq_true]
    refine ⟨⟨hpos, hle⟩, fun u hu => ?_⟩
    rw [Bool.and_eq_true, decide_eq_true_eq, decide_eq_true_eq]
    exact ⟨(hmem u hu).1.1, (hmem u hu).2.1⟩
  have hfold := foldl_octal digits hdigits 0
  rw [hvalue] at hfold
  have hlt := foldl_octal_lt (fun u hu => (hmem u hu).2.2) 0
  rw [hfold, List.length_map, Nat.zero_add, Nat.one_mul] at hlt
  have hsafe : n ≤ 2 ^ 53 - 1 := by
    have hpow : 8 ^ digits.length ≤ 8 ^ 12 := Nat.pow_le_pow_right (by decide) hle
    have hbound : (8 : ℕ) ^ 12 ≤ 2 ^ 53 - 1 := by norm_num
    omega
  rw [octal, field_of_holds hholds, decode_utf8 hmark, Option.bind_some, hunits, htrim, if_pos htext]
  simp only [hfold]
  exact if_pos hsafe

/-! ## Pax records -/

theorem findIdx?_append_cons {u : UInt16} {before rest : CodeUnits} (h : u ∉ before) :
    (before ++ u :: rest).findIdx? (· = u) = some before.length := by
  rw [List.findIdx?_append, List.findIdx?_eq_none_iff.2 fun v hv => by
    simpa using fun heq : v = u => h (heq ▸ hv), Option.none_or, List.findIdx?_cons]
  simp

theorem utf16_toString (n : ℕ) : utf16 (toString n) = decimal n := by
  rw [Nat.toString_eq_ofList_toDigits, utf16, String.toList_ofList, decimal]

theorem PaxRecord.units (record : PaxRecord) : utf16 record.text
    = decimal record.length ++ 0x20 :: (utf16 record.key ++ 0x3d :: (utf16 record.value ++ [0xa])) := by
  have hspace : utf16 " " = [0x20] := by decide
  have hequals : utf16 "=" = [0x3d] := by decide
  have hline : utf16 "\n" = [0xa] := by decide
  rw [PaxRecord.text, utf16_append, utf16_append, utf16_append, utf16_append, utf16_append, hspace,
    hequals, hline, utf16_toString]
  simp only [List.append_assoc, List.cons_append, List.nil_append]

/-- **A record is read** where its length ends with it. -/
theorem paxRecord_text {more : CodeUnits} (hsafe : record.length < 2 ^ 53)
    (htake : (utf16 record.text ++ more).take record.length = utf16 record.text) :
    paxRecord (utf16 record.text ++ more) = some (record.length, utf16 record.key, utf16 record.value) := by
  have hspace : (0x20 : UInt16) ∉ decimal record.length := by
    intro hmem
    exact absurd (isDigit_of_mem_decimal hmem).1 (by decide)
  have hequals : (0x3d : UInt16) ∉ utf16 record.key := by
    intro hmem
    obtain ⟨c, hc, hvalue⟩ := mem_utf16 (by decide) hmem
    have hchar : c = '=' := Char.ext (UInt32.toNat_inj.1 hvalue)
    exact record.key_plain (hchar ▸ hc)
  have hfound : (utf16 record.text ++ more).findIdx? (· = 0x20) = some (decimal record.length).length := by
    rw [record.units, List.append_assoc, List.cons_append]
    exact findIdx?_append_cons hspace
  have hlength : (utf16 record.text ++ more).take (decimal record.length).length = decimal record.length := by
    rw [record.units, List.append_assoc, List.take_left]
  have hlt : (decimal record.length).length < record.length := by
    calc (decimal record.length).length < (utf16 record.text).length := by
          rw [record.units, List.length_append, List.length_cons]
          omega
      _ ≤ (utf8 record.text).length := length_utf16_le _
      _ = record.length := record.counted
  have hbody : (utf16 record.text).drop ((decimal record.length).length + 1)
      = utf16 record.key ++ 0x3d :: (utf16 record.value ++ [0xa]) := by
    rw [record.units, ← List.drop_drop, List.drop_left, List.drop_one, List.tail_cons]
  have hlast : (utf16 record.key ++ 0x3d :: (utf16 record.value ++ [0xa])).getLast? = some 0xa := by
    rw [← List.cons_append, ← List.append_assoc, List.getLast?_concat]
  have hkey : (utf16 record.key ++ 0x3d :: (utf16 record.value ++ [0xa])).take (utf16 record.key).length
      = utf16 record.key := List.take_left
  have hvalue : ((utf16 record.key ++ 0x3d :: (utf16 record.value ++ [0xa])).drop
      ((utf16 record.key).length + 1)).dropLast = utf16 record.value := by
    rw [← List.drop_drop, List.drop_left, List.drop_one, List.tail_cons, List.dropLast_concat]
  rw [paxRecord]
  simp only [Option.bind_eq_bind, hfound, Option.bind_some, hlength, safeIntegerOf_decimal hsafe,
    Int.toNat_natCast, htake, hbody, hlast]
  rw [if_neg (by omega)]
  simp only [ne_eq, not_true_eq_false, if_false, findIdx?_append_cons hequals, Option.bind_some, hkey, hvalue]
  rfl

theorem paxRecords_some {path : Option CodeUnits} {text key value : CodeUnits}
    (h : paxRecord text = some (length, key, value)) :
    paxRecords path text = paxRecords (if key = utf16 "path" then some value else path) (text.drop length) := by
  have hne : text ≠ [] := by
    rintro rfl
    cases h
  rw [paxRecords, if_neg hne]
  split
  · rename_i hnone
    rw [h] at hnone
    cases hnone
  · rename_i hsome
    rw [h, Option.some.injEq, Prod.mk.injEq, Prod.mk.injEq] at hsome
    obtain ⟨rfl, rfl, rfl⟩ := hsome
    rfl

/-- The path that records leave behind. -/
def paxStep (path : Option CodeUnits) (record : PaxRecord) : Option CodeUnits :=
  if utf16 record.key = utf16 "path" then some (utf16 record.value) else path

theorem paxRecords_paxText (records : List PaxRecord) (path : Option CodeUnits)
    (hsafe : ∀ record ∈ records, record.length < 2 ^ 53)
    (hascii : ∀ record ∈ records.dropLast, IsAscii record.text) :
    paxRecords path (utf16 (paxText records)) = records.foldl paxStep path := by
  induction records generalizing path with
  | nil =>
    have hempty : utf16 (paxText []) = [] := by decide
    rw [hempty, paxRecords, if_pos rfl]
    rfl
  | cons record records ih =>
    have hall : utf16 (paxText (record :: records)) = utf16 record.text ++ utf16 (paxText records) := by
      rw [paxText, utf16_append]
    -- the length ends at the record: in bytes it always does, in code units when there are as many
    have hcut : (utf16 record.text ++ utf16 (paxText records)).take record.length = utf16 record.text
        ∧ (utf16 record.text ++ utf16 (paxText records)).drop record.length = utf16 (paxText records) := by
      cases records with
      | nil =>
        have hempty : utf16 (paxText []) = [] := by decide
        have hle : (utf16 record.text).length ≤ record.length :=
          (length_utf16_le _).trans (le_of_eq record.counted)
        rw [hempty, List.append_nil]
        exact ⟨List.take_of_length_le hle, List.drop_of_length_le hle⟩
      | cons next records =>
        have hone := hascii record (by rw [List.dropLast_cons_cons]; exact List.mem_cons_self)
        have hlength : (utf16 record.text).length = record.length :=
          (length_utf16_ascii hone).trans record.counted
        exact ⟨List.take_left' hlength, List.drop_left' hlength⟩
    have hrest : ∀ later ∈ records.dropLast, IsAscii later.text := by
      intro later hlater
      refine hascii later ?_
      cases records with
      | nil => exact absurd hlater List.not_mem_nil
      | cons next records =>
        rw [List.dropLast_cons_cons]
        exact List.mem_cons_of_mem _ hlater
    rw [hall, paxRecords_some (paxRecord_text (hsafe record List.mem_cons_self) hcut.1), hcut.2,
      ih _ (fun later hlater => hsafe later (List.mem_cons_of_mem _ hlater)) hrest, List.foldl_cons]
    rfl

variable {records : List PaxRecord}

theorem length_paxText_le (h : record ∈ records) :
    record.length ≤ (utf8 (paxText records)).length := by
  induction records with
  | nil => exact absurd h List.not_mem_nil
  | cons _ records ih =>
    rw [paxText, utf8_append, List.length_append]
    rcases List.mem_cons.1 h with rfl | h
    · exact (le_of_eq record.counted.symm).trans (Nat.le_add_right _ _)
    · exact (ih h).trans (Nat.le_add_left _ _)

theorem head_paxText (hne : records ≠ []) :
    (paxText records).toList.head? ≠ some byteOrderMark := by
  obtain ⟨record, rest, rfl⟩ := List.exists_cons_of_ne_nil hne
  obtain ⟨c, chars, hdigits⟩ := List.exists_cons_of_ne_nil (Nat.toDigits_ne_nil (n := record.length) (b := 10))
  have hdigit : c.isDigit := Nat.isDigit_of_mem_toDigits (by omega) (by omega) (hdigits ▸ List.mem_cons_self)
  have hhead : (paxText (record :: rest)).toList.head? = some c := by
    rw [paxText, PaxRecord.text]
    simp only [String.toList_append, Nat.toString_eq_ofList_toDigits, String.toList_ofList, hdigits,
      List.cons_append, List.head?_cons]
  rw [hhead]
  rintro hmark
  rw [Option.some.inj hmark] at hdigit
  exact absurd hdigit (by decide)

theorem foldl_paxStep (h : ∀ record ∈ records, record.key ≠ "path")
    (path : Option CodeUnits) : records.foldl paxStep path = path := by
  induction records with
  | nil => rfl
  | cons record records ih =>
    have hkey : ¬ utf16 record.key = utf16 "path" :=
      fun heq => h record List.mem_cons_self (utf16_inj heq)
    rw [List.foldl_cons, paxStep, if_neg hkey]
    exact ih fun later hlater => h later (List.mem_cons_of_mem _ hlater)

/-- **The path that pax records carry**, when none but the last takes more bytes than code units. -/
theorem paxPath_paxText {before after : List PaxRecord} {path : PaxRecord}
    (hle : (utf8 (paxText (before ++ path :: after))).length ≤ PackageArchiveLimits.pathBytes * 4)
    (hkey : path.key = "path") (hafter : ∀ record ∈ after, record.key ≠ "path")
    (hascii : ∀ record ∈ (before ++ path :: after).dropLast, IsAscii record.text) :
    paxPath (utf8 (paxText (before ++ path :: after))) = some (utf16 path.value) := by
  have hsafe : ∀ record ∈ before ++ path :: after, record.length < 2 ^ 53 := by
    intro record hrecord
    have hshort := (length_paxText_le hrecord).trans hle
    exact lt_of_le_of_lt hshort (by decide)
  have hstep : paxStep (before.foldl paxStep none) path = some (utf16 path.value) :=
    if_pos (by rw [hkey])
  have hne : before ++ path :: after ≠ [] := List.append_ne_nil_of_right_ne_nil _ (List.cons_ne_nil _ _)
  rw [paxPath, decode_utf8 (head_paxText hne)]
  show paxRecords none _ = _
  rw [paxRecords_paxText _ _ hsafe hascii, List.foldl_append, List.foldl_cons, hstep, foldl_paxStep hafter]

end Falryn.Extensions
