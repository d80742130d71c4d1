import Falryn.Foundation.JsValue

/-!
# Texts as code units

A text of JavaScript is a list of UTF-16 code units, with or without a character behind every one of
them.  This file says which lists come from characters, how many bytes of UTF-8 a list takes and what
a text's two ends are freed of by `trim`.  A code unit that is no half of a pair cuts a text into two
that do not depend on each other.
-/

namespace Falryn

/-- The first half of a surrogate pair. -/
def isHighSurrogate (u : UInt16) : Bool := 0xd800 ≤ u && u < 0xdc00

/-- The second half of a surrogate pair. -/
def isLowSurrogate (u : UInt16) : Bool := 0xdc00 ≤ u && u < 0xe000

/-- Half of a surrogate pair. -/
def isSurrogate (u : UInt16) : Bool := 0xd800 ≤ u && u < 0xe000

/-- The code units of a character. -/
def charUnits (c : Char) : CodeUnits :=
  if c.val < 0x10000 then [c.val.toUInt16]
  else [(0xd800 + (c.val - 0x10000) / 0x400).toUInt16, (0xdc00 + (c.val - 0x10000) % 0x400).toUInt16]

/-- The code units of a text made of characters. -/
def utf16 (text : String) : CodeUnits := text.toList.flatMap charUnits

/-- `isWellFormed`: no half of a pair stands alone. -/
def isWellFormed : CodeUnits → Bool
  | [] => true
  | [u] => !isSurrogate u
  | u :: v :: rest =>
    if isHighSurrogate u then isLowSurrogate v && isWellFormed rest
    else !isLowSurrogate u && isWellFormed (v :: rest)

/-- The bytes one code unit takes when it is no half of a pair, and a half that stands alone. -/
def unitBytes (u : UInt16) : ℕ := if u < 0x80 then 1 else if u < 0x800 then 2 else 3

/-- The bytes a text takes when `TextEncoder` encodes it. -/
def utf8Length : CodeUnits → ℕ
  | [] => 0
  | [u] => unitBytes u
  | u :: v :: rest =>
    if isHighSurrogate u && isLowSurrogate v then 4 + utf8Length rest
    else unitBytes u + utf8Length (v :: rest)

/-- A character beyond the first plane. -/
example : isWellFormed [0xd83d, 0xde00] = true ∧ utf8Length [0xd83d, 0xde00] = 4 := by
  simp [isWellFormed, utf8Length, isHighSurrogate, isLowSurrogate]

/-- White space and line ends, as `trim` sees them. -/
def isBlank (u : UInt16) : Bool :=
  [0x9, 0xa, 0xb, 0xc, 0xd, 0x20, 0xa0, 0x1680, 0x2028, 0x2029, 0x202f, 0x205f, 0x3000, 0xfeff].contains u
    || (0x2000 ≤ u && u ≤ 0x200a)

def trim (text : CodeUnits) : CodeUnits := (text.dropWhile isBlank).rdropWhile isBlank

variable {u : UInt16}

theorem isHighSurrogate_iff : isHighSurrogate u = true ↔ 0xd800 ≤ u.toNat ∧ u.toNat < 0xdc00 := by
  rw [isHighSurrogate, Bool.and_eq_true, decide_eq_true_eq, decide_eq_true_eq, UInt16.le_iff_toNat_le,
    UInt16.lt_iff_toNat_lt]
  rfl

theorem isLowSurrogate_iff : isLowSurrogate u = true ↔ 0xdc00 ≤ u.toNat ∧ u.toNat < 0xe000 := by
  rw [isLowSurrogate, Bool.and_eq_true, decide_eq_true_eq, decide_eq_true_eq, UInt16.le_iff_toNat_le,
    UInt16.lt_iff_toNat_lt]
  rfl

theorem isSurrogate_iff : isSurrogate u = true ↔ 0xd800 ≤ u.toNat ∧ u.toNat < 0xe000 := by
  rw [isSurrogate, Bool.and_eq_true, decide_eq_true_eq, decide_eq_true_eq, UInt16.le_iff_toNat_le,
    UInt16.lt_iff_toNat_lt]
  rfl

theorem not_isSurrogate (h : isSurrogate u = false) :
    isHighSurrogate u = false ∧ isLowSurrogate u = false := by
  rw [Bool.eq_false_iff, Ne, isSurrogate_iff] at h
  rw [Bool.eq_false_iff, Bool.eq_false_iff, Ne, Ne, isHighSurrogate_iff, isLowSurrogate_iff]
  omega

@[simp]
theorem utf16_append (text more : String) : utf16 (text ++ more) = utf16 text ++ utf16 more := by
  rw [utf16, String.toList_append, List.flatMap_append, ← utf16, ← utf16]

/-! ## Cutting at a code unit that is no half of a pair -/

theorem isWellFormed_cons (h : isSurrogate u = false) (rest : CodeUnits) :
    isWellFormed (u :: rest) = isWellFormed rest := by
  obtain ⟨hhigh, hlow⟩ := not_isSurrogate h
  cases rest with
  | nil => simp [isWellFormed, h]
  | cons _ rest => simp [isWellFormed, hhigh, hlow]

theorem isWellFormed_cons_cons (u v : UInt16) (rest : CodeUnits) :
    isWellFormed (u :: v :: rest) =
      if isHighSurrogate u then isLowSurrogate v && isWellFormed rest
      else !isLowSurrogate u && isWellFormed (v :: rest) := by
  rw [isWellFormed]

theorem isWellFormed_append_cons (h : isSurrogate u = false) (before rest : CodeUnits) :
    isWellFormed (before ++ u :: rest) = (isWellFormed before && isWellFormed rest) := by
  obtain ⟨-, hlow⟩ := not_isSurrogate h
  induction before using isWellFormed.induct with
  | case1 => rw [List.nil_append, isWellFormed_cons h]; rfl
  | case2 v =>
    have hone : isWellFormed [v] = !isSurrogate v := rfl
    rw [List.singleton_append, isWellFormed_cons_cons, isWellFormed_cons h, hone]
    cases hv : isHighSurrogate v with
    | false =>
      have hsurrogate : isLowSurrogate v = isSurrogate v := by
        rw [Bool.eq_false_iff, Ne, isHighSurrogate_iff] at hv
        rw [Bool.eq_iff_iff, isLowSurrogate_iff, isSurrogate_iff]
        omega
      rw [if_neg (by decide), hsurrogate]
    | true =>
      have hsurrogate : isSurrogate v = true := by
        rw [isHighSurrogate_iff] at hv
        rw [isSurrogate_iff]
        omega
      rw [if_pos rfl, hlow, hsurrogate]
      rfl
  | case3 v w rest hv ih =>
    rw [List.cons_append, List.cons_append, isWellFormed_cons_cons, isWellFormed_cons_cons,
      if_pos hv, if_pos hv, ih, Bool.and_assoc]
  | case4 v w rest hv ih =>
    rw [List.cons_append, List.cons_append, isWellFormed_cons_cons, isWellFormed_cons_cons,
      if_neg hv, if_neg hv, ← List.cons_append, ih, Bool.and_assoc]

theorem utf8Length_cons (h : isSurrogate u = false) (rest : CodeUnits) :
    utf8Length (u :: rest) = unitBytes u + utf8Length rest := by
  cases rest with
  | nil => rfl
  | cons _ rest => rw [utf8Length, (not_isSurrogate h).1, Bool.false_and, if_neg (by decide)]

theorem utf8Length_cons_cons (u v : UInt16) (rest : CodeUnits) :
    utf8Length (u :: v :: rest) =
      if isHighSurrogate u && isLowSurrogate v then 4 + utf8Length rest
      else unitBytes u + utf8Length (v :: rest) := by
  rw [utf8Length]

theorem utf8Length_append_cons (h : isSurrogate u = false) (before rest : CodeUnits) :
    utf8Length (before ++ u :: rest) = utf8Length before + unitBytes u + utf8Length rest := by
  induction before using utf8Length.induct with
  | case1 => rw [List.nil_append, utf8Length_cons h, utf8Length, Nat.zero_add]
  | case2 v =>
    have hone : utf8Length [v] = unitBytes v := rfl
    rw [List.singleton_append, utf8Length_cons_cons, (not_isSurrogate h).2, Bool.and_false,
      if_neg (by decide), utf8Length_cons h, hone, Nat.add_assoc]
  | case3 v w before hpair ih =>
    rw [List.cons_append, List.cons_append, utf8Length_cons_cons, utf8Length_cons_cons, if_pos hpair,
      if_pos hpair, ih]
    omega
  | case4 v w before hpair ih =>
    rw [List.cons_append, List.cons_append, utf8Length_cons_cons, utf8Length_cons_cons, if_neg hpair,
      if_neg hpair, ← List.cons_append, ih]
    omega

/-! ## Characters -/

variable {c : Char} {text : String}

theorem charUnits_of_lt (h : c.val.toNat < 0x10000) :
    ∃ u : UInt16, charUnits c = [u] ∧ u.toNat = c.val.toNat := by
  refine ⟨c.val.toUInt16, if_pos (UInt32.lt_iff_toNat_lt.2 h), ?_⟩
  rw [UInt32.toNat_toUInt16, Nat.mod_eq_of_lt h]

theorem charUnits_of_le (h : 0x10000 ≤ c.val.toNat) :
    ∃ u v : UInt16, charUnits c = [u, v] ∧ u.toNat = 0xd800 + (c.val.toNat - 0x10000) / 0x400
      ∧ v.toNat = 0xdc00 + (c.val.toNat - 0x10000) % 0x400 := by
  have hvalid : c.val.toNat < 0xd800 ∨ (0xdfff < c.val.toNat ∧ c.val.toNat < 0x110000) := c.valid
  have hoffset : (c.val - 0x10000).toNat = c.val.toNat - 0x10000 :=
    UInt32.toNat_sub_of_le _ _ (UInt32.le_iff_toNat_le.2 h)
  refine ⟨_, _, if_neg fun hlt => (not_lt.2 h) (UInt32.lt_iff_toNat_lt.1 hlt), ?_, ?_⟩
  · rw [UInt32.toNat_toUInt16, UInt32.toNat_add, UInt32.toNat_div, hoffset]
    simp only [show (0xd800 : UInt32).toNat = 0xd800 from rfl, show (0x400 : UInt32).toNat = 0x400 from rfl]
    omega
  · rw [UInt32.toNat_toUInt16, UInt32.toNat_add, UInt32.toNat_mod, hoffset]
    simp only [show (0xdc00 : UInt32).toNat = 0xdc00 from rfl, show (0x400 : UInt32).toNat = 0x400 from rfl]
    omega

theorem isWellFormed_charUnits_append (c : Char) (rest : CodeUnits) :
    isWellFormed (charUnits c ++ rest) = isWellFormed rest := by
  have hvalid : c.val.toNat < 0xd800 ∨ (0xdfff < c.val.toNat ∧ c.val.toNat < 0x110000) := c.valid
  rcases lt_or_ge c.val.toNat 0x10000 with hlt | hle
  · obtain ⟨u, hunits, hu⟩ := charUnits_of_lt hlt
    rw [hunits, List.singleton_append]
    exact isWellFormed_cons (Bool.eq_false_iff.2 fun h => by rw [isSurrogate_iff] at h; omega) rest
  · obtain ⟨u, v, hunits, hu, hv⟩ := charUnits_of_le hle
    rw [hunits, List.cons_append, List.singleton_append, isWellFormed_cons_cons,
      if_pos (isHighSurrogate_iff.2 (by omega)), isLowSurrogate_iff.2 (by omega), Bool.true_and]

/-- The code units of a character say where it ends, and which it is. -/
theorem charUnits_append_inj {d : Char} {rest more : CodeUnits}
    (h : charUnits c ++ rest = charUnits d ++ more) : c = d ∧ rest = more := by
  have hc : c.val.toNat < 0xd800 ∨ (0xdfff < c.val.toNat ∧ c.val.toNat < 0x110000) := c.valid
  have hd : d.val.toNat < 0xd800 ∨ (0xdfff < d.val.toNat ∧ d.val.toNat < 0x110000) := d.valid
  have hext : c.val.toNat = d.val.toNat → c = d := fun heq => Char.ext (UInt32.toNat_inj.1 heq)
  rcases lt_or_ge c.val.toNat 0x10000 with hclt | hcle <;> rcases lt_or_ge d.val.toNat 0x10000 with hdlt | hdle
  · obtain ⟨u, hcu, hu⟩ := charUnits_of_lt hclt
    obtain ⟨v, hdv, hv⟩ := charUnits_of_lt hdlt
    rw [hcu, hdv, List.singleton_append, List.singleton_append, List.cons.injEq] at h
    exact ⟨hext (by rw [← hu, ← hv, h.1]), h.2⟩
  · obtain ⟨u, hcu, hu⟩ := charUnits_of_lt hclt
    obtain ⟨v, w, hdv, hv, -⟩ := charUnits_of_le hdle
    rw [hcu, hdv, List.singleton_append, List.cons_append, List.cons.injEq] at h
    rw [h.1] at hu
    omega
  · obtain ⟨u, v, hcu, hu, -⟩ := charUnits_of_le hcle
    obtain ⟨w, hdv, hw⟩ := charUnits_of_lt hdlt
    simp only [hcu, hdv, List.cons_append, List.nil_append, List.cons.injEq] at h
    rw [h.1] at hu
    omega
  · obtain ⟨u, v, hcu, hu, hv⟩ := charUnits_of_le hcle
    obtain ⟨w, x, hdv, hw, hx⟩ := charUnits_of_le hdle
    simp only [hcu, hdv, List.cons_append, List.nil_append, List.cons.injEq] at h
    refine ⟨hext ?_, h.2.2⟩
    rw [h.1] at hu
    rw [h.2.1] at hv
    omega

theorem charUnits_ne_nil (c : Char) : charUnits c ≠ [] := by
  rw [charUnits]
  split_ifs <;> exact List.cons_ne_nil _ _

/-- Texts of the same code units are the same. -/
theorem utf16_inj {more : String} (h : utf16 text = utf16 more) : text = more := by
  have hlists : ∀ chars more : List Char, chars.flatMap charUnits = more.flatMap charUnits → chars = more := by
    intro chars
    induction chars with
    | nil =>
      intro more h
      cases more with
      | nil => rfl
      | cons d more =>
        rw [List.flatMap_nil, List.flatMap_cons] at h
        exact absurd (List.append_eq_nil_iff.1 h.symm).1 (charUnits_ne_nil d)
    | cons c chars ih =>
      intro more h
      cases more with
      | nil =>
        rw [List.flatMap_nil, List.flatMap_cons] at h
        exact absurd (List.append_eq_nil_iff.1 h).1 (charUnits_ne_nil c)
      | cons d more =>
        rw [List.flatMap_cons, List.flatMap_cons] at h
        obtain ⟨hc, hrest⟩ := charUnits_append_inj h
        rw [hc, ih more hrest]
  exact String.toList_inj.1 (hlists _ _ h)

/-- A code unit below the surrogates stands for its own character alone. -/
theorem mem_utf16 (hu : isSurrogate u = false) (h : u ∈ utf16 text) :
    ∃ c ∈ text.toList, c.val.toNat = u.toNat := by
  rw [utf16, List.mem_flatMap] at h
  obtain ⟨c, hc, hmem⟩ := h
  refine ⟨c, hc, ?_⟩
  have hvalid : c.val.toNat < 0xd800 ∨ (0xdfff < c.val.toNat ∧ c.val.toNat < 0x110000) := c.valid
  rcases lt_or_ge c.val.toNat 0x10000 with hlt | hle
  · obtain ⟨v, hunits, hv⟩ := charUnits_of_lt hlt
    rw [hunits, List.mem_singleton] at hmem
    rw [hmem, hv]
  · obtain ⟨v, w, hunits, hv, hw⟩ := charUnits_of_le hle
    rw [hunits, List.mem_cons, List.mem_singleton] at hmem
    rw [Bool.eq_false_iff, Ne, isSurrogate_iff] at hu
    rcases hmem with rfl | rfl <;> omega

/-- A text made of characters has no half of a pair standing alone. -/
theorem isWellFormed_utf16 (text : String) : isWellFormed (utf16 text) = true := by
  rw [utf16]
  induction text.toList with
  | nil => rfl
  | cons _ _ ih => rw [List.flatMap_cons, isWellFormed_charUnits_append, ih]

end Falryn
