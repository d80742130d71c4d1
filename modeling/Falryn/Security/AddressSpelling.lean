import Falryn.Security.NetworkAddress

/-!
# The value of an address

What a text denotes, apart from the code: four decimal numbers are a 32-bit value, and groups of
hexadecimal digits, with a "::" for the zeros between them, a dotted end and a zone, are a 128-bit value.
`isIPv4` accepts the texts that denote a 32-bit value (`isIPv4_iff`), which `v4` gives (`DenotesV4.v4_eq`),
and the runs of groups are what is counted in an IPv6 address (`countGroups_iff`).
-/

namespace Falryn.Security

open Splitting

/-! ## What a text denotes -/

/-- Four decimal numbers below 256, between dots, and the value they denote. -/
def DenotesV4 (text : List Char) (value : ℕ) : Prop :=
  ∃ a b c d, a < 256 ∧ b < 256 ∧ c < 256 ∧ d < 256
    ∧ text = ['.'].intercalate ([a, b, c, d].map (Nat.toDigits 10))
    ∧ value = ((a * 256 + b) * 256 + c) * 256 + d

/-- One to four hexadecimal digits of either case, zeros in front included, and the number they denote. -/
def DenotesGroup (part : List Char) (value : ℕ) : Prop :=
  1 ≤ part.length ∧ part.length ≤ 4
    ∧ ∃ digits : List ℕ, part.map hexDigit = digits.map some ∧ value = Nat.ofDigits 16 digits.reverse

/-- Parts that are groups, the last of them perhaps a dotted address, and the numbers they denote. -/
inductive DenotesRun (dotted : Bool) : List (List Char) → List ℕ → Prop
  | nil : DenotesRun dotted [] []
  | tail {part : List Char} {value : ℕ} (hdotted : dotted = true) (hpart : DenotesV4 part value) :
      DenotesRun dotted [part] [value / 65536, value % 65536]
  | cons {part : List Char} {value : ℕ} {parts : List (List Char)} {values : List ℕ}
      (hpart : DenotesGroup part value) (hparts : DenotesRun dotted parts values) :
      DenotesRun dotted (part :: parts) (value :: values)

/-- The number that eight groups make. -/
def ofGroups (values : List ℕ) : ℕ := Nat.ofDigits 65536 values.reverse

/-- Two runs of groups with zeros between them, eight in all. -/
def withZeros (head rest : List ℕ) : List ℕ :=
  head ++ List.replicate (8 - (head.length + rest.length)) 0 ++ rest

/-- Eight groups in a row, or two runs with "::" between them for at least one group of zeros. -/
def DenotesText (spelled : List Char) (value : ℕ) : Prop :=
  (∃ parts values, DenotesRun true parts values ∧ values.length = 8
      ∧ spelled = [':'].intercalate parts ∧ value = ofGroups values)
    ∨ ∃ before after head rest, DenotesRun false before head ∧ DenotesRun true after rest
      ∧ head.length + rest.length ≤ 7
      ∧ spelled = [':'].intercalate before ++ ':' :: ':' :: [':'].intercalate after
      ∧ value = ofGroups (withZeros head rest)

/-- The groups of an address, which a zone may follow. -/
def DenotesV6 (text : List Char) (value : ℕ) : Prop :=
  ∃ spelled zone, text = spelled ++ zone ∧ isZone zone = true ∧ DenotesText spelled value

/-! ## Characters -/

/-- The hexadecimal digits. -/
def hexDigits : List Char :=
  ['0', '1', '2', '3', '4', '5', '6', '7', '8', '9', 'a', 'b', 'c', 'd', 'e', 'f', 'A', 'B', 'C', 'D', 'E', 'F']

variable {c : Char} {n : ℕ}

theorem mem_hexDigits (h : (hexDigit c).isSome) : c ∈ hexDigits := by
  have hchar : Char.ofNat c.toNat = c := Char.ofNat_toNat c
  rw [hexDigit] at h
  split_ifs at h with hdigit hlower hupper
  all_goals rw [← hchar]
  · obtain ⟨hlow, hhigh⟩ := hdigit
    have hlow' : 48 ≤ c.toNat := hlow
    have hhigh' : c.toNat ≤ 57 := hhigh
    interval_cases c.toNat <;> decide
  · obtain ⟨hlow, hhigh⟩ := hlower
    have hlow' : 97 ≤ c.toNat := hlow
    have hhigh' : c.toNat ≤ 102 := hhigh
    interval_cases c.toNat <;> decide
  · obtain ⟨hlow, hhigh⟩ := hupper
    have hlow' : 65 ≤ c.toNat := hlow
    have hhigh' : c.toNat ≤ 70 := hhigh
    interval_cases c.toNat <;> decide
  · simp at h

theorem hexDigit_toLower (h : c ∈ hexDigits) : hexDigit c.toLower = hexDigit c := by
  revert c
  simp [hexDigits, hexDigit]

theorem hexDigit_lt {digit : ℕ} (h : hexDigit c = some digit) : digit < 16 := by
  have hlt : ∀ c ∈ hexDigits, (hexDigit c).getD 0 < 16 := by simp [hexDigits, hexDigit]
  have hdigit := hlt c (mem_hexDigits (by rw [h]; rfl))
  rwa [h] at hdigit

theorem hexDigit_digitChar (h : n < 16) : hexDigit n.digitChar = some n := by
  interval_cases n <;> decide

theorem toLower_digit (h : c.isDigit) : c.toLower = c := by
  have hchar : Char.ofNat c.toNat = c := Char.ofNat_toNat c
  have hbounds : 48 ≤ c.val ∧ c.val ≤ 57 := by simpa [Char.isDigit] using h
  have hlow : 48 ≤ c.toNat := hbounds.1
  have hhigh : c.toNat ≤ 57 := hbounds.2
  rw [← hchar]
  interval_cases c.toNat <;> rfl

/-! ## Dotted addresses -/

theorem not_mem_toDigits_ten (h : ¬ c.isDigit) (n : ℕ) : c ∉ Nat.toDigits 10 n :=
  fun hc => h (Nat.isDigit_of_mem_toDigits (by omega) (by omega) hc)

theorem splitOn_dotted (values : List ℕ) (h : values ≠ []) :
    (['.'].intercalate (values.map (Nat.toDigits 10))).splitOn '.' = values.map (Nat.toDigits 10) := by
  refine List.splitOn_intercalate '.' ?_ (by simpa using h)
  intro part hpart
  obtain ⟨n, -, rfl⟩ := List.mem_map.1 hpart
  exact not_mem_toDigits_ten (by decide) n

variable {part : List Char}

theorem isOctet_iff : isOctet part = true ↔ ∃ n < 256, part = Nat.toDigits 10 n := by
  simp [isOctet]

variable {text : List Char}

/-- **What is accepted as an IPv4 address** is what denotes a value. -/
theorem isIPv4_iff : isIPv4 text = true ↔ ∃ value, DenotesV4 text value := by
  constructor
  · intro h
    obtain ⟨hlength, hall⟩ : (text.splitOn '.').length = 4 ∧ ∀ part ∈ text.splitOn '.', isOctet part = true := by
      simpa [isIPv4] using h
    obtain ⟨p, q, r, s, hsplit⟩ := List.length_eq_four.1 hlength
    rw [hsplit] at hall
    simp only [List.forall_mem_cons, isOctet_iff] at hall
    obtain ⟨⟨a, ha, rfl⟩, ⟨b, hb, rfl⟩, ⟨c, hc, rfl⟩, ⟨d, hd, rfl⟩, -⟩ := hall
    refine ⟨_, a, b, c, d, ha, hb, hc, hd, ?_, rfl⟩
    have htext : ['.'].intercalate (text.splitOn '.') = text := List.intercalate_splitOn '.'
    rw [← htext, hsplit]
    rfl
  · rintro ⟨value, a, b, c, d, ha, hb, hc, hd, rfl, -⟩
    rw [isIPv4, splitOn_dotted _ (List.cons_ne_nil _ _)]
    simp only [List.map_cons, List.map_nil, List.length_cons, List.length_nil, List.all_cons, List.all_nil,
      Bool.and_true, Bool.and_eq_true, decide_eq_true_eq, isOctet_iff]
    exact ⟨trivial, ⟨a, ha, rfl⟩, ⟨b, hb, rfl⟩, ⟨c, hc, rfl⟩, ⟨d, hd, rfl⟩⟩

/-- `v4` reads back what four numbers between dots make. -/
theorem v4_dotted (a b c d : ℕ) :
    v4 (['.'].intercalate ([a, b, c, d].map (Nat.toDigits 10))) = ((a * 256 + b) * 256 + c) * 256 + d := by
  rw [v4, splitOn_dotted _ (List.cons_ne_nil _ _)]
  simp only [List.map_cons, List.map_nil, List.foldl_cons, List.foldl_nil, Nat.ofDigitChars_ten_toDigits]
  omega

variable {value : ℕ}

theorem DenotesV4.v4_eq (h : DenotesV4 text value) : v4 text = value := by
  obtain ⟨a, b, c, d, -, -, -, -, rfl, rfl⟩ := h
  exact v4_dotted a b c d

theorem DenotesV4.lt (h : DenotesV4 text value) : value < 2 ^ 32 := by
  obtain ⟨a, b, c, d, ha, hb, hc, hd, -, rfl⟩ := h
  omega

theorem DenotesV4.isIPv4 (h : DenotesV4 text value) : isIPv4 text = true :=
  isIPv4_iff.2 ⟨value, h⟩

/-- A dotted address is four runs of digits between dots. -/
theorem DenotesV4.splitOn_dot (h : DenotesV4 text value) :
    (text.splitOn '.').length = 4 ∧ ∀ part ∈ text.splitOn '.', part ≠ [] ∧ ∀ c ∈ part, c.isDigit := by
  obtain ⟨a, b, c, d, -, -, -, -, rfl, -⟩ := h
  rw [splitOn_dotted _ (List.cons_ne_nil _ _)]
  refine ⟨rfl, fun part hpart => ?_⟩
  obtain ⟨n, -, rfl⟩ := List.mem_map.1 hpart
  exact ⟨Nat.toDigits_ne_nil, fun c hc => Nat.isDigit_of_mem_toDigits (by omega) (by omega) hc⟩

theorem mem_intercalate {sep : Char} {parts : List (List Char)}
    (h : c ∈ [sep].intercalate parts) : c = sep ∨ ∃ part ∈ parts, c ∈ part := by
  induction parts with
  | nil => simp at h
  | cons first parts ih =>
    rcases parts with _ | ⟨next, parts⟩
    · rw [List.intercalate_singleton] at h
      exact .inr ⟨first, List.mem_cons_self, h⟩
    · rw [List.intercalate_cons_cons, List.mem_append, List.mem_append, List.mem_singleton] at h
      rcases h with (h | h) | h
      · exact .inr ⟨first, List.mem_cons_self, h⟩
      · exact .inl h
      · exact (ih h).imp_right fun ⟨part, hpart, hc⟩ => ⟨part, List.mem_cons_of_mem _ hpart, hc⟩

theorem DenotesV4.mem (h : DenotesV4 text value) (hc : c ∈ text) : c = '.' ∨ c.isDigit := by
  have htext : ['.'].intercalate (text.splitOn '.') = text := List.intercalate_splitOn '.'
  rw [← htext] at hc
  obtain ⟨-, hparts⟩ := h.splitOn_dot
  exact (mem_intercalate hc).imp_right fun ⟨part, hpart, hmem⟩ => (hparts part hpart).2 c hmem

theorem DenotesV4.ne_nil (h : DenotesV4 text value) : text ≠ [] := by
  rintro rfl
  exact absurd h.splitOn_dot.1 (by decide)

theorem DenotesV4.isDottedTail (h : DenotesV4 text value) : isDottedTail text = true := by
  obtain ⟨hlength, hparts⟩ := h.splitOn_dot
  simp only [Security.isDottedTail, hlength, decide_true, Bool.true_and, List.all_eq_true, isDigits,
    Bool.and_eq_true, decide_eq_true_eq]
  exact hparts

/-! ## Groups -/

theorem DenotesGroup.mem (h : DenotesGroup part value) (hc : c ∈ part) : c ∈ hexDigits := by
  obtain ⟨-, -, digits, hdigits, -⟩ := h
  refine mem_hexDigits ?_
  have hmem : hexDigit c ∈ digits.map some := hdigits ▸ List.mem_map_of_mem hc
  obtain ⟨digit, -, hdigit⟩ := List.mem_map.1 hmem
  rw [← hdigit]
  rfl

theorem DenotesGroup.ne_nil (h : DenotesGroup part value) : part ≠ [] :=
  List.ne_nil_of_length_pos h.1

theorem DenotesGroup.lt (h : DenotesGroup part value) : value < 65536 := by
  obtain ⟨-, hlength, digits, hdigits, rfl⟩ := h
  have hdigitsLt : ∀ digit ∈ digits.reverse, digit < 16 := by
    intro digit hdigit
    have hmem : some digit ∈ part.map hexDigit :=
      hdigits ▸ List.mem_map_of_mem (List.mem_reverse.1 hdigit)
    obtain ⟨c, -, hc⟩ := List.mem_map.1 hmem
    exact hexDigit_lt hc
  have hsame : digits.length = part.length := by simpa using (congrArg List.length hdigits).symm
  calc Nat.ofDigits 16 digits.reverse
      < 16 ^ digits.reverse.length := Nat.ofDigits_lt_base_pow_length (by omega) hdigitsLt
    _ ≤ 16 ^ 4 := Nat.pow_le_pow_right (by omega) (by rw [List.length_reverse]; omega)

theorem isGroup_iff : isGroup part = true ↔ ∃ value, DenotesGroup part value := by
  constructor
  · intro h
    obtain ⟨⟨hpos, hle⟩, hall⟩ :
        (1 ≤ part.length ∧ part.length ≤ 4) ∧ ∀ c ∈ part, (hexDigit c).isSome = true := by
      simpa [isGroup] using h
    refine ⟨_, hpos, hle, part.map fun c => (hexDigit c).getD 0, ?_, rfl⟩
    rw [List.map_map]
    exact List.map_congr_left fun c hc => (Option.some_get (hall c hc)).symm.trans
      (congrArg some (Option.get_eq_getD _))
  · rintro ⟨value, h⟩
    obtain ⟨hpos, hle, digits, hdigits, -⟩ := h
    simp only [isGroup, hpos, hle, decide_true, Bool.true_and, List.all_eq_true]
    intro c hc
    have hmem : hexDigit c ∈ digits.map some := hdigits ▸ List.mem_map_of_mem hc
    obtain ⟨digit, -, hdigit⟩ := List.mem_map.1 hmem
    rw [← hdigit]
    rfl

theorem DenotesV4.not_isGroup (h : DenotesV4 text value) : ¬ isGroup text = true := by
  intro hgroup
  obtain ⟨group, hgroup⟩ := isGroup_iff.1 hgroup
  have hdot : '.' ∉ text := fun hmem => absurd (hgroup.mem hmem) (by decide)
  have hsplit : text.splitOn '.' = [text] := List.splitOn_eq_singleton hdot
  have hlength := h.splitOn_dot.1
  rw [hsplit] at hlength
  exact absurd hlength (by simp)

theorem DenotesGroup.toLower (h : DenotesGroup part value) :
    DenotesGroup (part.map Char.toLower) value := by
  obtain ⟨hpos, hle, digits, hdigits, hvalue⟩ := id h
  refine ⟨by simpa using hpos, by simpa using hle, digits, ?_, hvalue⟩
  rw [← hdigits, List.map_map]
  exact List.map_congr_left fun _ hc => hexDigit_toLower (h.mem hc)

theorem foldl_digits (digits : List ℕ) (init : ℕ) :
    digits.foldl (fun value digit => value * 16 + digit) init
      = init * 16 ^ digits.length + Nat.ofDigits 16 digits.reverse := by
  induction digits generalizing init with
  | nil => simp
  | cons digit digits ih =>
    rw [List.foldl_cons, ih, List.reverse_cons, Nat.ofDigits_append, Nat.ofDigits_singleton,
      List.length_reverse, List.length_cons]
    ring

/-- `Number.parseInt` of a group is the number it denotes. -/
theorem DenotesGroup.parseHex (h : DenotesGroup part value) : parseHex part = some value := by
  obtain ⟨hpos, -, digits, hdigits, rfl⟩ := h
  have hall : (digits.map some).takeWhile Option.isSome = digits.map some :=
    List.takeWhile_eq_self_iff.2 (by simp)
  have hne : digits.map some ≠ [] := by
    rw [← hdigits]
    simpa using List.ne_nil_of_length_pos hpos
  simp only [Security.parseHex, hdigits, hall, if_neg hne, List.foldl_map, Option.getD_some]
  rw [foldl_digits]
  simp

/-- A number written in hexadecimal denotes itself. -/
theorem denotesGroup_toDigits (h : n < 65536) : DenotesGroup (Nat.toDigits 16 n) n := by
  refine ⟨Nat.length_toDigits_pos, (Nat.length_toDigits_le_iff (by omega) (by omega)).2 h, ?_⟩
  clear h
  induction n using Nat.strongRecOn with
  | ind n ih =>
    by_cases hlt : n < 16
    · exact ⟨[n], by simp [Nat.toDigits_of_lt_base hlt, hexDigit_digitChar hlt], by simp⟩
    · obtain ⟨digits, hdigits, hvalue⟩ := ih (n / 16) (by omega)
      refine ⟨digits ++ [n % 16], ?_, ?_⟩
      · rw [Nat.toDigits_of_base_le (by omega) (by omega), List.map_append, List.map_append, hdigits]
        simp [hexDigit_digitChar (Nat.mod_lt n (by omega : 0 < 16))]
      · rw [List.reverse_append, List.reverse_singleton, List.singleton_append, Nat.ofDigits_cons, ← hvalue]
        omega

/-! ## Runs of groups -/

section Runs

variable {dotted : Bool} {parts : List (List Char)} {values : List ℕ}

theorem DenotesRun.forall_lt (h : DenotesRun dotted parts values) : ∀ value ∈ values, value < 65536 := by
  induction h with
  | nil => simp
  | tail _ hpart =>
    have hlt := hpart.lt
    simp only [List.forall_mem_cons, List.not_mem_nil, false_implies, implies_true, and_true]
    omega
  | cons hpart _ ih => exact List.forall_mem_cons.2 ⟨hpart.lt, ih⟩

theorem DenotesRun.mem (h : DenotesRun dotted parts values) (hpart : part ∈ parts) (hc : c ∈ part) : c = '.' ∨ c ∈ hexDigits := by
  induction h with
  | nil => simp at hpart
  | tail _ htail =>
    rw [List.mem_singleton] at hpart
    subst hpart
    exact (htail.mem hc).imp_right fun hdigit => mem_hexDigits (by
      obtain ⟨hlow, hhigh⟩ : 48 ≤ c.val ∧ c.val ≤ 57 := by simpa [Char.isDigit] using hdigit
      rw [hexDigit, if_pos ⟨hlow, hhigh⟩]
      rfl)
  | cons hfirst _ ih =>
    rcases List.mem_cons.1 hpart with rfl | hpart
    · exact .inr (hfirst.mem hc)
    · exact ih hpart

theorem DenotesRun.forall_ne_nil (h : DenotesRun dotted parts values) : ∀ part ∈ parts, part ≠ [] := by
  induction h with
  | nil => simp
  | tail _ htail => simpa using htail.ne_nil
  | cons hfirst _ ih => exact List.forall_mem_cons.2 ⟨hfirst.ne_nil, ih⟩

/-- No part has a colon, and none is empty. -/
theorem DenotesRun.no_colon (h : DenotesRun dotted parts values) :
    ∀ part ∈ parts, part ≠ [] ∧ ':' ∉ part := by
  refine fun part hpart => ⟨h.forall_ne_nil part hpart, fun hc => ?_⟩
  rcases h.mem hpart hc with hdot | hhex
  · exact absurd hdot (by decide)
  · exact absurd hhex (by decide)

theorem countGroups_cons_cons (part next : List Char) (parts : List (List Char)) :
    countGroups dotted (part :: next :: parts)
      = if isGroup part then (countGroups dotted (next :: parts)).map (· + 1) else none := by
  rw [countGroups]
  exact List.cons_ne_nil _ _

/-- **What is counted** is the length of what the parts denote. -/
theorem countGroups_iff {count : ℕ} :
    countGroups dotted parts = some count ↔ ∃ values, DenotesRun dotted parts values ∧ values.length = count := by
  constructor
  · intro h
    induction parts generalizing count with
    | nil => exact ⟨[], .nil, by simpa [countGroups] using h⟩
    | cons part parts ih =>
      rcases parts with _ | ⟨next, parts⟩
      · rw [countGroups] at h
        split_ifs at h with hgroup htail
        · obtain ⟨value, hvalue⟩ := isGroup_iff.1 hgroup
          exact ⟨[value], .cons hvalue .nil, Option.some.inj h⟩
        · obtain ⟨value, hvalue⟩ := isIPv4_iff.1 htail.2
          exact ⟨_, .tail htail.1 hvalue, Option.some.inj h⟩
      · rw [countGroups_cons_cons] at h
        split_ifs at h with hgroup
        obtain ⟨rest, hrest, rfl⟩ := Option.map_eq_some_iff.1 h
        obtain ⟨value, hvalue⟩ := isGroup_iff.1 hgroup
        obtain ⟨values, hvalues, rfl⟩ := ih hrest
        exact ⟨value :: values, .cons hvalue hvalues, rfl⟩
  · rintro ⟨values, h, rfl⟩
    induction h with
    | nil => rfl
    | tail hdotted hpart =>
      have hgroup : ¬ isGroup _ = true := hpart.not_isGroup
      rw [countGroups, if_neg hgroup, if_pos ⟨hdotted, hpart.isIPv4⟩]
      rfl
    | @cons part value parts values hpart hparts ih =>
      have hgroup : isGroup part = true := isGroup_iff.2 ⟨value, hpart⟩
      rcases parts with _ | ⟨next, parts⟩
      · cases hparts
        rw [countGroups, if_pos hgroup]
        rfl
      · rw [countGroups_cons_cons, if_pos hgroup, ih]
        rfl

end Runs

end Falryn.Security
