import Falryn.Security.AddressSpelling

/-!
# A public address is public by its value

`isIPv6` accepts the texts that denote a 128-bit value (`isIPv6_iff`), and `groups` expands every spelling
of a value to its eight groups (`DenotesV6.groups_eq`), so that `isPublicAddress` is a question about the
value alone.
-/

namespace Falryn.Security

open Splitting

/-! ## What is accepted as an IPv6 address -/

section Runs

variable {dotted : Bool} {parts : List (List Char)} {values : List ℕ}

theorem DenotesRun.colonParts_eq (h : DenotesRun dotted parts values) :
    colonParts ([':'].intercalate parts) = parts := by
  rcases parts with _ | ⟨first, parts⟩
  · rfl
  · have hsplit := List.splitOn_intercalate ':' (fun part hpart => (h.no_colon part hpart).2)
      (List.cons_ne_nil first parts)
    have hne : [':'].intercalate (first :: parts) ≠ [] := by
      intro hnil
      rw [hnil, List.splitOn_nil] at hsplit
      injection hsplit with hfirst
      exact h.forall_ne_nil first List.mem_cons_self hfirst.symm
    rw [colonParts, if_neg hne, hsplit]

theorem intercalate_colonParts (text : List Char) : [':'].intercalate (colonParts text) = text := by
  rw [colonParts]
  split_ifs with hnil
  · rw [hnil]
    rfl
  · exact List.intercalate_splitOn ':'

/-- **An address without its zone** is what denotes a value without one. -/
theorem isIPv6Text_iff {text : List Char} : isIPv6Text text = true ↔ ∃ value, DenotesText text value := by
  constructor
  · intro h
    have htext := intercalate_splitOnTwo ':' text
    rw [isIPv6Text] at h
    split at h
    · rename_i hsplit
      obtain ⟨values, hvalues, hlength⟩ := countGroups_iff.1 (of_decide_eq_true h)
      refine ⟨_, .inl ⟨_, values, hvalues, hlength, ?_, rfl⟩⟩
      rw [intercalate_colonParts, ← htext, hsplit, List.intercalate_singleton]
    · rename_i head _ hsplit
      split at h
      · rename_i before after hbefore hafter
        obtain ⟨values, hvalues, rfl⟩ := countGroups_iff.1 hbefore
        obtain ⟨values', hvalues', rfl⟩ := countGroups_iff.1 hafter
        refine ⟨_, .inr ⟨_, _, values, values', hvalues, hvalues', of_decide_eq_true h, ?_, rfl⟩⟩
        rw [intercalate_colonParts, intercalate_colonParts, ← htext, hsplit, List.intercalate_cons_cons,
          List.intercalate_singleton, List.append_assoc]
        rfl
      · simp at h
    · simp at h
  · rintro ⟨value, ⟨parts, values, hrun, hlength, rfl, -⟩
      | ⟨before, after, head, rest, hbefore, hafter, hlength, rfl, -⟩⟩
    · rw [isIPv6Text, splitOnTwo_join hrun.no_colon]
      simpa only [hrun.colonParts_eq, decide_eq_true_eq] using countGroups_iff.2 ⟨values, hrun, hlength⟩
    · rw [isIPv6Text, splitOnTwo_join_two hbefore.no_colon hafter.no_colon]
      simp only [hbefore.colonParts_eq, hafter.colonParts_eq, countGroups_iff.2 ⟨head, hbefore, rfl⟩,
        countGroups_iff.2 ⟨rest, hafter, rfl⟩, hlength, decide_true]

/-- What a run spells has the characters of its parts, and colons. -/
theorem DenotesRun.mem_text (h : DenotesRun dotted parts values) {c : Char}
    (hc : c ∈ [':'].intercalate parts) : c = ':' ∨ c = '.' ∨ c ∈ hexDigits :=
  (mem_intercalate hc).imp_right fun ⟨_, hpart, hmem⟩ => h.mem hpart hmem

end Runs

variable {zone : List Char} {spelled : List Char}

/-- A zone is nothing or starts with a "%". -/
theorem isZone_head (h : isZone zone = true) : zone = [] ∨ ∃ name, zone = '%' :: name := by
  rcases zone with _ | ⟨c, name⟩
  · exact .inl rfl
  · obtain ⟨⟨rfl, -⟩, -⟩ : (c = '%' ∧ name ≠ []) ∧ name.all isZoneChar = true := by
      simpa [isZone] using h
    exact .inr ⟨name, rfl⟩

theorem takeWhile_zone (h : '%' ∉ spelled) (hzone : zone = [] ∨ ∃ name, zone = '%' :: name) :
    (spelled ++ zone).takeWhile (· ≠ '%') = spelled ∧ (spelled ++ zone).dropWhile (· ≠ '%') = zone := by
  have hspelled : ∀ c ∈ spelled, decide (c ≠ '%') = true :=
    fun c hc => decide_eq_true fun heq => h (heq ▸ hc)
  rw [List.takeWhile_append_of_pos hspelled, List.dropWhile_append_of_pos hspelled]
  rcases hzone with rfl | ⟨name, rfl⟩ <;> simp

variable {text : List Char} {value : ℕ}

/-- The characters of an address without its zone. -/
theorem DenotesText.chars (h : DenotesText text value) :
    ∀ c ∈ text, c = ':' ∨ c = '.' ∨ c ∈ hexDigits := by
  intro c hc
  rcases h with ⟨parts, values, hrun, -, rfl, -⟩ | ⟨before, after, head, rest, hbefore, hafter, -, rfl, -⟩
  · exact hrun.mem_text hc
  · rcases List.mem_append.1 hc with hc | hc
    · exact hbefore.mem_text hc
    · rcases List.mem_cons.1 hc with rfl | hc
      · exact .inl rfl
      · rcases List.mem_cons.1 hc with rfl | hc
        · exact .inl rfl
        · exact hafter.mem_text hc

theorem DenotesText.no_percent (h : DenotesText text value) :
    '%' ∉ text ∧ '%' ∉ text.map Char.toLower := by
  constructor
  · intro hc
    rcases h.chars _ hc with heq | heq | hhex
    · exact absurd heq (by decide)
    · exact absurd heq (by decide)
    · exact absurd hhex (by decide)
  · intro hc
    obtain ⟨c, hmem, hlower⟩ := List.mem_map.1 hc
    rcases h.chars c hmem with rfl | rfl | hhex
    · exact absurd hlower (by decide)
    · exact absurd hlower (by decide)
    · have hne : ∀ c ∈ hexDigits, c.toLower ≠ '%' := by simp [hexDigits]
      exact hne c hhex hlower

/-- **What is accepted as an IPv6 address** is what denotes a value. -/
theorem isIPv6_iff : isIPv6 text = true ↔ ∃ value, DenotesV6 text value := by
  constructor
  · intro h
    obtain ⟨htext, hzone⟩ := Bool.and_eq_true_iff.1 h
    obtain ⟨value, hvalue⟩ := isIPv6Text_iff.1 htext
    exact ⟨value, _, _, List.takeWhile_append_dropWhile.symm, hzone, hvalue⟩
  · rintro ⟨value, spelled, zone, rfl, hzone, hspelled⟩
    obtain ⟨htake, hdrop⟩ := takeWhile_zone hspelled.no_percent.1 (isZone_head hzone)
    rw [isIPv6, htake, hdrop, isIPv6Text_iff.2 ⟨value, hspelled⟩, hzone]
    rfl

theorem DenotesV6.colon_mem (h : DenotesV6 text value) : ':' ∈ text := by
  obtain ⟨spelled, zone, rfl, -, ⟨parts, values, hrun, hlength, rfl, -⟩ | ⟨before, after, _, _, -, -, -, rfl, -⟩⟩ := h
  · refine List.mem_append_left _ ?_
    rcases parts with _ | ⟨first, _ | ⟨next, parts⟩⟩
    · cases hrun
      simp at hlength
    · cases hrun with
      | tail => simp at hlength
      | cons _ hnil =>
        cases hnil
        simp at hlength
    · rw [List.intercalate_cons_cons]
      simp
  · simp

/-! ## The dotted end -/

theorem mem_splitOn_dot {c : Char} (hc : c ∈ text) (h : c ≠ '.') :
    ∃ part ∈ text.splitOn '.', c ∈ part := by
  have htext : ['.'].intercalate (text.splitOn '.') = text := List.intercalate_splitOn '.'
  rw [← htext] at hc
  exact (mem_intercalate hc).resolve_left h

/-- A text with a colon is no dotted address. -/
theorem isDottedTail_of_colon (h : ':' ∈ text) : isDottedTail text = false := by
  obtain ⟨part, hpart, hc⟩ := mem_splitOn_dot h (by decide)
  rw [Bool.eq_false_iff]
  intro htail
  have hdigits : isDigits part = true := List.all_eq_true.1 (Bool.and_eq_true_iff.1 htail).2 part hpart
  exact absurd (List.all_eq_true.1 (Bool.and_eq_true_iff.1 hdigits).2 ':' hc) (by decide)

theorem isDottedTail_of_no_dot (h : '.' ∉ text) : isDottedTail text = false := by
  rw [isDottedTail, List.splitOn_eq_singleton h]
  rfl

theorem dottedTail_of_no_dot (h : '.' ∉ text) : dottedTail text = none := by
  refine List.find?_eq_none.2 fun _ htail => ?_
  rw [isDottedTail_of_no_dot fun hc => h (((List.mem_tails _ _).1 htail).subset hc)]
  exact Bool.false_ne_true

/-- A dotted address is found at the end, after nothing or after a colon. -/
theorem dottedTail_append {part : List Char} (hpart : isDottedTail part = true) :
    ∀ {front : List Char}, (front = [] ∨ ∃ more, front = more ++ [':']) → dottedTail (front ++ part) = some part := by
  have hself : dottedTail part = some part := by
    rcases part with _ | ⟨c, part⟩
    · simp [isDottedTail] at hpart
    · rw [dottedTail, List.tails_cons]
      exact List.find?_cons_of_pos hpart
  rintro front (rfl | ⟨more, rfl⟩)
  · exact hself
  · induction more with
    | nil =>
      rw [List.nil_append, List.singleton_append, dottedTail, List.tails_cons,
        List.find?_cons_of_neg (by rw [isDottedTail_of_colon List.mem_cons_self]; exact Bool.false_ne_true)]
      exact hself
    | cons c more ih =>
      rw [List.cons_append, List.cons_append, dottedTail, List.tails_cons,
        List.find?_cons_of_neg (by rw [isDottedTail_of_colon (by simp)]; exact Bool.false_ne_true)]
      exact ih

/-! ## Spellings and their groups -/

theorem map_intercalate (f : Char → Char) (sep : Char) (parts : List (List Char)) :
    ([sep].intercalate parts).map f = [f sep].intercalate (parts.map (List.map f)) := by
  induction parts with
  | nil => rfl
  | cons _ parts ih =>
    rcases parts with _ | ⟨next, parts⟩
    · rw [List.map_singleton, List.intercalate_singleton, List.intercalate_singleton]
    · rw [List.map_cons, List.map_cons, List.intercalate_cons_cons, List.intercalate_cons_cons,
        List.map_append, List.map_append, ih]
      rfl

variable {parts : List (List Char)} {values : List ℕ} {dotted : Bool}

theorem DenotesRun.toLower (h : DenotesRun false parts values) :
    DenotesRun false (parts.map (List.map Char.toLower)) values := by
  induction h with
  | nil => exact .nil
  | tail hdotted => exact absurd hdotted Bool.false_ne_true
  | cons hpart _ ih => exact .cons hpart.toLower ih

theorem DenotesRun.no_dot (h : DenotesRun false parts values) : ∀ part ∈ parts, '.' ∉ part := by
  generalize hdotted : false = dotted at h
  induction h with
  | nil => simp
  | tail htrue => exact absurd (hdotted.trans htrue) Bool.false_ne_true
  | cons hpart _ ih =>
    exact List.forall_mem_cons.2 ⟨fun hmem => absurd (hpart.mem hmem) (by decide), ih⟩

theorem DenotesRun.no_dot_text
    (h : DenotesRun false parts values) : '.' ∉ [':'].intercalate parts := by
  intro hc
  rcases mem_intercalate hc with heq | ⟨part, hpart, hmem⟩
  · exact absurd heq (by decide)
  · exact h.no_dot part hpart hmem

theorem DenotesV4.map_toLower (h : DenotesV4 text value) : text.map Char.toLower = text := by
  refine (List.map_congr_left fun _ hc => ?_).trans (List.map_id text)
  rcases h.mem hc with rfl | hdigit
  · rfl
  · exact toLower_digit hdigit

/-- **A dotted end is folded** into two groups; a text without one is left as it is. -/
theorem DenotesRun.foldTail (h : DenotesRun dotted parts values) :
    ∀ front : List Char, '.' ∉ front → (front = [] ∨ ∃ more, front = more ++ [':']) →
      ∃ plain, DenotesRun false plain values ∧ (plain = [] ↔ parts = [])
        ∧ foldTail (front ++ ([':'].intercalate parts).map Char.toLower)
          = some (front ++ [':'].intercalate plain) := by
  induction h with
  | nil =>
    intro front hdot hend
    refine ⟨[], .nil, Iff.rfl, ?_⟩
    rw [List.intercalate_nil, List.map_nil, List.append_nil, Security.foldTail, dottedTail_of_no_dot hdot]
  | @tail part value _ hpart =>
    intro front hdot hend
    have hlt := hpart.lt
    refine ⟨[Nat.toDigits 16 (value / 65536), Nat.toDigits 16 (value % 65536)],
      .cons (denotesGroup_toDigits (by omega)) (.cons (denotesGroup_toDigits (by omega)) .nil), by simp, ?_⟩
    rw [List.intercalate_singleton, hpart.map_toLower, Security.foldTail,
      dottedTail_append hpart.isDottedTail hend]
    simp only [hpart.isIPv4, Bool.true_eq_false, if_false, hpart.v4_eq, List.length_append,
      Nat.add_sub_cancel, List.take_left]
    rw [List.intercalate_cons_cons, List.intercalate_singleton]
    simp only [List.append_assoc, List.singleton_append]
  | @cons part value parts values hpart hparts ih =>
    intro front hdot hend
    have hfirst : '.' ∉ part.map Char.toLower := fun hmem => absurd (hpart.toLower.mem hmem) (by decide)
    rcases parts with _ | ⟨next, parts⟩
    · cases hparts
      refine ⟨[part.map Char.toLower], .cons hpart.toLower .nil, by simp, ?_⟩
      rw [List.intercalate_singleton, List.intercalate_singleton, Security.foldTail,
        dottedTail_of_no_dot (by simpa [hdot] using hfirst)]
    · obtain ⟨plain, hplain, hnil, hfold⟩ := ih (front ++ part.map Char.toLower ++ [':']) (by simpa [hdot] using hfirst) (.inr ⟨_, rfl⟩)
      obtain ⟨first, more, rfl⟩ := List.exists_cons_of_ne_nil (mt hnil.1 (List.cons_ne_nil next parts))
      refine ⟨part.map Char.toLower :: first :: more, .cons hpart.toLower hplain, by simp, ?_⟩
      rw [List.intercalate_cons_cons, List.intercalate_cons_cons, List.map_append, List.map_append]
      simpa only [List.append_assoc, List.map_singleton, show ':'.toLower = ':' from rfl] using hfold

theorem DenotesRun.parseParts (h : DenotesRun dotted parts values) (hplain : dotted = false) :
    parseParts ([':'].intercalate parts) = values.map some := by
  rw [Security.parseParts, h.colonParts_eq]
  induction h with
  | nil => rfl
  | tail htrue => exact absurd (hplain.symm.trans htrue) Bool.false_ne_true
  | cons hpart _ ih => rw [List.map_cons, List.map_cons, hpart.parseHex, ih]

theorem groups_bounded (h : ∀ value ∈ values, value < 65536) :
    ∀ group ∈ values.map some, ∃ value ∈ group, value ≤ 0xffff := by
  intro group hgroup
  obtain ⟨value, hvalue, rfl⟩ := List.mem_map.1 hgroup
  exact ⟨value, rfl, Nat.le_of_lt_succ (h value hvalue)⟩

variable {head rest : List ℕ} {address : String}

theorem length_withZeros (h : head.length + rest.length ≤ 8) :
    (withZeros head rest).length = 8 := by
  simp only [withZeros, List.length_append, List.length_replicate]
  omega

theorem withZeros_lt (hhead : ∀ value ∈ head, value < 65536)
    (hrest : ∀ value ∈ rest, value < 65536) : ∀ value ∈ withZeros head rest, value < 65536 := by
  intro value hvalue
  rcases List.mem_append.1 hvalue with hvalue | hvalue
  · rcases List.mem_append.1 hvalue with hvalue | hvalue
    · exact hhead value hvalue
    · rw [(List.mem_replicate.1 hvalue).2]
      omega
  · exact hrest value hvalue

/-- The end of `expand`, for halves that are one full run, or two runs that are not. -/
theorem expand_eq (halves : List (List Char)) (rest : List ℕ)
    (hhead : parseParts (halves.getD 0 []) = head.map some)
    (hrest : parseParts (halves.getD 1 []) = rest.map some) (hhalves : halves.length ≤ 2)
    (hfull : halves.length = 1 → head.length = 8) (hlength : head.length + rest.length ≤ 8)
    (hlt : ∀ value ∈ head, value < 65536) (hlt' : ∀ value ∈ rest, value < 65536) :
    expand halves = some (withZeros head rest) := by
  have hall : head.map some ++ List.replicate (8 - (head.length + rest.length)) (some 0) ++ rest.map some
      = (withZeros head rest).map some := by simp [withZeros]
  simp only [expand, hhead, hrest, List.length_map, hall]
  rw [if_neg (by omega), if_neg (by omega),
    if_pos ⟨length_withZeros hlength, groups_bounded (withZeros_lt hlt hlt')⟩, List.map_map]
  exact congrArg some (List.map_id _)

/-- Eight groups are expanded to themselves. -/
theorem expand_full (h : DenotesRun false parts values)
    (hlength : values.length = 8) : expand [[':'].intercalate parts] = some values := by
  have hself : withZeros values [] = values := by simp [withZeros, hlength]
  have hexpand := expand_eq [[':'].intercalate parts] [] (h.parseParts rfl) rfl
    (by simp) (fun _ => hlength) (by simp [hlength]) h.forall_lt (by simp)
  rwa [hself] at hexpand

/-- Two runs are expanded with zeros between them. -/
theorem expand_halves {before after : List (List Char)}
    (hbefore : DenotesRun false before head) (hafter : DenotesRun false after rest)
    (hlength : head.length + rest.length ≤ 7) :
    expand [[':'].intercalate before, [':'].intercalate after] = some (withZeros head rest) :=
  expand_eq _ rest (hbefore.parseParts rfl) (hafter.parseParts rfl) (by simp) (by simp) (by omega)
    hbefore.forall_lt hafter.forall_lt

/-- The zone is cut from an address in lower case. -/
theorem groups_append (h : DenotesText spelled value) (hzone : isZone zone = true) :
    groups (spelled ++ zone)
      = (foldTail (spelled.map Char.toLower)).bind fun text => expand (splitOnTwo ':' text) := by
  have hlower : zone.map Char.toLower = [] ∨ ∃ name, zone.map Char.toLower = '%' :: name := by
    rcases isZone_head hzone with rfl | ⟨name, rfl⟩
    · exact .inl rfl
    · exact .inr ⟨name.map Char.toLower, rfl⟩
  rw [groups, List.map_append, (takeWhile_zone h.no_percent.2 hlower).1]

/-- **Every spelling is expanded** to the eight groups of its value. -/
theorem DenotesV6.groups_eq (h : DenotesV6 text value) :
    ∃ values, groups text = some values ∧ values.length = 8 ∧ (∀ group ∈ values, group < 65536)
      ∧ value = ofGroups values := by
  obtain ⟨spelled, zone, rfl, hzone, hspelled⟩ := h
  rw [groups_append hspelled hzone]
  rcases hspelled with ⟨parts, values, hrun, hlength, rfl, rfl⟩
    | ⟨before, after, head, rest, hbefore, hafter, hlength, rfl, rfl⟩
  · obtain ⟨plain, hplain, -, hfold⟩ := hrun.foldTail [] List.not_mem_nil (.inl rfl)
    refine ⟨values, ?_, hlength, hrun.forall_lt, rfl⟩
    rw [List.nil_append, List.nil_append] at hfold
    rw [hfold, Option.bind_some, splitOnTwo_join hplain.no_colon, expand_full hplain hlength]
  · have hlower := hbefore.toLower
    obtain ⟨plain, hplain, -, hfold⟩ := hafter.foldTail
      ([':'].intercalate (before.map (List.map Char.toLower)) ++ [':', ':'])
      (by simpa using hlower.no_dot_text)
      (.inr ⟨[':'].intercalate (before.map (List.map Char.toLower)) ++ [':'], by simp⟩)
    refine ⟨withZeros head rest, ?_, length_withZeros (by omega),
      withZeros_lt hbefore.forall_lt hafter.forall_lt, rfl⟩
    have htext : ([':'].intercalate before ++ ':' :: ':' :: [':'].intercalate after).map Char.toLower
        = [':'].intercalate (before.map (List.map Char.toLower)) ++ [':', ':']
          ++ ([':'].intercalate after).map Char.toLower := by
      rw [List.map_append, map_intercalate, List.append_assoc]
      rfl
    rw [htext, hfold, Option.bind_some, List.append_assoc, List.cons_append, List.singleton_append,
      splitOnTwo_join_two hlower.no_colon hplain.no_colon, expand_halves hlower hplain hlength]

/-! ## The verdict -/

theorem ofGroups_eight (a b c d e f x y : ℕ) :
    ofGroups [a, b, c, d, e, f, x, y]
      = ((((((a * 65536 + b) * 65536 + c) * 65536 + d) * 65536 + e) * 65536 + f) * 65536 + x) * 65536 + y := by
  simp only [ofGroups, List.reverse_cons, List.reverse_nil, List.nil_append, List.cons_append,
    Nat.ofDigits_cons, Nat.ofDigits_nil]
  ring

/-- The groups of a value. -/
theorem ofGroups_inj {values' : List ℕ} (hlength : values.length = values'.length)
    (hlt : ∀ group ∈ values, group < 65536) (hlt' : ∀ group ∈ values', group < 65536)
    (h : ofGroups values = ofGroups values') : values = values' := by
  refine List.reverse_injective (Nat.ofDigits_inj_of_len_eq (b := 65536) (by omega) ?_ ?_ ?_ h)
  · simpa using hlength
  · simpa using hlt
  · simpa using hlt'

/-- **Two spellings of one value** have the same groups. -/
theorem DenotesV6.groups_congr {text' : List Char} (h : DenotesV6 text value)
    (h' : DenotesV6 text' value) : groups text = groups text' := by
  obtain ⟨values, hgroups, hlength, hlt, heq⟩ := h.groups_eq
  obtain ⟨values', hgroups', hlength', hlt', heq'⟩ := h'.groups_eq
  rw [hgroups, hgroups', ofGroups_inj (hlength.trans hlength'.symm) hlt hlt' (heq.symm.trans heq')]

/-- The eight groups of a value. -/
theorem DenotesV6.publicV6_eq (h : DenotesV6 text value) :
    ∃ a b c d e f x y, a < 65536 ∧ b < 65536 ∧ c < 65536 ∧ d < 65536 ∧ e < 65536 ∧ f < 65536 ∧ x < 65536
      ∧ y < 65536 ∧ value = ofGroups [a, b, c, d, e, f, x, y]
      ∧ publicV6 text = publicGroups a b c d e f x y := by
  obtain ⟨values, hgroups, hlength, hlt, rfl⟩ := h.groups_eq
  obtain ⟨a, b, c, d, e, f, x, y, rfl⟩ : ∃ a b c d e f x y, values = [a, b, c, d, e, f, x, y] := by
    match values, hlength with
    | [a, b, c, d, e, f, x, y], _ => exact ⟨a, b, c, d, e, f, x, y, rfl⟩
  simp only [List.forall_mem_cons, List.not_mem_nil, false_implies, implies_true, and_true] at hlt
  obtain ⟨ha, hb, hc, hd, he, hf, hx, hy⟩ := hlt
  refine ⟨a, b, c, d, e, f, x, y, ha, hb, hc, hd, he, hf, hx, hy, rfl, ?_⟩
  rw [publicV6, hgroups]
  rfl

theorem DenotesV6.lt (h : DenotesV6 text value) : value < 2 ^ 128 := by
  obtain ⟨a, b, c, d, e, f, x, y, ha, hb, hc, hd, he, hf, hx, hy, rfl, -⟩ := h.publicV6_eq
  rw [ofGroups_eight]
  omega

theorem publicV4_iff :
    publicV4 text = true ↔ ∀ block ∈ v4NonPublic, ¬ block.Contains (v4 text) := by
  simp only [publicV4, Bool.not_eq_true', List.any_eq_false, decide_eq_true_eq]

/-- **What two groups embed** is the value they make. -/
theorem v4_embeddedV4 (high low : ℕ) : v4 (embeddedV4 high low) = high * 65536 + low := by
  have hmask : ∀ n : ℕ, n &&& 255 = n % 256 := fun n => Nat.and_two_pow_sub_one_eq_mod n 8
  rw [embeddedV4, v4_dotted, hmask, hmask, Nat.shiftRight_eq_div_pow, Nat.shiftRight_eq_div_pow]
  omega

theorem publicV4_embedded {high low : ℕ} (h : value = high * 65536 + low)
    (htext : DenotesV4 text value) : publicV4 (embeddedV4 high low) = publicV4 text := by
  rw [publicV4, publicV4, v4_embeddedV4, htext.v4_eq, h]

/-- An IPv6 value carries an IPv4 value: mapped, compatible, NAT64 or 6to4. -/
def EmbedsV4 (value embedded : ℕ) : Prop :=
  value = 0xffff * 2 ^ 32 + embedded ∨ value = embedded ∨ value = 0x64ff9b * 2 ^ 96 + embedded
    ∨ value / 2 ^ 80 = 0x2002 * 2 ^ 32 + embedded

/-- **A value that carries an IPv4 value** is public only if that is. -/
theorem publicGroups_embedded {a b c d e f x y embedded : ℕ} (ha : a < 65536) (hb : b < 65536)
    (hc : c < 65536) (hd : d < 65536) (he : e < 65536) (hf : f < 65536) (hx : x < 65536) (hy : y < 65536)
    (h : EmbedsV4 (ofGroups [a, b, c, d, e, f, x, y]) embedded)
    (htext : DenotesV4 text embedded) (hpublic : publicV4 text = false) :
    publicGroups a b c d e f x y = false := by
  have hlt := htext.lt
  rw [EmbedsV4, ofGroups_eight] at h
  rcases h with h | h | h | h
  · obtain ⟨rfl, rfl, rfl, rfl, rfl, rfl, hvalue⟩ :
        a = 0 ∧ b = 0 ∧ c = 0 ∧ d = 0 ∧ e = 0 ∧ f = 0xffff ∧ embedded = x * 65536 + y := by omega
    simp [publicGroups, publicV4_embedded hvalue htext, hpublic]
  · obtain ⟨rfl, rfl, rfl, rfl, rfl, rfl⟩ : a = 0 ∧ b = 0 ∧ c = 0 ∧ d = 0 ∧ e = 0 ∧ f = 0 := by omega
    simp [publicGroups]
  · obtain ⟨rfl, rfl, rfl, rfl, rfl, rfl, hvalue⟩ :
        a = 0x64 ∧ b = 0xff9b ∧ c = 0 ∧ d = 0 ∧ e = 0 ∧ f = 0 ∧ embedded = x * 65536 + y := by omega
    simp [publicGroups, publicV4_embedded hvalue htext, hpublic]
  · obtain ⟨rfl, hvalue⟩ : a = 0x2002 ∧ embedded = b * 65536 + c := by omega
    simp [publicGroups, publicV4_embedded hvalue htext, hpublic]

/-- An address with a colon is no IPv4 address. -/
theorem DenotesV6.not_isIPv4 (h : DenotesV6 text value) : ¬ isIPv4 text = true := by
  intro hv4
  obtain ⟨v, hv⟩ := isIPv4_iff.1 hv4
  have hcolon : ':' ∈ text := h.colon_mem
  rcases hv.mem hcolon with heq | hdigit
  · exact absurd heq (by decide)
  · exact absurd hdigit (by decide)

theorem isPublicAddress_v4 (h : DenotesV4 address.toList value) :
    isPublicAddress address = publicV4 address.toList := by
  rw [isPublicAddress, if_pos h.isIPv4]

theorem isPublicAddress_v6 (h : DenotesV6 address.toList value) :
    isPublicAddress address = publicV6 address.toList := by
  rw [isPublicAddress, if_neg h.not_isIPv4, if_pos (isIPv6_iff.2 ⟨value, h⟩)]

/-- **An address is public by its value**: what `isIPv4` and `isIPv6` accept is what denotes a 32-bit or
128-bit value, spellings of one value get one answer, an IPv4 value is public when no block contains it, an
IPv6 value that carries an IPv4 value is not public when that is not, and no other text is public. -/
theorem isPublicAddress_by_value :
    (∀ address : String, (isIPv4 address.toList = true ↔ ∃ value < 2 ^ 32, DenotesV4 address.toList value)
      ∧ (isIPv6 address.toList = true ↔ ∃ value < 2 ^ 128, DenotesV6 address.toList value))
    ∧ (∀ address address' : String, ∀ value, DenotesV4 address.toList value → DenotesV4 address'.toList value →
        isPublicAddress address = isPublicAddress address')
    ∧ (∀ address address' : String, ∀ value, DenotesV6 address.toList value → DenotesV6 address'.toList value →
        isPublicAddress address = isPublicAddress address')
    ∧ (∀ address : String, ∀ value, DenotesV4 address.toList value →
        (isPublicAddress address = true ↔ ∀ block ∈ v4NonPublic, ¬ block.Contains value))
    ∧ (∀ address carried : String, ∀ value embedded, DenotesV6 address.toList value →
        EmbedsV4 value embedded → DenotesV4 carried.toList embedded → isPublicAddress carried = false →
        isPublicAddress address = false)
    ∧ ∀ address : String, (¬ ∃ value, DenotesV4 address.toList value) → (¬ ∃ value, DenotesV6 address.toList value) →
        isPublicAddress address = false := by
  refine ⟨fun address => ⟨?_, ?_⟩, ?_, ?_, ?_, ?_, ?_⟩
  · exact isIPv4_iff.trans ⟨fun ⟨value, h⟩ => ⟨value, h.lt, h⟩, fun ⟨value, _, h⟩ => ⟨value, h⟩⟩
  · exact isIPv6_iff.trans ⟨fun ⟨value, h⟩ => ⟨value, h.lt, h⟩, fun ⟨value, _, h⟩ => ⟨value, h⟩⟩
  · intro address address' value h h'
    rw [isPublicAddress_v4 h, isPublicAddress_v4 h', publicV4, publicV4, h.v4_eq, h'.v4_eq]
  · intro address address' value h h'
    rw [isPublicAddress_v6 h, isPublicAddress_v6 h', publicV6, publicV6, h.groups_congr h']
  · intro address value h
    rw [isPublicAddress_v4 h, publicV4_iff, h.v4_eq]
  · intro address carried value embedded h hembeds hcarried hpublic
    rw [isPublicAddress_v4 hcarried] at hpublic
    obtain ⟨a, b, c, d, e, f, x, y, ha, hb, hc, hd, he, hf, hx, hy, rfl, heq⟩ := h.publicV6_eq
    rw [isPublicAddress_v6 h, heq]
    exact publicGroups_embedded ha hb hc hd he hf hx hy hembeds hcarried hpublic
  · intro address hv4 hv6
    rw [isPublicAddress, if_neg (mt isIPv4_iff.1 hv4), if_neg (mt isIPv6_iff.1 hv6)]

end Falryn.Security
