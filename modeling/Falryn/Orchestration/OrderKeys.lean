import Falryn.Orchestration.WorkHierarchy

/-!
# Order keys

Siblings are ordered by keys: words over the characters from "!" to "~" that do not end in "!", so that
there is room below every key.  `orderKeyBetween` finds a key strictly between two of them, and
`spreadOrderKeys` a row of keys for siblings whose keys ran out of room.
-/

namespace Falryn.Orchestration.WorkQueues

/-! ## Words -/

/-- A character of a key. -/
def InAlphabet (code : ℕ) : Prop := keyMin ≤ code ∧ code ≤ keyMax

instance (code : ℕ) : Decidable (InAlphabet code) := inferInstanceAs (Decidable (_ ∧ _))

/-- The characters of a key. -/
structure IsKey (codes : List ℕ) : Prop where
  ne_nil : codes ≠ []
  alphabet : ∀ code ∈ codes, InAlphabet code
  last : codes.getLast? ≠ some keyMin

section
variable {code : ℕ} {codes low high : List ℕ}

theorem isKey_singleton (h : InAlphabet code) (hne : code ≠ keyMin) : IsKey [code] where
  ne_nil := List.cons_ne_nil _ _
  alphabet := List.forall_mem_singleton.2 h
  last := by simpa using hne

theorem IsKey.cons (h : IsKey codes) (hcode : InAlphabet code) : IsKey (code :: codes) where
  ne_nil := List.cons_ne_nil _ _
  alphabet := List.forall_mem_cons.2 ⟨hcode, h.alphabet⟩
  last := by
    obtain ⟨next, rest, rfl⟩ := List.exists_cons_of_ne_nil h.ne_nil
    rw [List.getLast?_cons_cons]
    exact h.last

/-- The key in the middle of the alphabet. -/
theorem isKey_middle : IsKey [(keyMin + keyMax) / 2] :=
  isKey_singleton (by decide) (by decide)

/-- What is above a word stays above it behind a common character. -/
theorem cons_lt_cons_self (h : low < high) : code :: low < code :: high :=
  List.cons_lt_cons_iff.2 (.inr ⟨rfl, h⟩)

theorem cons_lt_cons_of_lt {code' : ℕ} (h : code < code') : code :: low < code' :: high :=
  List.cons_lt_cons_iff.2 (.inl h)

/-- **The loop of `orderKeyBetween` finds a key between two words.** -/
theorem orderKeyLoop_between : ∀ {fuel : ℕ} {low high : List ℕ}, low.length + high.length < fuel →
    (∀ code ∈ low, InAlphabet code) → (∀ code ∈ high, InAlphabet code) →
    high.getLast? ≠ some keyMin → (high = [] ∨ low < high) →
    low < orderKeyLoop fuel low high ∧ (high = [] ∨ orderKeyLoop fuel low high < high) ∧
      IsKey (orderKeyLoop fuel low high) := by
  intro fuel
  induction fuel with
  | zero => exact fun h => absurd h (Nat.not_lt_zero _)
  | succ fuel ih =>
    intro low high hfuel hlow hhigh hlast hlt
    rw [orderKeyLoop]
    dsimp only
    rcases low with _ | ⟨a, low⟩
    · rcases high with _ | ⟨b, high⟩
      · exact ⟨List.nil_lt_cons _ _, .inl rfl, isKey_middle⟩
      · obtain ⟨hb, hupper⟩ := List.forall_mem_cons.1 hhigh
        have hb' : 33 ≤ b ∧ b ≤ 126 := hb
        rw [List.head?_nil, List.head?_cons, Option.getD_none, Option.getD_some, keyMin,
          if_neg (by omega)]
        by_cases hgap : 33 - 1 + 1 < b
        · rw [if_pos hgap]
          split_ifs with hmiddle
          · refine ⟨List.nil_lt_cons _ _, .inr (cons_lt_cons_of_lt (by omega)), ?_⟩
            exact isKey_middle.cons (by decide)
          · refine ⟨List.nil_lt_cons _ _, .inr (cons_lt_cons_of_lt (by omega)), ?_⟩
            exact isKey_singleton (show 33 ≤ _ ∧ _ ≤ 126 by omega) hmiddle
        · -- The upper key begins with the lowest character, and so goes on.
          have hb33 : b = keyMin := by rw [keyMin]; omega
          subst hb33
          rw [if_neg hgap, if_pos rfl, List.tail_nil, List.tail_cons]
          have hne : high ≠ [] := by
            rintro rfl
            exact hlast rfl
          obtain ⟨next, rest, rfl⟩ := List.exists_cons_of_ne_nil hne
          rw [List.getLast?_cons_cons] at hlast
          rw [List.length_nil, List.length_cons] at hfuel
          obtain ⟨-, hbelow, hkey⟩ := @ih [] (next :: rest) (by rw [List.length_nil]; omega) hlow hupper
            hlast (.inr (List.nil_lt_cons _ _))
          exact ⟨List.nil_lt_cons _ _, .inr (cons_lt_cons_self (hbelow.resolve_left hne)),
            hkey.cons hb⟩
    · obtain ⟨ha, hlow⟩ := List.forall_mem_cons.1 hlow
      have ha' : 33 ≤ a ∧ a ≤ 126 := ha
      -- Once the result is below the upper key, that key is out of the way.
      have hfollow : (low.length < fuel) → low < orderKeyLoop fuel low [] ∧
          IsKey (orderKeyLoop fuel low []) := fun hlength => by
        obtain ⟨habove, -, hkey⟩ := @ih low [] hlength hlow nofun
          (by simp) (.inl rfl)
        exact ⟨habove, hkey⟩
      rw [List.length_cons] at hfuel
      rcases high with _ | ⟨b, high⟩
      · rw [List.length_nil] at hfuel
        rw [List.head?_nil, List.head?_cons, Option.getD_none, Option.getD_some, keyMin, keyMax,
          if_neg (by omega)]
        by_cases hgap : a + 1 < 126 + 1
        · rw [if_pos hgap, if_neg (by omega)]
          exact ⟨cons_lt_cons_of_lt (by omega), .inl rfl,
            isKey_singleton (show 33 ≤ _ ∧ _ ≤ 126 by omega) (by rw [keyMin]; omega)⟩
        · rw [if_neg hgap, if_neg (by omega), List.tail_cons]
          obtain ⟨habove, hkey⟩ := hfollow (by omega)
          exact ⟨cons_lt_cons_self habove, .inl rfl, hkey.cons ha⟩
      · obtain ⟨hb, hupper⟩ := List.forall_mem_cons.1 hhigh
        have hb' : 33 ≤ b ∧ b ≤ 126 := hb
        rw [List.length_cons] at hfuel
        have hcases := List.cons_lt_cons_iff.1 (hlt.resolve_left (List.cons_ne_nil _ _))
        rw [List.head?_cons, List.head?_cons, Option.getD_some, Option.getD_some, keyMin, keyMax]
        rcases hcases with hab | ⟨rfl, hrest⟩
        · rw [if_neg (by omega)]
          by_cases hgap : a + 1 < b
          · rw [if_pos hgap, if_neg (by omega)]
            exact ⟨cons_lt_cons_of_lt (by omega), .inr (cons_lt_cons_of_lt (by omega)),
              isKey_singleton (show 33 ≤ _ ∧ _ ≤ 126 by omega) (by rw [keyMin]; omega)⟩
          · rw [if_neg hgap, if_neg (by omega), List.tail_cons]
            obtain ⟨habove, hkey⟩ := hfollow (by omega)
            exact ⟨cons_lt_cons_self habove, .inr (cons_lt_cons_of_lt hab), hkey.cons ha⟩
        · rw [if_pos rfl, List.tail_cons, List.tail_cons]
          have hne : high ≠ [] := by
            rintro rfl
            exact absurd hrest (List.not_lt_nil _)
          obtain ⟨next, rest, rfl⟩ := List.exists_cons_of_ne_nil hne
          rw [List.getLast?_cons_cons] at hlast
          obtain ⟨habove, hbelow, hkey⟩ := @ih low (next :: rest) (by omega) hlow hupper hlast
            (.inr hrest)
          exact ⟨cons_lt_cons_self habove, .inr (cons_lt_cons_self (hbelow.resolve_left hne)),
            hkey.cons ha⟩

end

/-! ## Keys -/

/-- A key of a sibling. -/
def OrderKey (key : String) : Prop := IsKey (key.toList.map Char.toNat)

theorem map_toNat_lt_iff : ∀ {l l' : List Char}, l.map Char.toNat < l'.map Char.toNat ↔ l < l' := by
  intro l
  induction l with
  | nil =>
    intro l'
    cases l' with
    | nil => simp
    | cons c l' => simp
  | cons c l ih =>
    intro l'
    cases l' with
    | nil => simp
    | cons _ l' =>
      rw [List.map_cons, List.map_cons, List.cons_lt_cons_iff, List.cons_lt_cons_iff, ih,
        Char.toNat_inj]
      exact Iff.rfl

variable {key : String} {codes : List ℕ} {low high : Option String}

theorem lt_iff_codes_lt {key' : String} :
    key < key' ↔ key.toList.map Char.toNat < key'.toList.map Char.toNat := by
  rw [String.lt_iff_toList_lt, map_toNat_lt_iff]

theorem char_toNat_ofNat {code : ℕ} (h : code < 0xd800) : (Char.ofNat code).toNat = code := by
  have hvalid : code.isValidChar := .inl h
  rw [Char.ofNat, dif_pos hvalid]
  rfl

/-- The characters of a key made of characters. -/
theorem codes_keyOfCodes (h : ∀ code ∈ codes, InAlphabet code) :
    (keyOfCodes codes).toList.map Char.toNat = codes := by
  rw [keyOfCodes, String.toList_ofList, List.map_map]
  refine (List.map_congr_left fun code hcode => ?_).trans (List.map_id _)
  have hrange : 33 ≤ code ∧ code ≤ 126 := h code hcode
  exact char_toNat_ofNat (by omega)

theorem orderKey_keyOfCodes (h : IsKey codes) : OrderKey (keyOfCodes codes) := by
  rw [OrderKey, codes_keyOfCodes h.alphabet]
  exact h

/-- **A key strictly between two keys**, either of which may be absent. -/
theorem orderKeyBetween_spec (hlow : ∀ key ∈ low, OrderKey key)
    (hhigh : ∀ key ∈ high, OrderKey key) (hlt : ∀ key ∈ low, ∀ key' ∈ high, key < key') :
    OrderKey (orderKeyBetween low high) ∧ (∀ key ∈ low, key < orderKeyBetween low high) ∧
      ∀ key ∈ high, orderKeyBetween low high < key := by
  have hlow' : ∀ code ∈ keyCodes low, InAlphabet code := by
    rcases low with _ | low
    · nofun
    · exact (hlow low rfl).alphabet
  have hhigh' : ∀ code ∈ keyCodes high, InAlphabet code := by
    rcases high with _ | high
    · nofun
    · exact (hhigh high rfl).alphabet
  have hlast : (keyCodes high).getLast? ≠ some keyMin := by
    rcases high with _ | high
    · nofun
    · exact (hhigh high rfl).last
  have hlt' : keyCodes high = [] ∨ keyCodes low < keyCodes high := by
    rcases high with _ | high
    · exact .inl rfl
    · rcases low with _ | low
      · obtain ⟨code, codes, hcodes⟩ := List.exists_cons_of_ne_nil (hhigh high rfl).ne_nil
        right
        rw [show keyCodes (some high) = code :: codes from hcodes]
        exact List.nil_lt_cons _ _
      · exact .inr (lt_iff_codes_lt.1 (hlt low rfl high rfl))
  obtain ⟨habove, hbelow, hkey⟩ := orderKeyLoop_between
    (Nat.lt_succ_self ((keyCodes low).length + (keyCodes high).length)) hlow' hhigh' hlast hlt'
  refine ⟨orderKey_keyOfCodes hkey, ?_, ?_⟩
  · rintro key ⟨⟩
    rw [lt_iff_codes_lt, orderKeyBetween, codes_keyOfCodes hkey.alphabet]
    exact habove
  · rintro key ⟨⟩
    rw [lt_iff_codes_lt, orderKeyBetween, codes_keyOfCodes hkey.alphabet]
    exact hbelow.resolve_left (hhigh key rfl).ne_nil

/-! ## The loop comes to an end -/

/-- The loop of `orderKeyBetween` where running out of fuel is an answer of its own. -/
def orderKeySearch : ℕ → List ℕ → List ℕ → Option (List ℕ)
  | 0, _, _ => none
  | fuel + 1, low, high =>
    let a := low.head?.getD (keyMin - 1)
    let b := high.head?.getD (keyMax + 1)
    if a = b then (orderKeySearch fuel low.tail high.tail).map (a :: ·)
    else if a + 1 < b then
      let middle := (a + b) / 2
      some (if middle = keyMin then [keyMin, (keyMin + keyMax) / 2] else [middle])
    else if a = keyMin - 1 then (orderKeySearch fuel low.tail high.tail).map (b :: ·)
    else (orderKeySearch fuel low.tail []).map (a :: ·)

/-- `orderKeyBetween` with its refusal, as long as the fuel lasts. -/
def orderKeyBetweenWithin (fuel : ℕ) (low high : Option String) : Option (Except String String) :=
  if ∃ l ∈ low, ∃ h ∈ high, h ≤ l then some (.error "order-key-range")
  else (orderKeySearch fuel (keyCodes low) (keyCodes high)).map fun codes => .ok (keyOfCodes codes)

/-- **The loop ends** within the lengths of both keys, and no fuel is short of that. -/
theorem orderKeySearch_eq : ∀ {fuel fuel' : ℕ} {low high : List ℕ}, low.length + high.length < fuel →
    low.length + high.length < fuel' →
    orderKeySearch fuel low high = some (orderKeyLoop fuel' low high) := by
  intro fuel
  induction fuel with
  | zero => exact fun h => absurd h (Nat.not_lt_zero _)
  | succ fuel ih =>
    intro fuel' low high _ hfuel'
    obtain ⟨fuel', rfl⟩ := Nat.exists_eq_succ_of_ne_zero (Nat.ne_zero_of_lt hfuel')
    -- Two keys that are both used up leave a gap, so that what goes on is shorter.
    have hshorter : ¬ low.head?.getD (keyMin - 1) + 1 < high.head?.getD (keyMax + 1) →
        low.tail.length + high.tail.length < low.length + high.length := by
      intro hgap
      rw [List.length_tail, List.length_tail]
      rcases low with _ | ⟨a, low⟩
      · rcases high with _ | ⟨b, high⟩
        · exact absurd (by decide) hgap
        · rw [List.length_nil, List.length_cons]
          omega
      · rw [List.length_cons]
        omega
    rw [orderKeySearch, orderKeyLoop]
    dsimp only
    by_cases hsame : low.head?.getD (keyMin - 1) = high.head?.getD (keyMax + 1)
    · have := hshorter (by omega)
      rw [if_pos hsame, if_pos hsame, @ih fuel' _ _ (by omega) (by omega), Option.map_some]
    rw [if_neg hsame, if_neg hsame]
    by_cases hgap : low.head?.getD (keyMin - 1) + 1 < high.head?.getD (keyMax + 1)
    · rw [if_pos hgap, if_pos hgap]
    have := hshorter hgap
    rw [if_neg hgap, if_neg hgap]
    by_cases hbelow : low.head?.getD (keyMin - 1) = keyMin - 1
    · rw [if_pos hbelow, if_pos hbelow, @ih fuel' _ _ (by omega) (by omega), Option.map_some]
    · have hlow : low.tail.length < low.length := by
        rcases low with _ | ⟨a, low⟩
        · exact absurd rfl hbelow
        · exact Nat.lt_succ_self _
      have hnil : low.tail.length + ([] : List ℕ).length < low.length + high.length := by
        rw [List.length_nil]
        omega
      rw [if_neg hbelow, if_neg hbelow, @ih fuel' _ _ (by omega) (by omega), Option.map_some]

/-! ## Spread keys -/

/-- The number of characters of a key. -/
def keyBase : ℕ := keyMax - keyMin + 1

/-- The width at which keys are spread leaves two values for each. -/
theorem spreadWidth_room (count : ℕ) :
    (count + 1) * 2 < keyBase ^ spreadWidth count (count + 1) 1 ∧
      1 ≤ spreadWidth count (count + 1) 1 := by
  suffices h : ∀ fuel width, 1 ≤ width → (count + 1) * 2 < keyBase ^ (width + fuel) →
      (count + 1) * 2 < keyBase ^ spreadWidth count fuel width ∧ 1 ≤ spreadWidth count fuel width by
    refine h _ _ le_rfl ?_
    have hpow : count + 1 < keyBase ^ (count + 1) := Nat.lt_pow_self (by decide)
    rw [Nat.pow_add, pow_one]
    have hbase : keyBase = 94 := rfl
    rw [hbase] at hpow ⊢
    omega
  intro fuel
  induction fuel with
  | zero => exact fun width hpos h => ⟨h, hpos⟩
  | succ fuel ih =>
    intro width hpos h
    rw [spreadWidth]
    split_ifs with hnarrow
    · exact ih (width + 1) (by omega) (by rwa [show width + 1 + fuel = width + (fuel + 1) by omega])
    · exact ⟨not_le.1 hnarrow, hpos⟩

theorem length_keyDigits (width value : ℕ) : (keyDigits width value).length = width := by
  induction width generalizing value with
  | zero => rfl
  | succ width ih => rw [keyDigits, List.length_append, ih, List.length_singleton]

theorem inAlphabet_digit (value : ℕ) : InAlphabet (value % keyBase + keyMin) := by
  have hlt : value % 94 < 94 := Nat.mod_lt _ (by decide)
  exact ⟨Nat.le_add_left _ _, show value % 94 + 33 ≤ 126 by omega⟩

theorem inAlphabet_keyDigits (width value : ℕ) :
    ∀ code ∈ keyDigits width value, InAlphabet code := by
  induction width generalizing value with
  | zero => nofun
  | succ width ih =>
    rw [keyDigits]
    exact List.forall_mem_append.2 ⟨ih _, List.forall_mem_singleton.2 (inAlphabet_digit value)⟩

/-- Words of one length are compared before what follows them. -/
theorem append_lt_append {low high : List ℕ} (hlength : low.length = high.length) (hlt : low < high)
    (tail tail' : List ℕ) : low ++ tail < high ++ tail' := by
  induction low generalizing high with
  | nil =>
    rw [List.eq_nil_of_length_eq_zero hlength.symm] at hlt
    exact absurd hlt (List.not_lt_nil _)
  | cons _ low ih =>
    rcases high with _ | ⟨b, high⟩
    · cases hlength
    · rcases List.cons_lt_cons_iff.1 hlt with hab | ⟨rfl, hrest⟩
      · exact cons_lt_cons_of_lt hab
      · exact cons_lt_cons_self (ih (Nat.succ.inj hlength) hrest)

/-- The digits of a larger number are larger. -/
theorem keyDigits_lt {width value value' : ℕ} (hlt : value < value') (hfits : value' < keyBase ^ width) :
    keyDigits width value < keyDigits width value' := by
  induction width generalizing value value' with
  | zero =>
    rw [pow_zero] at hfits
    omega
  | succ width ih =>
    rw [keyDigits, keyDigits]
    have hquotient : value' / keyBase < keyBase ^ width :=
      Nat.div_lt_of_lt_mul (by rwa [← Nat.pow_succ'])
    rcases (Nat.div_le_div_right hlt.le : value / keyBase ≤ value' / keyBase).lt_or_eq with hless | heq
    · exact append_lt_append (by rw [length_keyDigits, length_keyDigits]) (ih hless hquotient) _ _
    · rw [show value / (keyMax - keyMin + 1) = value' / (keyMax - keyMin + 1) from heq]
      refine List.append_left_lt (cons_lt_cons_of_lt ?_)
      have hvalue := Nat.div_add_mod value keyBase
      have hvalue' := Nat.div_add_mod value' keyBase
      rw [← heq] at hvalue'
      change value % keyBase + keyMin < value' % keyBase + keyMin
      omega

/-- The key of one of so many siblings. -/
def spreadCodes (count index : ℕ) : List ℕ :=
  let digits := keyDigits (spreadWidth count (count + 1) 1)
    ((index + 1) * keyBase ^ spreadWidth count (count + 1) 1 / (count + 1))
  if digits.getLast? = some keyMin then digits ++ [(keyMin + keyMax) / 2] else digits

theorem spreadOrderKeys_eq (count : ℕ) :
    spreadOrderKeys count = (List.range count).map fun index => keyOfCodes (spreadCodes count index) :=
  rfl

theorem isKey_spreadCodes (count index : ℕ) : IsKey (spreadCodes count index) := by
  unfold spreadCodes
  dsimp only
  split_ifs with hlast
  · refine ⟨by simp, ?_, by simp [keyMin, keyMax]⟩
    exact List.forall_mem_append.2 ⟨inAlphabet_keyDigits _ _, isKey_middle.alphabet⟩
  · refine ⟨fun hnil => ?_, inAlphabet_keyDigits _ _, hlast⟩
    have hwidth := congrArg List.length hnil
    rw [length_keyDigits, List.length_nil] at hwidth
    exact absurd (spreadWidth_room count).2 (by omega)

variable {count : ℕ} {index : ℕ}

theorem spreadCodes_lt {index' : ℕ} (hlt : index < index') (hindex : index' < count) :
    spreadCodes count index < spreadCodes count index' := by
  have hroom := (spreadWidth_room count).1
  set width := spreadWidth count (count + 1) 1 with hwidth
  have hdigits : keyDigits width ((index + 1) * keyBase ^ width / (count + 1)) <
      keyDigits width ((index' + 1) * keyBase ^ width / (count + 1)) := by
    refine keyDigits_lt ?_ (Nat.div_lt_of_lt_mul ?_)
    · rw [← Nat.succ_le_iff, Nat.le_div_iff_mul_le (Nat.succ_pos _), Nat.succ_mul]
      calc (index + 1) * keyBase ^ width / (count + 1) * (count + 1) + (count + 1)
          ≤ (index + 1) * keyBase ^ width + keyBase ^ width :=
            Nat.add_le_add (Nat.div_mul_le_self _ _) (by omega)
        _ = (index + 1 + 1) * keyBase ^ width := (Nat.succ_mul _ _).symm
        _ ≤ (index' + 1) * keyBase ^ width := Nat.mul_le_mul_right _ (by omega)
    · exact Nat.mul_lt_mul_of_pos_right (by omega) (Nat.pow_pos (by decide))
  have hlength : (keyDigits width ((index + 1) * keyBase ^ width / (count + 1))).length =
      (keyDigits width ((index' + 1) * keyBase ^ width / (count + 1))).length := by
    rw [length_keyDigits, length_keyDigits]
  unfold spreadCodes
  dsimp only
  rw [← hwidth]
  split_ifs
  · exact append_lt_append hlength hdigits _ _
  · simpa using append_lt_append hlength hdigits [(keyMin + keyMax) / 2] []
  · simpa using append_lt_append hlength hdigits [] [(keyMin + keyMax) / 2]
  · exact hdigits

theorem length_spreadOrderKeys (count : ℕ) : (spreadOrderKeys count).length = count := by
  rw [spreadOrderKeys_eq, List.length_map, List.length_range]

theorem getElem?_spreadOrderKeys (h : index < count) :
    (spreadOrderKeys count)[index]? = some (keyOfCodes (spreadCodes count index)) := by
  rw [spreadOrderKeys_eq, List.getElem?_map, List.getElem?_range h, Option.map_some]

/-- **Spread keys are keys.** -/
theorem orderKey_of_mem_spread (h : key ∈ spreadOrderKeys count) : OrderKey key := by
  rw [spreadOrderKeys_eq] at h
  obtain ⟨index, -, rfl⟩ := List.mem_map.1 h
  exact orderKey_keyOfCodes (isKey_spreadCodes count index)

/-- **Spread keys ascend.** -/
theorem pairwise_spreadOrderKeys (count : ℕ) : (spreadOrderKeys count).Pairwise (· < ·) := by
  rw [spreadOrderKeys_eq, List.pairwise_map]
  refine List.pairwise_lt_range.imp_of_mem fun {index index'} _ hmem hlt => ?_
  rw [lt_iff_codes_lt, codes_keyOfCodes (isKey_spreadCodes count index).alphabet,
    codes_keyOfCodes (isKey_spreadCodes count index').alphabet]
  exact spreadCodes_lt hlt (List.mem_range.1 hmem)

/-! ## Dense and strict -/

/-- A word over the characters of a key that does not end in the lowest one.  It may be empty. -/
def KeyText (text : String) : Prop :=
  (∀ code ∈ text.toList.map Char.toNat, InAlphabet code)
    ∧ (text.toList.map Char.toNat).getLast? ≠ some keyMin

instance (text : String) : Decidable (KeyText text) := inferInstanceAs (Decidable (_ ∧ _))

theorem OrderKey.keyText (h : OrderKey key) : KeyText key := ⟨h.alphabet, h.last⟩

/-- What `orderKeyBetween` is to give for two words, either of which may be absent. -/
def Between (low high : Option String) : Prop :=
  ∃ key, (∀ fuel, (keyCodes low).length + (keyCodes high).length < fuel →
      orderKeyBetweenWithin fuel low high = some (.ok key))
    ∧ KeyText key ∧ (∀ l ∈ low, l < key) ∧ ∀ h ∈ high, key < h

/-- What `spreadOrderKeys` is to give. -/
def Spreads (count : ℕ) : Prop :=
  (spreadOrderKeys count).length = count ∧ (spreadOrderKeys count).Pairwise (· < ·)
    ∧ ∀ key ∈ spreadOrderKeys count, KeyText key

/-- **Between two words there is a key**, unless the upper one is empty. -/
theorem between_of_ne_empty (hlow : ∀ l ∈ low, KeyText l)
    (hhigh : ∀ h ∈ high, KeyText h) (hne : high ≠ some "") (hlt : ∀ l ∈ low, ∀ h ∈ high, l < h) :
    Between low high := by
  have hlow' : ∀ code ∈ keyCodes low, InAlphabet code := by
    rcases low with _ | low
    · nofun
    · exact (hlow low rfl).1
  have hhigh' : ∀ code ∈ keyCodes high, InAlphabet code := by
    rcases high with _ | high
    · nofun
    · exact (hhigh high rfl).1
  have hlast : (keyCodes high).getLast? ≠ some keyMin := by
    rcases high with _ | high
    · nofun
    · exact (hhigh high rfl).2
  have hempty : ∀ h ∈ high, keyCodes high ≠ [] := by
    rintro h ⟨⟩ hnil
    exact hne (congrArg some (String.toList_eq_nil_iff.1 (List.map_eq_nil_iff.1 hnil)))
  have hlt' : keyCodes high = [] ∨ keyCodes low < keyCodes high := by
    rcases high with _ | high
    · exact .inl rfl
    · rcases low with _ | low
      · obtain ⟨code, codes, hcodes⟩ := List.exists_cons_of_ne_nil (hempty high rfl)
        right
        rw [hcodes]
        exact List.nil_lt_cons _ _
      · exact .inr (lt_iff_codes_lt.1 (hlt low rfl high rfl))
  have hfuel := Nat.lt_succ_self ((keyCodes low).length + (keyCodes high).length)
  obtain ⟨habove, hbelow, hkey⟩ := orderKeyLoop_between hfuel hlow' hhigh' hlast hlt'
  refine ⟨orderKeyBetween low high, fun _ hlong => ?_, (orderKey_keyOfCodes hkey).keyText, ?_, ?_⟩
  · rw [orderKeyBetweenWithin, if_neg, orderKeySearch_eq hlong hfuel, Option.map_some]
    · rfl
    · rintro ⟨l, hl, h, hh, hle⟩
      exact absurd (hlt l hl h hh) (not_lt.2 hle)
  · rintro key ⟨⟩
    rw [lt_iff_codes_lt, orderKeyBetween, codes_keyOfCodes hkey.alphabet]
    exact habove
  · rintro key ⟨⟩
    rw [lt_iff_codes_lt, orderKeyBetween, codes_keyOfCodes hkey.alphabet]
    exact hbelow.resolve_left (hempty key rfl)

theorem spreads (count : ℕ) : Spreads count :=
  ⟨length_spreadOrderKeys count, pairwise_spreadOrderKeys count,
    fun _ hkey => (orderKey_of_mem_spread hkey).keyText⟩

/-- **Order keys are dense and strict.**  Between words in order, the upper one not empty, there is a key,
and the keys of siblings that are spread ascend. -/
theorem order_keys_dense_and_strict (low high : Option String) (count : ℕ)
    (hlow : ∀ l ∈ low, KeyText l) (hhigh : ∀ h ∈ high, KeyText h) (hne : high ≠ some "")
    (hlt : ∀ l ∈ low, ∀ h ∈ high, l < h) : Between low high ∧ Spreads count :=
  ⟨between_of_ne_empty hlow hhigh hne hlt, spreads count⟩

/-- A key between "a" and "a!b". -/
theorem order_keys_dense_and_strict_close : Between (some "a") (some "a!b") ∧ Spreads 3 :=
  order_keys_dense_and_strict (some "a") (some "a!b") 3
    (by rintro _ ⟨⟩; decide) (by rintro _ ⟨⟩; decide) (by decide)
    (by rintro _ ⟨⟩ _ ⟨⟩; decide)

/-- Nothing is below the empty word, and there `orderKeyBetween` gives "O". -/
theorem not_between_empty : KeyText "" ∧ ¬ Between none (some "") := by
  refine ⟨by decide, ?_⟩
  rintro ⟨key, -, -, -, hbelow⟩
  have hlt := lt_iff_codes_lt.1 (hbelow "" rfl)
  exact absurd hlt (List.not_lt_nil _)

end Falryn.Orchestration.WorkQueues
