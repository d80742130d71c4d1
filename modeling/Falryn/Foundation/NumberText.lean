import Falryn.Foundation.CodeUnits

/-!
# Numbers read from texts

`Number(text)` for a text: the literals it accepts, their exact value and the number nearest to it.
What a caller asks of the answer is whether it is a safe integer, so `NaN` and the infinities are left
out together.
-/

namespace Falryn

/-- The nearest integer, the even one of two. -/
def roundHalfEven (q : ℚ) : ℤ :=
  if 1 / 2 < q - ⌊q⌋ ∨ (q - ⌊q⌋ = 1 / 2 ∧ ⌊q⌋ % 2 = 1) then ⌊q⌋ + 1 else ⌊q⌋

/-- The distance between the numbers around a value. -/
def numberUnit (q : ℚ) : ℚ := 2 ^ max (Int.log 2 |q| - 52) (-1074)

/-- The number nearest to a value. -/
def nearest (q : ℚ) : ℚ := roundHalfEven (q / numberUnit q) * numberUnit q

/-- A decimal digit. -/
def IsDigit (u : UInt16) : Prop := 0x30 ≤ u ∧ u ≤ 0x39

instance (u : UInt16) : Decidable (IsDigit u) := by
  unfold IsDigit
  infer_instance

/-- The value of a digit in the bases up to sixteen. -/
def digitValue (u : UInt16) : ℕ :=
  if IsDigit u then u.toNat - 0x30
  else if 0x61 ≤ u ∧ u ≤ 0x66 then u.toNat - 0x61 + 10
  else if 0x41 ≤ u ∧ u ≤ 0x46 then u.toNat - 0x41 + 10
  else 16

/-- What digits of a base, if they are such, are the value of. -/
def digitsValue (base : ℕ) (text : CodeUnits) : Option ℕ :=
  if text.all fun u => digitValue u < base then
    some (text.foldl (fun value u => base * value + digitValue u) 0)
  else none

/-- One or more digits of a base. -/
def integerLiteral (base : ℕ) (text : CodeUnits) : Option ℕ :=
  if text = [] then none else digitsValue base text

/-- The exponent of a decimal literal: digits after an optional sign. -/
def exponentLiteral : CodeUnits → Option ℤ
  | 0x2d :: digits => (integerLiteral 10 digits).map fun (n : ℕ) => -(n : ℤ)
  | 0x2b :: digits => (integerLiteral 10 digits).map Int.ofNat
  | digits => (integerLiteral 10 digits).map Int.ofNat

/-- Digits with an optional point, at least one of them. -/
def mantissaLiteral (text : CodeUnits) : Option ℚ :=
  let whole := text.takeWhile (· ≠ 0x2e)
  let fraction := (text.dropWhile (· ≠ 0x2e)).drop 1
  if whole = [] ∧ fraction = [] then none
  else (digitsValue 10 (whole ++ fraction)).map fun (n : ℕ) => (n : ℚ) / 10 ^ fraction.length

/-- A decimal literal without a sign. -/
def decimalLiteral (text : CodeUnits) : Option ℚ :=
  match text.dropWhile fun u => u ≠ 0x65 ∧ u ≠ 0x45 with
  | [] => mantissaLiteral text
  | _ :: exponent => do
    let mantissa ← mantissaLiteral (text.takeWhile fun u => u ≠ 0x65 ∧ u ≠ 0x45)
    let power ← exponentLiteral exponent
    return mantissa * 10 ^ power

/-- The value of a trimmed text, if it is the literal of a finite one. -/
def literalValue : CodeUnits → Option ℚ
  | [] => some 0
  | 0x30 :: 0x78 :: digits | 0x30 :: 0x58 :: digits => (integerLiteral 16 digits).map fun (n : ℕ) => (n : ℚ)
  | 0x30 :: 0x6f :: digits | 0x30 :: 0x4f :: digits => (integerLiteral 8 digits).map fun (n : ℕ) => (n : ℚ)
  | 0x30 :: 0x62 :: digits | 0x30 :: 0x42 :: digits => (integerLiteral 2 digits).map fun (n : ℕ) => (n : ℚ)
  | 0x2d :: decimal => (decimalLiteral decimal).map fun q => -q
  | 0x2b :: decimal => decimalLiteral decimal
  | decimal => decimalLiteral decimal

/-- `Number(text)`, where that is a safe integer. -/
def safeIntegerOf (text : CodeUnits) : Option ℤ :=
  (literalValue (trim text)).bind fun q =>
    if (nearest q).den = 1 ∧ |(nearest q).num| ≤ 2 ^ 53 - 1 then some (nearest q).num else none

/-- The digits of a natural number. -/
def decimal (n : ℕ) : CodeUnits := (Nat.toDigits 10 n).flatMap charUnits

/-! ## Reading digits back -/

theorem roundHalfEven_intCast (n : ℤ) : roundHalfEven n = n := by
  rw [roundHalfEven, Int.floor_intCast, sub_self]
  norm_num

variable {n : ℕ}

/-- A safe integer is a number. -/
theorem nearest_natCast (h : n < 2 ^ 53) : nearest n = n := by
  rcases Nat.eq_zero_or_pos n with rfl | hpos
  · rw [nearest, Nat.cast_zero, zero_div, ← Int.cast_zero, roundHalfEven_intCast, Int.cast_zero, zero_mul]
  · have hlog : Int.log 2 |(n : ℚ)| ≤ 52 := by
      rw [Nat.abs_cast, Int.log_natCast]
      have := Nat.log_lt_of_lt_pow hpos.ne' h
      omega
    obtain ⟨k, hk⟩ : ∃ k : ℕ, numberUnit n = ((2 ^ k : ℕ) : ℚ)⁻¹ := by
      refine ⟨(-max (Int.log 2 |(n : ℚ)| - 52) (-1074)).toNat, ?_⟩
      rw [numberUnit, Nat.cast_pow, ← zpow_natCast, ← zpow_neg, Int.toNat_of_nonneg (by omega), neg_neg,
        Nat.cast_ofNat]
    have hmul : (n : ℚ) / numberUnit n = ((n * 2 ^ k : ℤ) : ℚ) := by
      rw [hk, div_inv_eq_mul]
      push_cast
      rfl
    rw [nearest, hmul, roundHalfEven_intCast, ← hmul, div_mul_cancel₀]
    rw [hk]
    positivity

variable {u : UInt16}

theorem IsDigit.toNat_le (h : IsDigit u) : 0x30 ≤ u.toNat ∧ u.toNat ≤ 0x39 :=
  ⟨UInt16.le_iff_toNat_le.1 h.1, UInt16.le_iff_toNat_le.1 h.2⟩

theorem IsDigit.ne {v : UInt16} (h : IsDigit u) (hv : v.toNat < 0x30 ∨ 0x39 < v.toNat) : u ≠ v := by
  rintro rfl
  have := h.toNat_le
  omega

theorem IsDigit.digitValue_lt (h : IsDigit u) : digitValue u < 10 := by
  have := h.toNat_le
  rw [digitValue, if_pos h]
  omega

theorem IsDigit.not_isBlank (h : IsDigit u) : isBlank u = false := by
  rw [isBlank, Bool.or_eq_false_iff, Bool.eq_false_iff, Bool.eq_false_iff]
  refine ⟨fun hmem => ?_, fun hspace => ?_⟩
  · simp only [List.contains_eq_mem, decide_eq_true_eq, List.mem_cons, List.not_mem_nil, or_false] at hmem
    rcases hmem with hu | hu | hu | hu | hu | hu | hu | hu | hu | hu | hu | hu | hu | hu <;>
      exact h.ne (by decide) hu
  · have hle := h.toNat_le
    rw [Bool.and_eq_true, decide_eq_true_eq, UInt16.le_iff_toNat_le] at hspace
    have : (0x2000 : UInt16).toNat = 0x2000 := rfl
    omega

variable {text : CodeUnits}

theorem trim_of_digits (h : ∀ u ∈ text, IsDigit u) : trim text = text := by
  have hdrop : text.dropWhile isBlank = text := by
    cases text with
    | nil => rfl
    | cons u text => exact List.dropWhile_cons_of_neg (by rw [(h u List.mem_cons_self).not_isBlank]; decide)
  rw [trim, hdrop, List.rdropWhile_eq_self_iff]
  intro hne
  rw [(h _ (List.getLast_mem hne)).not_isBlank]
  decide

theorem decimalLiteral_digits (hne : text ≠ []) (h : ∀ u ∈ text, IsDigit u) : decimalLiteral text
      = some ((text.foldl (fun value u => 10 * value + digitValue u) 0 : ℕ) : ℚ) := by
  have hexponent : text.dropWhile (fun u => u ≠ 0x65 ∧ u ≠ 0x45) = [] := by
    rw [List.dropWhile_eq_nil_iff]
    exact fun u hu => by simp [(h u hu).ne (v := 0x65) (by decide), (h u hu).ne (v := 0x45) (by decide)]
  have hpoint : ∀ u ∈ text, decide (u ≠ 0x2e) = true :=
    fun u hu => by simp [(h u hu).ne (v := 0x2e) (by decide)]
  have hwhole : text.takeWhile (fun u => decide (u ≠ 0x2e)) = text := List.takeWhile_eq_self_iff.2 hpoint
  have hfraction : text.dropWhile (fun u => decide (u ≠ 0x2e)) = [] := List.dropWhile_eq_nil_iff.2 hpoint
  have hdigits : (text.all fun u => digitValue u < 10) = true :=
    List.all_eq_true.2 fun u hu => decide_eq_true (h u hu).digitValue_lt
  rw [decimalLiteral, hexponent]
  simp only [mantissaLiteral, hwhole, hfraction, List.drop_nil, List.append_nil, hne, false_and,
    if_false, digitsValue, hdigits, if_true, Option.map_some, List.length_nil, pow_zero, div_one]

theorem literalValue_digits (hne : text ≠ []) (h : ∀ u ∈ text, IsDigit u) :
    literalValue text = decimalLiteral text := by
  unfold literalValue
  split
  · exact absurd rfl hne
  all_goals first
    | rfl
    | exact absurd (h _ List.mem_cons_self).1 (by decide)
    | exact absurd (h _ (List.mem_cons_of_mem _ List.mem_cons_self)).2 (by decide)

theorem charUnits_digit {c : Char} (h : c.isDigit) : charUnits c = [c.val.toUInt16]
    ∧ IsDigit c.val.toUInt16 ∧ digitValue c.val.toUInt16 = c.toNat - '0'.toNat := by
  have hle : 0x30 ≤ c.toNat ∧ c.toNat ≤ 0x39 := by
    rw [Char.isDigit_iff_toNat] at h
    exact h
  have hunit : c.val.toUInt16.toNat = c.toNat := by
    rw [UInt32.toNat_toUInt16, Nat.mod_eq_of_lt]
    · rfl
    · show c.toNat < _
      omega
  have hdigit : IsDigit c.val.toUInt16 := by
    rw [IsDigit, UInt16.le_iff_toNat_le, UInt16.le_iff_toNat_le, hunit]
    exact hle
  refine ⟨if_pos ?_, hdigit, ?_⟩
  · rw [UInt32.lt_iff_toNat_lt]
    exact lt_of_le_of_lt hle.2 (by decide)
  · rw [digitValue, if_pos hdigit, hunit]
    rfl

theorem decimal_eq_map (n : ℕ) : decimal n = (Nat.toDigits 10 n).map fun c => c.val.toUInt16 := by
  rw [decimal, List.map_eq_flatMap]
  exact List.flatMap_congr fun c hc =>
    (charUnits_digit (Nat.isDigit_of_mem_toDigits (by omega) (by omega) hc)).1

theorem isDigit_of_mem_decimal (h : u ∈ decimal n) : IsDigit u := by
  rw [decimal_eq_map, List.mem_map] at h
  obtain ⟨c, hc, rfl⟩ := h
  exact (charUnits_digit (Nat.isDigit_of_mem_toDigits (by omega) (by omega) hc)).2.1

theorem decimal_ne_nil (n : ℕ) : decimal n ≠ [] := by
  rw [decimal_eq_map, Ne, List.map_eq_nil_iff]
  exact Nat.toDigits_ne_nil

theorem foldl_decimal (n : ℕ) :
    (decimal n).foldl (fun value u => 10 * value + digitValue u) 0 = n := by
  have hstep : ∀ (chars : List Char) (start : ℕ), (∀ c ∈ chars, c.isDigit) →
      (chars.map fun c => c.val.toUInt16).foldl (fun value u => 10 * value + digitValue u) start
        = Nat.ofDigitChars 10 chars start := by
    intro chars
    induction chars with
    | nil => exact fun start _ => rfl
    | cons c chars ih =>
      intro start h
      rw [List.map_cons, List.foldl_cons, (charUnits_digit (h c List.mem_cons_self)).2.2,
        ih _ fun d hd => h d (List.mem_cons_of_mem _ hd), Nat.ofDigitChars_cons]
  rw [decimal_eq_map, hstep _ _ fun c hc => Nat.isDigit_of_mem_toDigits (by omega) (by omega) hc,
    Nat.ofDigitChars_ten_toDigits]

/-- **The digits of a safe natural number are read as that number.** -/
theorem safeIntegerOf_decimal (h : n < 2 ^ 53) : safeIntegerOf (decimal n) = some (n : ℤ) := by
  have hdigits : ∀ u ∈ decimal n, IsDigit u := fun u hu => isDigit_of_mem_decimal hu
  have hsafe : ((n : ℚ)).den = 1 ∧ |((n : ℚ)).num| ≤ 2 ^ 53 - 1 := by
    rw [Rat.num_natCast, Rat.den_natCast, Nat.abs_cast]
    omega
  rw [safeIntegerOf, trim_of_digits hdigits, literalValue_digits (decimal_ne_nil n) hdigits,
    decimalLiteral_digits (decimal_ne_nil n) hdigits, foldl_decimal, Option.bind_some,
    nearest_natCast h, if_pos hsafe, Rat.num_natCast]

end Falryn
