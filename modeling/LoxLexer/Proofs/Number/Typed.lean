/-
What is typed is shown again, up to fifteen digits. Decimals with so few digits
lie farther apart than numbers of the format do, as long as these have all bits
of their significands, so no two of them with as many places round to the same
number (`digits_eq_of_contains`). A decimal that does not end in a zero is then
the only one with no more places than it has that rounds to its number: neither a
whole number (that would have none) nor a decimal with fewer places does
(`eq_of_short`), and the search finds it (`shownDecimal_of_short`).

What is left of a number lexeme without the zeros at its ends (`Lexeme.normal`)
is just what is shown of such a decimal.
-/
import LoxLexer.Proofs.Number.Shown

namespace LoxLexer

-- ====================================================== short decimals

section Short

variable {m : Nat} {d e : Decimal}

open Stretch (ofMagnitude)

/-- With all bits in its significand a magnitude has a stretch no longer than the
last of them is worth, and that is little: about one part in 2^52 of what the
stretch contains. -/
theorem exists_step (hm : fractionCount ≤ m) :
    ∃ u : ℚ, 0 < u ∧ ∀ a b, (ofMagnitude m).Contains a → (ofMagnitude m).Contains b →
      b ≤ a + u ∧ (2 ^ 53 - 1) * u ≤ 2 * a := by
  obtain ⟨k, r, hk, hr, rfl⟩ := exists_mul_add m
  have hfull : fractionCount ≤ r := by
    rcases hk with rfl | hk
    · omega
    · exact hk
  obtain ⟨hbelow, habove⟩ := Stretch.lo_hi hk hr
  have hleast := Nat.mul_le_mul_right (2 ^ k) hfull
  generalize ofMagnitude (k * fractionCount + r) = stretch at hbelow habove
  have hlo : (2 ^ 53 - 1 : ℚ) * 2 ^ k ≤ stretch.lo := by
    have hlo : 2 ^ 53 * 2 ^ k ≤ stretch.lo + 2 ^ k := by
      unfold fractionCount at hleast
      omega
    rw [sub_one_mul, sub_le_iff_le_add]
    exact_mod_cast hlo
  have hhi : (stretch.hi : ℚ) ≤ stretch.lo + 2 * 2 ^ k := by
    have hhi : stretch.hi ≤ stretch.lo + 2 * 2 ^ k := by omega
    exact_mod_cast hhi
  refine ⟨2 ^ k / quantaPerUnit, div_pos (by positivity) quantaPerUnit_pos,
    fun a b ha hb => ?_⟩
  have hstep := div_le_div_of_nonneg_right hhi quantaPerUnit_pos.le
  have hsmall := div_le_div_of_nonneg_right hlo quantaPerUnit_pos.le
  rw [add_div, mul_div_assoc] at hstep
  rw [mul_div_assoc] at hsmall
  exact ⟨by linarith [ha.lo_le, hb.le_hi], hsmall.trans ha.lo_le⟩

/-- Such a magnitude is nearest to one decimal only of those with as many places,
if that has no more than fifteen digits. Two of them would be a unit of the last
place apart, and as 10^15 is less than 2^52 this is more than the stretch is
long. -/
theorem digits_eq_of_contains {n n' p : Nat} (hm : fractionCount ≤ m)
    (hn : (ofMagnitude m).Contains ((n : ℚ) / 10 ^ p))
    (hn' : (ofMagnitude m).Contains ((n' : ℚ) / 10 ^ p)) (hshort : n < 10 ^ 15) :
    n' = n := by
  obtain ⟨u, hpos, hstep⟩ := exists_step hm
  rw [div_eq_mul_one_div] at hn hn'
  obtain ⟨habove, hsmall⟩ := hstep _ _ hn hn'
  obtain ⟨hbelow, -⟩ := hstep _ _ hn' hn
  have hunit : (0 : ℚ) < 1 / 10 ^ p := by positivity
  generalize (1 : ℚ) / 10 ^ p = v at habove hsmall hbelow hunit
  have hfew : (n : ℚ) * v ≤ 10 ^ 15 * v :=
    mul_le_mul_of_nonneg_right (by exact_mod_cast hshort.le) hunit.le
  -- a unit of the last place is worth more than the last bit
  have hwide : u < v := by linarith
  have hle : n' < n + 1 := by
    have hlt : (n' : ℚ) * v < ((n + 1 : Nat) : ℚ) * v := by
      rw [Nat.cast_succ, add_one_mul]
      linarith
    exact_mod_cast lt_of_mul_lt_mul_right hlt hunit.le
  have hge : n < n' + 1 := by
    have hlt : (n : ℚ) * v < ((n' + 1 : Nat) : ℚ) * v := by
      rw [Nat.cast_succ, add_one_mul]
      linarith
    exact_mod_cast lt_of_mul_lt_mul_right hlt hunit.le
  omega

/-- So of those with no more places there is only one, if it does not end in a
zero. One with fewer places is written with as many by zeros at its end, and
these would be the digits of the other. -/
theorem eq_of_short (hm : fractionCount ≤ m) (hd : (ofMagnitude m).Contains d.value)
    (he : (ofMagnitude m).Contains e.value) (hshort : d.digits < 10 ^ 15)
    (hlast : d.digits % 10 ≠ 0) (hplaces : e.places ≤ d.places) : e = d := by
  obtain ⟨j, hj⟩ := Nat.exists_eq_add_of_le hplaces
  have hvalue : e.value = ((e.digits * 10 ^ j : Nat) : ℚ) / 10 ^ d.places := by
    rw [hj]
    exact (Decimal.value_zeros e.digits e.places j).symm
  have hdigits := digits_eq_of_contains hm hd (hvalue ▸ he) hshort
  cases j with
  | zero =>
      rw [Nat.pow_zero, Nat.mul_one] at hdigits
      calc e = ⟨e.digits, e.places⟩ := rfl
        _ = ⟨d.digits, d.places⟩ := by rw [hdigits, hj, Nat.add_zero]
  | succ j =>
      rw [← hdigits, Nat.pow_succ, ← Nat.mul_assoc, Nat.mul_mod_left] at hlast
      exact absurd rfl hlast

/-- The first magnitude with all bits in its significand. -/
theorem fractionCount_div : (fractionCount : ℚ) / quantaPerUnit = 2 ^ (-1022 : ℤ) := by
  have hcount : (fractionCount : ℚ) = 2 ^ 52 := by norm_num [fractionCount]
  rw [hcount, cast_quantaPerUnit, zpow_neg, show (1022 : ℤ) = ((1022 : Nat) : ℤ) from rfl,
    zpow_natCast, show 1074 = 52 + 1022 from rfl, pow_add, div_mul_eq_div_div,
    div_self (by positivity), one_div]

/-- A decimal that is not below it does not round to a smaller one. -/
theorem fractionCount_le (h : (ofMagnitude m).Contains d.value)
    (hrange : 2 ^ (-1022 : ℤ) ≤ d.value) : fractionCount ≤ m := by
  by_contra hlt
  have hhi := (Stretch.lo_hi (k := 0) (r := m) (.inl rfl) (by omega)).2
  rw [Nat.zero_mul, Nat.zero_add, Nat.pow_zero, Nat.mul_one] at hhi
  have hless : ((ofMagnitude m).hi : ℚ) / quantaPerUnit
      < ((2 * fractionCount : Nat) : ℚ) / quantaPerUnit :=
    div_lt_div_of_pos_right (Nat.cast_lt.2 (by omega)) quantaPerUnit_pos
  rw [Nat.cast_mul, Nat.cast_ofNat, mul_div_assoc, fractionCount_div] at hless
  linarith [h.le_hi]

/-- A decimal with no more than fifteen digits, without a zero at the end behind its
point, is shown for the magnitude that it rounds to. What is shown rounds to it as
well, and has no more places, so the two are the same. -/
theorem shownDecimal_of_short (h : (ofMagnitude m).Contains d.value)
    (hshort : d.digits < 10 ^ 15) (hlast : d.places = 0 ∨ d.digits % 10 ≠ 0)
    (hrange : d.value = 0 ∨ 2 ^ (-1022 : ℤ) ≤ d.value) :
    Binary64.shownDecimal m = d := by
  -- a whole number is shown in full, any other by the search
  rcases hlast with hnone | hlast
  · rw [Decimal.value, hnone, pow_zero, div_one] at h
    have hquanta := (Stretch.whole_of_contains h).2 (hshort.trans (by decide))
    calc Binary64.shownDecimal m = ⟨d.digits, 0⟩ := Binary64.shownDecimal_of_whole hquanta
      _ = ⟨d.digits, d.places⟩ := by rw [hnone]
  · have hpos : d.value ≠ 0 := by
      have hdigits : (d.digits : ℚ) ≠ 0 := Nat.cast_ne_zero.2 (by omega)
      exact div_ne_zero hdigits (by positivity)
    have hplaces : (Binary64.shownDecimal m).places ≤ d.places := by
      by_cases hwhole : quantaPerUnit ∣ quanta m
      · obtain ⟨n, hn⟩ := exists_eq_mul_left_of_dvd hwhole
        rw [Binary64.shownDecimal_of_whole hn]
        exact Nat.zero_le _
      · rw [Binary64.shownDecimal_of_part hwhole]
        exact places_le hwhole h
    exact eq_of_short (fractionCount_le h (hrange.resolve_left hpos)) h
      (Binary64.contains_shownDecimal m) hshort hlast hplaces

/-- A decimal with no more than fifteen digits in front of its point is far from
infinity. -/
theorem lt_infiniteMagnitude (h : d.value < 10 ^ 15) :
    nearestMagnitude d.digits d.scale < infiniteMagnitude := by
  by_contra hge
  rw [not_lt, Stretch.le_nearestMagnitude_iff (by decide), ← Decimal.le_value_iff,
    Binary64.lo_infiniteMagnitude, show 1024 = 54 + 970 from rfl, pow_add] at hge
  have hone : (1 : ℚ) ≤ 2 ^ 970 := one_le_pow₀ (by norm_num)
  generalize (2 : ℚ) ^ 970 = step at hge hone
  linarith

/-- So what is read of another decimal with the same value is shown as this one.
The other is the number as it was typed, with zeros at its ends. -/
theorem render_ofDecimal (hvalue : e.value = d.value) (hshort : d.digits < 10 ^ 15)
    (hlast : d.places = 0 ∨ d.digits % 10 ≠ 0)
    (hrange : d.value = 0 ∨ 2 ^ (-1022 : ℤ) ≤ d.value) :
    (Literal.number (.ofDecimal e)).render = String.ofList d.chars := by
  have hcontains := Stretch.contains_iff.2 (Stretch.holds_nearestMagnitude e)
  have hsmall : e.value < 10 ^ 15 := by
    rw [hvalue]
    calc d.value ≤ d.digits := div_le_self (Nat.cast_nonneg _) (one_le_pow₀ (by norm_num))
      _ < 10 ^ 15 := by exact_mod_cast hshort
  have hlt := lt_infiniteMagnitude hsmall
  rw [hvalue] at hcontains
  have hread : Binary64.ofDecimal e = .ofMagnitude (nearestMagnitude e.digits e.scale) := by
    rw [Binary64.ofDecimal, Binary64.ofRatio, Nat.min_eq_left hlt.le]
  obtain ⟨hmagnitude, hsign⟩ := Binary64.magnitude_ofMagnitude
    (hlt.trans (show infiniteMagnitude < signPlace by decide))
  rw [hread, Binary64.render_of_finite (Binary64.isFinite_ofMagnitude hlt).1, hmagnitude,
    hsign, shownDecimal_of_short hcontains hshort hlast hrange,
    if_neg Bool.false_ne_true, String.empty_append]

end Short

-- ================================================== number lexemes

namespace Lexeme

variable (whole : Digits) (places : Option Digits)

/-- The digits behind the point without the zeros at their end. -/
def shortFraction (places : Option Digits) : List Char :=
  ((places.map Digits.chars).getD []).rdropWhile (· == '0')

/-- The digits in front of the point and these, from the first on that is not a
zero. -/
def significantDigits : List Char :=
  (whole.chars ++ shortFraction places).dropWhile (· == '0')

/-- Digits, or a zero where there are none. -/
def orZero : List Char → List Char
  | [] => ['0']
  | digits => digits

/-- A number without the zeros at its ends, but with a digit on both sides of the
point. -/
def normal : List Char :=
  orZero (whole.chars.dropWhile (· == '0')) ++ '.' :: orZero (shortFraction places)

/-- The decimal that is left without the zeros behind the point. -/
def short : Decimal where
  digits := Nat.ofDigitChars 10 (whole.chars ++ shortFraction places) 0
  places := (shortFraction places).length

theorem isDigit_of_mem_shortFraction {c : Char} (h : c ∈ shortFraction places) :
    c.isDigit = true := by
  have hmem := (List.rdropWhile_prefix _ _).subset h
  cases places with
  | none => exact absurd hmem List.not_mem_nil
  | some places => exact places.digits c hmem

theorem isDigit_of_mem_append {c : Char} (h : c ∈ whole.chars ++ shortFraction places) :
    c.isDigit = true :=
  (List.mem_append.1 h).elim (whole.digits c) (isDigit_of_mem_shortFraction places)

/-- The zeros denote nothing: without them the decimal has another number of
places, and the same value. -/
theorem value_short : (short whole places).value = (decimal whole places).value := by
  cases places with
  | none =>
      have hnone : shortFraction none = [] := rfl
      rw [short, hnone, List.append_nil]
      rfl
  | some places =>
      obtain ⟨n, hn⟩ := exists_zeros places.chars
      have hshort : places.chars = shortFraction (some places) ++ List.replicate n '0' := hn
      have hdecimal : decimal whole (some places)
          = ⟨(short whole (some places)).digits * 10 ^ n,
              (short whole (some places)).places + n⟩ := by
        rw [decimal, hshort, ← List.append_assoc, ofDigitChars_zeros, List.length_append,
          List.length_replicate]
        rfl
      rw [hdecimal, Decimal.value_zeros]

theorem digits_short_lt : (short whole places).digits
    < 10 ^ (significantDigits whole places).length := by
  rw [short, ← ofDigitChars_dropWhile]
  apply ofDigitChars_lt
  intro c hc
  exact isDigit_of_mem_append whole places ((List.dropWhile_suffix _).subset hc)

/-- There is no zero at the end, unless there are no places, where a zero
counts. -/
theorem places_short_eq_zero_or :
    (short whole places).places = 0 ∨ (short whole places).digits % 10 ≠ 0 := by
  by_cases hnone : shortFraction places = []
  · exact .inl (List.length_eq_zero_iff.2 hnone)
  · have hlast := List.rdropWhile_last_not _ _ hnone
    have hdigit := isDigit_of_mem_shortFraction places (List.getLast_mem hnone)
    have hmod := digitChar_ofDigitChars_mod
      (whole.chars ++ (shortFraction places).dropLast) hdigit
    rw [List.append_assoc, List.dropLast_append_getLast] at hmod
    refine .inr fun hzero => hlast (beq_iff_eq.2 ?_)
    change (shortFraction places).getLast hnone = '0'
    rw [← hmod]
    exact Nat.digitChar_eq_zero.2 hzero

/-- A text is written for its number without the zeros in front of it. -/
theorem toDigits_eq_orZero {text : List Char} (h : ∀ c ∈ text, c.isDigit = true) :
    Nat.toDigits 10 (Nat.ofDigitChars 10 text 0) = orZero (text.dropWhile (· == '0')) := by
  rw [← ofDigitChars_dropWhile]
  have hdigits : ∀ c ∈ text.dropWhile (· == '0'), c.isDigit = true := fun c hc =>
    h c ((List.dropWhile_suffix _).subset hc)
  have hhead := List.head?_dropWhile_not (· == '0') text
  generalize text.dropWhile (· == '0') = digits at hdigits hhead
  cases digits with
  | nil => exact Nat.toDigits_zero 10
  | cons c digits =>
      refine toDigits_ofDigitChars hdigits (List.cons_ne_nil _ _) fun hzero => ?_
      rw [hzero] at hhead
      exact Bool.noConfusion hhead

/-- And filled up to its length it is itself, as behind a point. -/
theorem leftpad_eq_orZero {text : List Char} (h : ∀ c ∈ text, c.isDigit = true) :
    (Nat.toDigits 10 (Nat.ofDigitChars 10 text 0)).leftpad text.length '0'
      = orZero text := by
  cases text with
  | nil => rfl
  | cons c text => exact leftpad_toDigits h (List.cons_ne_nil _ _)

/-- What is shown of the decimal that is left is what is left of the number: its
digits in front of the point are written without zeros in front, and those
behind it filled up with them. -/
theorem chars_short : (short whole places).chars = normal whole places := by
  have hfraction := fun c hc => isDigit_of_mem_shortFraction places (c := c) hc
  have hlt : Nat.ofDigitChars 10 (shortFraction places) 0 < (short whole places).scale :=
    ofDigitChars_lt hfraction
  have hdigits : (short whole places).digits
      = (short whole places).scale * Nat.ofDigitChars 10 whole.chars 0
        + Nat.ofDigitChars 10 (shortFraction places) 0 := by
    rw [short, Nat.ofDigitChars_append, Nat.ofDigitChars_eq_ofDigitChars_zero]
    rfl
  rw [Decimal.chars, hdigits, Nat.mul_add_div (short whole places).scale_pos,
    Nat.mul_add_mod, Nat.mod_eq_of_lt hlt, Nat.div_eq_of_lt hlt, Nat.add_zero,
    toDigits_eq_orZero whole.digits]
  exact congrArg (_ ++ '.' :: ·) (leftpad_eq_orZero hfraction)

end Lexeme

/-- Typed with no more than fifteen digits, without the zeros at its ends, a number
is shown just so, unless it is too small to have that many binary digits. -/
theorem scan_typed (whole : Digits) (places : Option Digits)
    (hdigits : (Lexeme.significantDigits whole places).length ≤ 15)
    (hrange : (Lexeme.decimal whole places).value = 0
      ∨ 2 ^ (-1022 : ℤ) ≤ (Lexeme.decimal whole places).value) :
    ∃ literal : Literal,
      (scan (String.ofList (Lexeme.number whole places).text)).errors = []
        ∧ (scan (String.ofList (Lexeme.number whole places).text)).tokens
          = [⟨.number, String.ofList (Lexeme.number whole places).text, some literal, 1⟩,
              .eof 1]
        ∧ literal.render = String.ofList (Lexeme.normal whole places) := by
  have hshort : (Lexeme.short whole places).digits < 10 ^ 15 :=
    (Lexeme.digits_short_lt whole places).trans_le (Nat.pow_le_pow_right (by decide) hdigits)
  have hvalue := Lexeme.value_short whole places
  refine ⟨.number (.ofDecimal (Lexeme.decimal whole places)), ?_, ?_, ?_⟩
  · rw [scan_eq_scanFrom, String.toList_ofList, Lexeme.scanFrom_number]
  · rw [scan_eq_scanFrom, String.toList_ofList, Lexeme.scanFrom_number]
    rfl
  · rw [← hvalue] at hrange
    rw [render_ofDecimal hvalue.symm hshort (Lexeme.places_short_eq_zero_or whole places)
      hrange, Lexeme.chars_short]

/-- Fifteen digits and a zero behind them. -/
theorem scan_typed_fifteen :
    (Lexeme.significantDigits (Decimal.whole ⟨123456789012, 0⟩)
        (some (Decimal.whole ⟨3450, 0⟩))).length = 15
      ∧ ∃ literal : Literal,
        (scan "123456789012.3450").errors = []
          ∧ (scan "123456789012.3450").tokens
            = [⟨.number, "123456789012.3450", some literal, 1⟩, .eof 1]
          ∧ literal.render = "123456789012.345" := by
  have hdigits : (Lexeme.significantDigits (Decimal.whole ⟨123456789012, 0⟩)
      (some (Decimal.whole ⟨3450, 0⟩))).length = 15 := by
    decide +kernel
  have hdecimal : Lexeme.decimal (Decimal.whole ⟨123456789012, 0⟩)
      (some (Decimal.whole ⟨3450, 0⟩)) = ⟨1234567890123450, 4⟩ := by
    decide +kernel
  have hrange : (2 : ℚ) ^ (-1022 : ℤ)
      ≤ (Lexeme.decimal (Decimal.whole ⟨123456789012, 0⟩)
          (some (Decimal.whole ⟨3450, 0⟩))).value := by
    rw [hdecimal]
    calc (2 : ℚ) ^ (-1022 : ℤ) ≤ 1 := zpow_le_one_of_nonpos₀ (by norm_num) (by norm_num)
      _ ≤ 1234567890123450 / 10 ^ 4 := by norm_num
  have htext : String.ofList (Lexeme.number (Decimal.whole ⟨123456789012, 0⟩)
      (some (Decimal.whole ⟨3450, 0⟩))).text = "123456789012.3450" := by
    decide +kernel
  have hnormal : String.ofList (Lexeme.normal (Decimal.whole ⟨123456789012, 0⟩)
      (some (Decimal.whole ⟨3450, 0⟩))) = "123456789012.345" := by
    decide +kernel
  have hscan := scan_typed (Decimal.whole ⟨123456789012, 0⟩)
    (some (Decimal.whole ⟨3450, 0⟩)) hdigits.le (.inr hrange)
  rw [htext, hnormal] at hscan
  exact ⟨hdigits, hscan⟩

end LoxLexer
