/-
The value of a number is the nearest that there is. In a stretch, halfway to
the neighbours, the distance to the number in the middle is the least
(`Stretch.nearest_of_holds`), so what rounds to a magnitude is nearest to it
among all numbers of the format, those with a sign too.

The ends of the range are stretches as well: that of zero ends at half a
quantum, and that of the infinite magnitude begins halfway between the largest
finite number and the power of two behind it.
-/
import LoxLexer.Proofs.Lexeme.Respaced
import LoxLexer.Proofs.Number.Stretch

namespace LoxLexer

-- ============================================================ decimals

namespace Decimal

/-- The number that a decimal writes. -/
def value (d : Decimal) : ℚ := d.digits / 10 ^ d.places

variable {d : Decimal} {n : Nat}

theorem cast_scale (d : Decimal) : (d.scale : ℚ) = 10 ^ d.places := by
  rw [scale, Nat.pow_eq, Nat.cast_pow, Nat.cast_ofNat]

/-- Decimals are compared in half quanta, and without fractions: both sides are
multiplied out, as the rounding does it. -/
theorem le_value_iff :
    (n : ℚ) / quantaPerUnit ≤ 2 * d.value
      ↔ n * d.scale ≤ d.digits * (2 * quantaPerUnit) := by
  have hscale : (0 : ℚ) < 10 ^ d.places := by positivity
  rw [value, ← mul_div_assoc, div_le_div_iff₀ quantaPerUnit_pos hscale, ← cast_scale,
    mul_comm (2 : ℚ), mul_assoc]
  norm_cast

theorem value_le_iff :
    2 * d.value ≤ (n : ℚ) / quantaPerUnit
      ↔ d.digits * (2 * quantaPerUnit) ≤ n * d.scale := by
  have hscale : (0 : ℚ) < 10 ^ d.places := by positivity
  rw [value, ← mul_div_assoc, div_le_div_iff₀ hscale quantaPerUnit_pos, ← cast_scale,
    mul_comm (2 : ℚ), mul_assoc]
  norm_cast

end Decimal

-- ==================================================== the nearest number

/-- Halfway to the neighbours `a` and `b` of `x`, and nearer, nothing before
the one or behind the other is nearer than `x`, and it is as near only at the
ends. Nothing of the format is used here: it is a fact about three numbers in
order. -/
theorem nearest_of_between {a x b y q : ℚ} (ha : a ≤ x) (hb : x ≤ b)
    (hlo : a + x ≤ 2 * q) (hhi : 2 * q ≤ x + b) (hy : y ≤ a ∨ b ≤ y) :
    |x - q| ≤ |y - q|
      ∧ (y ≠ x → |y - q| = |x - q| → a + x = 2 * q ∨ 2 * q = x + b) := by
  -- before `a` or behind `b`, with the same argument from either side
  rcases hy with hy | hy
  · have hdist : |y - q| = q - y := by
      rw [abs_sub_comm]
      exact abs_of_nonneg (by linarith)
    rw [hdist]
    refine ⟨abs_le.2 ⟨by linarith, by linarith⟩, fun hne heq => ?_⟩
    rcases abs_cases (x - q) with ⟨habs, -⟩ | ⟨habs, -⟩
    · exact .inl (by linarith)
    · exact absurd (by linarith) hne
  · have hdist : |y - q| = y - q := abs_of_nonneg (by linarith)
    rw [hdist]
    refine ⟨abs_le.2 ⟨by linarith, by linarith⟩, fun hne heq => ?_⟩
    rcases abs_cases (x - q) with ⟨habs, -⟩ | ⟨habs, -⟩
    · exact absurd (by linarith) hne
    · exact .inr (by linarith)

namespace Stretch

theorem cast_lo_div (m : Nat) :
    ((ofMagnitude m).lo : ℚ) / quantaPerUnit
      = quanta (m - 1) / quantaPerUnit + quanta m / quantaPerUnit := by
  rw [ofMagnitude, Nat.cast_add, add_div]

theorem cast_hi_div (m : Nat) :
    ((ofMagnitude m).hi : ℚ) / quantaPerUnit
      = quanta m / quantaPerUnit + quanta (m + 1) / quantaPerUnit := by
  rw [ofMagnitude, Nat.cast_add, add_div]

/-- What a stretch holds is nearer to its magnitude than to any number at or
beyond the neighbours, or as near, and that only where the magnitude is
even. -/
theorem nearest_of_holds {d : Decimal} {m : Nat} (h : (ofMagnitude m).holds d = true)
    {y : ℚ} (hy : y ≤ (quanta (m - 1) : ℚ) / quantaPerUnit
      ∨ (quanta (m + 1) : ℚ) / quantaPerUnit ≤ y) :
    |(quanta m : ℚ) / quantaPerUnit - d.value| ≤ |y - d.value|
      ∧ (y ≠ (quanta m : ℚ) / quantaPerUnit →
        |y - d.value| = |(quanta m : ℚ) / quantaPerUnit - d.value| → m % 2 = 0) := by
  obtain ⟨⟨hlo, hhi⟩, hclosed⟩ := holds_iff.1 h
  obtain ⟨hle, htie⟩ := nearest_of_between (q := d.value)
    (strictMono_quanta_div.monotone (Nat.sub_le m 1))
    (strictMono_quanta_div.monotone (Nat.le_succ m))
    (cast_lo_div m ▸ Decimal.le_value_iff.2 hlo)
    (cast_hi_div m ▸ Decimal.value_le_iff.2 hhi) hy
  refine ⟨hle, fun hne heq => even_of_closed (hclosed ?_)⟩
  -- where another number is as near, the decimal is an end of the stretch
  rcases htie hne heq with htie | htie
  · rw [← cast_lo_div] at htie
    exact .inl (le_antisymm hlo (Decimal.value_le_iff.1 htie.ge))
  · rw [← cast_hi_div] at htie
    exact .inr (le_antisymm hhi (Decimal.le_value_iff.1 htie.ge))

end Stretch

namespace Binary64

/-- No finite number is nearer to `q`, and the significand is even where
another one is as near. -/
structure IsNearest (x : Binary64) (q : ℚ) : Prop where
  finite : x.isFinite = true
  le : ∀ y : Binary64, y.isFinite = true → |x.value - q| ≤ |y.value - q|
  even : ∀ y : Binary64, y.isFinite = true → y.value ≠ x.value →
    |y.value - q| = |x.value - q| → Even x.significand

/-- What the standard makes of a number that is not below zero: infinity from
halfway between the largest finite number and 2^1024 on, zero up to half the
least positive one, and the nearest number in between. -/
structure IsRounded (x : Binary64) (q : ℚ) : Prop where
  not_nan : x.isNaN = false
  not_negative : x.isNegative = false
  infinite_iff : x.isInfinite = true ↔ 2 ^ 1024 - 2 ^ 970 ≤ q
  zero_iff : x = zero ↔ q ≤ 2 ^ (-1075 : ℤ)
  nearest : x.isInfinite = false → x.IsNearest q
  positive : x.isInfinite = false → x ≠ zero → 0 < x.value

/-- A number has the magnitude, or is at or beyond one of its neighbours. The
negative ones are before all of them, so nothing has to be said of signs. -/
theorem value_cases (x : Binary64) (m : Nat) :
    x.value = (quanta m : ℚ) / quantaPerUnit
      ∨ x.value ≤ (quanta (m - 1) : ℚ) / quantaPerUnit
      ∨ (quanta (m + 1) : ℚ) / quantaPerUnit ≤ x.value := by
  rw [x.value_eq]
  have hnonneg : ∀ n : Nat, (0 : ℚ) ≤ n / quantaPerUnit := fun n =>
    div_nonneg n.cast_nonneg quantaPerUnit_pos.le
  cases x.isNegative with
  | true =>
      have h₁ := hnonneg (quanta x.magnitude)
      have h₂ := hnonneg (quanta (m - 1))
      rw [if_pos rfl]
      exact .inr (.inl (by linarith))
  | false =>
      rw [if_neg Bool.false_ne_true, one_mul]
      rcases lt_trichotomy x.magnitude m with hlt | rfl | hgt
      · exact .inr (.inl (strictMono_quanta_div.monotone (Nat.le_sub_one_of_lt hlt)))
      · exact .inl rfl
      · exact .inr (.inr (strictMono_quanta_div.monotone hgt))

theorem value_of_not_negative {x : Binary64} (h : x.isNegative = false) :
    x.value = (quanta x.magnitude : ℚ) / quantaPerUnit := by
  rw [value_eq, h, if_neg Bool.false_ne_true, one_mul]

/-- A number is nearest to what the stretch of its magnitude holds. This turns
what is known of the rounding into what the standard says of it. -/
theorem isNearest_of_holds {x : Binary64} {d : Decimal} (hfinite : x.isFinite = true)
    (hsign : x.isNegative = false)
    (h : (Stretch.ofMagnitude x.magnitude).holds d = true) : x.IsNearest d.value := by
  have hvalue := value_of_not_negative hsign
  refine ⟨hfinite, fun y _ => ?_, fun y _ hne heq => ?_⟩
  · rw [hvalue]
    rcases y.value_cases x.magnitude with hy | hy
    · rw [hy]
    · exact (Stretch.nearest_of_holds h hy).1
  · rw [Nat.even_iff, significand_mod_two]
    rw [hvalue] at hne heq
    exact (Stretch.nearest_of_holds h
      ((y.value_cases x.magnitude).resolve_left hne)).2 hne heq

-- ======================================================= rounded numbers

theorem magnitude_ofMagnitude {m : Nat} (h : m < signPlace) :
    (ofMagnitude m).magnitude = m ∧ (ofMagnitude m).isNegative = false := by
  have hbits : (ofMagnitude m).bits.toNat = m :=
    UInt64.toNat_ofNat_of_lt (h.trans (by decide))
  unfold magnitude isNegative
  rw [hbits]
  exact ⟨Nat.mod_eq_of_lt h, decide_eq_false (Nat.not_le_of_lt h)⟩

theorem ofMagnitude_eq_zero_iff {m : Nat} (h : m < signPlace) :
    ofMagnitude m = zero ↔ m = 0 := by
  constructor
  · intro hzero
    rw [← (magnitude_ofMagnitude h).1, hzero]
    rfl
  · rintro rfl
    rfl

/-- The stretch of the infinite magnitude begins halfway between the largest
finite number and 2^1024. -/
theorem lo_infiniteMagnitude :
    ((Stretch.ofMagnitude infiniteMagnitude).lo : ℚ) / quantaPerUnit
      = 2 * (2 ^ 1024 - 2 ^ 970) := by
  have hlast : infiniteMagnitude - 1 = 2045 * fractionCount + (2 ^ 53 - 1) := by decide
  have hnext : infiniteMagnitude = 2045 * fractionCount + 2 ^ 53 := by decide
  unfold Stretch.ofMagnitude
  dsimp only
  rw [hlast, hnext, quanta_mul_add (.inr (by decide)) (by decide),
    quanta_mul_add (.inr (by decide)) (by decide), div_eq_iff quantaPerUnit_pos.ne',
    cast_quantaPerUnit, ← Nat.add_mul, Nat.cast_mul, Nat.cast_pow, Nat.cast_ofNat,
    show 2045 = 971 + 1074 from rfl, pow_add, ← mul_assoc]
  rw [show 971 = 1 + 970 from rfl, show 1024 = 54 + 970 from rfl, pow_add, pow_add]
  generalize (2 : ℚ) ^ 1074 = quantum
  generalize (2 : ℚ) ^ 970 = step
  have hfractions : ((2 ^ 53 - 1 + 2 ^ 53 : Nat) : ℚ) = 2 ^ 54 - 1 := by norm_num
  rw [hfractions]
  ring

/-- The stretch of zero ends at half a quantum, and this end belongs to it. -/
theorem hi_zero :
    ((Stretch.ofMagnitude 0).hi : ℚ) / quantaPerUnit = 2 * 2 ^ (-1075 : ℤ) := by
  rw [show (Stretch.ofMagnitude 0).hi = 1 from rfl, cast_quantaPerUnit, zpow_neg,
    show (1075 : ℤ) = ((1074 + 1 : Nat) : ℤ) from rfl, zpow_natCast,
    pow_succ (2 : ℚ) 1074]
  generalize (2 : ℚ) ^ 1074 = quantum
  rw [Nat.cast_one, mul_inv]
  ring

/-- A decimal is rounded as the standard has it. The magnitude that is found may
be beyond the infinite one, and is cut down to it; below it, the number is the
nearest because the stretch of its magnitude holds the decimal. -/
theorem isRounded_ofDecimal (d : Decimal) : (ofDecimal d).IsRounded d.value := by
  unfold ofDecimal ofRatio
  have hholds := Stretch.holds_nearestMagnitude d
  have hzero := Stretch.nearestMagnitude_eq_iff (d := d) (m := 0)
  have hinfinite := Stretch.le_nearestMagnitude_iff (d := d) (m := infiniteMagnitude) (by decide)
  -- the magnitude counts only by what is known of it
  generalize nearestMagnitude d.digits d.scale = n at hholds hzero hinfinite
  have hbound : min n infiniteMagnitude < signPlace :=
    Nat.lt_of_le_of_lt (Nat.min_le_right _ _) (by decide)
  obtain ⟨hmagnitude, hsign⟩ := magnitude_ofMagnitude hbound
  have hzero' := ofMagnitude_eq_zero_iff hbound
  generalize ofMagnitude (min n infiniteMagnitude) = x at hmagnitude hsign hzero'
  have hinfinite' : x.isInfinite = true ↔ infiniteMagnitude ≤ n := by
    rw [isInfinite, beq_iff_eq, hmagnitude]
    exact min_eq_right_iff
  have hfinite : x.isInfinite = false → x.magnitude = n ∧ x.isFinite = true := by
    intro h
    rw [isFinite, decide_eq_true_eq, hmagnitude]
    rw [← Bool.not_eq_true, hinfinite'] at h
    omega
  refine ⟨?_, hsign, ?_, ?_, ?_, ?_⟩
  · rw [isNaN, hmagnitude]
    exact decide_eq_false (Nat.not_lt_of_le (Nat.min_le_right _ _))
  · rw [hinfinite', hinfinite, ← Decimal.le_value_iff, lo_infiniteMagnitude]
    exact mul_le_mul_iff_right₀ two_pos
  · have hn : min n infiniteMagnitude = 0 ↔ n = 0 := by
      have hsome : 0 < infiniteMagnitude := by decide
      omega
    rw [hzero', hn, hzero, Stretch.holds_iff, ← Decimal.value_le_iff, hi_zero,
      mul_le_mul_iff_right₀ two_pos]
    -- it begins at zero, and its ends belong to it
    exact ⟨fun h => h.1.2, fun h => ⟨⟨by simp [Stretch.ofMagnitude], h⟩, fun _ => rfl⟩⟩
  · intro h
    obtain ⟨hn, h⟩ := hfinite h
    exact isNearest_of_holds h hsign (hn ▸ hholds)
  · intro h hne
    have hpos := strictMono_quanta_div (Nat.pos_of_ne_zero (mt hzero'.2 hne))
    rw [value_of_not_negative hsign, hmagnitude]
    simpa using hpos

end Binary64

-- ======================================================= number literals

/-- A token of the kind of numbers is a number. No reserved word has this kind,
so a word never does. -/
theorem Lexeme.eq_number_of_kind {u : Lexeme} (h : u.kind = .number) :
    ∃ whole places, u = .number whole places := by
  cases u with
  | number whole places => exact ⟨whole, places, rfl⟩
  | operator | string => cases h
  | word first rest =>
      -- a word is an identifier or reserved
      have hword : Kind.ofWord (String.ofList (first :: rest)) = .number := h
      unfold Kind.ofWord at hword
      cases hread : Keyword.ofText? (String.ofList (first :: rest))
      all_goals
        rw [hread] at hword
        cases hword

/-- Every number token of a source is written with digits, or with digits on
both sides of a point. Reading these never fails, and the value is what the
standard makes of the number that they write. -/
theorem number_rounded {source : String} {t : Token} (ht : t ∈ (scan source).tokens)
    (hkind : t.kind = .number) :
    ∃ (whole : Digits) (places : Option Digits) (x : Binary64),
      t.lexeme = String.ofList (Lexeme.number whole places).text
        ∧ Binary64.ofText? t.lexeme = some x
        ∧ t.literal = some (.number x)
        ∧ x.IsRounded (Lexeme.decimal whole places).value := by
  rcases eof_or_fromLexeme ht with ⟨line, rfl⟩ | ⟨u, line, rfl⟩
  · cases hkind
  · obtain ⟨whole, places, rfl⟩ := Lexeme.eq_number_of_kind hkind
    exact ⟨whole, places, .ofDecimal (Lexeme.decimal whole places), rfl,
      Lexeme.ofText?_number whole places, rfl, Binary64.isRounded_ofDecimal _⟩

/-- One more than 2^53 is halfway between two numbers, and the even one is
taken. -/
theorem number_rounded_half :
    ∃ whole places,
      "9007199254740993" = String.ofList (Lexeme.number whole places).text
        ∧ Binary64.ofText? "9007199254740993" = some ⟨0x4340000000000000⟩
        ∧ Binary64.IsRounded ⟨0x4340000000000000⟩ (Lexeme.decimal whole places).value := by
  have ht : ⟨.number, "9007199254740993", some (.number ⟨0x4340000000000000⟩), 1⟩
      ∈ (scan "x = 9007199254740993").tokens := by
    decide +kernel
  obtain ⟨whole, places, x, htext, hread, hliteral, hrounded⟩ := number_rounded ht rfl
  cases hliteral
  exact ⟨whole, places, htext, hread, hrounded⟩

end LoxLexer
