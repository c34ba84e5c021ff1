/-
What is shown of a finite number.

A whole number is written out with all its digits, any other as the shortest
decimal that rounds to it (`render_finite`). Both are in the stretch of the
magnitude, so what is shown is read as the same number again (`scan_render`).
-/
import LoxLexer.Proofs.Number.Shortest
import LoxLexer.Proofs.Number.Signed

namespace LoxLexer

namespace Binary64

variable {x : Binary64}

-- ===================================================== shortest decimals

/-- A number is whole just when its quanta make whole units. -/
theorem abs_value_eq_iff {n : Nat} :
    |x.value| = n ↔ quanta x.magnitude = n * quantaPerUnit := by
  rw [abs_value, div_eq_iff quantaPerUnit_pos.ne']
  exact_mod_cast Iff.rfl

theorem not_dvd_quanta_iff :
    ¬ quantaPerUnit ∣ quanta x.magnitude ↔ ∀ n : Nat, |x.value| ≠ n := by
  rw [dvd_iff_exists_eq_mul_left, not_exists]
  exact forall_congr' fun n => not_congr abs_value_eq_iff.symm

/-- What is not whole is between two other numbers: it is not zero, and numbers
near the end of the range are all whole. -/
theorem between_of_part {m : Nat} (hpart : ¬ quantaPerUnit ∣ quanta m) :
    0 < m ∧ m + 1 < infiniteMagnitude := by
  refine ⟨pos_of_part hpart, ?_⟩
  obtain ⟨k, r, hk, hr, rfl⟩ := exists_mul_add m
  rw [quanta_mul_add hk hr.le, quantaPerUnit_eq] at hpart
  have hfew : k < 1074 := by
    by_contra hge
    exact hpart ((pow_dvd_pow 2 (Nat.le_of_not_lt hge)).mul_left r)
  unfold fractionCount at *
  unfold infiniteMagnitude
  omega

/-- Behind its sign the decimal rounds to the number. None with fewer significant
digits does, and of those with as many that do none is nearer. -/
structure IsShortest (x : Binary64) (d : Decimal) : Prop where
  rounds : x.IsNearest (x.sign * d.value)
  fewest : ∀ (q : ℚ) (e : Decimal), |q| = e.value → x.IsNearest q →
    d.significant ≤ e.significant
  nearest : ∀ (q : ℚ) (e : Decimal), |q| = e.value → x.IsNearest q →
    e.significant = d.significant → |x.sign * d.value - x.value| ≤ |q - x.value|

/-- The search finds the shortest decimal of every number that is not whole. What
rounds to the number is in its stretch and the other way round, so the search,
which only asks about the stretch, has missed nothing. -/
theorem isShortest_shortestDecimal (hfinite : x.isFinite = true)
    (hpart : ¬ quantaPerUnit ∣ quanta x.magnitude) :
    x.IsShortest (shortestDecimal x.magnitude) := by
  obtain ⟨hpos, hlast⟩ := between_of_part hpart
  -- a decimal that rounds to the number has its sign, and its stretch contains it
  have hcontains : ∀ (q : ℚ) (e : Decimal), |q| = e.value → x.IsNearest q →
      x.sign * q = e.value ∧ (Stretch.ofMagnitude x.magnitude).Contains e.value := by
    intro q e hq hnearest
    have hcontains := contains_of_isNearest hpos hlast hnearest
    have hsame : x.sign * q = e.value := by
      have hlo := hcontains.lo_le
      have hnonneg := div_nonneg (Stretch.ofMagnitude x.magnitude).lo.cast_nonneg
        quantaPerUnit_pos.le
      rw [← hq, ← one_mul |q|, ← x.abs_sign, ← abs_mul]
      exact (abs_of_nonneg (by linarith)).symm
    exact ⟨hsame, hsame ▸ hcontains⟩
  refine ⟨isNearest_of_contains hfinite (contains_shortestDecimal _), ?_, ?_⟩
  · intro q e hq hnearest
    exact significant_le hpart (hcontains q e hq hnearest).2
  · intro q e hq hnearest hsignificant
    obtain ⟨hsame, hcontains⟩ := hcontains q e hq hnearest
    rw [abs_sub_value, abs_sub_value, ← mul_assoc, sign_mul_sign, one_mul, hsame]
    exact nearest_of_significant hpart hcontains hsignificant

-- ======================================================= what is shown

theorem shownDecimal_of_whole {m n : Nat} (h : quanta m = n * quantaPerUnit) :
    shownDecimal m = ⟨n, 0⟩ := by
  have hunit : 0 < quantaPerUnit := by exact_mod_cast quantaPerUnit_pos
  rw [shownDecimal, h, Nat.mul_mod_left, if_pos rfl, Nat.mul_div_cancel n hunit]

theorem shownDecimal_of_part {m : Nat} (h : ¬ quantaPerUnit ∣ quanta m) :
    shownDecimal m = shortestDecimal m := if_neg (mt Nat.dvd_of_mod_eq_zero h)

/-- What is shown rounds to the magnitude: a whole number is itself, and any
other was searched for in the stretch. -/
theorem contains_shownDecimal (m : Nat) :
    (Stretch.ofMagnitude m).Contains (shownDecimal m).value := by
  by_cases h : quantaPerUnit ∣ quanta m
  · obtain ⟨n, hn⟩ := exists_eq_mul_left_of_dvd h
    have hquanta := Stretch.contains_quanta m
    rw [hn, Nat.cast_mul, mul_div_cancel_right₀ _ quantaPerUnit_pos.ne'] at hquanta
    rwa [shownDecimal_of_whole hn, Decimal.value, pow_zero, div_one]
  · rw [shownDecimal_of_part h]
    exact contains_shortestDecimal m

/-- So what is shown of a finite magnitude is read as the number with it. No
finite number is lost when it is printed and scanned again. -/
theorem ofDecimal_shown {m : Nat} (h : m < infiniteMagnitude) :
    ofDecimal (Lexeme.decimal (shownDecimal m).whole (some (shownDecimal m).fraction))
      = ofMagnitude m := by
  have hcontains := contains_shownDecimal m
  rw [← Decimal.value_written, Stretch.contains_iff,
    ← Stretch.nearestMagnitude_eq_iff] at hcontains
  rw [ofDecimal, ofRatio, hcontains, Nat.min_eq_left h.le]

/-- A finite number is shown by its sign and its decimal. -/
theorem render_of_finite (h : x.isFinite = true) :
    (Literal.number x).render
      = (if x.isNegative then "-" else "")
        ++ String.ofList (shownDecimal x.magnitude).chars := by
  have hlt : x.magnitude < infiniteMagnitude := of_decide_eq_true h
  have hnan : x.isNaN = false := decide_eq_false (Nat.not_lt_of_lt hlt)
  have hinfinite : x.isInfinite = false := beq_false_of_ne hlt.ne
  rw [Literal.render, render, hnan, hinfinite]
  rfl

end Binary64

/-- A finite number is shown with a minus sign just where the sign bit is set,
with digits on both sides of a point and without superfluous zeros in front. A
whole number has all of its digits in front of the point and one zero behind it;
of any other the shortest decimal is shown, and it does not end in a zero. -/
theorem render_finite {x : Binary64} (hx : x.isFinite = true) :
    ∃ whole places : Digits,
      (Literal.number x).render
          = (if x.isNegative then "-" else "")
            ++ String.ofList (whole.chars ++ '.' :: places.chars)
        ∧ (whole.chars.head? = some '0' → whole.chars = ['0'])
        ∧ (∀ n : Nat, |x.value| = n →
            whole.chars = Nat.toDigits 10 n ∧ places.chars = ['0'])
        ∧ ((∀ n : Nat, |x.value| ≠ n) →
            places.chars.getLast? ≠ some '0'
              ∧ x.IsShortest (Lexeme.decimal whole (some places))) := by
  refine ⟨(Binary64.shownDecimal x.magnitude).whole,
    (Binary64.shownDecimal x.magnitude).fraction, Binary64.render_of_finite hx,
    Decimal.head?_whole _, fun n hn => ?_, fun hpart => ?_⟩
  · rw [Binary64.abs_value_eq_iff] at hn
    rw [Binary64.shownDecimal_of_whole hn]
    exact Decimal.chars_of_no_places _ rfl
  · rw [← Binary64.not_dvd_quanta_iff] at hpart
    have hplaces := (shortestDecimal_spec x.magnitude).1
    rw [Binary64.shownDecimal_of_part hpart, Decimal.decimal_written _ hplaces,
      Decimal.getLast?_fraction _ hplaces, ne_eq, Option.some.injEq, Nat.digitChar_eq_zero]
    exact ⟨digits_mod_ten hpart, Binary64.isShortest_shortestDecimal hx hpart⟩

/-- A tenth is no number of the format, but the number nearest to it is shown as
one, here with the other sign. -/
theorem render_finite_tenth :
    (⟨0xBFB999999999999A⟩ : Binary64).isFinite = true
      ∧ ∃ whole places : Digits,
        "-0.1" = "-" ++ String.ofList (whole.chars ++ '.' :: places.chars)
          ∧ Binary64.IsShortest ⟨0xBFB999999999999A⟩
              (Lexeme.decimal whole (some places)) := by
  have hfinite : (⟨0xBFB999999999999A⟩ : Binary64).isFinite = true := by decide
  obtain ⟨whole, places, htext, -, -, hpart⟩ := render_finite hfinite
  have hrender : (Literal.number ⟨0xBFB999999999999A⟩).render = "-0.1" := by
    decide +kernel
  have hneg : (⟨0xBFB999999999999A⟩ : Binary64).isNegative = true := by decide
  rw [hrender, hneg] at htext
  rw [← Binary64.not_dvd_quanta_iff] at hpart
  exact ⟨hfinite, whole, places, htext, (hpart (by decide +kernel)).2⟩

-- =================================================== read as it is shown

/-- A number with nothing behind it is read as its token. -/
theorem Lexeme.scanFrom_number (whole : Digits) (places : Option Digits) (line : Nat) :
    scanFrom line (number whole places).text
      = { tokens := [(number whole places).token line, .eof line], errors := [] } := by
  have hline : (number whole places).text.count '\n' = 0 :=
    count_newline_of_fits ((number whole places).fits []) (by simp [rule]) (by simp [rule])
      (by simp [rule])
  have hscan := (number whole places).scanFrom_text (stops_nil _ _) line
  rw [List.append_nil, hline, Nat.add_zero, scanFrom_nil] at hscan
  exact hscan

/-- What is shown behind the sign is read as the number without it. It is one
lexeme with nothing behind it, so it is one token. -/
theorem scanFrom_shown {x : Binary64} (hx : x.isFinite = true) (line : Nat) :
    scanFrom line (Binary64.shownDecimal x.magnitude).chars
      = { tokens := [⟨.number, String.ofList (Binary64.shownDecimal x.magnitude).chars,
            some (.number x.abs), line⟩, .eof line]
          errors := [] } := by
  rw [Decimal.chars_eq, Lexeme.scanFrom_number, Binary64.abs,
    ← Binary64.ofDecimal_shown (of_decide_eq_true hx)]
  rfl

/-- Whatever finite number is shown, it is read as itself, and its sign as the
operator in front of it. -/
theorem scan_render {x : Binary64} (hx : x.isFinite = true) :
    (x.isNegative = false →
        (scan (Literal.number x).render).errors = []
          ∧ (scan (Literal.number x).render).tokens
            = [⟨.number, (Literal.number x).render, some (.number x), 1⟩, .eof 1])
      ∧ (x.isNegative = true → ∃ digits : String,
        (Literal.number x).render = "-" ++ digits
          ∧ (scan (Literal.number x).render).errors = []
          ∧ (scan (Literal.number x).render).tokens
            = [⟨.operator .minus, "-", none, 1⟩,
                ⟨.number, digits, some (.number x.abs), 1⟩, .eof 1]) := by
  have hrender := Binary64.render_of_finite hx
  have hscan := scanFrom_shown hx
  generalize (Binary64.shownDecimal x.magnitude).chars = text at hrender hscan
  refine ⟨fun hsign => ?_, fun hsign => ⟨String.ofList text, ?_⟩⟩
  · rw [hsign, if_neg Bool.false_ne_true, String.empty_append] at hrender
    rw [hrender, scan_eq_scanFrom, String.toList_ofList, hscan,
      Binary64.abs_of_not_negative hsign]
    exact ⟨rfl, rfl⟩
  · -- the minus sign stops in front of anything but an equals sign
    rw [hsign, if_pos rfl] at hrender
    have hminus : Stops (.operator .minus) Operator.minus.spelling text :=
      ⟨fun h => Operator.noConfusion h, fun _ => by decide⟩
    have hread := (Lexeme.operator .minus).scanFrom_text hminus 1
    have hchars : ("-" ++ String.ofList text).toList
        = (Lexeme.operator .minus).text ++ text := by
      rw [String.toList_append, String.toList_ofList (l := text)]
      rfl
    rw [hscan] at hread
    rw [hrender, scan_eq_scanFrom, hchars, hread]
    exact ⟨rfl, rfl, rfl⟩

/-- The negative zero is shown with its sign, and read as an operator and the
zero without it. -/
theorem scan_render_negative_zero :
    (⟨0x8000000000000000⟩ : Binary64).isFinite = true
      ∧ ∃ digits : String,
        (Literal.number ⟨0x8000000000000000⟩).render = "-" ++ digits
          ∧ (scan (Literal.number ⟨0x8000000000000000⟩).render).errors = []
          ∧ (scan (Literal.number ⟨0x8000000000000000⟩).render).tokens
            = [⟨.operator .minus, "-", none, 1⟩,
                ⟨.number, digits, some (.number .zero), 1⟩, .eof 1] :=
  ⟨by decide, (scan_render (by decide)).2 (by decide)⟩

end LoxLexer
