/-
Decimals and the digits they are written with.

A text of digits and the number that it denotes determine each other, up to
zeros in front: of two texts of one length that denote the same number there is
one only (`eq_of_ofDigitChars_eq`), and without zeros in front a text is the
one that is written for its number (`toDigits_ofDigitChars`).

So what is shown of a decimal is a number lexeme (`Decimal.whole`,
`Decimal.fraction`), and it denotes the decimal again (`Decimal.value_written`).
-/
import LoxLexer.Proofs.Number.Nearest

namespace LoxLexer

-- ====================================================== texts of digits

section Texts

variable {text : List Char} {c : Char}

/-- A digit is written for what it denotes. -/
theorem digitChar_of_isDigit (h : c.isDigit = true) :
    c.toNat - '0'.toNat < 10 ∧ (c.toNat - '0'.toNat).digitChar = c := by
  have hrange := range_of_isDigit h
  have hlt : c.toNat - '0'.toNat < 10 := by
    rw [show '0'.toNat = 48 from rfl]
    omega
  refine ⟨hlt, Char.toNat_inj.1 ?_⟩
  rw [Nat.toNat_digitChar_of_lt_ten hlt, show '0'.toNat = 48 from rfl]
  omega

/-- The first digit counts for as many places as there are digits behind it. -/
theorem ofDigitChars_front (c : Char) (text : List Char) :
    Nat.ofDigitChars 10 (c :: text) 0
      = 10 ^ text.length * (c.toNat - '0'.toNat) + Nat.ofDigitChars 10 text 0 := by
  rw [Nat.ofDigitChars_cons, Nat.ofDigitChars_eq_ofDigitChars_zero, Nat.mul_zero,
    Nat.zero_add]

/-- Digits denote less than a one with as many zeros behind it. -/
theorem ofDigitChars_lt (h : ∀ c ∈ text, c.isDigit = true) :
    Nat.ofDigitChars 10 text 0 < 10 ^ text.length := by
  induction text with
  | nil => exact Nat.one_pos
  | cons c text ih =>
      rw [List.forall_mem_cons] at h
      have hrest := ih h.2
      have hfirst := Nat.mul_le_mul_left (10 ^ text.length)
        (Nat.le_of_lt_succ (digitChar_of_isDigit h.1).1)
      rw [ofDigitChars_front, List.length_cons, Nat.pow_succ]
      omega

/-- As many digits denote the same number only if they are the same. The number
is split at the first digit, which is its quotient by a power of ten. -/
theorem eq_of_ofDigitChars_eq (h : ∀ c ∈ text, c.isDigit = true) :
    ∀ {other : List Char}, (∀ c ∈ other, c.isDigit = true) →
      text.length = other.length →
      Nat.ofDigitChars 10 text 0 = Nat.ofDigitChars 10 other 0 → text = other := by
  induction text with
  | nil => exact fun _ hlength _ => (List.eq_nil_of_length_eq_zero hlength.symm).symm
  | cons c text ih =>
      intro other hother hlength heq
      cases other with
      | nil => cases hlength
      | cons d other =>
          rw [List.forall_mem_cons] at h hother
          obtain hlength := Nat.succ.inj hlength
          rw [ofDigitChars_front, ofDigitChars_front, ← hlength] at heq
          have hrest := ofDigitChars_lt h.2
          have hrest' := ofDigitChars_lt hother.2
          rw [← hlength] at hrest'
          -- what is behind the first digits is too small to make a difference
          have hfirst : c.toNat - '0'.toNat = d.toNat - '0'.toNat := by
            have hdiv := congrArg (· / 10 ^ text.length) heq
            simpa [Nat.mul_add_div, Nat.div_eq_of_lt, hrest, hrest'] using hdiv
          rw [hfirst] at heq
          rw [ih h.2 hother.2 hlength (Nat.add_left_cancel heq),
            ← (digitChar_of_isDigit h.1).2, hfirst, (digitChar_of_isDigit hother.1).2]

/-- Zeros in front denote nothing, so they can be left out or put there. -/
theorem ofDigitChars_dropWhile (text : List Char) :
    Nat.ofDigitChars 10 (text.dropWhile (· == '0')) 0 = Nat.ofDigitChars 10 text 0 := by
  induction text with
  | nil => rfl
  | cons c text ih =>
      by_cases hc : c = '0'
      · subst hc
        rw [List.dropWhile_cons_of_pos rfl, ih]
        rfl
      · rw [List.dropWhile_cons_of_neg (by simpa using hc)]

/-- Zeros behind count for as many places. -/
theorem ofDigitChars_zeros (text : List Char) (n : Nat) :
    Nat.ofDigitChars 10 (text ++ List.replicate n '0') 0
      = Nat.ofDigitChars 10 text 0 * 10 ^ n := by
  rw [Nat.ofDigitChars_append, Nat.ofDigitChars_replicate_zero, Nat.mul_comm]

/-- Behind what is left without its last zeros there are just these. How many
they were is all that is lost by leaving them out. -/
theorem exists_zeros (text : List Char) :
    ∃ n, text = text.rdropWhile (· == '0') ++ List.replicate n '0' := by
  have hzeros : text.rtakeWhile (· == '0')
      = List.replicate (text.rtakeWhile (· == '0')).length '0' :=
    List.eq_replicate_of_mem fun c hc =>
      beq_iff_eq.1 (List.mem_rtakeWhile_imp (p := (· == '0')) hc)
  have hsplit := List.rdropWhile_append_rtakeWhile (p := (· == '0')) (l := text)
  rw [hzeros] at hsplit
  exact ⟨_, hsplit.symm⟩

/-- The remainder by ten is the last digit. -/
theorem digitChar_ofDigitChars_mod (text : List Char) (h : c.isDigit = true) :
    (Nat.ofDigitChars 10 (text ++ [c]) 0 % 10).digitChar = c := by
  obtain ⟨hlt, hdigit⟩ := digitChar_of_isDigit h
  rw [Nat.ofDigitChars_append, Nat.ofDigitChars_cons, Nat.ofDigitChars_nil,
    Nat.mul_add_mod, Nat.mod_eq_of_lt hlt, hdigit]

/-- Digits without a zero in front are what is written for their number. The
induction takes off the last digit, as the writing does. -/
theorem toDigits_ofDigitChars (h : ∀ c ∈ text, c.isDigit = true) (hne : text ≠ [])
    (hzero : text.head? ≠ some '0') :
    Nat.toDigits 10 (Nat.ofDigitChars 10 text 0) = text := by
  induction text using List.reverseRecOn with
  | nil => exact absurd rfl hne
  | append_singleton front c ih =>
      obtain ⟨hfront, hc⟩ := List.forall_mem_append.1 h
      obtain ⟨hlt, hdigit⟩ := digitChar_of_isDigit (hc c List.mem_cons_self)
      rw [Nat.ofDigitChars_append, Nat.ofDigitChars_cons, Nat.ofDigitChars_nil]
      cases front with
      | nil =>
          rw [Nat.ofDigitChars_nil, Nat.mul_zero, Nat.zero_add,
            Nat.toDigits_of_lt_base hlt, hdigit]
          rfl
      | cons d front =>
          have hinit := ih hfront (List.cons_ne_nil _ _) hzero
          -- it does not denote zero, for then it would be written as one
          have hpos : 0 < Nat.ofDigitChars 10 (d :: front) 0 := by
            rw [Nat.pos_iff_ne_zero]
            intro hnone
            rw [hnone, Nat.toDigits_zero] at hinit
            rw [← hinit] at hzero
            exact hzero rfl
          rw [← Nat.toDigits_append_toDigits (by decide) hpos hlt, hinit,
            Nat.toDigits_of_lt_base hlt, hdigit]

/-- Filled up with zeros, a number is still written with digits. -/
theorem isDigit_of_mem_leftpad {n length : Nat}
    (h : c ∈ (Nat.toDigits 10 n).leftpad length '0') : c.isDigit = true := by
  rcases List.mem_append.1 h with h | h
  · rw [(List.mem_replicate.1 h).2]
    rfl
  · exact Nat.isDigit_of_mem_toDigits (by decide) (by decide) h

/-- Filled up with zeros to its own length, what is written for the number of a
text is the text. The digits behind a point are written so, for there the zeros
in front count. -/
theorem leftpad_toDigits (h : ∀ c ∈ text, c.isDigit = true) (hne : text ≠ []) :
    (Nat.toDigits 10 (Nat.ofDigitChars 10 text 0)).leftpad text.length '0' = text := by
  have hlength := (Nat.length_toDigits_le_iff (b := 10) (by decide)
    (List.length_pos_iff.2 hne)).2 (ofDigitChars_lt h)
  apply eq_of_ofDigitChars_eq
  · exact fun c hc => isDigit_of_mem_leftpad hc
  · exact h
  · rw [List.length_leftpad, Nat.max_eq_left hlength]
  · rw [List.leftpad, Nat.ofDigitChars_append, Nat.ofDigitChars_replicate_zero,
      Nat.mul_zero, Nat.ofDigitChars_ten_toDigits]

end Texts

-- ======================================================= written numbers

/-- Only zero is written with a zero in front. -/
theorem eq_zero_of_head?_toDigits {n : Nat}
    (h : (Nat.toDigits 10 n).head? = some '0') : n = 0 := by
  induction n using Nat.strongRecOn with
  | _ n ih =>
      rw [Nat.toDigits_eq_if (by decide)] at h
      split at h
      · exact Nat.digitChar_eq_zero.1 (Option.some.inj h)
      · rw [List.head?_append_of_ne_nil _ Nat.toDigits_ne_nil] at h
        have hnone := ih (n / 10) (by omega) h
        omega

/-- The last digit is the remainder by ten. -/
theorem getLast?_toDigits (n : Nat) :
    (Nat.toDigits 10 n).getLast? = some (n % 10).digitChar := by
  rw [Nat.toDigits_eq_if (by decide)]
  split
  next hlt => rw [Nat.mod_eq_of_lt hlt, List.getLast?_singleton]
  next => rw [List.getLast?_concat]

-- ===================================================== what is shown

namespace Decimal

variable (d : Decimal)

theorem scale_eq : d.scale = 10 ^ d.places := rfl

theorem scale_pos : 0 < d.scale := Nat.pow_pos (by decide)

/-- Zeros behind the last place change nothing: the decimal is another one, and
the number that it writes is the same. -/
theorem value_zeros (digits places n : Nat) :
    (⟨digits * 10 ^ n, places + n⟩ : Decimal).value = (⟨digits, places⟩ : Decimal).value := by
  rw [value, value, pow_add, Nat.cast_mul, Nat.cast_pow, Nat.cast_ofNat]
  exact mul_div_mul_right _ _ (by positivity)

/-- Without places the unit is one. -/
theorem scale_of_no_places (h : d.places = 0) : d.scale = 1 := by
  rw [scale_eq, h, Nat.pow_zero]

/-- The digits shown in front of the point. -/
def whole : Digits where
  chars := Nat.toDigits 10 (d.digits / d.scale)
  ne_nil := Nat.toDigits_ne_nil
  digits := fun _ hc => Nat.isDigit_of_mem_toDigits (by decide) (by decide) hc

/-- The digits shown behind the point. -/
def fraction : Digits where
  chars := (Nat.toDigits 10 (d.digits % d.scale)).leftpad d.places '0'
  ne_nil := List.append_ne_nil_of_right_ne_nil _ Nat.toDigits_ne_nil
  digits := fun _ hc => isDigit_of_mem_leftpad hc

/-- What is shown of a decimal is a number lexeme. So all that is known of
lexemes is known of it, and nothing has to be said of how it is read. -/
theorem chars_eq : d.chars = (Lexeme.number d.whole (some d.fraction)).text := rfl

theorem chars_whole : d.whole.chars = Nat.toDigits 10 (d.digits / d.scale) := rfl

theorem chars_fraction :
    d.fraction.chars
      = List.replicate (d.places - (Nat.toDigits 10 (d.digits % d.scale)).length) '0'
        ++ Nat.toDigits 10 (d.digits % d.scale) := rfl

theorem ofDigitChars_whole :
    Nat.ofDigitChars 10 d.whole.chars 0 = d.digits / d.scale :=
  Nat.ofDigitChars_ten_toDigits

theorem ofDigitChars_fraction :
    Nat.ofDigitChars 10 d.fraction.chars 0 = d.digits % d.scale := by
  rw [chars_fraction, Nat.ofDigitChars_append, Nat.ofDigitChars_replicate_zero,
    Nat.mul_zero, Nat.ofDigitChars_ten_toDigits]

/-- Behind the point there are as many digits as places. -/
theorem length_fraction (h : 0 < d.places) : d.fraction.chars.length = d.places := by
  have hle := (Nat.length_toDigits_le_iff (b := 10) (by decide) h).2
    (Nat.mod_lt d.digits d.scale_pos)
  exact List.length_leftpad.trans (Nat.max_eq_left hle)

/-- Without places all digits stand in front of the point and a zero behind it. -/
theorem chars_of_no_places (h : d.places = 0) :
    d.whole.chars = Nat.toDigits 10 d.digits ∧ d.fraction.chars = ['0'] := by
  rw [chars_whole, chars_fraction, d.scale_of_no_places h, Nat.div_one, Nat.mod_one, h,
    Nat.zero_sub, Nat.toDigits_zero]
  exact ⟨rfl, rfl⟩

/-- With places what is shown writes the decimal itself. -/
theorem decimal_written (h : 0 < d.places) :
    Lexeme.decimal d.whole (some d.fraction) = d := by
  have hdigits : Nat.ofDigitChars 10 (d.whole.chars ++ d.fraction.chars) 0 = d.digits := by
    rw [Nat.ofDigitChars_append, Nat.ofDigitChars_eq_ofDigitChars_zero,
      ofDigitChars_whole, ofDigitChars_fraction, d.length_fraction h, ← scale_eq,
      Nat.div_add_mod]
  rw [Lexeme.decimal, hdigits, d.length_fraction h]

/-- What is shown of a decimal denotes it. Without places a zero is shown behind
the point, which makes another decimal of the same value. -/
theorem value_written : (Lexeme.decimal d.whole (some d.fraction)).value = d.value := by
  rcases Nat.eq_zero_or_pos d.places with hnone | hpos
  · obtain ⟨hwhole, hfraction⟩ := d.chars_of_no_places hnone
    have hdigits := ofDigitChars_zeros d.whole.chars 1
    rw [hwhole, Nat.ofDigitChars_ten_toDigits] at hdigits
    calc (Lexeme.decimal d.whole (some d.fraction)).value
        = (⟨d.digits * 10 ^ 1, 0 + 1⟩ : Decimal).value := by
          rw [Lexeme.decimal, hwhole, hfraction, ← hdigits]
          rfl
      _ = (⟨d.digits, d.places⟩ : Decimal).value := by rw [value_zeros, hnone]
  · rw [d.decimal_written hpos]

/-- There are no superfluous zeros in front. -/
theorem head?_whole (h : d.whole.chars.head? = some '0') : d.whole.chars = ['0'] := by
  have hzero : d.digits / d.scale = 0 := eq_zero_of_head?_toDigits h
  rw [chars_whole, hzero, Nat.toDigits_zero]

/-- The last digit behind the point, if there are places, is the last digit. -/
theorem getLast?_fraction (h : 0 < d.places) :
    d.fraction.chars.getLast? = some (d.digits % 10).digitChar := by
  have hten : 10 ∣ d.scale := dvd_pow_self 10 h.ne'
  rw [chars_fraction, List.getLast?_append_of_ne_nil _ Nat.toDigits_ne_nil,
    getLast?_toDigits, Nat.mod_mod_of_dvd _ hten]

-- ================================================== significant digits

/-- How many digits a decimal is written with, without the zeros in front of
them and behind them. -/
def significant : Nat :=
  ((Nat.toDigits 10 d.digits).rdropWhile (· == '0')).length

/-- The digits of a decimal are its significant ones, and zeros behind. The
zeros in front are not digits of a number at all. -/
theorem exists_significant :
    ∃ r e, d.digits = r * 10 ^ e ∧ r < 10 ^ d.significant := by
  obtain ⟨e, he⟩ := exists_zeros (Nat.toDigits 10 d.digits)
  have hdigits := congrArg (Nat.ofDigitChars 10 · 0) he
  rw [ofDigitChars_zeros, Nat.ofDigitChars_ten_toDigits] at hdigits
  refine ⟨_, e, hdigits, ofDigitChars_lt fun c hc => ?_⟩
  have hmem : c ∈ Nat.toDigits 10 d.digits := (List.rdropWhile_prefix _ _).subset hc
  exact Nat.isDigit_of_mem_toDigits (by decide) (by decide) hmem

/-- Where no zero is last, all digits are significant. So the power of ten at
the first digit is known from their count. -/
theorem pow_significant_le (h : d.digits % 10 ≠ 0) :
    0 < d.significant ∧ 10 ^ (d.significant - 1) ≤ d.digits := by
  have hlast : (Nat.toDigits 10 d.digits).rdropWhile (· == '0')
      = Nat.toDigits 10 d.digits := by
    rw [List.rdropWhile_eq_self_iff]
    intro hne hzero
    have hdigit := getLast?_toDigits d.digits
    rw [List.getLast?_eq_some_getLast hne, Option.some.injEq] at hdigit
    rw [hdigit, beq_iff_eq, Nat.digitChar_eq_zero] at hzero
    exact h hzero
  rw [significant, hlast]
  refine ⟨Nat.length_toDigits_pos, ?_⟩
  by_contra hlt
  rcases Nat.lt_or_ge 1 (Nat.toDigits 10 d.digits).length with hmore | hone
  · have hle := (Nat.length_toDigits_le_iff (by decide) (Nat.sub_pos_of_lt hmore)).2
      (Nat.lt_of_not_le hlt)
    omega
  · rw [Nat.sub_eq_zero_of_le hone, Nat.pow_zero] at hlt
    omega

end Decimal

end LoxLexer
