/-
The decimal that the search finds is the shortest one, for every number that is
not whole.

It has the fewest places of all that round to the number (`places_le`). These are
also the fewest significant digits: between a decimal with more places and fewer
digits and the one that was found there is a power of ten, which has fewer places
than either (`significant_le`). A decimal with as many digits has as many places,
or is below that power; and then there is one digit and the magnitude is one of
the least, where there are too few cases to be wrong (`nearest_of_significant`).
-/
import LoxLexer.Proofs.Number.Search

namespace LoxLexer

variable {m : Nat} {d : Decimal}

open Stretch (ofMagnitude)

-- ======================================================== fewest places

/-- Zero is whole. -/
theorem pos_of_part (hpart : ¬ quantaPerUnit ∣ quanta m) : 0 < m := by
  rw [Nat.pos_iff_ne_zero]
  rintro rfl
  exact hpart (dvd_zero _)

/-- The decimal that is found rounds to the magnitude. -/
theorem contains_shortestDecimal (m : Nat) :
    (ofMagnitude m).Contains (shortestDecimal m).value :=
  (nearestWithPlaces?_spec (shortestDecimal_spec m).2.1).2.1

/-- Of the decimals with as many places none is nearer. -/
theorem nearest_of_places {n : Nat}
    (h : (ofMagnitude m).Contains ((n : ℚ) / 10 ^ (shortestDecimal m).places)) :
    |(shortestDecimal m).value - (quanta m : ℚ) / quantaPerUnit|
      ≤ |(n : ℚ) / 10 ^ (shortestDecimal m).places - (quanta m : ℚ) / quantaPerUnit| :=
  (nearestWithPlaces?_spec (shortestDecimal_spec m).2.1).2.2 n h

/-- No other has fewer places, unless the number is whole. Fewer places were
tried before, except for none, and a decimal without places is a whole
number. -/
theorem places_le (hpart : ¬ quantaPerUnit ∣ quanta m)
    (h : (ofMagnitude m).Contains d.value) : (shortestDecimal m).places ≤ d.places := by
  by_contra hlt
  rcases Nat.eq_zero_or_pos d.places with hnone | hpos
  · rw [Decimal.value, hnone, pow_zero, div_one] at h
    exact hpart (Stretch.whole_of_contains h).1
  · obtain ⟨e, he⟩ := exists_nearestWithPlaces? h
    have hnone := (shortestDecimal_spec m).2.2 d.places hpos (Nat.lt_of_not_le hlt)
    rw [hnone] at he
    cases he

/-- So its last digit is not a zero, without which it would have fewer. -/
theorem digits_mod_ten (hpart : ¬ quantaPerUnit ∣ quanta m) :
    (shortestDecimal m).digits % 10 ≠ 0 := by
  have hpos := (shortestDecimal_spec m).1
  have hcontains := contains_shortestDecimal m
  generalize hd : shortestDecimal m = d at hpos hcontains
  intro hzero
  obtain ⟨n, hn⟩ := Nat.dvd_of_mod_eq_zero hzero
  obtain ⟨p, hp⟩ := Nat.exists_eq_succ_of_ne_zero hpos.ne'
  have hvalue : d.value = (⟨n, p⟩ : Decimal).value := by
    rw [← Decimal.value_zeros n p 1, Nat.pow_one, Nat.mul_comm, ← hn, ← Nat.succ_eq_add_one,
      ← hp]
  have hle := places_le hpart (hvalue ▸ hcontains)
  rw [hd, hp] at hle
  exact Nat.not_succ_le_self p hle

/-- Written with its significant digits only, a decimal still has as many places
as the one that was found. So digits and places can be compared with those of
the one that was found, whatever zeros there were. -/
theorem exists_significant_places (hpart : ¬ quantaPerUnit ∣ quanta m)
    (h : (ofMagnitude m).Contains d.value) :
    ∃ r p : Nat, d.value = (r : ℚ) / 10 ^ p ∧ r < 10 ^ d.significant
      ∧ (shortestDecimal m).places ≤ p := by
  obtain ⟨r, e, hdigits, hr⟩ := d.exists_significant
  rcases Nat.le_total d.places e with hle | hle
  · -- with so many zeros it would be whole
    obtain ⟨j, rfl⟩ := Nat.exists_eq_add_of_le' hle
    have hwhole : d.value = ((r * 10 ^ j : Nat) : ℚ) := by
      rw [Decimal.value, hdigits, Nat.pow_add, ← Nat.mul_assoc, Nat.cast_mul, Nat.cast_pow,
        Nat.cast_ofNat]
      exact mul_div_cancel_right₀ _ (by positivity)
    exact absurd (Stretch.whole_of_contains (hwhole ▸ h)).1 hpart
  · obtain ⟨p, hp⟩ := Nat.exists_eq_add_of_le hle
    have hshort : d.value = (⟨r, p⟩ : Decimal).value := by
      rw [← Decimal.value_zeros r p e, ← hdigits, Nat.add_comm, ← hp]
    exact ⟨r, p, hshort, hr, places_le hpart (d := ⟨r, p⟩) (hshort ▸ h)⟩

/-- The power of ten at the first digit of the decimal that was found has fewer
places, so nothing below it rounds to the magnitude, unless that digit is the
last as well. -/
theorem pow_significant_le_value (hpart : ¬ quantaPerUnit ∣ quanta m)
    (hmore : 1 < (shortestDecimal m).significant) (h : (ofMagnitude m).Contains d.value) :
    (10 : ℚ) ^ ((shortestDecimal m).significant - 1) / 10 ^ (shortestDecimal m).places
      ≤ d.value := by
  have hpos := (shortestDecimal_spec m).1
  have hcontains := contains_shortestDecimal m
  have hdigits := ((shortestDecimal m).pow_significant_le (digits_mod_ten hpart)).2
  have hfewest : ∀ e : Decimal, (ofMagnitude m).Contains e.value →
      (shortestDecimal m).places ≤ e.places := fun e he => places_le hpart he
  generalize shortestDecimal m = short at hpos hmore hcontains hdigits hfewest ⊢
  obtain ⟨s, hs⟩ := Nat.exists_eq_add_of_lt hmore
  obtain ⟨p, hp⟩ := Nat.exists_eq_succ_of_ne_zero hpos.ne'
  have hpower : (10 : ℚ) ^ (short.significant - 1) / 10 ^ short.places
      = (⟨10 ^ s, p⟩ : Decimal).value := by
    rw [hs, hp, Decimal.value, Nat.cast_pow, Nat.cast_ofNat, Nat.add_sub_cancel,
      Nat.add_comm, pow_succ', pow_succ']
    exact mul_div_mul_left _ _ (by norm_num)
  have hle : (10 : ℚ) ^ (short.significant - 1) / 10 ^ short.places ≤ short.value :=
    div_le_div_of_nonneg_right (by exact_mod_cast hdigits) (by positivity)
  by_contra hlt
  have hfewer := hfewest ⟨10 ^ s, p⟩
    (h.convex hcontains (hpower ▸ (not_le.1 hlt).le) (hpower ▸ hle))
  rw [hp] at hfewer
  exact Nat.not_succ_le_self p hfewer

/-- With no more digits and no fewer places a decimal is the smaller: its digits
stand below the first digit of the other. -/
private theorem div_pow_lt {r s t p q : Nat} (hr : r < 10 ^ s) (hs : s ≤ t)
    (hp : q ≤ p) : (r : ℚ) / 10 ^ p < 10 ^ t / 10 ^ q := by
  calc (r : ℚ) / 10 ^ p < 10 ^ s / 10 ^ p :=
        div_lt_div_of_pos_right (by exact_mod_cast hr) (by positivity)
    _ ≤ 10 ^ t / 10 ^ q :=
        div_le_div₀ (by positivity) (pow_le_pow_right₀ (by norm_num) hs) (by positivity)
          (pow_le_pow_right₀ (by norm_num) hp)

/-- No decimal with fewer significant digits rounds to the magnitude. It would
have as many places or more, and so be below the power of ten under which
nothing does. -/
theorem significant_le (hpart : ¬ quantaPerUnit ∣ quanta m)
    (h : (ofMagnitude m).Contains d.value) :
    (shortestDecimal m).significant ≤ d.significant := by
  obtain ⟨r, p, hvalue, hr, hp⟩ := exists_significant_places hpart h
  have hfirst := ((shortestDecimal m).pow_significant_le (digits_mod_ten hpart)).1
  by_contra hlt
  rcases Nat.lt_or_ge 1 (shortestDecimal m).significant with hmore | hone
  · have hpower := pow_significant_le_value hpart hmore h
    rw [hvalue] at hpower
    exact absurd hpower (not_le.2 (div_pow_lt hr (by omega) hp))
  · -- without a digit there is only zero
    obtain rfl : r = 0 := by
      rw [show d.significant = 0 by omega, Nat.pow_zero] at hr
      omega
    have hzero : d.value = ((0 : Nat) : ℚ) := by
      rw [hvalue, Nat.cast_zero, zero_div]
    exact hpart (Stretch.whole_of_contains (hzero ▸ h)).1

/-- A stretch is narrow: only of the least magnitudes it reaches from nine
tenths of a number to the whole of it. -/
theorem lt_ten_of_contains {q : ℚ} (hlo : (ofMagnitude m).Contains (9 * q))
    (hhi : (ofMagnitude m).Contains (10 * q)) : m < 10 := by
  have hlo := hlo.lo_le
  have hhi := hhi.le_hi
  have hratio : 10 * (ofMagnitude m).lo ≤ 9 * (ofMagnitude m).hi := by
    rw [div_le_iff₀ quantaPerUnit_pos] at hlo
    rw [le_div_iff₀ quantaPerUnit_pos] at hhi
    have hratio : (10 : ℚ) * (ofMagnitude m).lo ≤ 9 * (ofMagnitude m).hi := by
      linarith
    exact_mod_cast hratio
  obtain ⟨k, r, hk, hr, rfl⟩ := exists_mul_add m
  obtain ⟨hbelow, habove⟩ := Stretch.lo_hi hk hr
  have hbits : 2 * (r * 2 ^ k) ≤ 19 * 2 ^ k := by omega
  have hfew : r < 10 := by
    have hle : 2 * r ≤ 19 := by
      apply Nat.le_of_mul_le_mul_right _ (Nat.two_pow_pos k)
      rwa [Nat.mul_assoc]
    omega
  obtain rfl : k = 0 := hk.resolve_right (by unfold fractionCount; omega)
  omega

/-- Where one of the least magnitudes is found below a power of ten, it is very
near to it. There are nine of them, and they are looked at one by one. -/
theorem near_of_lt_ten (h : m < 10) (hpos : 0 < m)
    (hlt : (quanta m : ℚ) / quantaPerUnit < 1 / 10 ^ (shortestDecimal m).places) :
    19 / 10 ^ ((shortestDecimal m).places + 1)
      ≤ 2 * ((quanta m : ℚ) / quantaPerUnit) := by
  have hcases : ∀ n < 10, 0 < n →
      quanta n * 10 ^ (shortestDecimal n).places < quantaPerUnit →
      19 * quantaPerUnit ≤ 2 * quanta n * 10 ^ ((shortestDecimal n).places + 1) := by
    decide +kernel
  rw [div_lt_div_iff₀ quantaPerUnit_pos (by positivity), one_mul] at hlt
  rw [← mul_div_assoc, div_le_div_iff₀ (by positivity) quantaPerUnit_pos]
  exact_mod_cast hcases m h hpos (by exact_mod_cast hlt)

/-- Where a stretch contains a one in the last place, nothing below it that has
more places is nearer than what was found. If the magnitude is above the one,
that is nearer than anything below; if not, it is one of the least, and so near
to the one that the mean of the two is still below it. -/
theorem nearest_of_below (hpart : ¬ quantaPerUnit ∣ quanta m)
    (h : (ofMagnitude m).Contains d.value)
    (hone : (ofMagnitude m).Contains (1 / 10 ^ (shortestDecimal m).places))
    (hbelow : d.value ≤ 9 / 10 ^ ((shortestDecimal m).places + 1)) :
    |(shortestDecimal m).value - (quanta m : ℚ) / quantaPerUnit|
      ≤ |d.value - (quanta m : ℚ) / quantaPerUnit| := by
  have hfound : |(shortestDecimal m).value - (quanta m : ℚ) / quantaPerUnit|
      ≤ |1 / 10 ^ (shortestDecimal m).places - (quanta m : ℚ) / quantaPerUnit| := by
    have hfound := nearest_of_places (m := m) (n := 1)
    rw [Nat.cast_one] at hfound
    exact hfound hone
  refine hfound.trans (le_trans ?_ (neg_le_abs _))
  have hleast := fun hm => near_of_lt_ten (m := m) hm (pos_of_part hpart)
  generalize (shortestDecimal m).places = p at hone hbelow hleast ⊢
  generalize hx : (quanta m : ℚ) / quantaPerUnit = x at hleast ⊢
  have hten : (1 : ℚ) / 10 ^ p = 10 * (1 / 10 ^ (p + 1)) := by
    rw [pow_succ]
    field_simp
  have hnine : (9 : ℚ) / 10 ^ (p + 1) = 9 * (1 / 10 ^ (p + 1)) := by ring
  have hmean : (19 : ℚ) / 10 ^ (p + 1) = 19 * (1 / 10 ^ (p + 1)) := by ring
  have hunit : (0 : ℚ) < 1 / 10 ^ (p + 1) := by positivity
  rw [hten] at hone hleast ⊢
  rw [hnine] at hbelow
  rw [hmean] at hleast
  -- all in units of the place behind the last
  generalize (1 : ℚ) / 10 ^ (p + 1) = u at hone hbelow hleast hunit ⊢
  rcases le_or_gt (10 * u) x with hle | hgt
  · rw [abs_sub_comm, abs_of_nonneg (by linarith)]
    linarith
  · have hnear := hleast (lt_ten_of_contains
      (h.convex hone hbelow (by linarith)) hone) hgt
    rw [abs_of_nonneg (by linarith)]
    linarith

/-- Of the decimals with as many significant digits that round to the magnitude
none is nearer. With as many places it was compared by the search; with more it
is smaller by a digit, which only a decimal of one digit can be. -/
theorem nearest_of_significant (hpart : ¬ quantaPerUnit ∣ quanta m)
    (h : (ofMagnitude m).Contains d.value)
    (hsignificant : d.significant = (shortestDecimal m).significant) :
    |(shortestDecimal m).value - (quanta m : ℚ) / quantaPerUnit|
      ≤ |d.value - (quanta m : ℚ) / quantaPerUnit| := by
  obtain ⟨r, p, hvalue, hr, hp⟩ := exists_significant_places hpart h
  have hlast := digits_mod_ten hpart
  rw [hsignificant] at hr
  rcases Nat.lt_or_eq_of_le hp with hlt | rfl
  · rcases Nat.lt_or_ge 1 (shortestDecimal m).significant with hmore | hone
    · -- with more places it is below the power of ten at the first digit
      have hpower := pow_significant_le_value hpart hmore h
      rw [hvalue, ← mul_div_mul_right _ _ (show (10 : ℚ) ≠ 0 by norm_num), ← pow_succ,
        ← pow_succ, Nat.sub_add_cancel (by omega)] at hpower
      exact absurd hpower (not_le.2 (div_pow_lt hr le_rfl hlt))
    · -- one digit, and a place further down than the one that was found
      have hr : r ≤ 9 := by
        have hfirst := ((shortestDecimal m).pow_significant_le hlast).1
        rw [show (shortestDecimal m).significant = 1 by omega] at hr
        omega
      have hbelow : d.value ≤ 9 / 10 ^ ((shortestDecimal m).places + 1) := by
        rw [hvalue]
        exact div_le_div₀ (by norm_num) (by exact_mod_cast hr) (by positivity)
          (pow_le_pow_right₀ (by norm_num) hlt)
      have hpower : (9 : ℚ) / 10 ^ ((shortestDecimal m).places + 1)
          ≤ 1 / 10 ^ (shortestDecimal m).places := by
        rw [pow_succ', div_mul_eq_div_div]
        exact div_le_div_of_nonneg_right (by norm_num) (by positivity)
      have hdigit : (1 : ℚ) / 10 ^ (shortestDecimal m).places
          ≤ (shortestDecimal m).value := by
        have hpos : 1 ≤ (shortestDecimal m).digits := by omega
        exact div_le_div_of_nonneg_right (by exact_mod_cast hpos) (by positivity)
      exact nearest_of_below hpart h
        (h.convex (contains_shortestDecimal m) (hbelow.trans hpower) hdigit) hbelow
  · rw [hvalue]
    exact nearest_of_places (hvalue ▸ h)

end LoxLexer
