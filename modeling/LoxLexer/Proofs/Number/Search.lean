/-
The search for the shortest decimal, one number of places after another.

# Stretches of rational numbers

What rounds to a magnitude is a stretch of numbers and not of decimals, and with
two numbers it contains all between them (`Stretch.Contains.convex`). That is
why two neighbours on a grid of decimals are enough to try
(`nearestWithPlaces?_spec`, `exists_nearestWithPlaces?`), and a number has so few
places itself that one of the tries succeeds (`shortestDecimal_spec`).

# Whole numbers

The numbers that are not whole are so small that the whole numbers among them
are all numbers of the format. So a stretch that contains a whole number is that
of a magnitude that is one (`Stretch.whole_of_contains`), and the search, which
begins with one place, misses nothing when it is only made for the others.
-/
import LoxLexer.Proofs.Number.Digits

namespace LoxLexer

-- ========================================================== stretches

/-- Decimals are compared in half quanta. -/
theorem Decimal.eq_value_iff {d : Decimal} {n : Nat} :
    (n : ℚ) / quantaPerUnit = 2 * d.value
      ↔ n * d.scale = d.digits * (2 * quantaPerUnit) := by
  rw [le_antisymm_iff, Decimal.le_value_iff, Decimal.value_le_iff, ← le_antisymm_iff]

namespace Stretch

/-- Whether a number is in a stretch: what `holds` is for decimals. -/
structure Contains (s : Stretch) (q : ℚ) : Prop where
  lo_le : (s.lo : ℚ) / quantaPerUnit ≤ 2 * q
  le_hi : 2 * q ≤ (s.hi : ℚ) / quantaPerUnit
  ends : (s.lo : ℚ) / quantaPerUnit = 2 * q ∨ (s.hi : ℚ) / quantaPerUnit = 2 * q →
    s.closed = true

theorem contains_iff {s : Stretch} {d : Decimal} :
    s.Contains d.value ↔ s.holds d = true := by
  rw [holds_iff, eq_comm (b := s.hi * d.scale), ← Decimal.le_value_iff,
    ← Decimal.value_le_iff, ← Decimal.eq_value_iff, ← Decimal.eq_value_iff]
  exact ⟨fun h => ⟨⟨h.lo_le, h.le_hi⟩, h.ends⟩, fun h => ⟨h.1.1, h.1.2, h.2⟩⟩

/-- With two numbers a stretch contains all between them, also where its ends do
not belong to it. -/
theorem Contains.convex {s : Stretch} {a b c : ℚ} (ha : s.Contains a)
    (hb : s.Contains b) (hac : a ≤ c) (hcb : c ≤ b) : s.Contains c := by
  have hlo := ha.lo_le
  have hhi := hb.le_hi
  refine ⟨by linarith, by linarith, fun hend => ?_⟩
  rcases hend with hend | hend
  · exact ha.ends (.inl (by linarith))
  · exact hb.ends (.inr (by linarith))

/-- A magnitude is in its own stretch. -/
theorem contains_quanta (m : Nat) :
    (ofMagnitude m).Contains ((quanta m : ℚ) / quantaPerUnit) := by
  have hbefore := strictMono_quanta_div.monotone (Nat.sub_le m 1)
  have hafter := strictMono_quanta_div (Nat.lt_succ_self m)
  dsimp only [Nat.succ_eq_add_one] at hbefore hafter
  refine ⟨?_, ?_, fun hend => ?_⟩
  · rw [cast_lo_div]
    linarith
  · rw [cast_hi_div]
    linarith
  · rw [cast_lo_div, cast_hi_div] at hend
    rcases hend with hend | hend
    · -- only zero has no magnitude before it
      have hsame : m - 1 = m :=
        strictMono_quanta_div.injective (by linarith)
      obtain rfl : m = 0 := by omega
      rfl
    · exact absurd hend (by linarith)

-- ======================================================= whole numbers

/-- From one magnitude to the next the quanta grow by more and more, or by as
much. So a number is not nearer to the one behind it than to the one before. -/
theorem two_mul_quanta_le (m : Nat) :
    2 * quanta (m + 1) ≤ quanta m + quanta (m + 1 + 1) := by
  obtain ⟨k, r, hk, hr, rfl⟩ := exists_mul_add m
  have hmore : (r + 1 + 1) * 2 ^ k ≤ quanta (k * fractionCount + (r + 1) + 1) :=
    le_quanta_succ (by omega) hr
  rw [Nat.add_assoc (k * fractionCount) r 1, quanta_mul_add (by omega) hr,
    quanta_mul_add hk hr.le]
  calc 2 * ((r + 1) * 2 ^ k) = r * 2 ^ k + (r + 1 + 1) * 2 ^ k := by ring
    _ ≤ _ := Nat.add_le_add_left hmore _

/-- A stretch reaches half of the last bit of a significand upwards, and no
further downwards. -/
theorem lo_hi {k r : Nat} (h : k = 0 ∨ fractionCount ≤ r) (h' : r < 2 * fractionCount) :
    2 * (r * 2 ^ k) ≤ (ofMagnitude (k * fractionCount + r)).lo + 2 ^ k
      ∧ (ofMagnitude (k * fractionCount + r)).hi = 2 * (r * 2 ^ k) + 2 ^ k := by
  have hquanta := quanta_mul_add h h'.le
  have hnext : quanta (k * fractionCount + r + 1) = r * 2 ^ k + 2 ^ k := by
    rw [Nat.add_assoc, quanta_mul_add (by omega) h', Nat.succ_mul]
  unfold ofMagnitude
  dsimp only
  rw [hnext, hquanta]
  refine ⟨?_, by omega⟩
  generalize k * fractionCount + r = m at hquanta hnext
  cases m with
  | zero =>
      rw [quanta_zero] at hquanta
      omega
  | succ n =>
      have hgrow := two_mul_quanta_le n
      rw [Nat.add_sub_cancel]
      omega

/-- Two multiples of a number that are no more than half of it apart are the
same. -/
private theorem eq_of_half {a b unit : Nat} (hpos : 0 < unit)
    (hab : 2 * (a * unit) ≤ 2 * (b * unit) + unit)
    (hba : 2 * (b * unit) ≤ 2 * (a * unit) + unit) : a = b := by
  have hle : ∀ {a b : Nat}, 2 * (a * unit) ≤ 2 * (b * unit) + unit → a ≤ b := by
    intro a b h
    by_contra hlt
    have hnext := Nat.mul_le_mul_right unit (Nat.lt_of_not_le hlt)
    rw [Nat.succ_mul] at hnext
    omega
  exact Nat.le_antisymm (hle hab) (hle hba)

/-- A stretch contains a whole number only if its magnitude is one; and it is
the same, unless it has more digits than there are. The last bit of the
significand is worth a power of two: either more than one, and then the
magnitude is whole by itself, or one at most, and then the whole number is a
multiple of it. -/
theorem whole_of_contains {m n : Nat} (h : (ofMagnitude m).Contains n) :
    quantaPerUnit ∣ quanta m ∧ (n < fractionCount → quanta m = n * quantaPerUnit) := by
  obtain ⟨k, r, hk, hr, rfl⟩ := exists_mul_add m
  obtain ⟨hbelow, habove⟩ := lo_hi hk hr
  have hlo : (ofMagnitude (k * fractionCount + r)).lo ≤ 2 * (n * quantaPerUnit) := by
    have hlo := h.lo_le
    rw [div_le_iff₀ quantaPerUnit_pos, mul_assoc] at hlo
    exact_mod_cast hlo
  have hhi : 2 * (n * quantaPerUnit) ≤ (ofMagnitude (k * fractionCount + r)).hi := by
    have hhi := h.le_hi
    rw [le_div_iff₀ quantaPerUnit_pos, mul_assoc] at hhi
    exact_mod_cast hhi
  rw [quanta_mul_add hk hr.le]
  rw [quantaPerUnit_eq] at hlo hhi ⊢
  generalize 1074 = unit at hlo hhi ⊢
  -- whether the last bit is worth more than a whole
  rcases Nat.lt_or_ge unit k with hlt | hge
  · refine ⟨(pow_dvd_pow 2 hlt.le).mul_left r, fun hn => ?_⟩
    -- the last bit is worth two or more, so the significand is not the larger
    have hfull : fractionCount ≤ r := hk.resolve_left (by omega)
    have hbit : 2 * 2 ^ unit ≤ 2 ^ k := by
      rw [← Nat.pow_succ']
      exact Nat.pow_le_pow_right two_pos hlt
    have hpos := Nat.two_pow_pos unit
    have hless : n * 2 ^ unit < r * 2 ^ unit :=
      Nat.mul_lt_mul_of_pos_right (by omega) hpos
    have hbits := Nat.mul_le_mul_left r hbit
    rw [Nat.mul_left_comm] at hbits
    have hone : 2 ^ k ≤ r * 2 ^ k := Nat.le_mul_of_pos_left _ (by omega)
    omega
  · obtain ⟨j, rfl⟩ := Nat.exists_eq_add_of_le hge
    have hbits : n * 2 ^ (k + j) = n * 2 ^ j * 2 ^ k := by ring
    rw [hbits] at hlo hhi ⊢
    -- a whole number has no bits below the last one of the significand
    obtain rfl : r = n * 2 ^ j :=
      eq_of_half (Nat.two_pow_pos k) (by omega) (by omega)
    exact ⟨⟨n, by ring⟩, fun _ => rfl⟩

end Stretch

-- ========================================================= the search

section Search

variable {m p : Nat} {d : Decimal}

open Stretch (ofMagnitude)

/-- What a magnitude leaves of the last place, in parts of it. -/
def beyondPlaces (m p : Nat) : Nat := quanta m * Nat.pow 10 p % quantaPerUnit

/-- Of the decimals with so many places, the last that is not above a
magnitude. -/
def decimalBelow (m p : Nat) : Decimal :=
  ⟨quanta m * Nat.pow 10 p / quantaPerUnit, p⟩

/-- And the next one. -/
def decimalAbove (m p : Nat) : Decimal :=
  ⟨quanta m * Nat.pow 10 p / quantaPerUnit + 1, p⟩

theorem value_decimalBelow (m p : Nat) :
    (decimalBelow m p).value
      = (quanta m : ℚ) / quantaPerUnit - beyondPlaces m p / (quantaPerUnit * 10 ^ p) := by
  have hsplit : (quantaPerUnit : ℚ) * (decimalBelow m p).digits + beyondPlaces m p
      = quanta m * 10 ^ p := by
    have hdiv := Nat.div_add_mod (quanta m * Nat.pow 10 p) quantaPerUnit
    exact_mod_cast hdiv
  have hpos := quantaPerUnit_pos
  have hplaces : (decimalBelow m p).places = p := rfl
  rw [Decimal.value, hplaces]
  field_simp
  linarith

theorem value_decimalAbove (m p : Nat) :
    (decimalAbove m p).value
      = (quanta m : ℚ) / quantaPerUnit
        + (quantaPerUnit - beyondPlaces m p) / (quantaPerUnit * 10 ^ p) := by
  have hnext : (decimalAbove m p).value = (decimalBelow m p).value + 1 / 10 ^ p := by
    have hdigits : ((decimalAbove m p).digits : ℚ) = (decimalBelow m p).digits + 1 :=
      Nat.cast_succ _
    rw [Decimal.value, Decimal.value, hdigits]
    exact add_div _ _ _
  have hpos := quantaPerUnit_pos
  rw [hnext, value_decimalBelow]
  field_simp
  ring

theorem beyondPlaces_lt (m p : Nat) : (beyondPlaces m p : ℚ) < quantaPerUnit := by
  have hpos : 0 < quantaPerUnit := by exact_mod_cast quantaPerUnit_pos
  exact_mod_cast Nat.mod_lt (quanta m * Nat.pow 10 p) hpos

theorem decimalBelow_le (m p : Nat) :
    (decimalBelow m p).value ≤ (quanta m : ℚ) / quantaPerUnit := by
  rw [value_decimalBelow]
  exact sub_le_self _ (by positivity)

theorem le_decimalAbove (m p : Nat) :
    (quanta m : ℚ) / quantaPerUnit ≤ (decimalAbove m p).value := by
  have hrest := sub_nonneg.2 (beyondPlaces_lt m p).le
  rw [value_decimalAbove]
  exact le_add_of_nonneg_right (by positivity)

/-- There is no other decimal with so many places between the two. -/
theorem le_decimalBelow_or (m p n : Nat) :
    (n : ℚ) / 10 ^ p ≤ (decimalBelow m p).value
      ∨ (decimalAbove m p).value ≤ (n : ℚ) / 10 ^ p := by
  rcases Nat.lt_or_ge n (decimalAbove m p).digits with hlt | hge
  · have hle : n ≤ (decimalBelow m p).digits := Nat.le_of_lt_succ hlt
    exact .inl (div_le_div_of_nonneg_right (Nat.cast_le.2 hle) (by positivity))
  · exact .inr (div_le_div_of_nonneg_right (Nat.cast_le.2 hge) (by positivity))

/-- What is left of the last place tells which of the two is nearer. So the
search decides by whole numbers what is said here of distances. -/
theorem nearer_iff (m p : Nat) :
    ((quanta m : ℚ) / quantaPerUnit - (decimalBelow m p).value
          ≤ (decimalAbove m p).value - (quanta m : ℚ) / quantaPerUnit
        ↔ 2 * beyondPlaces m p ≤ quantaPerUnit)
      ∧ ((decimalAbove m p).value - (quanta m : ℚ) / quantaPerUnit
          ≤ (quanta m : ℚ) / quantaPerUnit - (decimalBelow m p).value
        ↔ quantaPerUnit ≤ 2 * beyondPlaces m p) := by
  have hunit : (0 : ℚ) < quantaPerUnit * 10 ^ p :=
    mul_pos quantaPerUnit_pos (by positivity)
  rw [value_decimalBelow, value_decimalAbove, sub_sub_cancel, add_sub_cancel_left,
    div_le_div_iff_of_pos_right hunit, div_le_div_iff_of_pos_right hunit,
    le_sub_iff_add_le, sub_le_iff_le_add, ← two_mul]
  exact ⟨by exact_mod_cast Iff.rfl, by exact_mod_cast Iff.rfl⟩

/-- The one below is taken if it rounds to the magnitude, unless the one above
does as well and is not farther away. -/
theorem nearestWithPlaces?_eq (m p : Nat) :
    nearestWithPlaces? m p
      = if (ofMagnitude m).holds (decimalBelow m p) = true then
          if (ofMagnitude m).holds (decimalAbove m p) = true
              ∧ quantaPerUnit ≤ 2 * beyondPlaces m p then
            some (decimalAbove m p)
          else some (decimalBelow m p)
        else if (ofMagnitude m).holds (decimalAbove m p) = true then
          some (decimalAbove m p)
        else none := by
  unfold nearestWithPlaces?
  dsimp only
  rw [← decimalBelow, ← decimalAbove, ← beyondPlaces]
  cases (ofMagnitude m).holds (decimalBelow m p) with
  | false =>
      cases (ofMagnitude m).holds (decimalAbove m p)
      all_goals rfl
  | true =>
      cases (ofMagnitude m).holds (decimalAbove m p) with
      | false => rfl
      | true =>
          dsimp only
          split
          next hless => rw [if_pos rfl, if_neg (by omega)]
          next hmore => rw [if_pos rfl, if_pos ⟨rfl, by omega⟩]

/-- What rounds to a magnitude is not nearer than one of the two that does. It
is below the one or above the other, and what is between it and the magnitude
rounds to the magnitude too. -/
private theorem side_of_contains {n : Nat}
    (h : (ofMagnitude m).Contains ((n : ℚ) / 10 ^ p)) :
    ((ofMagnitude m).holds (decimalBelow m p) = true
        ∧ (quanta m : ℚ) / quantaPerUnit - (decimalBelow m p).value
          ≤ |(n : ℚ) / 10 ^ p - (quanta m : ℚ) / quantaPerUnit|)
      ∨ ((ofMagnitude m).holds (decimalAbove m p) = true
        ∧ (decimalAbove m p).value - (quanta m : ℚ) / quantaPerUnit
          ≤ |(n : ℚ) / 10 ^ p - (quanta m : ℚ) / quantaPerUnit|) := by
  have hwithin := Stretch.contains_quanta m
  rcases le_decimalBelow_or m p n with hn | hn
  · refine .inl ⟨Stretch.contains_iff.1 (h.convex hwithin hn (decimalBelow_le m p)), ?_⟩
    rw [abs_sub_comm]
    exact (sub_le_sub_left hn _).trans (le_abs_self _)
  · refine .inr ⟨Stretch.contains_iff.1 (hwithin.convex h (le_decimalAbove m p) hn), ?_⟩
    exact (sub_le_sub_right hn _).trans (le_abs_self _)

/-- A decimal that is found has so many places, rounds to the magnitude, and of
all with so many places that do is as near as any. -/
theorem nearestWithPlaces?_spec (h : nearestWithPlaces? m p = some d) :
    d.places = p ∧ (ofMagnitude m).Contains d.value
      ∧ ∀ n : Nat, (ofMagnitude m).Contains ((n : ℚ) / 10 ^ p) →
        |d.value - (quanta m : ℚ) / quantaPerUnit|
          ≤ |(n : ℚ) / 10 ^ p - (quanta m : ℚ) / quantaPerUnit| := by
  obtain ⟨hnearBelow, hnearAbove⟩ := nearer_iff m p
  have hdistBelow : |(decimalBelow m p).value - (quanta m : ℚ) / quantaPerUnit|
      = (quanta m : ℚ) / quantaPerUnit - (decimalBelow m p).value := by
    rw [abs_sub_comm, abs_of_nonneg (sub_nonneg.2 (decimalBelow_le m p))]
  have hdistAbove : |(decimalAbove m p).value - (quanta m : ℚ) / quantaPerUnit|
      = (decimalAbove m p).value - (quanta m : ℚ) / quantaPerUnit :=
    abs_of_nonneg (sub_nonneg.2 (le_decimalAbove m p))
  rw [nearestWithPlaces?_eq] at h
  -- the one above of two, the one below, and the one above alone
  split_ifs at h with hbelow hboth habove
  · cases h
    refine ⟨rfl, Stretch.contains_iff.2 hboth.1, fun n hn => ?_⟩
    rw [hdistAbove]
    rcases side_of_contains hn with ⟨-, hn⟩ | ⟨-, hn⟩
    · exact (hnearAbove.2 hboth.2).trans hn
    · exact hn
  · cases h
    refine ⟨rfl, Stretch.contains_iff.2 hbelow, fun n hn => ?_⟩
    rw [hdistBelow]
    rcases side_of_contains hn with ⟨-, hn⟩ | ⟨habove, hn⟩
    · exact hn
    · have hless : 2 * beyondPlaces m p < quantaPerUnit :=
        Nat.lt_of_not_le fun hmore => hboth ⟨habove, hmore⟩
      exact (hnearBelow.2 hless.le).trans hn
  · cases h
    refine ⟨rfl, Stretch.contains_iff.2 habove, fun n hn => ?_⟩
    rw [hdistAbove]
    rcases side_of_contains hn with ⟨hbelow', -⟩ | ⟨-, hn⟩
    · exact absurd hbelow' hbelow
    · exact hn

/-- One is found if there is any: of two neighbours on the grid, the one on the
side where it is. -/
theorem exists_nearestWithPlaces? {n : Nat}
    (h : (ofMagnitude m).Contains ((n : ℚ) / 10 ^ p)) :
    ∃ d, nearestWithPlaces? m p = some d := by
  rw [nearestWithPlaces?_eq]
  rcases side_of_contains h with ⟨hbelow, -⟩ | ⟨habove, -⟩
  · rw [if_pos hbelow]
    split
    all_goals exact ⟨_, rfl⟩
  · split
    · split
      all_goals exact ⟨_, rfl⟩
    · exact ⟨_, rfl⟩

/-- A magnitude written out in full is the number itself. It has 1074 places,
and this bounds the search. -/
theorem value_exactDecimal (m : Nat) :
    (exactDecimal m).value = (quanta m : ℚ) / quantaPerUnit := by
  unfold exactDecimal Decimal.value
  rw [cast_quantaPerUnit]
  dsimp only
  generalize 1074 = n
  have hten : (10 : ℚ) ^ n = 5 ^ n * 2 ^ n := by
    rw [← mul_pow]
    norm_num
  rw [Nat.pow_eq, Nat.cast_mul, Nat.cast_pow, hten, mul_comm, Nat.cast_ofNat]
  exact mul_div_mul_left _ _ (by positivity)

/-- The search always finds a decimal, with one place or more, and there is none
with fewer. -/
theorem shortestDecimal_spec (m : Nat) :
    0 < (shortestDecimal m).places
      ∧ nearestWithPlaces? m (shortestDecimal m).places = some (shortestDecimal m)
      ∧ ∀ q, 0 < q → q < (shortestDecimal m).places → nearestWithPlaces? m q = none := by
  have hfull : ∃ d, nearestWithPlaces? m 1074 = some d := by
    apply exists_nearestWithPlaces? (n := (exactDecimal m).digits)
    rw [show ((exactDecimal m).digits : ℚ) / 10 ^ 1074 = (exactDecimal m).value from rfl,
      value_exactDecimal]
    exact Stretch.contains_quanta m
  have hfound : ∃ d, (List.range' 1 1074).findSome? (nearestWithPlaces? m) = some d := by
    obtain ⟨d, hd⟩ := hfull
    rw [← Option.isSome_iff_exists, List.findSome?_isSome_iff]
    exact ⟨1074, List.mem_range'_1.2 (by omega), by rw [hd]; rfl⟩
  obtain ⟨d, hd⟩ := hfound
  have hshortest : shortestDecimal m = d := by
    rw [shortestDecimal, hd]
    rfl
  -- what was tried before the places where it was found gave nothing
  obtain ⟨front, q, rest, hrange, hq, hfront⟩ := List.findSome?_eq_some_iff.1 hd
  obtain ⟨k, -, hbefore, hbehind⟩ := List.range'_eq_append_iff.1 hrange
  obtain ⟨hfirst, -⟩ := List.range'_eq_cons_iff.1 hbehind.symm
  have hplaces : d.places = 1 + k := by
    rw [(nearestWithPlaces?_spec hq).1]
    omega
  rw [hshortest, hplaces]
  refine ⟨by omega, ?_, fun p hpos hlt => hfront p ?_⟩
  · rwa [show 1 + k = q by omega]
  · rw [hbefore]
    exact List.mem_range'_1.2 (by omega)

end Search

end LoxLexer
