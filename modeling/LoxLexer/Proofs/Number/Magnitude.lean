/-
What the bit patterns of the format stand for, and how their magnitudes
measure them.

The standard gives the number by the fields of a pattern: one sign bit, eleven
bits of an exponent and 52 of a fraction (`Binary64.value`). A magnitude is the
last two of these read as one whole number, and it measures the same number in
quanta (`Binary64.value_eq`).

From one magnitude to the next the quanta grow by a power of two
(`quanta_succ`). Up to and including the first magnitude of the next exponent
it is the same power, so that a significand may be as large as its carry
(`quanta_mul_add`).
-/
import Mathlib
import LoxLexer.Number.Binary64

namespace LoxLexer

theorem quantaPerUnit_eq : quantaPerUnit = 2 ^ 1074 := by
  unfold quantaPerUnit
  generalize 1074 = n
  exact Nat.one_shiftLeft n

theorem cast_quantaPerUnit : (quantaPerUnit : ℚ) = 2 ^ 1074 := by
  rw [quantaPerUnit_eq]
  generalize 1074 = n
  rw [Nat.cast_pow, Nat.cast_ofNat]

theorem quantaPerUnit_pos : (0 : ℚ) < quantaPerUnit := by
  rw [cast_quantaPerUnit]
  exact pow_pos two_pos _

-- ============================================================== quanta

@[simp] theorem quanta_zero : quanta 0 = 0 := rfl

/-- A significand `r` that is full, or has the least exponent, makes `r`
quanta, doubled once for each exponent above the least. It may be the carry:
then the magnitude has the next exponent, and the number is the same. -/
theorem quanta_mul_add {k r : Nat} (h : k = 0 ∨ fractionCount ≤ r)
    (h' : r ≤ 2 * fractionCount) :
    quanta (k * fractionCount + r) = r * 2 ^ k := by
  unfold quanta
  rcases Nat.lt_or_ge (k * fractionCount + r) fractionCount with hlt | hge
  · -- below the first full significand nothing is doubled
    rw [if_pos hlt]
    obtain rfl : k = 0 := h.resolve_right (by omega)
    omega
  · rw [if_neg (by omega), Nat.shiftLeft_eq]
    have hr : fractionCount ≤ r := by
      rcases h with rfl | h
      · omega
      · exact h
    rcases Nat.lt_or_eq_of_le h' with hlt | rfl
    · have hdiv : (k * fractionCount + r) / fractionCount = k + 1 := by
        unfold fractionCount at *
        omega
      have hmod : (k * fractionCount + r) % fractionCount = r - fractionCount := by
        unfold fractionCount at *
        omega
      rw [hdiv, hmod, Nat.add_sub_cancel' hr, Nat.add_sub_cancel]
    · -- the carry is the first fraction of the next exponent
      have hdiv : (k * fractionCount + 2 * fractionCount) / fractionCount = k + 2 := by
        unfold fractionCount
        omega
      have hmod : (k * fractionCount + 2 * fractionCount) % fractionCount = 0 := by
        unfold fractionCount
        omega
      rw [hdiv, hmod, show k + 2 - 1 = k + 1 from rfl, Nat.pow_succ]
      ring

/-- Every magnitude has an exponent and a significand. This form is taken by
all proofs about quanta, so that the quotient and the remainder that define
them are looked at only in `quanta_mul_add`. -/
theorem exists_mul_add (m : Nat) :
    ∃ k r, (k = 0 ∨ fractionCount ≤ r) ∧ r < 2 * fractionCount
      ∧ m = k * fractionCount + r := by
  refine ⟨m / fractionCount - 1, m - (m / fractionCount - 1) * fractionCount, ?_⟩
  unfold fractionCount
  omega

/-- The next magnitude has a power of two more quanta: the numbers of the
format grow with their magnitude, and in steps that double with the
exponent. -/
theorem quanta_succ (m : Nat) : ∃ k, quanta (m + 1) = quanta m + 2 ^ k := by
  obtain ⟨k, r, hk, hr, rfl⟩ := exists_mul_add m
  refine ⟨k, ?_⟩
  rw [Nat.add_assoc, quanta_mul_add (by omega) hr, quanta_mul_add hk hr.le,
    Nat.succ_mul]

/-- Behind a carry the quanta grow by more. -/
theorem le_quanta_succ {k r : Nat} (h : k = 0 ∨ fractionCount ≤ r)
    (h' : r ≤ 2 * fractionCount) :
    (r + 1) * 2 ^ k ≤ quanta (k * fractionCount + r + 1) := by
  rcases Nat.lt_or_eq_of_le h' with hlt | rfl
  · rw [Nat.add_assoc, quanta_mul_add (by omega) hlt]
  · have hcarry : k * fractionCount + 2 * fractionCount + 1
        = (k + 1) * fractionCount + (fractionCount + 1) := by
      ring
    rw [hcarry, quanta_mul_add (.inr (by omega)) (by decide), Nat.pow_succ',
      ← Nat.mul_assoc]
    exact Nat.mul_le_mul_right _ (by omega)

/-- So the order of the magnitudes is that of the numbers. -/
theorem quanta_strictMono : StrictMono quanta := by
  refine strictMono_nat_of_lt_succ fun m => ?_
  obtain ⟨k, hk⟩ := quanta_succ m
  have hpos := Nat.two_pow_pos k
  omega

theorem strictMono_quanta_div :
    StrictMono fun m => (quanta m : ℚ) / quantaPerUnit := fun _ _ h =>
  div_lt_div_of_pos_right (Nat.cast_lt.2 (quanta_strictMono h)) quantaPerUnit_pos

-- ======================================================== bit patterns

namespace Binary64

/-- The eleven bits below the sign. -/
def exponent (x : Binary64) : Nat := x.bits.toNat / 2 ^ 52 % 2 ^ 11

/-- The lowest 52 bits. -/
def fraction (x : Binary64) : Nat := x.bits.toNat % 2 ^ 52

/-- The fraction behind its leading bit, which is not stored: it is zero for
the exponent zero and one for any other. -/
def significand (x : Binary64) : Nat :=
  if x.exponent = 0 then x.fraction else 2 ^ 52 + x.fraction

/-- The number that a finite pattern stands for. The exponent has a bias of
1023 and the significand 52 binary places; the exponent zero counts as one. -/
def value (x : Binary64) : ℚ :=
  (if x.isNegative then -1 else 1) * x.significand
    * 2 ^ ((max x.exponent 1 : Nat) - 1023 - 52 : ℤ)

variable (x : Binary64)

/-- A magnitude is the exponent in front of the fraction. -/
theorem magnitude_eq : x.magnitude = x.exponent * fractionCount + x.fraction := by
  unfold magnitude exponent fraction signPlace fractionCount
  omega

theorem fraction_lt : x.fraction < fractionCount := Nat.mod_lt _ (by decide)

/-- A magnitude is made of the significand too, above the exponent that is the
least. -/
theorem magnitude_eq_significand :
    x.magnitude = (max x.exponent 1 - 1) * fractionCount + x.significand := by
  rw [magnitude_eq]
  unfold significand fractionCount
  split
  all_goals omega

/-- The significand is even where the magnitude is. -/
theorem significand_mod_two : x.significand % 2 = x.magnitude % 2 := by
  rw [magnitude_eq_significand]
  unfold fractionCount
  omega

/-- The number has as many quanta as its magnitude. It is defined by the fields
of the pattern, as the standard does, and from here on it is only measured. -/
theorem value_eq :
    x.value = (if x.isNegative then -1 else 1) * (quanta x.magnitude / quantaPerUnit) := by
  have hexponent : ((max x.exponent 1 : Nat) - 1023 - 52 : ℤ)
      = ((max x.exponent 1 - 1 : Nat) : ℤ) - (1074 : Nat) := by
    omega
  -- the exponents zero and one have the same steps, hence the maximum
  have hquanta : quanta x.magnitude = x.significand * 2 ^ (max x.exponent 1 - 1) := by
    rw [magnitude_eq_significand]
    have hfraction := x.fraction_lt
    apply quanta_mul_add
    all_goals
      unfold significand
      unfold fractionCount at *
      split
      all_goals omega
  rw [value, hexponent, zpow_sub₀ two_ne_zero, zpow_natCast, zpow_natCast, hquanta,
    cast_quantaPerUnit, Nat.cast_mul, Nat.cast_pow, Nat.cast_ofNat, mul_assoc,
    mul_div_assoc]

end Binary64

end LoxLexer
