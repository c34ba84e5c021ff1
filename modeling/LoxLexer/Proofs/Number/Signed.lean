/-
Numbers with a sign, and what they are nearest to.

A number and the one with the other sign are nearest to a rational number and
to the negative of it (`Binary64.IsNearest.neg`), so what is known of magnitudes
holds of all numbers.

What a number is nearest to (`Binary64.isNearest_of_contains`) and what its
stretch contains (`Binary64.contains_of_isNearest`) are the same, but at the ends
of the range: the largest finite number is nearest also to what becomes infinite,
and a zero to small numbers of either sign.
-/
import LoxLexer.Proofs.Number.Search

namespace LoxLexer

-- =============================================================== signs

namespace Binary64

variable {x : Binary64} {q : ℚ}

/-- The factor that the sign bit stands for. -/
def sign (x : Binary64) : ℚ := if x.isNegative then -1 else 1

/-- The number without its sign. -/
def abs (x : Binary64) : Binary64 := ofMagnitude x.magnitude

/-- The number with the other sign: one more in the highest bit of the pattern,
whose carry is lost. -/
def neg (x : Binary64) : Binary64 := ⟨x.bits + 0x8000000000000000⟩

theorem toNat_neg (x : Binary64) :
    x.neg.bits.toNat = (x.bits.toNat + signPlace) % 2 ^ 64 := UInt64.toNat_add _ _

@[simp] theorem neg_twice (x : Binary64) : x.neg.neg = x := by
  have hbits := x.bits.toNat_lt
  have heq : x.neg.neg.bits = x.bits := by
    apply UInt64.toNat_inj.1
    rw [toNat_neg, toNat_neg]
    unfold signPlace
    omega
  exact congrArg Binary64.mk heq

@[simp] theorem magnitude_neg (x : Binary64) : x.neg.magnitude = x.magnitude := by
  unfold magnitude
  rw [toNat_neg]
  unfold signPlace
  omega

theorem isNegative_neg (x : Binary64) : x.neg.isNegative = !x.isNegative := by
  have hbits := x.bits.toNat_lt
  unfold isNegative
  rw [toNat_neg, ← decide_not, decide_eq_decide]
  unfold signPlace
  omega

@[simp] theorem isFinite_neg (x : Binary64) : x.neg.isFinite = x.isFinite := by
  rw [isFinite, isFinite, magnitude_neg]

theorem sign_neg (x : Binary64) : x.neg.sign = -x.sign := by
  rw [sign, sign, isNegative_neg]
  cases x.isNegative with
  | true => exact (neg_neg 1).symm
  | false => rfl

theorem value_eq_sign_mul (x : Binary64) :
    x.value = x.sign * ((quanta x.magnitude : ℚ) / quantaPerUnit) := x.value_eq

@[simp] theorem value_neg (x : Binary64) : x.neg.value = -x.value := by
  rw [value_eq_sign_mul, value_eq_sign_mul, magnitude_neg, sign_neg, neg_mul]

theorem abs_sign (x : Binary64) : |x.sign| = 1 := by
  rw [sign]
  cases x.isNegative with
  | true => exact (abs_neg 1).trans abs_one
  | false => exact abs_one

theorem abs_value (x : Binary64) : |x.value| = (quanta x.magnitude : ℚ) / quantaPerUnit := by
  rw [value_eq_sign_mul, abs_mul, abs_sign, one_mul]
  exact abs_of_nonneg (div_nonneg (Nat.cast_nonneg _) quantaPerUnit_pos.le)

/-- What is nearest stays so with the other sign. To change the sign of all
numbers of the format changes no distance, and every number is one with its
sign changed. -/
theorem IsNearest.neg (h : x.IsNearest q) : x.neg.IsNearest (-q) := by
  have hdist : ∀ y : Binary64, |y.value - -q| = |y.neg.value - q| := by
    intro y
    rw [value_neg, ← abs_neg]
    congr 1
    ring
  refine ⟨?_, fun y hy => ?_, fun y hy hne heq => ?_⟩
  · rw [isFinite_neg, h.finite]
  · rw [hdist, hdist, neg_twice]
    exact h.le _ (y.isFinite_neg.trans hy)
  · rw [Nat.even_iff, significand_mod_two, magnitude_neg, ← significand_mod_two,
      ← Nat.even_iff]
    rw [hdist, hdist, neg_twice] at heq
    refine h.even _ (y.isFinite_neg.trans hy) (fun hsame => hne ?_) heq
    rw [value_neg, ← hsame, value_neg, neg_neg]

theorem sign_mul_sign (x : Binary64) : x.sign * x.sign = 1 := by
  rw [← abs_mul_abs_self, abs_sign, one_mul]

/-- Distances are those of magnitudes, when the sign is taken from both. -/
theorem abs_sub_value (x : Binary64) (q : ℚ) :
    |q - x.value| = |x.sign * q - (quanta x.magnitude : ℚ) / quantaPerUnit| := by
  rw [← one_mul |q - x.value|, ← x.abs_sign, ← abs_mul, mul_sub, value_eq_sign_mul,
    ← mul_assoc, sign_mul_sign, one_mul]

-- =============================================== numbers and stretches

/-- A number is nearest to all that its stretch contains, with its sign. For a
negative one it is said of the number without the sign, and carried over. -/
theorem isNearest_of_contains {d : Decimal} (hfinite : x.isFinite = true)
    (h : (Stretch.ofMagnitude x.magnitude).Contains d.value) :
    x.IsNearest (x.sign * d.value) := by
  rw [Stretch.contains_iff] at h
  cases hsign : x.isNegative with
  | false =>
      rw [sign, hsign, if_neg Bool.false_ne_true, one_mul]
      exact isNearest_of_holds hfinite hsign h
  | true =>
      have hneg : x.neg.isNegative = false := by rw [isNegative_neg, hsign, Bool.not_true]
      have hnearest := isNearest_of_holds (x.isFinite_neg.trans hfinite) hneg
        (x.magnitude_neg.symm ▸ h)
      rw [sign, hsign, if_pos rfl, neg_one_mul, ← x.neg_twice]
      exact hnearest.neg

/-- Of two numbers the larger is the nearer one from halfway on. Squares are
compared, so that there is no case for each side. -/
private theorem abs_sub_le_iff_of_lt {a b : ℚ} (h : a < b) (q : ℚ) :
    (|b - q| ≤ |a - q| ↔ a + b ≤ 2 * q) ∧ (|a - q| ≤ |b - q| ↔ 2 * q ≤ a + b) := by
  have hsquares : (a - q) ^ 2 - (b - q) ^ 2 = (b - a) * (2 * q - (a + b)) := by ring
  have hpos := sub_pos.2 h
  constructor
  · rw [← sq_le_sq, ← sub_nonneg, hsquares, mul_nonneg_iff_of_pos_left hpos, sub_nonneg]
  · rw [← sq_le_sq, ← sub_nonpos, hsquares, ← not_lt, mul_pos_iff_of_pos_left hpos,
      not_lt, sub_nonpos]

theorem isFinite_ofMagnitude {m : Nat} (h : m < infiniteMagnitude) :
    (ofMagnitude m).isFinite = true
      ∧ (ofMagnitude m).value = (quanta m : ℚ) / quantaPerUnit := by
  obtain ⟨hmagnitude, hsign⟩ :=
    magnitude_ofMagnitude (h.trans (show infiniteMagnitude < signPlace by decide))
  rw [isFinite, value_of_not_negative hsign, hmagnitude]
  exact ⟨decide_eq_true h, rfl⟩

/-- A number that shows no sign has none to lose. -/
theorem abs_of_not_negative (h : x.isNegative = false) : x.abs = x := by
  have hbits : x.magnitude = x.bits.toNat :=
    Nat.mod_eq_of_lt (Nat.lt_of_not_le (of_decide_eq_false h))
  rw [abs, ofMagnitude, hbits, UInt64.ofNat_toNat]

/-- Between two others a number without a sign is nearest only to what its stretch
contains. Both neighbours are numbers of the format, and it is at least as near
as either; that it has neighbours on both sides is what is asked of it. -/
theorem contains_of_isNearest_abs (hpos : 0 < x.magnitude)
    (hlast : x.magnitude + 1 < infiniteMagnitude) (h : x.abs.IsNearest q) :
    (Stretch.ofMagnitude x.magnitude).Contains q := by
  rw [abs] at h
  generalize x.magnitude = m at hpos hlast h
  obtain ⟨-, hx⟩ := isFinite_ofMagnitude (show m < infiniteMagnitude by omega)
  obtain ⟨hyFinite, hy⟩ := isFinite_ofMagnitude (show m - 1 < infiniteMagnitude by omega)
  obtain ⟨hzFinite, hz⟩ := isFinite_ofMagnitude hlast
  have hyx : (ofMagnitude (m - 1)).value < (ofMagnitude m).value := by
    rw [hx, hy]
    exact strictMono_quanta_div (Nat.sub_one_lt hpos.ne')
  have hxz : (ofMagnitude m).value < (ofMagnitude (m + 1)).value := by
    rw [hx, hz]
    exact strictMono_quanta_div (Nat.lt_succ_self m)
  -- to be nearer than a neighbour is to be on its own side of halfway
  obtain ⟨hlo, hlo'⟩ := abs_sub_le_iff_of_lt hyx q
  obtain ⟨hhi', hhi⟩ := abs_sub_le_iff_of_lt hxz q
  have hbefore := h.le _ hyFinite
  have hafter := h.le _ hzFinite
  have hclosed : Even (ofMagnitude m).significand → (Stretch.ofMagnitude m).closed = true := by
    have hbound : infiniteMagnitude < signPlace := by decide
    have hmagnitude := (magnitude_ofMagnitude (show m < signPlace by omega)).1
    rw [Nat.even_iff, significand_mod_two, hmagnitude, Stretch.ofMagnitude, beq_iff_eq]
    exact id
  refine ⟨?_, ?_, fun hend => hclosed ?_⟩
  · rw [Stretch.cast_lo_div, ← hx, ← hy]
    exact hlo.1 hbefore
  · rw [Stretch.cast_hi_div, ← hx, ← hz]
    exact hhi.1 hafter
  · rw [Stretch.cast_lo_div, Stretch.cast_hi_div, ← hx, ← hy, ← hz] at hend
    -- at an end of the stretch the neighbour is as near
    rcases hend with hend | hend
    · exact h.even _ hyFinite hyx.ne (le_antisymm (hlo'.2 hend.ge) hbefore)
    · exact h.even _ hzFinite hxz.ne' (le_antisymm (hhi'.2 hend.le) hafter)

/-- A number with a sign is so too, when the sign is taken from both. -/
theorem contains_of_isNearest (hpos : 0 < x.magnitude)
    (hlast : x.magnitude + 1 < infiniteMagnitude) (h : x.IsNearest q) :
    (Stretch.ofMagnitude x.magnitude).Contains (x.sign * q) := by
  cases hsign : x.isNegative with
  | false =>
      rw [sign, hsign, if_neg Bool.false_ne_true, one_mul]
      apply contains_of_isNearest_abs hpos hlast
      rwa [abs_of_not_negative hsign]
  | true =>
      have hneg : x.neg.isNegative = false := by rw [isNegative_neg, hsign, Bool.not_true]
      rw [sign, hsign, if_pos rfl, neg_one_mul]
      apply contains_of_isNearest_abs hpos hlast
      rw [abs, ← magnitude_neg, ← abs, abs_of_not_negative hneg]
      exact h.neg

end Binary64

end LoxLexer
