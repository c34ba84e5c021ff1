/-
Which decimals round to a magnitude: those of its stretch and no others
(`nearestMagnitude_eq_iff`).

# What is rounded lies in the stretch

A fraction of quanta loses as many bits as it has too many, so what is left has
53 bits, or nothing was lost (`RoundsTo`). Half a unit of the last bit left is
half the way to the next magnitude, and mostly to the one before as well. Only
the first magnitude of an exponent has a nearer one before it, and what is
rounded to it from below would have had a bit to spare (`RoundsTo.lo_le`).

# Stretches do not overlap

One ends where the next begins, and of two neighbours one is odd and leaves
its ends to the other (`Stretch.eq_of_holds`).
-/
import LoxLexer.Proofs.Number.Magnitude
import LoxLexer.Number.Nearest
import LoxLexer.Number.Shortest

namespace LoxLexer

-- ========================================================== quotients

section Quotient

variable {num den : Nat}

/-- The nearest whole number is at most a half away, and even where it is a
half. All is doubled and multiplied by the divisor, so that there are no
fractions. -/
theorem roundQuotient_spec (num : Nat) (h : 0 < den) :
    (2 * (roundQuotient num den * den) ≤ 2 * num + den
        ∧ 2 * num ≤ 2 * (roundQuotient num den * den) + den)
      ∧ (2 * (roundQuotient num den * den) = 2 * num + den
          ∨ 2 * num = 2 * (roundQuotient num den * den) + den →
        roundQuotient num den % 2 = 0) := by
  have hnum := Nat.div_add_mod num den
  have hrest := Nat.mod_lt num h
  rw [Nat.mul_comm] at hnum
  unfold roundQuotient
  dsimp only
  split
  · omega
  · rw [Nat.add_mul (num / den) 1 den, Nat.one_mul]
    omega

/-- What a quotient reaches it still reaches when it is rounded. -/
theorem le_roundQuotient (h : 0 < den) {n : Nat} (hn : n * den ≤ num) :
    n ≤ roundQuotient num den := by
  have hle := (Nat.le_div_iff_mul_le h).2 hn
  unfold roundQuotient
  dsimp only
  split
  all_goals omega

/-- What a quotient does not reach it does not exceed when it is rounded. -/
theorem roundQuotient_le (h : 0 < den) {n : Nat} (hn : num < n * den) :
    roundQuotient num den ≤ n := by
  have hlt := (Nat.div_lt_iff_lt_mul h).2 hn
  unfold roundQuotient
  dsimp only
  split
  all_goals omega

end Quotient

-- ============================================================ rounding

/-- What a number has left when as many bits are dropped as it has above 53: a
significand that is full, if any bit is dropped, and never too large. -/
theorem log2_sub_spec (n : Nat) :
    (n.log2 - 52 = 0 ∨ fractionCount * 2 ^ (n.log2 - 52) ≤ n)
      ∧ n < 2 * fractionCount * 2 ^ (n.log2 - 52) := by
  have htwo : 2 * fractionCount = 2 ^ 53 := by decide
  have hone : fractionCount = 2 ^ 52 := by decide
  rw [htwo, hone, ← Nat.pow_add, ← Nat.pow_add]
  rcases Nat.lt_or_ge n.log2 53 with hlt | hge
  · have hk : n.log2 - 52 = 0 := by omega
    refine ⟨.inl hk, ?_⟩
    rw [hk]
    exact Nat.lt_of_lt_of_le Nat.lt_log2_self (Nat.pow_le_pow_right two_pos hlt)
  · have hn : n ≠ 0 := by
      rintro rfl
      exact absurd hge (by decide)
    refine ⟨.inr ?_, ?_⟩
    · rw [Nat.add_sub_cancel' (by omega)]
      exact Nat.log2_self_le hn
    · rw [show 53 + (n.log2 - 52) = n.log2 + 1 by omega]
      exact Nat.lt_log2_self

/-- A fraction of quanta rounds to a significand, with some bits dropped. -/
structure RoundsTo (num den dropped significand : Nat) : Prop where
  /-- All 53 bits are used, unless none is dropped. -/
  full : dropped = 0 ∨ fractionCount ≤ significand
  /-- Nothing but a carry goes beyond them. -/
  room : significand ≤ 2 * fractionCount
  /-- They are used before rounding as well. -/
  reached : dropped = 0 ∨ fractionCount * (den * 2 ^ dropped) ≤ num
  above : 2 * (significand * (den * 2 ^ dropped)) ≤ 2 * num + den * 2 ^ dropped
  below : 2 * num ≤ 2 * (significand * (den * 2 ^ dropped)) + den * 2 ^ dropped
  even : 2 * (significand * (den * 2 ^ dropped)) = 2 * num + den * 2 ^ dropped
      ∨ 2 * num = 2 * (significand * (den * 2 ^ dropped)) + den * 2 ^ dropped →
    significand % 2 = 0

/-- The nearest magnitude is made of what the fraction rounds to. From here on
the definition is not looked at again; all that counts is in `RoundsTo`. -/
theorem exists_roundsTo (num : Nat) {den : Nat} (h : 0 < den) :
    ∃ dropped significand, RoundsTo (num * quantaPerUnit) den dropped significand
      ∧ nearestMagnitude num den = dropped * fractionCount + significand := by
  unfold nearestMagnitude
  dsimp only
  generalize num * quantaPerUnit = scaled
  obtain ⟨hreached, hroom⟩ := log2_sub_spec (scaled / den)
  generalize (scaled / den).log2 - 52 = dropped at hreached hroom
  have hpos : 0 < den * 2 ^ dropped := Nat.mul_pos h (Nat.two_pow_pos dropped)
  rw [Nat.le_div_iff_mul_le h, Nat.mul_right_comm, Nat.mul_assoc] at hreached
  rw [Nat.div_lt_iff_lt_mul h, Nat.mul_right_comm, Nat.mul_assoc] at hroom
  rw [Nat.shiftLeft_eq]
  obtain ⟨⟨habove, hbelow⟩, heven⟩ := roundQuotient_spec scaled hpos
  exact ⟨dropped, roundQuotient scaled (den * 2 ^ dropped),
    ⟨hreached.imp_right (le_roundQuotient hpos), roundQuotient_le hpos hroom,
      hreached, habove, hbelow, heven⟩, rfl⟩

namespace RoundsTo

variable {num den dropped significand : Nat}

/-- It lies at or behind the beginning of the stretch. There are three cases:
zero, a magnitude whose neighbour before it is a last bit away, and the first
magnitude of an exponent, whose neighbour is nearer. -/
theorem lo_le (h : RoundsTo num den dropped significand) (hden : 0 < den) :
    (Stretch.ofMagnitude (dropped * fractionCount + significand)).lo * den ≤ 2 * num
      ∧ ((Stretch.ofMagnitude (dropped * fractionCount + significand)).lo * den = 2 * num →
        significand % 2 = 0) := by
  obtain ⟨hfull, hroom, hreached, habove, -, heven⟩ := h
  unfold Stretch.ofMagnitude
  dsimp only
  rw [quanta_mul_add hfull hroom]
  rcases significand with - | r
  · -- the least magnitude has none before it, and its stretch begins at zero
    obtain rfl : dropped = 0 := hfull.resolve_right (by decide)
    simp
  · by_cases hstep : dropped = 0 ∨ fractionCount ≤ r
    · rw [← Nat.add_assoc, Nat.add_sub_cancel, quanta_mul_add hstep (by omega)]
      have hhalf : 2 * ((r + 1) * (den * 2 ^ dropped))
          = (r * 2 ^ dropped + (r + 1) * 2 ^ dropped) * den + den * 2 ^ dropped := by
        ring
      omega
    · -- the magnitude before is nearer, but what is rounded is not below this one
      have hfirst : r + 1 = fractionCount := by omega
      have hbefore := quanta_strictMono
        (show dropped * fractionCount + (r + 1) - 1 < dropped * fractionCount + (r + 1) by omega)
      rw [quanta_mul_add hfull hroom] at hbefore
      have hlo := Nat.mul_lt_mul_of_pos_right
        (Nat.add_lt_add_right hbefore ((r + 1) * 2 ^ dropped)) hden
      have htwice : ((r + 1) * 2 ^ dropped + (r + 1) * 2 ^ dropped) * den
          = 2 * ((r + 1) * (den * 2 ^ dropped)) := by
        ring
      rw [← hfirst] at hreached
      omega

/-- It lies at or before the end of the stretch. There is no such case here, as
the neighbour behind is a last bit away, or more behind a carry. -/
theorem le_hi (h : RoundsTo num den dropped significand) :
    2 * num ≤ (Stretch.ofMagnitude (dropped * fractionCount + significand)).hi * den
      ∧ (2 * num = (Stretch.ofMagnitude (dropped * fractionCount + significand)).hi * den →
        significand % 2 = 0) := by
  obtain ⟨hfull, hroom, -, -, hbelow, heven⟩ := h
  unfold Stretch.ofMagnitude
  dsimp only
  rw [quanta_mul_add hfull hroom]
  -- half of the last bit is no more than half the way to the neighbour
  have hafter := Nat.mul_le_mul_right den (Nat.add_le_add_left
    (le_quanta_succ hfull hroom) (significand * 2 ^ dropped))
  have hhalf : (significand * 2 ^ dropped + (significand + 1) * 2 ^ dropped) * den
      = 2 * (significand * (den * 2 ^ dropped)) + den * 2 ^ dropped := by
    ring
  omega

end RoundsTo

-- =========================================================== stretches

namespace Stretch

variable {d : Decimal} {m n : Nat}

/-- A stretch holds what is between its ends, and the ends if it is closed. -/
theorem holds_iff {s : Stretch} :
    s.holds d = true ↔
      (s.lo * d.scale ≤ d.digits * (2 * quantaPerUnit)
          ∧ d.digits * (2 * quantaPerUnit) ≤ s.hi * d.scale)
        ∧ (s.lo * d.scale = d.digits * (2 * quantaPerUnit)
            ∨ d.digits * (2 * quantaPerUnit) = s.hi * d.scale →
          s.closed = true) := by
  unfold holds
  dsimp only
  split
  · rename_i hclosed
    simp [hclosed]
  · rename_i hopen
    rw [decide_eq_true_eq]
    simp only [hopen, Bool.false_eq_true, imp_false]
    omega

/-- The stretch of a magnitude has what rounds to it. At an end of it the
significand is even, hence the magnitude, and the ends belong to it. -/
theorem holds_nearestMagnitude (d : Decimal) :
    (ofMagnitude (nearestMagnitude d.digits d.scale)).holds d = true := by
  have hscale : 0 < d.scale := Nat.pow_pos (by decide)
  obtain ⟨k, r, h, hm⟩ := exists_roundsTo d.digits hscale
  -- the exponent counts an even number of magnitudes
  have heven : (k * fractionCount + r) % 2 = r % 2 := by
    unfold fractionCount
    omega
  have hhalves : d.digits * (2 * quantaPerUnit) = 2 * (d.digits * quantaPerUnit) := by
    ring
  obtain ⟨hlo, hloEven⟩ := h.lo_le hscale
  obtain ⟨hhi, hhiEven⟩ := h.le_hi
  rw [holds_iff, hm, hhalves]
  refine ⟨⟨hlo, hhi⟩, fun hend => ?_⟩
  rw [ofMagnitude, beq_iff_eq, heven]
  exact hend.elim hloEven hhiEven

theorem even_of_closed (h : (ofMagnitude m).closed = true) : m % 2 = 0 := by
  rwa [ofMagnitude, beq_iff_eq] at h

/-- What a stretch holds does not go beyond the beginning of the stretch of a
larger magnitude, and only an even magnitude reaches the one behind it. -/
theorem le_lo_of_holds (hm : (ofMagnitude m).holds d = true) (h : m < n) :
    d.digits * (2 * quantaPerUnit) ≤ (ofMagnitude n).lo * d.scale
      ∧ (d.digits * (2 * quantaPerUnit) = (ofMagnitude n).lo * d.scale →
        n = m + 1 ∧ m % 2 = 0) := by
  have hscale : 0 < d.scale := Nat.pow_pos (by decide)
  have hbefore : quanta m ≤ quanta (n - 1) := quanta_strictMono.monotone (by omega)
  have hafter : quanta (m + 1) ≤ quanta n := quanta_strictMono.monotone h
  have hends : (ofMagnitude m).hi * d.scale ≤ (ofMagnitude n).lo * d.scale :=
    Nat.mul_le_mul_right _ (Nat.add_le_add hbefore hafter)
  obtain ⟨⟨-, hhi⟩, hclosed⟩ := holds_iff.1 hm
  refine ⟨hhi.trans hends, fun heq => ⟨?_, ?_⟩⟩
  · have hmeet : (ofMagnitude m).hi = (ofMagnitude n).lo :=
      Nat.eq_of_mul_eq_mul_right hscale (by omega)
    unfold ofMagnitude at hmeet
    dsimp only at hmeet
    apply quanta_strictMono.injective
    omega
  · exact even_of_closed (hclosed (.inr (by omega)))

/-- A decimal is in one stretch only. Two stretches meet at an end at most, and
then they are those of neighbours, of which one does not own its ends. -/
theorem eq_of_holds (hm : (ofMagnitude m).holds d = true)
    (hn : (ofMagnitude n).holds d = true) : m = n := by
  wlog h : m < n generalizing m n
  · rcases Nat.lt_or_eq_of_le (Nat.le_of_not_lt h) with hlt | heq
    · exact (this hn hm hlt).symm
    · exact heq.symm
  · -- of two neighbours one is odd
    exfalso
    obtain ⟨hle, hmeet⟩ := le_lo_of_holds hm h
    obtain ⟨⟨hlo, -⟩, hclosed⟩ := holds_iff.1 hn
    obtain ⟨hnext, heven⟩ := hmeet (by omega)
    have heven' := even_of_closed (hclosed (.inl (by omega)))
    omega

/-- A decimal rounds to a magnitude just when its stretch holds it. So rounding
is known without an algorithm, and whatever finds a decimal in the stretch of a
number has found one that is read as the number. -/
theorem nearestMagnitude_eq_iff :
    nearestMagnitude d.digits d.scale = m ↔ (ofMagnitude m).holds d = true :=
  ⟨fun h => h ▸ holds_nearestMagnitude d, fun h => eq_of_holds (holds_nearestMagnitude d) h⟩

/-- A decimal rounds to an even magnitude or to a larger one just when it is
not before the beginning of its stretch. -/
theorem le_nearestMagnitude_iff (heven : m % 2 = 0) :
    m ≤ nearestMagnitude d.digits d.scale
      ↔ (ofMagnitude m).lo * d.scale ≤ d.digits * (2 * quantaPerUnit) := by
  have hholds := holds_nearestMagnitude d
  generalize nearestMagnitude d.digits d.scale = n at hholds
  constructor
  · intro hle
    have hlo : (ofMagnitude m).lo ≤ (ofMagnitude n).lo :=
      Nat.add_le_add (quanta_strictMono.monotone (Nat.sub_le_sub_right hle 1))
        (quanta_strictMono.monotone hle)
    exact (Nat.mul_le_mul_right d.scale hlo).trans (holds_iff.1 hholds).1.1
  · intro hlo
    by_contra hlt
    obtain ⟨hle, hmeet⟩ := le_lo_of_holds hholds (Nat.lt_of_not_le hlt)
    obtain ⟨hnext, heven'⟩ := hmeet (by omega)
    omega

end Stretch

end LoxLexer
