/-
The binary64 number nearest to a fraction of natural numbers.

The fraction is measured in quanta. Its whole part tells how many of the
lowest bits have no room in a significand of 53; the quotient is rounded
once, at that place, so nothing is lost before the rounding. A half goes to
the even neighbour. A carry out of the significand lands on the next power
of two by itself, because consecutive magnitudes are consecutive numbers.
-/
import LoxLexer.Number.Binary64
import LoxLexer.Number.Decimal

namespace LoxLexer

/-- The whole number nearest to `num / den`; a half goes to the even one. -/
def roundQuotient (num den : Nat) : Nat :=
  let below := num / den
  let rest := num % den
  if 2 * rest < den ∨ (2 * rest = den ∧ below % 2 = 0) then below else below + 1

/-- The magnitude nearest to `num / den`, as if the format had no largest
number. -/
def nearestMagnitude (num den : Nat) : Nat :=
  let scaled := num * quantaPerUnit
  let dropped := (scaled / den).log2 - 52
  dropped * fractionCount + roundQuotient scaled (den <<< dropped)

namespace Binary64

/-- The number nearest to `num / den`; what would round past the largest
finite number is infinite. -/
def ofRatio (num den : Nat) : Binary64 :=
  ofMagnitude (min (nearestMagnitude num den) infiniteMagnitude)

/-- The number nearest to a decimal. -/
def ofDecimal (d : Decimal) : Binary64 := ofRatio d.digits d.scale

/-- The number nearest to what a text of digits, or digits with a point
and more digits, denotes. -/
def ofText? (text : String) : Option Binary64 :=
  (Decimal.ofChars? text.toList).map ofDecimal

end Binary64

end LoxLexer
