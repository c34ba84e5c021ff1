/-
How a number is written in the output. Whole numbers are written out
digit for digit, however large, with the fraction `0`; every other finite
number is the shortest decimal that reads back, never with an exponent.
A minus sign stands for the sign bit, also before a zero; NaN shows none.

The decimals that round to a magnitude fill the stretch from halfway to the
magnitude below up to halfway to the one above, measured here in half
quanta; its two ends belong to it exactly when the magnitude is even, since
a half goes to the even neighbour. For one place, two places and so on the
two multiples of that power of ten next to the number are tried: if any
multiple lies in the stretch, one of these two does. The first number of
places with a hit gives the fewest digits; of two hits the nearer is taken,
and of two equally near the larger. A finite number has at most 1074
places, so the search always ends with a hit.
-/
import LoxLexer.Number.Binary64
import LoxLexer.Number.Decimal

namespace LoxLexer

-- ==================================================== what rounds here

/-- The numbers that round to one magnitude: those between `lo` and `hi`,
in half quanta, with the ends or without them. -/
structure Stretch where
  lo : Nat
  hi : Nat
  closed : Bool

namespace Stretch

/-- What rounds to a magnitude above zero. -/
def ofMagnitude (magnitude : Nat) : Stretch where
  lo := quanta (magnitude - 1) + quanta magnitude
  hi := quanta magnitude + quanta (magnitude + 1)
  closed := magnitude % 2 == 0

/-- Whether the stretch holds a decimal. -/
def holds (s : Stretch) (d : Decimal) : Bool :=
  let halves := d.digits * (2 * quantaPerUnit)
  if s.closed then decide (s.lo * d.scale ≤ halves ∧ halves ≤ s.hi * d.scale)
  else decide (s.lo * d.scale < halves ∧ halves < s.hi * d.scale)

end Stretch

-- ========================================================= the search

/-- The decimal with so many places that is nearest to a magnitude, the
larger of two equally near, if there is one that rounds to it. -/
def nearestWithPlaces? (magnitude places : Nat) : Option Decimal :=
  let scaled := quanta magnitude * Nat.pow 10 places
  let below : Decimal := ⟨scaled / quantaPerUnit, places⟩
  let above : Decimal := ⟨scaled / quantaPerUnit + 1, places⟩
  let stretch := Stretch.ofMagnitude magnitude
  match stretch.holds below, stretch.holds above with
  | true, true =>
    if 2 * (scaled % quantaPerUnit) < quantaPerUnit then some below else some above
  | true, false => some below
  | false, true => some above
  | false, false => none

/-- The magnitude written out in full. -/
def exactDecimal (magnitude : Nat) : Decimal :=
  ⟨quanta magnitude * Nat.pow 5 1074, 1074⟩

/-- The decimal with the fewest places, at least one, that rounds to a
magnitude, and the nearest to it of those. -/
def shortestDecimal (magnitude : Nat) : Decimal :=
  ((List.range' 1 1074).findSome? (nearestWithPlaces? magnitude)).getD
    (exactDecimal magnitude)

-- ======================================================== what is shown

namespace Binary64

/-- The decimal shown for a finite magnitude. -/
def shownDecimal (magnitude : Nat) : Decimal :=
  if quanta magnitude % quantaPerUnit = 0 then ⟨quanta magnitude / quantaPerUnit, 0⟩
  else shortestDecimal magnitude

/-- The text of a number. -/
def render (x : Binary64) : String :=
  if x.isNaN then "NaN"
  else
    let sign := if x.isNegative then "-" else ""
    if x.isInfinite then sign ++ "inf"
    else sign ++ String.ofList (shownDecimal x.magnitude).chars

end Binary64

end LoxLexer
