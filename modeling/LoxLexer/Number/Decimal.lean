/-
Decimals with a fixed number of places, as they are written in a source
text and in the output: digits, or digits, a point and digits.

Reading accepts these two forms and no sign, exponent or bare point.
Rendering always shows a point with at least one digit after it, so a
decimal without places ends in `.0`.
-/

namespace LoxLexer

/-- The number `digits / 10 ^ places`. -/
structure Decimal where
  digits : Nat
  places : Nat
deriving DecidableEq, Repr

namespace Decimal

/-- How many units of the last place make one. -/
def scale (d : Decimal) : Nat := Nat.pow 10 d.places

-- =========================================================== reading

/-- Reads digits with or without a point and more digits behind it; the
number of places is the number of digits behind the point. -/
def ofChars? (text : List Char) : Option Decimal :=
  let whole := text.takeWhile Char.isDigit
  if whole.isEmpty then none
  else
    match text.dropWhile Char.isDigit with
    | [] => some ⟨Nat.ofDigitChars 10 whole 0, 0⟩
    | point :: fraction =>
      if point = '.' ∧ fraction ≠ [] ∧ fraction.all Char.isDigit then
        some ⟨Nat.ofDigitChars 10 (whole ++ fraction) 0, fraction.length⟩
      else none

-- ========================================================= rendering

/-- The whole part, a point, and the fraction filled up with zeros on its
left to as many digits as there are places. -/
def chars (d : Decimal) : List Char :=
  Nat.toDigits 10 (d.digits / d.scale)
    ++ '.' :: (Nat.toDigits 10 (d.digits % d.scale)).leftpad d.places '0'

end Decimal

end LoxLexer
