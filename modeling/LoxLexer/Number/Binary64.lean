/-
The binary64 numbers of IEEE 754, as bit patterns and exact whole numbers.
No floating-point operation is used anywhere in the library.

A pattern is a sign bit above a magnitude of 63 bits. The magnitudes from
zero up to infinity are ordered as their numbers are, and each of them is a
whole number of quanta: a quantum is 2^-1074, the least positive number of
the format. So every question about a number (which decimal is nearest,
which decimals round to it) is one about natural numbers.
-/

namespace LoxLexer

/-- A binary64 number, given by its bit pattern. -/
structure Binary64 where
  bits : UInt64
deriving DecidableEq, Repr

-- ======================================================== magnitudes

/-- How many quanta of 2^-1074 make one. -/
def quantaPerUnit : Nat := 1 <<< 1074

/-- How many magnitudes share an exponent: 2^52. The bits of a magnitude
below this place are its fraction, those above it the exponent. -/
def fractionCount : Nat := 0x10000000000000

/-- The sign bit of a pattern: 2^63. -/
def signPlace : Nat := 0x8000000000000000

/-- The magnitude of the infinities; larger ones belong to NaN. -/
def infiniteMagnitude : Nat := 0x7FF0000000000000

/-- What a magnitude measures, in quanta. With the exponent zero it counts
them; otherwise the fraction has one more bit in front of it, and the
exponent tells how often that is doubled. The rule goes on past the largest
finite magnitude, so that one too has a neighbour above it: 2^1024. -/
def quanta (magnitude : Nat) : Nat :=
  if magnitude < fractionCount then magnitude
  else (fractionCount + magnitude % fractionCount) <<< (magnitude / fractionCount - 1)

namespace Binary64

-- ==================================================== parts of a number

/-- The pattern without its sign bit. -/
def magnitude (x : Binary64) : Nat := x.bits.toNat % signPlace

/-- Whether the sign bit is set; negative zero and some NaNs have it too. -/
def isNegative (x : Binary64) : Bool := decide (signPlace ≤ x.bits.toNat)

/-- Whether the number is no number. -/
def isNaN (x : Binary64) : Bool := decide (infiniteMagnitude < x.magnitude)

/-- Whether the number is one of the two infinities. -/
def isInfinite (x : Binary64) : Bool := x.magnitude == infiniteMagnitude

/-- Whether the number is neither infinite nor NaN. -/
def isFinite (x : Binary64) : Bool := decide (x.magnitude < infiniteMagnitude)

/-- The number without a sign of the given magnitude. -/
def ofMagnitude (magnitude : Nat) : Binary64 := ⟨UInt64.ofNat magnitude⟩

/-- Positive zero. -/
def zero : Binary64 := ofMagnitude 0

end Binary64

end LoxLexer
