/-
Texts and their bytes.

Offsets into a text count the bytes of its UTF-8 form, and a part of the text
is taken between two offsets at which characters begin or the text ends; any
other pair of offsets has no part.

What the system hands over, arguments, variables and paths, are strings of
bytes. Mostly they are the UTF-8 form of a text, but they need not be, and
then they have no text; they can be shown all the same, with a replacement
character for each fault.
-/

namespace LoxLexer

-- ============================================================== slices

/-- The part of a text from one byte offset up to another, if both are
boundaries of characters in the text and the first is not behind the
second. -/
def slice? (text : String) (start stop : Nat) : Option String := do
  let first ← text.pos? ⟨start⟩
  let last ← text.pos? ⟨stop⟩
  (text.slice? first last).map String.Slice.copy

/-- The part between two boundaries. -/
def slice (text : String) (start stop : Nat) : String :=
  (slice? text start stop).getD ""

/-- The bytes of a text, each as the character of its number. A byte below
128 is that character of the text and nothing else; the larger ones occur
only inside the characters beyond ASCII. -/
def octets (text : String) : List Char :=
  text.toByteArray.data.toList.map Char.ofUInt8

/-- Whether a byte continues a character instead of beginning one. -/
def isContinuation (octet : Char) : Bool :=
  decide (0x80 ≤ octet.toNat ∧ octet.toNat < 0xC0)

-- =========================================================== UTF-8 forms

namespace Utf8

/-- The sequences of bytes that are characters, by the least and the greatest
value of each byte. -/
def sequences : List (List (Nat × Nat)) :=
  [[(0x00, 0x7F)],
    [(0xC2, 0xDF), (0x80, 0xBF)],
    [(0xE0, 0xE0), (0xA0, 0xBF), (0x80, 0xBF)],
    [(0xE1, 0xEC), (0x80, 0xBF), (0x80, 0xBF)],
    [(0xED, 0xED), (0x80, 0x9F), (0x80, 0xBF)],
    [(0xEE, 0xEF), (0x80, 0xBF), (0x80, 0xBF)],
    [(0xF0, 0xF0), (0x90, 0xBF), (0x80, 0xBF), (0x80, 0xBF)],
    [(0xF1, 0xF3), (0x80, 0xBF), (0x80, 0xBF), (0x80, 0xBF)],
    [(0xF4, 0xF4), (0x80, 0x8F), (0x80, 0xBF), (0x80, 0xBF)]]

/-- Whether bytes can be the first ones of a sequence. -/
def isOpening (bytes : List UInt8) : Bool :=
  sequences.any fun row =>
    decide (bytes.length ≤ row.length)
      && (bytes.zip row).all fun (b, least, greatest) =>
        decide (least ≤ b.toNat ∧ b.toNat ≤ greatest)

/-- How many bytes one replacement character stands for where no character
begins: as many as can be the first ones of a sequence, and otherwise one. -/
def faultLength (bytes : List UInt8) : Nat :=
  ([3, 2].find? fun count => isOpening (bytes.take count)).getD 1

/-- The characters of some bytes, with a replacement character for each
fault. -/
def shown : List UInt8 → List Char
  | [] => []
  | first :: rest =>
    match (first :: rest).toByteArray.utf8DecodeChar? 0 with
    | some c => c :: shown (rest.drop (c.utf8Size - 1))
    | none => '\uFFFD' :: shown (rest.drop (faultLength (first :: rest) - 1))
termination_by bytes => bytes.length
decreasing_by all_goals simp only [List.length_drop, List.length_cons]; omega

end Utf8

-- =================================================== strings of the system

/-- A string as the system hands it over. -/
@[ext]
structure OsString where
  bytes : List UInt8
deriving DecidableEq, Repr

namespace OsString

/-- A text as the system holds it. -/
def ofString (text : String) : OsString := ⟨text.toUTF8.data.toList⟩

/-- The text whose UTF-8 form a string is, if there is one. -/
def text? (s : OsString) : Option String := String.fromUTF8? ⟨s.bytes.toArray⟩

/-- A string as it is shown in the output. -/
def display (s : OsString) : String := String.ofList (Utf8.shown s.bytes)

end OsString

end LoxLexer
