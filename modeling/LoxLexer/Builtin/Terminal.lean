/-
Text with escape sequences, as terminals understand them.

A text in a style has an escape sequence in front that switches the style on,
and another one behind that switches every style off.

Where no terminal reads it, the sequences vanish from a text, and so do all
control characters except those that lay it out. An escape character begins a
sequence wherever it stands, also inside another one. What follows it tells
how long the sequence is: one character with some marks before it, a control
sequence with parameters up to its final letter, a command up to a bell, or a
string that nothing but a new sequence or a cancel character ends. Characters
beyond ASCII are no part of any of these, and vanish inside of them.
-/
import LoxLexer.Text

namespace LoxLexer

-- =============================================================== styles

/-- A text in the style with a number. -/
def styled (style text : String) : String := "\x1b[" ++ style ++ "m" ++ text ++ "\x1b[0m"

/-- A text that stands out. -/
def bold (text : String) : String := styled "1" text

-- ========================================================= plain text

/-- Where a reader of a text stands with respect to escape sequences. -/
inductive SequenceState where
  | outside
  | escape
  | marked
  | control
  | command
  | string
deriving DecidableEq, Repr

namespace SequenceState

/-- The control characters that lay out a text. -/
def isLayout (c : Char) : Bool := c == '\t' || c == '\n' || c == '\x0c' || c == '\r'

/-- What a text consists of outside of sequences. -/
def isText (c : Char) : Bool :=
  isLayout c || decide (0x20 ≤ c.toNat ∧ c.toNat ≤ 0x7E) || decide (0x80 ≤ c.toNat)

/-- Whether one of the bytes of a character is the old string terminator,
which still ends a string in the middle of a character. -/
def holdsTerminator (c : Char) : Bool := (octets c.toString).contains '\x9c'

/-- How the sequence goes on that begins with an escape and a character. -/
def opened (c : Char) : SequenceState :=
  if c = '[' then control
  else if c = ']' then command
  else if c = 'P' ∨ c = 'X' ∨ c = '^' ∨ c = '_' then string
  else outside

/-- Reads a character: where the reader stands then, and whether the
character is shown. Layout inside a sequence of characters ends it. -/
def read (state : SequenceState) (c : Char) : SequenceState × Bool :=
  if c = '\x1b' then (escape, false)
  else if c = '\x18' ∨ c = '\x1a' then (outside, false)
  else
    let isMark := decide (0x20 ≤ c.toNat ∧ c.toNat ≤ 0x2F)
    let isParameter := decide (0x20 ≤ c.toNat ∧ c.toNat ≤ 0x3F)
    let isFinal := decide (0x30 ≤ c.toNat ∧ c.toNat ≤ 0x7E)
    match state with
    | outside => (outside, isText c)
    | escape =>
      if isLayout c then (outside, true)
      else if isMark then (marked, false)
      else if isFinal then (opened c, false)
      else (escape, false)
    | marked =>
      if isLayout c then (outside, true)
      else if isFinal then (outside, false)
      else (marked, false)
    | control =>
      if isLayout c then (outside, true)
      else if isFinal && !isParameter then (outside, false)
      else (control, false)
    | command => (if c = '\x07' then outside else command, false)
    | string => (if holdsTerminator c then outside else string, false)

/-- What is shown of the characters from a state on. -/
def shown (state : SequenceState) : List Char → List Char
  | [] => []
  | c :: rest =>
    let (next, isShown) := state.read c
    if isShown then c :: shown next rest else shown next rest

end SequenceState

/-- A text without its escape sequences. -/
def plain (text : String) : String :=
  String.ofList (SequenceState.shown .outside text.toList)

end LoxLexer
