/-
A source text cut into segments. From the start of the text on, each
segment takes all the bytes that its rule allows, and the next one begins
where it ends, so the segments cover the text without gaps.

The cursor moves over bytes. Comments and strings run through the bytes of
any character, and stop only at bytes that are ASCII characters; a stray
takes its first byte and the continuation bytes behind it. So every segment
begins and ends between two characters, and the part of the text that it
covers always exists.
-/
import LoxLexer.Segment.Rule
import LoxLexer.Text

namespace LoxLexer

/-- A stretch of the source, from byte `start` up to byte `stop`, with the
line it starts on and the line it ends on. -/
structure Segment where
  rule : Rule
  start : Nat
  stop : Nat
  line : Nat
  endLine : Nat
deriving DecidableEq, Repr

namespace Segment

-- =========================================================== cutting

/-- The rule of the stretch that begins with a byte, and how many of the
bytes behind that one belong to it. A stray is one whole character. -/
def extent (first : Char) (rest : List Char) : Rule × Nat :=
  match leadingRule first rest with
  | (.stray, _) => (.stray, (rest.takeWhile isContinuation).length)
  | found => found

/-- The segment of a rule over some bytes at an offset and on a line. -/
def covering (rule : Rule) (offset line : Nat) (octets : List Char) : Segment where
  rule := rule
  start := offset
  stop := offset + octets.length
  line := line
  endLine := line + octets.count '\n'

/-- The segments of a text that continues at an offset and on a line. -/
def ofOctets (offset line : Nat) : List Char → List Segment
  | [] => []
  | first :: rest =>
    let found := extent first rest
    let g := covering found.1 offset line (first :: rest.take found.2)
    g :: ofOctets g.stop g.endLine (rest.drop found.2)
termination_by octets => octets.length
decreasing_by simp only [List.length_drop, List.length_cons]; omega

/-- The part of the source that a segment covers. -/
def text (source : String) (g : Segment) : String := slice source g.start g.stop

end Segment

/-- The segments of a source text, in order. -/
def segments (source : String) : List Segment := Segment.ofOctets 0 1 (octets source)

end LoxLexer
