/-
Reading a source text. Operators, strings, numbers and words give tokens,
strays and an open string give diagnostics, and everything else only
separates. The tokens end with the end of the input, whatever was wrong.

A token is placed on the line it starts on, also when it is a string over
several lines. An open string is reported on the line the text ends on.
-/
import LoxLexer.Token.Basic
import LoxLexer.Number.Nearest
import LoxLexer.Segment.Basic

namespace LoxLexer

-- ========================================================== diagnostics

/-- What can be wrong with a source text: a character that nothing in the
language starts with, or a string that is never closed. Neither stops the
reading. -/
inductive Fault where
  | unexpectedCharacter (char : Char)
  | unterminatedString
deriving DecidableEq, Repr

/-- A fault in words. -/
def Fault.message : Fault → String
  | .unexpectedCharacter char => "Unexpected character: " ++ char.toString
  | .unterminatedString => "Unterminated string."

/-- A fault and the line it is reported on: where the character stands, or
where the text ends inside the string. -/
structure Diagnostic where
  fault : Fault
  line : Nat
deriving DecidableEq, Repr

/-- A diagnostic as one line of the report. -/
def Diagnostic.render (d : Diagnostic) : String :=
  "[line " ++ toString d.line ++ "] Error: " ++ d.fault.message

-- ================================================= what a segment gives

namespace Segment

/-- The kind of token that a segment with a lexeme gives. -/
def kind? (lexeme : String) : Rule → Option Kind
  | .operator o => some (.operator o)
  | .string => some .string
  | .number => some .number
  | .word => some (.ofWord lexeme)
  | .comment | .blank | .newline | .openString | .stray => none

/-- The value of the token: of a string, the text between its quotes; of a
number, the nearest to what its digits denote. -/
def literal? (source : String) (g : Segment) : Option Literal :=
  match g.rule with
  | .string => some (.text (slice source (g.start + 1) (g.stop - 1)))
  | .number => some (.number ((Binary64.ofText? (g.text source)).getD .zero))
  | _ => none

/-- The token that a segment of the source gives. -/
def token? (source : String) (g : Segment) : Option Token :=
  let lexeme := g.text source
  (kind? lexeme g.rule).map fun kind => ⟨kind, lexeme, g.literal? source, g.line⟩

/-- The diagnostic that a segment of the source gives. -/
def diagnostic? (source : String) (g : Segment) : Option Diagnostic :=
  match g.rule with
  | .stray =>
    some ⟨.unexpectedCharacter ((g.text source).toList.head?.getD '\uFFFD'), g.line⟩
  | .openString => some ⟨.unterminatedString, g.endLine⟩
  | _ => none

end Segment

-- ============================================================ the scan

/-- What was read from a source text: tokens and diagnostics, each in the
order of the text. -/
structure Scan where
  tokens : List Token
  errors : List Diagnostic
deriving DecidableEq, Repr

namespace Scan

def hadError (s : Scan) : Bool := !s.errors.isEmpty

/-- The exit code for a text with lexical errors. -/
def lexicalErrorCode : Nat := 65

/-- The exit code that the errors call for. -/
def exitCode (s : Scan) : Nat := if s.hadError then lexicalErrorCode else 0

end Scan

/-- The line that a text ends on, given its segments. -/
def lastLine (cut : List Segment) : Nat := (cut.getLast?.map Segment.endLine).getD 1

/-- The tokens and diagnostics of a source text. -/
def scan (source : String) : Scan :=
  let cut := segments source
  { tokens := cut.filterMap (Segment.token? source) ++ [.eof (lastLine cut)]
    errors := cut.filterMap (Segment.diagnostic? source) }

end LoxLexer
