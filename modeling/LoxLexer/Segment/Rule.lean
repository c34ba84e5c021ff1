/-
The lexical rules of Lox: what a stretch of text can be, and how far the
stretch that a text begins with reaches.

Each rule takes as much as it can. Two slashes are a comment up to the end
of the line; a quote opens a string that runs to the next quote, over line
ends too, or to the end of the text; a point belongs to a number only if a
digit follows it. A character that no rule begins with is a stray.

Every character named by a rule is an ASCII character, so the rules can be
read on characters as well as on single bytes.
-/
import LoxLexer.Token.Operator

namespace LoxLexer

/-- What a stretch of text is. Both kinds of string begin with a quote; the
open one has no other. -/
inductive Rule where
  | operator (o : Operator)
  | comment
  | blank
  | newline
  | string
  | openString
  | number
  | word
  | stray
deriving DecidableEq, Repr

-- ================================================= character classes

/-- Spaces, tabs and carriage returns: they only separate. -/
def isBlank (c : Char) : Bool := c == ' ' || c == '\t' || c == '\r'

/-- What a word may start with. -/
def isWordStart (c : Char) : Bool := c.isAlpha || c == '_'

/-- What a word may go on with. -/
def isWordPart (c : Char) : Bool := c.isAlphanum || c == '_'

-- ============================================================ extents

/-- How much of a text behind a digit still belongs to the number: more
digits, and a point with digits behind it. -/
def numberRest (rest : List Char) : Nat :=
  let whole := (rest.takeWhile Char.isDigit).length
  match rest.dropWhile Char.isDigit with
  | '.' :: after =>
    let fraction := (after.takeWhile Char.isDigit).length
    if fraction = 0 then whole else whole + 1 + fraction
  | _ => whole

/-- The rule of the stretch at the front of a text with a first character
and a rest, and how much of the rest belongs to the stretch. -/
def leadingRule (first : Char) (rest : List Char) : Rule × Nat :=
  if isBlank first then (.blank, 0)
  else if first = '\n' then (.newline, 0)
  else if isWordStart first then (.word, (rest.takeWhile isWordPart).length)
  else if first.isDigit then (.number, numberRest rest)
  else if first = '"' then
    let inside := (rest.takeWhile (· != '"')).length
    match rest.dropWhile (· != '"') with
    | [] => (.openString, inside)
    | _ :: _ => (.string, inside + 1)
  else if first = '/' ∧ rest.head? = some '/' then
    (.comment, (rest.takeWhile (· != '\n')).length)
  else
    match Operator.leading? first rest with
    | some o => (.operator o, o.spelling.length - 1)
    | none => (.stray, 0)

end LoxLexer
