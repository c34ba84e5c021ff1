/-
Tokens, the values that some of them carry, and the line that shows each
of them in the output: the category name, the lexeme and the value, with
one space between.
-/
import LoxLexer.Token.Kind
import LoxLexer.Number.Shortest

namespace LoxLexer

/-- The value of a number or string token. -/
inductive Literal where
  | number (value : Binary64)
  /-- The text between the quotes, as it stands. -/
  | text (value : String)
deriving DecidableEq, Repr

/-- A value as the output shows it; a text is shown as it is. -/
def Literal.render : Literal → String
  | .number x => x.render
  | .text s => s

/-- A token: its kind, the text it was read from, its value if it has one,
and the line it starts on, counted from 1. -/
structure Token where
  kind : Kind
  lexeme : String
  literal : Option Literal
  line : Nat
deriving DecidableEq, Repr

namespace Token

/-- The end of the input, on the last line. -/
def eof (line : Nat) : Token where
  kind := .endOfInput
  lexeme := ""
  literal := none
  line := line

/-- Category name, lexeme, and the value or the word `null`. -/
def render (t : Token) : String :=
  t.kind.name ++ " " ++ t.lexeme ++ " " ++ (t.literal.map Literal.render).getD "null"

end Token

end LoxLexer
