/-
The kinds of tokens: the operators, the reserved words, the three kinds
with a value or a name of their own, and the end of the input.
-/
import LoxLexer.Token.Operator
import LoxLexer.Token.Keyword

namespace LoxLexer

inductive Kind where
  | operator (o : Operator)
  | identifier
  | string
  | number
  | keyword (k : Keyword)
  | endOfInput
deriving DecidableEq, Repr

namespace Kind

/-- Every kind once. -/
def all : List Kind :=
  Operator.all.map operator ++ [identifier, string, number]
    ++ Keyword.all.map keyword ++ [endOfInput]

/-- The category name shown in the output. -/
def name : Kind → String
  | operator o => o.name
  | identifier => "IDENTIFIER"
  | string => "STRING"
  | number => "NUMBER"
  | keyword k => k.name
  | endOfInput => "EOF"

/-- The kind with a category name. -/
def ofName? (name : String) : Option Kind := all.find? fun kind => kind.name == name

/-- The kind of a word: reserved, or else an identifier. -/
def ofWord (word : String) : Kind := ((Keyword.ofText? word).map keyword).getD identifier

/-- A word is of the kind of a reserved word just when it is that word. -/
theorem ofWord_eq_keyword_iff {word : String} {k : Keyword} :
    ofWord word = keyword k ↔ word = k.text := by
  rw [eq_comm (a := word), ← Keyword.ofText?_eq_some_iff, ofWord]
  cases Keyword.ofText? word with
  | none => simp
  | some l => simp

/-- And it is an identifier just when it is none of them. -/
theorem ofWord_eq_identifier_iff {word : String} :
    ofWord word = identifier ↔ ∀ k : Keyword, word ≠ k.text := by
  have hread : Keyword.ofText? word = none ↔ ∀ k : Keyword, word ≠ k.text := by
    rw [Option.eq_none_iff_forall_ne_some]
    exact forall_congr' fun k => by rw [Ne, Keyword.ofText?_eq_some_iff, eq_comm]
  rw [← hread, ofWord]
  cases Keyword.ofText? word with
  | none => simp
  | some l => simp

end Kind

end LoxLexer
