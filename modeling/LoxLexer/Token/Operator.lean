/-
The nineteen operators of Lox: brackets, punctuation, arithmetic and
comparison. Each is spelled with one or two characters, and where the text
allows both, the longer spelling is meant: `>=` is one operator.
-/

namespace LoxLexer

inductive Operator where
  | leftParen | rightParen | leftBrace | rightBrace
  | comma | dot | minus | plus | semicolon | slash | star
  | bang | bangEqual | equal | equalEqual
  | greater | greaterEqual | less | lessEqual
deriving DecidableEq, Repr

namespace Operator

/-- Every operator once. -/
def all : List Operator :=
  [leftParen, rightParen, leftBrace, rightBrace, comma, dot, minus, plus,
    semicolon, slash, star, bang, bangEqual, equal, equalEqual, greater,
    greaterEqual, less, lessEqual]

theorem mem_all (o : Operator) : o ∈ all := by cases o <;> decide

-- ========================================================== spelling

/-- The characters an operator is written with. -/
def spelling : Operator → List Char
  | leftParen => ['(']
  | rightParen => [')']
  | leftBrace => ['{']
  | rightBrace => ['}']
  | comma => [',']
  | dot => ['.']
  | minus => ['-']
  | plus => ['+']
  | semicolon => [';']
  | slash => ['/']
  | star => ['*']
  | bang => ['!']
  | bangEqual => ['!', '=']
  | equal => ['=']
  | equalEqual => ['=', '=']
  | greater => ['>']
  | greaterEqual => ['>', '=']
  | less => ['<']
  | lessEqual => ['<', '=']

/-- The operator with just this spelling. -/
def ofSpelling? (text : List Char) : Option Operator :=
  all.find? fun o => o.spelling == text

/-- The operator that a text starting with `first` and then `rest` begins
with: two characters are tried before one. -/
def leading? (first : Char) (rest : List Char) : Option Operator :=
  (rest.head?.bind fun second => ofSpelling? [first, second]).or (ofSpelling? [first])

-- ============================================================= names

/-- The category name shown in the output. -/
def name : Operator → String
  | leftParen => "LEFT_PAREN"
  | rightParen => "RIGHT_PAREN"
  | leftBrace => "LEFT_BRACE"
  | rightBrace => "RIGHT_BRACE"
  | comma => "COMMA"
  | dot => "DOT"
  | minus => "MINUS"
  | plus => "PLUS"
  | semicolon => "SEMICOLON"
  | slash => "SLASH"
  | star => "STAR"
  | bang => "BANG"
  | bangEqual => "BANG_EQUAL"
  | equal => "EQUAL"
  | equalEqual => "EQUAL_EQUAL"
  | greater => "GREATER"
  | greaterEqual => "GREATER_EQUAL"
  | less => "LESS"
  | lessEqual => "LESS_EQUAL"

-- =============================================== spelling and operator

/-- Reading a spelling finds the one operator that is written so. -/
theorem ofSpelling?_eq_some_iff {text : List Char} {o : Operator} :
    ofSpelling? text = some o ↔ o.spelling = text := by
  constructor
  · intro h
    have := List.find?_some h
    simpa using this
  · rintro rfl
    cases o <;> decide

end Operator

end LoxLexer
