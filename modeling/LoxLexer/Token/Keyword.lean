/-
The sixteen reserved words of Lox. A word is reserved only as a whole and
only in lower case; `forest` and `While` are ordinary names.
-/

namespace LoxLexer

inductive Keyword where
  | and | «class» | «else» | false | «for» | «fun» | «if» | nil
  | or | print | «return» | super | this | true | var | while
deriving DecidableEq, Repr

namespace Keyword

/-- Every reserved word once. -/
def all : List Keyword :=
  [.and, .class, .else, .false, .for, .fun, .if, .nil,
    .or, .print, .return, .super, .this, .true, .var, .while]

theorem mem_all (k : Keyword) : k ∈ all := by cases k <;> decide

/-- The word itself. -/
def text : Keyword → String
  | .and => "and"
  | .class => "class"
  | .else => "else"
  | .false => "false"
  | .for => "for"
  | .fun => "fun"
  | .if => "if"
  | .nil => "nil"
  | .or => "or"
  | .print => "print"
  | .return => "return"
  | .super => "super"
  | .this => "this"
  | .true => "true"
  | .var => "var"
  | .while => "while"

/-- The category name shown in the output: the word in capitals. -/
def name (k : Keyword) : String := k.text.toUpper

/-- The reserved word that a text is, if it is one. -/
def ofText? (text : String) : Option Keyword := all.find? fun k => k.text == text

/-- Looking a text up finds the one reserved word that it is. -/
theorem ofText?_eq_some_iff {s : String} {k : Keyword} :
    ofText? s = some k ↔ k.text = s := by
  constructor
  · intro h
    have := List.find?_some h
    simpa using this
  · rintro rfl
    cases k <;> decide

end Keyword

end LoxLexer
