/-
Why a run ends before any file is read: the arguments ask for a page, or
something is wrong with them or with the variables, or nothing is given.
-/
import LoxLexer.Builtin.Help

namespace LoxLexer.Command

/-- What is wrong with the arguments or the variables. -/
inductive Complaint where
  | unexpectedArgument (word : String)
  | unrecognizedSubcommand (word : String)
  | missingFile
  | emptyFile
  | repeatedFlag (flag : Flag)
  /-- An option that takes no value was given one. -/
  | unneededValue (value option : String)
  | invalidVariable (value : String) (flag : Flag)
  | emptyVariable (flag : Flag)
  | missingSubcommand
deriving DecidableEq, Repr

/-- A word that was given, in quotes and in a colour of its own. -/
def quoted (word : String) : String := "'" ++ styled "33" word ++ "'"

/-- A complaint in words, as it is shown on a terminal. -/
def Complaint.message : Complaint → String
  | unexpectedArgument word => "error: unexpected argument " ++ quoted word ++ " found"
  | unrecognizedSubcommand word => "error: unrecognized subcommand " ++ quoted word
  | missingFile => "error: the following required arguments were not provided:"
  | emptyFile => "error: a value is required for '<FILE>' but none was supplied"
  | repeatedFlag flag => "error: the argument '" ++ flag.name ++ "' cannot be used multiple times"
  | unneededValue value option =>
    "error: unexpected value " ++ quoted value ++ " for '" ++ option
      ++ "' found; no more were expected"
  | invalidVariable value flag =>
    "error: invalid value " ++ quoted value ++ " for '" ++ flag.name ++ "'"
  | emptyVariable flag =>
    "error: a value is required for '" ++ flag.name ++ "' but none was supplied"
  | missingSubcommand => "error: 'lox' requires a subcommand but one was not provided"

/-- How a run ends before any file is read. -/
inductive Halt where
  | page (page : Page)
  | reject (complaint : Complaint)
  /-- Nothing was asked for, so the overview is shown as an error. -/
  | nothingGiven
deriving DecidableEq, Repr

end LoxLexer.Command
