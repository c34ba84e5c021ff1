/-
The pages that the command shows about itself. The names of options stand
out, and next to each flag stands the variable for it, with its value if it
is set.
-/
import LoxLexer.Command.Libraries
import LoxLexer.Builtin.Terminal

namespace LoxLexer.Command

inductive Page where
  /-- The command with its subcommands. -/
  | overview
  /-- The subcommand `tokenize`, in brief or in full. -/
  | tokenize (full : Bool)
  /-- The subcommand `help`. -/
  | help
  | version
deriving DecidableEq, Repr

namespace Page

/-- The note on a variable and its value. What follows a line end in the
value is indented like the text around the note. -/
def note (indent name : String) (value : Option OsString) : String :=
  let shown := ((value.map OsString.display).getD "").toList.flatMap fun c =>
    if c = '\n' then '\n' :: indent.toList else [c]
  "[env: " ++ name ++ "=" ++ String.ofList shown ++ "]"

/-- The indentation of texts beside the options. -/
def besideOptions : String := "                  "

/-- The indentation of texts below the options. -/
def belowOptions : String := "          "

/-- The lines about the flags where each option has one line. -/
def flagLines (env : Environment) : List String :=
  [ "  " ++ bold "-v" ++ ", " ++ bold "--verbose" ++ "   Enable debug logging on stderr "
      ++ note besideOptions "LOX_VERBOSE" env.verbose,
    "      " ++ bold "--no-color" ++ "  Disable color in log output "
      ++ note besideOptions "LOX_NO_COLOR" env.noColor ]

/-- The option for help, and the text beside it. -/
def helpLine (text : String) : String :=
  "  " ++ bold "-h" ++ ", " ++ bold "--help" ++ "      " ++ text

/-- The lines of a page, as they are shown on a terminal. -/
def lines (env : Environment) : Page → List String
  | overview =>
    [ "Scan Lox source files into tokens",
      "",
      "Usage: lox [OPTIONS] <COMMAND>",
      "",
      "Commands:",
      "  tokenize  Print one line per token, then `EOF  null`",
      "  help      Print this message or the help of the given subcommand(s)",
      "",
      "Options:" ]
    ++ flagLines env ++
    [ helpLine "Print help",
      "  " ++ bold "-V" ++ ", " ++ bold "--version" ++ "   Print version" ]
  | tokenize false =>
    [ "Print one line per token, then `EOF  null`",
      "",
      "Usage: lox tokenize [OPTIONS] <FILE>",
      "",
      "Arguments:",
      "  <FILE>  Source file to scan",
      "",
      "Options:" ]
    ++ flagLines env ++
    [ helpLine "Print help (see more with '--help')" ]
  | tokenize true =>
    [ "Print one line per token, then `EOF  null`",
      "",
      "Lexical errors go to stderr and make the process exit with 65.",
      "",
      "Usage: lox tokenize [OPTIONS] <FILE>",
      "",
      "Arguments:",
      "  <FILE>",
      "          Source file to scan",
      "",
      "Options:",
      "  " ++ bold "-v" ++ ", " ++ bold "--verbose",
      belowOptions ++ "Enable debug logging on stderr",
      belowOptions,
      belowOptions ++ note belowOptions "LOX_VERBOSE" env.verbose,
      "",
      "      " ++ bold "--no-color",
      belowOptions ++ "Disable color in log output",
      belowOptions,
      belowOptions ++ note belowOptions "LOX_NO_COLOR" env.noColor,
      "",
      "  " ++ bold "-h" ++ ", " ++ bold "--help",
      belowOptions ++ "Print help (see a summary with '-h')" ]
  | help =>
    [ "Print this message or the help of the given subcommand(s)",
      "",
      "Usage: lox help [COMMAND]...",
      "",
      "Arguments:",
      "  [COMMAND]...  Print help for the subcommand(s)" ]
  | version => [ "lox 0.1.0" ]

end Page

end LoxLexer.Command
