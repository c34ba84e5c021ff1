/-
The libraries that the executable is built with, and its runs.

The libraries stand in for the ones that the command is written against, and
behave as those do on the words and lists they are given; a complaint is cut
to its first line. Nothing that is proved of the command rests on them: they
are one case of the libraries that it is proved for.

A run on texts alone is how a test states it: arguments and variables that are
the UTF-8 form of a text, and what stands at the paths that are. Nothing stands
at any other path.
-/
import LoxLexer.Builtin.Arguments
import LoxLexer.Builtin.Log
import LoxLexer.Command.Program

namespace LoxLexer.Command

-- ======================================================= the arguments

/-- Why there is no request, with the variables, which pages show. -/
structure BuiltinStop where
  env : Environment
  halt : Halt
deriving DecidableEq, Repr

namespace BuiltinStop

def kind (stop : BuiltinStop) : StopKind :=
  match stop.halt with
  | .page .version => .version
  | .page _ => .help
  | .reject _ => .complaint
  | .nothingGiven => .nothingGiven

/-- What is written. It holds words from outside, and stands there without
escape sequences. -/
def text (stop : BuiltinStop) : String :=
  match stop.halt with
  | .page page => plain (unlines (page.lines stop.env))
  | .reject complaint => plain complaint.message ++ "\n"
  | .nothingGiven => plain (unlines (Page.lines stop.env .overview))

/-- Pages are no errors. -/
def usesStderr (stop : BuiltinStop) : Bool :=
  match stop.halt with
  | .page _ => false
  | .reject _ | .nothingGiven => true

end BuiltinStop

def builtinArguments : ArgumentReader BuiltinStop where
  parse env arguments := (readArguments env arguments).mapError (⟨env, ·⟩)
  kind := BuiltinStop.kind
  text := BuiltinStop.text
  usesStderr := BuiltinStop.usesStderr
  stream stop := if stop.usesStderr then .error else .output

-- ============================================================= the log

def builtinLog : LogLibrary Log.Filter where
  ofVariable? value := value.text?.bind Log.Filter.ofText?
  ofText := Log.Filter.ofText
  admits := Log.Filter.admits
  render := Log.recordText

def builtin : Libraries BuiltinStop Log.Filter where
  arguments := builtinArguments
  log := builtinLog

-- ================================================================ runs

/-- The values of the variables as texts, where they are set. -/
structure Variables where
  verbose : Option String
  noColor : Option String
  log : Option String
deriving DecidableEq, Repr

/-- The variables as the system holds them. -/
def Variables.environment (v : Variables) : Environment where
  verbose := v.verbose.map .ofString
  noColor := v.noColor.map .ofString
  log := v.log.map .ofString

/-- What stands at a path, where `read` gives what stands at those that are
texts. -/
def atTexts (read : String → Content) (path : OsString) : Content :=
  (path.text?.map read).getD (.error .notFound)

/-- The outcome of a run with the libraries of the executable, where `read`
gives what stands at a path. -/
def run (v : Variables) (arguments : List String) (read : String → Content) : Outcome :=
  builtin.run v.environment (arguments.map .ofString) (atTexts read)

end LoxLexer.Command
