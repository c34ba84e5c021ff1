/-
What the command takes from libraries: a reader of its arguments, and a log.
Neither is part of the program. Each is given here as the functions by which
the program reaches it, with the behaviour that is documented of them, so that
what is proved about the program holds with any library that keeps to its
documentation.

# The reader of arguments

It is told what to look for: the flags `-v` or `--verbose` and `--no-color`,
each on either side of the subcommand, a variable for each, and the subcommand
`tokenize` with a file. It answers with a request, or with the reason why
there is none (`Stop`), which can be of its own kind. The program prints this
as it is, and asks where it was printed to.

# The log

It reads filters, tells by them which events are written and whether they
show the span they happen in, and gives a record its form. What a filter is,
is up to the library (`Filter`).
-/
import LoxLexer.Text
import LoxLexer.Log.Event

namespace LoxLexer.Command

-- ======================================================== what is asked for

/-- The two flags of the command line. -/
inductive Flag where
  | verbose
  | noColor
deriving DecidableEq, Repr

/-- A flag as it is given in full. -/
def Flag.name : Flag → String
  | verbose => "--verbose"
  | noColor => "--no-color"

/-- The values of the variables that stand for the flags and for the filter of
the log, where they are set. -/
structure Environment where
  verbose : Option OsString
  noColor : Option OsString
  log : Option OsString
deriving DecidableEq, Repr

/-- The value of the variable that stands for a flag. -/
def Environment.ofFlag (env : Environment) : Flag → Option OsString
  | .verbose => env.verbose
  | .noColor => env.noColor

/-- What accepted arguments come to: a file to read, and whether the flags
are on. -/
structure Request where
  verbose : Bool
  noColor : Bool
  file : OsString
deriving DecidableEq, Repr

/-- Whether a flag is on in a request. -/
def Request.isOn (r : Request) : Flag → Bool
  | .verbose => r.verbose
  | .noColor => r.noColor

-- =================================================== the reader of arguments

/-- Why there is no request, as far as the program can tell: a page of help or
the version was asked for, or nothing was given at all, or there is something
to complain about in the arguments or in the variables of the flags. -/
inductive StopKind where
  | help
  | version
  | nothingGiven
  | complaint
deriving DecidableEq, Repr

/-- The two outputs of a process. -/
inductive Stream where
  | output
  | error
deriving DecidableEq, Repr

/-- A library that reads arguments, with what it says where it makes no
request of them: the text and the stream that it prints this text to. -/
structure ArgumentReader (Stop : Type) where
  parse : Environment → List OsString → Except Stop Request
  kind : Stop → StopKind
  text : Stop → String
  stream : Stop → Stream
  /-- Whether the text goes to the error output, as the library tells it. -/
  usesStderr : Stop → Bool

namespace ArgumentReader

variable {Stop : Type}

/-- What is documented of the texts. Help and the version are no errors, and
they alone are printed to the standard output. A page of help tells how the
command is used, the version names the command, and a complaint says that it
is one. -/
structure StopsAsDocumented (a : ArgumentReader Stop) : Prop where
  usesStderr (stop : Stop) :
    a.usesStderr stop = true ↔ a.kind stop ≠ .help ∧ a.kind stop ≠ .version
  stream (stop : Stop) : a.stream stop = if a.usesStderr stop then .error else .output
  usage (stop : Stop) (h : a.kind stop = .help ∨ a.kind stop = .nothingGiven) :
    "Usage:".toList <:+: (a.text stop).toList
  version (stop : Stop) (h : a.kind stop = .version) : "lox".toList <:+: (a.text stop).toList
  complaint (stop : Stop) (h : a.kind stop = .complaint) :
    "error:".toList <:+: (a.text stop).toList

end ArgumentReader

-- ================================================================ the flags

/-- Whether a word gives a flag. -/
def Flag.isSpelled (flag : Flag) (word : OsString) : Bool :=
  word == .ofString flag.name || (flag == .verbose && word == .ofString "-v")

/-- Whether some words give a flag. Behind a double dash there are file names
only. -/
def isGiven (words : List OsString) (flag : Flag) : Bool :=
  (words.takeWhile (· ≠ .ofString "--")).any flag.isSpelled

/-- Whether a flag is on: it is given, or its variable says so. -/
def isOn (env : Environment) (arguments : List OsString) (flag : Flag) : Bool :=
  isGiven arguments flag || env.ofFlag flag == some (.ofString "true")

/-- What is documented of the flags: where arguments are accepted, a flag is
on if it is given on either side of the subcommand or its variable has the
value `true`. -/
def ArgumentReader.FlagsAsDocumented {Stop : Type} (a : ArgumentReader Stop) : Prop :=
  ∀ {env : Environment} {arguments : List OsString} {r : Request},
    a.parse env arguments = .ok r → ∀ flag, r.isOn flag = isOn env arguments flag

-- ================================================================== the log

/-- A library that keeps the log. -/
structure LogLibrary (Filter : Type) where
  /-- The filter that the value of a variable asks for, if it can be read. -/
  ofVariable? : OsString → Option Filter
  /-- The filter that a text asks for; what cannot be read in it is left out. -/
  ofText : String → Filter
  /-- Whether a filter admits an event or a span, outside of any span or
  during the scan of so many bytes. -/
  admits : Filter → Option Nat → Log.Site → Bool
  /-- An event as it is written: in colour or not, with the scan it happens in
  if that is shown, and with a time stamp. -/
  render : Bool → Option Nat → Log.Event → String → String

namespace LogLibrary

variable {Filter : Type}

/-- Whether a filter enables the events of a target at a level. -/
def enables (l : LogLibrary Filter) (f : Filter) (target : String) (level : Log.Level) :
    Bool :=
  l.admits f none ⟨level, target, none, []⟩

/-- Whether a filter looks at nothing but targets and levels. -/
def LooksAtTargets (l : LogLibrary Filter) (f : Filter) : Prop :=
  ∀ scanned site, l.admits f scanned site = l.enables f site.target site.level

/-- What is documented of lists of items: a span, or a field of one, is asked
for inside of brackets, and without those an item is a level, for everything
or for a target. -/
structure ListsAsDocumented (l : LogLibrary Filter) : Prop where
  ofVariable {value : OsString} {f : Filter} (h : l.ofVariable? value = some f)
    (hvalue : '['.toUInt8 ∉ value.bytes) : l.LooksAtTargets f
  ofText {text : String} (h : '[' ∉ text.toList) : l.LooksAtTargets (l.ofText text)

end LogLibrary

-- ================================================================= together

/-- The libraries of the command. -/
structure Libraries (Stop Filter : Type) where
  arguments : ArgumentReader Stop
  log : LogLibrary Filter

end LoxLexer.Command
