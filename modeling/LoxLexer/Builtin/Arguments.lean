/-
Reading the arguments, word by word from the left. What a word means is
settled before the next one is looked at, so of two faults, or a fault and
a call for help, the one further left decides. There is one exception: an
empty file name is complained of only at the next option that is known or
at the end, and anything else that is wrong in between goes first.

Before the subcommand the words are options and then its name. Behind
`tokenize` they are options and one file name in any order, and after a
double dash file names only. A double dash before the subcommand leaves no
place for one.

A word that is no text can be a file name, but no option and no subcommand.
-/
import LoxLexer.Builtin.Complaint

namespace LoxLexer.Command

-- ========================================================== the words

/-- Where a word stands with respect to the subcommand. -/
inductive Side where
  | before
  | behind
deriving DecidableEq, Repr

/-- What a word looks like. A single dash is an ordinary word. -/
inductive Shape where
  | plain
  | doubleDash
  | long (name : String) (value : Option String)
  | letters (letters : List Char)
  /-- A dash and more, but no text. -/
  | garbled
deriving DecidableEq, Repr

/-- The shape of a text; a long name ends at the first equals sign, and
what follows that is its value. -/
def Shape.ofText (text : List Char) : Shape :=
  match text with
  | ['-', '-'] => .doubleDash
  | '-' :: '-' :: body =>
    .long (String.ofList (body.takeWhile (· != '=')))
      (match body.dropWhile (· != '=') with
        | [] => none
        | _ :: value => some (String.ofList value))
  | '-' :: first :: more => .letters (first :: more)
  | _ => .plain

/-- The shape of a word. -/
def Shape.ofWord (word : OsString) : Shape :=
  match word.text? with
  | some text => .ofText text.toList
  | none => if word.bytes.head? = some '-'.toUInt8 then .garbled else .plain

/-- What an option asks for. -/
inductive Wish where
  | flag (flag : Flag)
  | help (full : Bool)
  | version
deriving DecidableEq, Repr

/-- The option with a long name; the version is known only before the
subcommand. -/
def Wish.ofName? (side : Side) (name : String) : Option Wish :=
  if name = "verbose" then some (.flag .verbose)
  else if name = "no-color" then some (.flag .noColor)
  else if name = "help" then some (.help true)
  else if name = "version" ∧ side = .before then some .version
  else none

/-- The option with a letter. -/
def Wish.ofLetter? (side : Side) (letter : Char) : Option Wish :=
  if letter = 'v' then some (.flag .verbose)
  else if letter = 'h' then some (.help false)
  else if letter = 'V' ∧ side = .before then some .version
  else none

-- ======================================================== the options

/-- What a side asks for so far: the flags given there, and the file name,
which can only stand behind the subcommand. -/
structure Given where
  flags : List Flag
  file : Option OsString
deriving DecidableEq, Repr

namespace Given

/-- Nothing given. -/
def nothing : Given := ⟨[], none⟩

/-- Whether the file name is there and empty. -/
def hasEmptyFile (given : Given) : Bool := given.file == some ⟨[]⟩

/-- The page that help on a side shows. -/
def helpPage (side : Side) (full : Bool) : Page :=
  match side with
  | .before => .overview
  | .behind => .tokenize full

/-- Grants a wish: a flag is noted, once on each side, and a page ends the
reading. -/
def grant (side : Side) (given : Given) (wish : Wish) : Except Halt Given :=
  if given.hasEmptyFile then .error (.reject .emptyFile)
  else
    match wish with
    | .flag flag =>
      if flag ∈ given.flags then .error (.reject (.repeatedFlag flag))
      else .ok { given with flags := given.flags ++ [flag] }
    | .help full => .error (.page (helpPage side full))
    | .version => .error (.page .version)

/-- Grants the wish of a long option, which takes no value. -/
def grantLong (side : Side) (given : Given) (name : String) (value : Option String) :
    Except Halt Given :=
  match Wish.ofName? side name, value with
  | none, _ => .error (.reject (.unexpectedArgument ("--" ++ name)))
  | some _, some value => .error (.reject (.unneededValue value ("--" ++ name)))
  | some wish, none => given.grant side wish

/-- Grants the wish of one letter. -/
def grantLetter (side : Side) (given : Given) (letter : Char) : Except Halt Given :=
  match Wish.ofLetter? side letter with
  | none => .error (.reject (.unexpectedArgument ("-" ++ letter.toString)))
  | some wish => given.grant side wish

/-- Takes a word as the file name, if there is none yet. -/
def addFile (given : Given) (word : OsString) : Except Halt Given :=
  match given.file with
  | none => .ok { given with file := some word }
  | some _ => .error (.reject (.unexpectedArgument word.display))

/-- The end of the words. -/
def close (given : Given) : Except Halt Given :=
  if given.hasEmptyFile then .error (.reject .emptyFile) else .ok given

end Given

-- ====================================================== the arguments

/-- What the arguments ask for: the flags before the subcommand, and what
stands behind `tokenize` if that is given. -/
structure Invocation where
  before : List Flag
  tokenize : Option Given
deriving DecidableEq, Repr

/-- Reads the words behind `tokenize`. -/
def readBehind (given : Given) : List OsString → Except Halt Given
  | [] => given.close
  | word :: rest =>
    match Shape.ofWord word with
    | .plain => do readBehind (← given.addFile word) rest
    | .doubleDash => do (← rest.foldlM Given.addFile given).close
    | .long name value => do readBehind (← given.grantLong .behind name value) rest
    | .letters letters => do
      readBehind (← letters.foldlM (Given.grantLetter .behind) given) rest
    | .garbled => .error (.reject (.unexpectedArgument word.display))

/-- The page that the words behind `help` ask for. -/
def helpHalt : List String → Halt
  | [] => .page .overview
  | ["tokenize"] => .page (.tokenize true)
  | ["help"] => .page .help
  | "tokenize" :: word :: _ | "help" :: word :: _ | word :: _ =>
    .reject (.unrecognizedSubcommand word)

/-- The complaint about a word behind a double dash before the subcommand. -/
def afterDoubleDash (word : String) : Complaint :=
  if word = "tokenize" ∨ word = "help" then .unexpectedArgument word
  else .unrecognizedSubcommand word

/-- Reads the words before the subcommand, and on from there. -/
def readBefore (given : Given) : List OsString → Except Halt Invocation
  | [] => .ok ⟨given.flags, none⟩
  | word :: rest =>
    if word = .ofString "tokenize" then do
      return ⟨given.flags, some (← readBehind .nothing rest)⟩
    else if word = .ofString "help" then .error (helpHalt (rest.map OsString.display))
    else
      match Shape.ofWord word with
      | .plain => .error (.reject (.unrecognizedSubcommand word.display))
      | .doubleDash =>
        match rest with
        | [] => .ok ⟨given.flags, none⟩
        | word :: _ => .error (.reject (afterDoubleDash word.display))
      | .long name value => do readBefore (← given.grantLong .before name value) rest
      | .letters letters => do
        readBefore (← letters.foldlM (Given.grantLetter .before) given) rest
      | .garbled => .error (.reject (.unexpectedArgument word.display))

-- ======================================================== the request

/-- Checks the variable of a flag: it must be unset or one of two words. -/
def Environment.checkFlag (env : Environment) (flag : Flag) : Except Halt Unit :=
  match env.ofFlag flag with
  | none => .ok ()
  | some value =>
    if value = ⟨[]⟩ then .error (.reject (.emptyVariable flag))
    else if value = .ofString "true" ∨ value = .ofString "false" then .ok ()
    else .error (.reject (.invalidVariable value.display flag))

/-- Checks the variables of the flags that are not given on a side. -/
def Environment.check (env : Environment) (given : List Flag) : Except Halt Unit :=
  ([.verbose, .noColor].filter (· ∉ given)).forM env.checkFlag

/-- Whether a flag is on, given those that stand in the arguments. -/
def Environment.turnsOn (env : Environment) (flags : List Flag) (flag : Flag) : Bool :=
  flag ∈ flags || env.ofFlag flag == some (.ofString "true")

/-- The request that an invocation makes. A variable counts where its flag is
not given: it is checked on each side of the subcommand without the flag,
first behind it, then before it. -/
def Invocation.request (env : Environment) (i : Invocation) : Except Halt Request :=
  match i.tokenize with
  | some given => do
    env.check given.flags
    match given.file with
    | none => .error (.reject .missingFile)
    | some file => do
      env.check i.before
      let on := env.turnsOn (i.before ++ given.flags)
      return ⟨on .verbose, on .noColor, file⟩
  | none => do
    env.check i.before
    if i.before = [] ∧ env.verbose = none ∧ env.noColor = none then .error .nothingGiven
    else .error (.reject .missingSubcommand)

/-- Reads all arguments. -/
def readArguments (env : Environment) (arguments : List OsString) : Except Halt Request := do
  (← readBefore .nothing arguments).request env

end LoxLexer.Command
