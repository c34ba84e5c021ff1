/-
The command as a program. It is written once, for any libraries and for any
system that reads files and takes what is written (`program`); the executable
runs it on the real system, and `Libraries.run` in memory, where all that it
does can be seen.

A run has the arguments read. Without a request, what the reader has to say is
printed, and the exit code is 1 if that went to the error output. With one, the
log is set up, the file is read and scanned, and diagnostics and tokens are
written, in this order; a file that cannot be read is reported and makes the
exit code 1 too. The first record is written before the file is read, the last
one behind all else.
-/
import LoxLexer.Command.Libraries
import LoxLexer.File

namespace LoxLexer.Command

-- =============================================================== the system

/-- What a program can do: read what stands at a path, write a text to one of
its outputs, and write a record of the log, which gets the time at which it is
written. -/
structure System (m : Type → Type) where
  read : OsString → m Content
  write : Stream → String → m Unit
  record : (String → String) → m Unit

/-- The exit code for arguments that are not understood and files that
cannot be read. -/
def usageErrorCode : Nat := 1

/-- Texts with a line end behind each. -/
def unlines (lines : List String) : String := String.join (lines.map (· ++ "\n"))

theorem toList_unlines (lines : List String) :
    (unlines lines).toList = lines.flatMap fun line => line.toList ++ ['\n'] := by
  rw [unlines, String.toList_join, List.flatMap_map]
  congr 1
  funext line
  exact String.toList_append

-- ================================================================== logging

/-- A log that is set up: its filter, and whether it is in colour. -/
structure Logging (Filter : Type) where
  library : LogLibrary Filter
  filter : Filter
  coloured : Bool

namespace Logging

variable {Filter : Type}

/-- The log of a run. The variable for it decides, and where that is unset or
cannot be read, the flag. -/
def ofRequest (library : LogLibrary Filter) (env : Environment) (r : Request) :
    Logging Filter where
  library := library
  filter := (env.log.bind library.ofVariable?).getD
    (library.ofText (if r.verbose then "debug" else "warn"))
  coloured := !r.noColor

/-- The record of an event, if the filter admits it; the scan that it happens
in is shown if the filter admits that. -/
def record? (lg : Logging Filter) (e : Log.Event) : Option (String → String) :=
  if lg.library.admits lg.filter e.scanned? e.site then
    let scan := e.scanned?.filter fun _ => lg.library.admits lg.filter none Log.scanSite
    some (lg.library.render lg.coloured scan e)
  else none

variable {m : Type → Type} [Monad m]

/-- Writes the record of an event, if there is one. -/
def log (lg : Logging Filter) (sys : System m) (e : Log.Event) : m Unit :=
  match lg.record? e with
  | some record => sys.record record
  | none => pure ()

end Logging

-- ============================================================== the program

/-- What happens while a text of so many bytes is scanned: each diagnostic
as it is found, and the end, on the line of the last token. -/
def scanEvents (bytes : Nat) (s : Scan) : List Log.Event :=
  s.errors.map (.lexicalError bytes)
    ++ [.scanFinished bytes s.tokens.length s.errors.length
          ((s.tokens.getLast?.map Token.line).getD 1)]

section

variable {m : Type → Type} [Monad m] {Stop Filter : Type}

/-- Reads, scans and reports a file. The answer is the exit code, or what went
wrong, with the cause behind it. -/
def tokenize (sys : System m) (log : Log.Event → m Unit) (file : OsString) :
    m (Except String Nat) := do
  log (.tokenizing file.display)
  match (← sys.read file).text with
  | .error why =>
    return .error ("failed to read " ++ file.display ++ ": " ++ why.message)
  | .ok source =>
    let s := scan source
    forM (scanEvents source.utf8ByteSize s) log
    forM s.errors fun d => sys.write .error (d.render ++ "\n")
    sys.write .output (unlines (s.tokens.map Token.render))
    log (.done s.tokens.length s.errors.length)
    return .ok s.exitCode

/-- The program; its answer is the exit code. -/
def program (sys : System m) (p : Libraries Stop Filter) (env : Environment)
    (arguments : List OsString) : m Nat := do
  match p.arguments.parse env arguments with
  | .error stop =>
    sys.write (p.arguments.stream stop) (p.arguments.text stop)
    return if p.arguments.usesStderr stop then usageErrorCode else 0
  | .ok request =>
    let logging := Logging.ofRequest p.log env request
    match ← tokenize sys (logging.log sys) request.file with
    | .ok code => return code
    | .error message =>
      sys.write .error ("Error: " ++ message ++ "\n")
      return usageErrorCode

end

-- ========================================================= a run in memory

/-- Something written to the error output: a text, or a record of the log,
for any time stamp. -/
inductive Message where
  | text (text : String)
  | record (render : String → String)

/-- A message as it is written, with a time stamp for the log. -/
def Message.render (stamp : String) : Message → String
  | .text shown => shown
  | .record render => render stamp

/-- What a run has done: what was written to the two outputs, and the paths
that were read. -/
structure Trace where
  stdout : String
  stderr : List Message
  reads : List OsString

namespace Trace

/-- Nothing so far. -/
def empty : Trace := ⟨"", [], []⟩

/-- With a text written to a stream behind all else. -/
def write (t : Trace) (text : String) : Stream → Trace
  | .output => { t with stdout := t.stdout ++ text }
  | .error => { t with stderr := t.stderr ++ [.text text] }

/-- With more messages on the error output. -/
def report (t : Trace) (messages : List Message) : Trace :=
  { t with stderr := t.stderr ++ messages }

/-- With one more path read. -/
def read (t : Trace) (path : OsString) : Trace := { t with reads := t.reads ++ [path] }

end Trace

/-- The system that holds what stands at each path, and keeps what is done. -/
def System.inMemory (read : OsString → Content) : System (StateM Trace) where
  read path := do
    modify (·.read path)
    return read path
  write stream text := modify (·.write text stream)
  record render := modify (·.report [.record render])

/-- What a run has done, and the code it exits with. -/
structure Outcome extends Trace where
  exitCode : Nat

/-- The outcome of a run, where `read` gives what stands at a path. -/
def Libraries.run {Stop Filter : Type} (p : Libraries Stop Filter) (env : Environment)
    (arguments : List OsString) (read : OsString → Content) : Outcome :=
  let (code, trace) := (program (.inMemory read) p env arguments).run .empty
  { trace with exitCode := code }

end LoxLexer.Command
