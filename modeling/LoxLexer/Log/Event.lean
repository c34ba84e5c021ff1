/-
What a run logs: events, and the one span in which some of them happen,
the scan of a text. Each has a level, a target and named fields, by which a
filter chooses among them. Which of them are written, and how, is up to the
library that keeps the log.
-/
import LoxLexer.Scan

namespace LoxLexer.Log

-- ============================================================== sites

/-- The level of a record, from the gravest to the most detailed. -/
inductive Level where
  | error | warn | info | debug | trace
deriving DecidableEq, Repr

/-- The place of a level, counted from 1. -/
def Level.rank : Level → Nat
  | .error => 1
  | .warn => 2
  | .info => 3
  | .debug => 4
  | .trace => 5

/-- What a filter can tell of an event or a span: the level, the part of
the program, the name if it is a span, and the names of the fields. -/
structure Site where
  level : Level
  target : String
  span : Option String
  fields : List String
deriving DecidableEq, Repr

/-- The part of the program that reads texts. -/
def scannerTarget : String := "lox_scanner::scanner"

/-- The scan of a text. Its one field is the size of the text in bytes. -/
def scanSite : Site where
  level := .debug
  target := scannerTarget
  span := some "scan"
  fields := ["bytes"]

-- ============================================================= events

/-- What happens during a run that is worth a record. While a text is being
scanned, its size in bytes goes with the event. -/
inductive Event where
  | tokenizing (path : String)
  | lexicalError (bytes : Nat) (d : Diagnostic)
  | scanFinished (bytes tokens errors lines : Nat)
  | done (tokens errors : Nat)
deriving DecidableEq, Repr

namespace Event

/-- Only the start of a run is told without being asked for details. -/
def level : Event → Level
  | tokenizing _ => .info
  | _ => .debug

/-- The part of the program that an event happens in. -/
def target : Event → String
  | tokenizing _ | done _ _ => "lox"
  | lexicalError _ _ | scanFinished _ _ _ _ => scannerTarget

/-- The size of the text being scanned, if the event happens during a scan. -/
def scanned? : Event → Option Nat
  | tokenizing _ | done _ _ => none
  | lexicalError bytes _ | scanFinished bytes _ _ _ => some bytes

def message : Event → String
  | tokenizing _ => "tokenizing"
  | lexicalError _ _ => "lexical error"
  | scanFinished _ _ _ _ => "scan finished"
  | done _ _ => "done"

/-- The names and values shown behind the message. -/
def fields : Event → List (String × String)
  | tokenizing path => [("path", path)]
  | lexicalError _ d => [("error", d.render)]
  | scanFinished _ tokens errors lines =>
    [("tokens", toString tokens), ("errors", toString errors), ("lines", toString lines)]
  | done tokens errors => [("tokens", toString tokens), ("errors", toString errors)]

/-- What a filter can tell of an event. The message is a field too. -/
def site (e : Event) : Site where
  level := e.level
  target := e.target
  span := none
  fields := "message" :: e.fields.map Prod.fst

end Event

end LoxLexer.Log
