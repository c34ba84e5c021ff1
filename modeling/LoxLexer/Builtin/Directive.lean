/-
The items of a filter. An item is a level for everything, or it names what
it is about and then, behind an equals sign, a level: the target it begins
with, and in brackets a span and in braces a field of it, with or without
the value that the field must have.

    info    lox=debug    lox_scanner[scan]=debug    [scan{bytes=12}]

A word that is no level stands for a target; where no level is given,
everything is logged. A level is written as its name, in letters of any case,
or as its place among the limits, counted from zero.
-/
import LoxLexer.Log.Event
import LoxLexer.Builtin.Unicode

namespace LoxLexer.Log

-- ============================================================= limits

/-- Up to which level records are logged. -/
inductive Limit where
  | off
  | upTo (level : Level)
deriving DecidableEq, Repr

namespace Limit

/-- Every limit, from the one that admits nothing. -/
def all : List Limit :=
  [off, upTo .error, upTo .warn, upTo .info, upTo .debug, upTo .trace]

/-- Whether records of a level are logged. -/
def admits : Limit → Level → Bool
  | off, _ => false
  | upTo limit, level => decide (level.rank ≤ limit.rank)

def name : Limit → String
  | off => "off"
  | upTo .error => "error"
  | upTo .warn => "warn"
  | upTo .info => "info"
  | upTo .debug => "debug"
  | upTo .trace => "trace"

/-- The number written as digits, with or without a plus sign. -/
def number? (text : List Char) : Option Nat :=
  let digits := match text with
    | '+' :: digits => digits
    | digits => digits
  if digits ≠ [] ∧ digits.all Char.isDigit then some (Nat.ofDigitChars 10 digits 0) else none

/-- A limit by its place or its name. -/
def ofText? (text : String) : Option Limit :=
  ((number? text.toList).bind fun place => all[place]?).or
    (all.find? fun limit => limit.name == text.toLower)

end Limit

-- ========================================================= directives

/-- A field that must be there, and the value it must have if one is given. -/
structure FieldTest where
  name : String
  value : Option String
deriving DecidableEq, Repr

/-- A limit for what begins with a target, lies in a span and has a field,
as far as these are given. -/
structure Directive where
  target : Option String
  span : Option String
  field : Option FieldTest
  limit : Limit
deriving DecidableEq, Repr

namespace Directive

/-- The limit for everything. -/
def general (limit : Limit) : Directive := ⟨none, none, none, limit⟩

/-- The limit for what begins with a target. -/
def forTarget (target : String) (limit : Limit) : Directive := ⟨some target, none, none, limit⟩

-- ============================================================ reading

/-- What an item can begin with. -/
def mayStart (c : Char) : Bool :=
  isAlphanumeric c || c == '-' || c == ':' || c == '_' || c == '['

/-- The limit behind an equals sign; where nothing stands, everything is
logged. -/
def limit? (text : List Char) : Option Limit :=
  if text = [] then some (.upTo .trace) else Limit.ofText? (String.ofList text)

/-- A field with a value behind an equals sign, or without one; what stands
behind a second equals sign is ignored. -/
def fieldTest (text : List Char) : FieldTest :=
  match text.splitOn '=' with
  | name :: value :: _ => ⟨String.ofList name, some (String.ofList value)⟩
  | _ => ⟨String.ofList text, none⟩

/-- Reads the span, and the field if there is one, that follow an opening
bracket, and gives what stands behind the closing one. -/
def spanPart? (text : List Char) : Option (Option String × Option FieldTest × List Char) :=
  let name := text.takeWhile fun c => c != ']' && c != '\x7b'
  match text.drop name.length with
  | ']' :: rest => some (some (String.ofList name), none, rest)
  | '\x7b' :: body =>
    let field := body.takeWhile (· != '\x7d')
    match body.drop field.length with
    | _ :: ']' :: rest =>
      if field = [] then none
      else
        let span := if name = [] then none else some (String.ofList name)
        some (span, some (fieldTest field), rest)
    | _ => none
  | _ => none

/-- An item taken apart: what stands before brackets and equals sign, what
the brackets hold if there are any, and what stands behind the sign. -/
structure Parts where
  start : List Char
  brackets : Option (Option String × Option FieldTest)
  level : Option (List Char)

/-- Takes an item apart that has no space around it. -/
def parts? (word : List Char) : Option Parts :=
  let start := word.takeWhile fun c => c != '=' && c != '['
  match word.drop start.length with
  | [] => some ⟨start, none, none⟩
  | '[' :: inside => do
    let (span, field, rest) ← spanPart? inside
    match rest with
    | [] => some ⟨start, some (span, field), none⟩
    | '=' :: level => some ⟨start, some (span, field), some level⟩
    | _ => none
  | _ :: level => some ⟨start, none, some level⟩

/-- The directive with these parts and a limit. -/
def ofParts (parts : Parts) (limit : Limit) : Directive :=
  let target := String.ofList parts.start
  match parts.brackets with
  | none => forTarget target limit
  | some (span, field) => ⟨if target = "" then none else some target, span, field, limit⟩

/-- Reads an item without a level: it may itself be one. -/
def ofName (item : List Char) (parts : Parts) : Directive :=
  match parts.brackets, Limit.ofText? (String.ofList item) with
  | some _, _ => ofParts parts (.upTo .trace)
  | none, some limit => general limit
  | none, none => forTarget (String.ofList item) (.upTo .trace)

/-- Reads an item. The space behind it belongs to its last part. With space
in front of it the places of all parts are counted wrongly: no level can be
read then, and without one the item is a name that nothing has. -/
def ofItem? (item : List Char) : Option Directive := do
  let word := item.dropWhile isSpace
  let space := (word.reverse.takeWhile isSpace).reverse
  let word := word.take (word.length - space.length)
  let isIndented := item.head?.any isSpace
  if !word.head?.any mayStart then none
  else
    let parts ← parts? word
    match parts.level with
    | some level =>
      if isIndented then none
      else (limit? (level ++ space)).map (ofParts parts)
    | none =>
      if isIndented then some (forTarget (String.ofList item) (.upTo .trace))
      else some (ofName item parts)

end Directive

end LoxLexer.Log
